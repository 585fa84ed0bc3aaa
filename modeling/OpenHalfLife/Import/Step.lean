import OpenHalfLife.Import.Accounting

/-! # One step of a run

An operation on a session without a failure is either accepted, with the one
effect listed here, or the session retires. A retired session stays as it is.
-/

namespace OpenHalfLife.Import

open Protocol Machine

set_option autoImplicit false

namespace Operation

/-- What a call returns on a session that retained `error`; the trusted
notifications return nothing. -/
def retained (error : ResultSessionError) : Operation → Except (Stop ResultSessionError) Unit
  | invalidateSource => .ok ()
  | workerFailed => .ok ()
  | _ => .error (.error error)

def handed : Operation → List (List UInt8)
  | acceptDataChunk frame => [frame.payload]
  | _ => []

end Operation

namespace ResultSession

inductive Accepted (s : ResultSession) : Operation → ResultSession → Prop
  | beginEnumeration {frame : FrameView} {u : ResultSession} (hFrame : frame.Canonical .enumerate)
      (hObserved : s.Observed .parentToWorker frame u) :
      Accepted s (.beginEnumeration frame) { u.retireAll with
        enumerationCounter := s.enumerationCounter + 1
        candidate := some ⟨⟨s.epoch, s.enumerationCounter + 1, Nat.succ_pos _⟩, true,
          s.limits.entries, s.limits.pathBytes, s.limits.totalBytes, none, []⟩ }
  | acceptEntryBatch {frame : FrameView} {c : Candidate} {u : ResultSession}
      (hFrame : frame.Canonical .entryBatch) (hCandidate : s.candidate = some c)
      (hTakes : c.Takes s.limits (batchEntries frame))
      (hObserved : s.Observed .workerToParent frame u) :
      Accepted s (.acceptEntryBatch frame) { u with candidate := some (c.spent (batchEntries frame)) }
  | completeEnumeration {frame : FrameView} {c : Candidate}
      {promoted : Option (CatalogGeneration × Catalog)} {u : ResultSession}
      (hFrame : frame.Canonical .complete) (hCandidate : s.candidate = some c)
      (hPromotes : Promotes c promoted) (hObserved : s.Observed .workerToParent frame u) :
      Accepted s (.completeEnumeration frame)
        { u with catalog := promoted.or s.catalog, candidate := none }
  | beginStreamEntry {frame : FrameView} {generation : CatalogGeneration} {message : StreamEntry}
      {size : Nat} {u : ResultSession} (hFrame : frame.Canonical .streamEntry)
      (hDecode : decodeStreamEntryPayload frame = .ok message)
      (hSize : s.boundSize generation message.sourceToken = some size)
      (hObserved : s.Observed .parentToWorker frame u) :
      Accepted s (.beginStreamEntry frame generation) { u with stream := some ⟨size⟩ }
  | acceptDataChunk {frame : FrameView} {stream : Stream} {u : ResultSession}
      (hFrame : frame.Canonical .dataChunk) (hStream : s.stream = some stream)
      (hLength : frame.payload.length ≤ stream.remainingBytes)
      (hObserved : s.Observed .workerToParent frame u) :
      Accepted s (.acceptDataChunk frame)
        { u with stream := some ⟨stream.remainingBytes - frame.payload.length⟩ }
  | completeStream {frame : FrameView} {u : ResultSession} (hFrame : frame.Canonical .complete)
      (hStream : s.stream = some ⟨0⟩) (hObserved : s.Observed .workerToParent frame u) :
      Accepted s (.completeStream frame) { u with stream := none }
  | acceptReadRequest {frame : FrameView} {policy : SourceReadPolicy} {sequence : UInt32}
      {u : ResultSession} (hFrame : frame.Canonical .readRequest)
      (hObserved : s.Observed .workerToParent frame u) :
      Accepted s (.acceptReadRequest frame policy sequence) u
  | acceptReadReply {frame : FrameView} {sequence length : UInt32} {u : ResultSession}
      (hFrame : frame.Canonical .readReply) (hObserved : s.Observed .parentToWorker frame u) :
      Accepted s (.acceptReadReply frame sequence length) u
  | acceptCancel {frame : FrameView} {u : ResultSession} (hFrame : frame.Canonical .cancel)
      (hObserved : s.Observed .parentToWorker frame u) :
      Accepted s (.acceptCancel frame) { u with
        catalog := none
        candidate := u.candidate.map fun c => { c with promotable := false, entries := [] } }
  | acceptCancelAck {frame : FrameView} {u : ResultSession} (hFrame : frame.Canonical .cancelAck)
      (hObserved : s.Observed .workerToParent frame u) :
      Accepted s (.acceptCancelAck frame) u.retireAll
  | acceptShutdown {frame : FrameView} {u : ResultSession} (hFrame : frame.Canonical .shutdown)
      (hObserved : s.Observed .parentToWorker frame u) :
      Accepted s (.acceptShutdown frame) u.retireAll
  | invalidateSource {t : ResultSession} (hRetired : s.Retired (.error .sourceInvalidated) t) :
      Accepted s .invalidateSource t
  | workerFailed {t : ResultSession} (hRetired : s.Retired (.error .workerFailure) t) :
      Accepted s .workerFailed t

/-- What a failed operation may still have handed over: one chunk the sink refused. -/
def Refused (s : ResultSession) (operation : Operation) (chunks : List (List UInt8)) : Prop :=
  chunks = [] ∨ ∃ frame stream, operation = .acceptDataChunk frame ∧ s.stream = some stream ∧
    frame.payload.length ≤ stream.remainingBytes ∧ chunks = [frame.payload]

end ResultSession

section Perform

variable {κ : Type}

open ResultSession

theorem onSession_ensures {α : Type} {m : Method α} {h : Host κ} {Q : α → Host κ → Prop}
    {E : Stop ResultSessionError → Host κ → Prop} :
    Ensures (onSession m) h Q E ↔
      Ensures m h.1 (fun a t => Q a (t, h.2)) fun stop t => E stop (t, h.2) := ensures_zoom

theorem guard_of_failure {α : Type} {s : ResultSession} {e : ResultSessionError}
    (hFailure : s.failure = some e) (rest : Unit → Method α) :
    (ResultSession.guard >>= rest).exec s = (.error (.error e), s) := by
  rw [exec_bind, ResultSession.guard, exec_ofFun]
  simp only [hFailure]

theorem onSession_of_guard {α : Type} {h : Host κ} {e : ResultSessionError}
    (hFailure : h.1.failure = some e) (rest : Unit → Method α) :
    (onSession (ResultSession.guard >>= rest)).exec h = (.error (.error e), h) := by
  rw [onSession, zoom, exec_ofFun, guard_of_failure hFailure rest]
  rfl

variable [ByteSink κ]

theorem acceptDataChunk_ensures {h : Host κ} (hFailure : h.1.failure = none) (frame : FrameView) :
    Ensures (acceptDataChunk frame) h
      (fun _ h' => h.1.Accepted (.acceptDataChunk frame) h'.1 ∧
        h'.2.chunks = h.2.chunks ++ [frame.payload])
      (fun stop h' => h.1.Retired stop h'.1 ∧
        ∃ refused, h'.2.chunks = h.2.chunks ++ refused ∧
          h.1.Refused (.acceptDataChunk frame) refused) := by
  obtain ⟨s, sink⟩ := h
  have hKept {stop : Stop ResultSessionError} {t : ResultSession} (hRetired : s.Retired stop t) :
      s.Retired stop t ∧ ∃ refused, sink.chunks = sink.chunks ++ refused ∧
        s.Refused (.acceptDataChunk frame) refused :=
    ⟨hRetired, [], (List.append_nil _).symm, .inl rfl⟩
  rw [acceptDataChunk, ensures_bind, onSession_ensures, guard_ensures hFailure, ensures_bind, ensures_get]
  dsimp only
  split
  · rw [onSession_ensures]
    exact (fail_ensures (e := .invalidState) (Q := fun _ _ => False) hFailure trivial).mono
      (fun _ _ h => h.elim) fun _ _ h => hKept h
  · rename_i stream hStream
    rw [ensures_bind, onSession_ensures]
    refine (decode_ensures hFailure (Q := fun message t =>
      t = s ∧ decodeDataChunkPayload frame stream.remainingBytes = .ok message)
      fun message hDecode => ⟨rfl, hDecode⟩).mono ?_ fun _ _ h => hKept h
    rintro message t ⟨rfl, hDecode⟩
    obtain ⟨hFrame, hData, -, hLength⟩ := decodeDataChunkPayload_ok hDecode
    rw [hData] at hLength
    rw [ensures_bind, onSession_ensures]
    refine (observe_ensures hFailure _ _).mono ?_ fun _ _ h => hKept h
    intro _ u hObserved
    have hSame : u.stream = some stream := by
      obtain ⟨v, -, rfl⟩ := hObserved
      exact hStream
    rw [ensures_bind, writeSink, ensures_ofFun]
    refine ⟨?_, fun _ _ hError => by cases hError⟩
    rintro accepted _ hWrite
    cases hWrite
    rw [ensures_ite]
    refine ⟨fun _ => ?_, fun _ => ?_⟩
    · rw [ensures_bind, ensures_get]
      simp only [hSame, hData]
      rw [ensures_bind, ensures_subOrPanic hLength, onSession_ensures, ensures_modify]
      exact ⟨.acceptDataChunk hFrame hStream hLength hObserved, rfl⟩
    · -- The sink saw the chunk and refused it.
      rw [onSession_ensures]
      refine (fail_ensures (e := .downstreamFailure) (Q := fun _ _ => False)
        (hObserved.failure.trans hFailure) trivial).mono (fun _ _ h => h.elim) ?_
      intro stop w hRetired
      refine ⟨hObserved.retired hRetired, [frame.payload], ?_, .inr ⟨frame, stream, rfl, hStream, hLength, rfl⟩⟩
      rw [← hData]
      rfl

theorem perform_ensures {h : Host κ} (hFailure : h.1.failure = none)
    (hAccounts : ∀ c, h.1.candidate = some c → ∃ accepted, c.Accounts h.1.limits accepted)
    (operation : Operation) :
    Ensures (perform operation) h
      (fun _ h' => h.1.Accepted operation h'.1 ∧ h'.2.chunks = h.2.chunks ++ operation.handed)
      (fun stop h' => h.1.Retired stop h'.1 ∧
        ∃ refused, h'.2.chunks = h.2.chunks ++ refused ∧ h.1.Refused operation refused) := by
  have hSession {α : Type} {m : Method α} {Q : α → ResultSession → Prop} (hHanded : operation.handed = [])
      (hm : Ensures m h.1 Q h.1.Retired) (hQ : ∀ a t, Q a t → h.1.Accepted operation t) :
      Ensures (onSession m) h
        (fun _ h' => h.1.Accepted operation h'.1 ∧ h'.2.chunks = h.2.chunks ++ operation.handed)
        (fun stop h' => h.1.Retired stop h'.1 ∧
          ∃ refused, h'.2.chunks = h.2.chunks ++ refused ∧ h.1.Refused operation refused) :=
    onSession_ensures.mpr (hm.mono (fun a t ht => ⟨hQ a t ht, by simp [hHanded]⟩)
      fun _ _ ht => ⟨ht, [], (List.append_nil _).symm, .inl rfl⟩)
  cases operation with
  | beginEnumeration frame =>
    refine hSession rfl (beginEnumeration_ensures hFailure frame) ?_
    rintro _ _ ⟨hFrame, u, hObserved, rfl⟩
    exact .beginEnumeration hFrame hObserved
  | acceptEntryBatch frame =>
    refine hSession rfl (acceptEntryBatch_ensures hFailure frame) ?_
    rintro _ _ ⟨hFrame, c, u, hCandidate, hTakes, hObserved, rfl⟩
    exact .acceptEntryBatch hFrame hCandidate hTakes hObserved
  | completeEnumeration frame =>
    refine hSession rfl (completeEnumeration_ensures hFailure frame hAccounts) ?_
    rintro _ _ ⟨hFrame, c, promoted, u, hCandidate, hPromotes, hObserved, rfl⟩
    exact .completeEnumeration hFrame hCandidate hPromotes hObserved
  | beginStreamEntry frame generation =>
    refine hSession rfl (beginStreamEntry_ensures hFailure frame generation) ?_
    rintro _ _ ⟨hFrame, message, size, hDecode, hSize, u, hObserved, rfl⟩
    exact .beginStreamEntry hFrame hDecode hSize hObserved
  | acceptDataChunk frame => exact acceptDataChunk_ensures hFailure frame
  | completeStream frame =>
    refine hSession rfl (completeStream_ensures hFailure frame) ?_
    rintro _ _ ⟨hFrame, hStream, u, hObserved, rfl⟩
    exact .completeStream hFrame hStream hObserved
  | acceptReadRequest frame policy sequence =>
    rw [perform, ensures_bind]
    refine hSession rfl (acceptReadRequest_ensures hFailure frame policy sequence) ?_
    rintro _ _ ⟨hFrame, hObserved⟩
    exact .acceptReadRequest hFrame hObserved
  | acceptReadReply frame sequence length =>
    refine hSession rfl (acceptReadReply_ensures hFailure frame sequence length) ?_
    rintro _ _ ⟨hFrame, hObserved⟩
    exact .acceptReadReply hFrame hObserved
  | acceptCancel frame =>
    refine hSession rfl (acceptCancel_ensures hFailure frame) ?_
    rintro _ _ ⟨hFrame, u, hObserved, rfl⟩
    exact .acceptCancel hFrame hObserved
  | acceptCancelAck frame =>
    refine hSession rfl (acceptCancelAck_ensures hFailure frame) ?_
    rintro _ _ ⟨hFrame, u, hObserved, rfl⟩
    exact .acceptCancelAck hFrame hObserved
  | acceptShutdown frame =>
    refine hSession rfl (acceptShutdown_ensures hFailure frame) ?_
    rintro _ _ ⟨hFrame, u, hObserved, rfl⟩
    exact .acceptShutdown hFrame hObserved
  | invalidateSource =>
    rw [perform, onSession_ensures, ensures_modify]
    exact ⟨.invalidateSource (retire_of_none hFailure trivial), (List.append_nil _).symm⟩
  | workerFailed =>
    rw [perform, onSession_ensures, ensures_modify]
    exact ⟨.workerFailed (retire_of_none hFailure trivial), (List.append_nil _).symm⟩

theorem step_cases {h : Host κ} (hFailure : h.1.failure = none)
    (hAccounts : ∀ c, h.1.candidate = some c → ∃ accepted, c.Accounts h.1.limits accepted)
    (operation : Operation) :
    (∃ t sink, step operation h = (⟨operation, .ok (), t.catalogView.map Prod.fst⟩, (t, sink)) ∧
      h.1.Accepted operation t ∧ sink.chunks = h.2.chunks ++ operation.handed) ∨
    (∃ e t sink refused, step operation h = (⟨operation, .error (.error e), none⟩, (t, sink)) ∧
      h.1.Retired (.error e) t ∧ sink.chunks = h.2.chunks ++ refused ∧ h.1.Refused operation refused) := by
  have hPerform := perform_ensures hFailure hAccounts operation
  unfold Ensures at hPerform
  unfold step
  rcases hExec : (perform operation).exec h with ⟨stop | _, t, sink⟩ <;> rw [hExec] at hPerform
  · obtain ⟨hRetired, refused, hChunks, hRefused⟩ := hPerform
    obtain ⟨e, rfl, hFailed, -⟩ := hRetired.stop_eq
    refine .inr ⟨e, t, sink, refused, ?_, hRetired, hChunks, hRefused⟩
    have hFailed : t.failure = some e := hFailed
    simp [catalogView, isTerminal, hFailed]
  · exact .inl ⟨t, sink, rfl, hPerform.1, hPerform.2⟩

theorem step_of_failure {h : Host κ} {e : ResultSessionError} (hFailure : h.1.failure = some e)
    (operation : Operation) : step operation h = (⟨operation, operation.retained e, none⟩, h) := by
  have hRetire (error : ResultSessionError) : h.1.retire error = h.1 := by
    simp only [retire, hFailure]
  have hPerform : (perform operation).exec h = (operation.retained e, h) := by
    cases operation with
    | acceptDataChunk frame =>
      have hGuard := onSession_of_guard hFailure pure
      rw [bind_pure] at hGuard
      rw [perform, acceptDataChunk, exec_bind, hGuard]
      rfl
    | acceptReadRequest frame policy sequence =>
      rw [perform, exec_bind, acceptReadRequest, onSession_of_guard hFailure]
      rfl
    | invalidateSource => exact congrArg (fun t => (Except.ok (), (t, h.2))) (hRetire _)
    | workerFailed => exact congrArg (fun t => (Except.ok (), (t, h.2))) (hRetire _)
    | _ => exact onSession_of_guard hFailure _
  rw [step, hPerform]
  simp [catalogView, isTerminal, hFailure]

theorem run_of_failure {h : Host κ} {e : ResultSessionError} (hFailure : h.1.failure = some e)
    (operations : List Operation) :
    run operations h = (operations.map fun operation => ⟨operation, operation.retained e, none⟩, h) := by
  induction operations with
  | nil => rfl
  | cons operation operations ih => simp [run, step_of_failure hFailure, ih]

end Perform

end OpenHalfLife.Import
