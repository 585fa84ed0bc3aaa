import OpenHalfLife.Import.Planner
import OpenHalfLife.Import.ResultSession
import OpenHalfLife.Protocol.Messages
import OpenHalfLife.Protocol.Phase

/-! # Runs of a result session

A run performs any operations in any order and keeps going after errors. One
lemma for each operation says what it does to a session without a failure;
the history then summarises the enumerations of a run.
-/

namespace OpenHalfLife.Import

open Protocol Machine

set_option autoImplicit false

inductive Operation
  | beginEnumeration (frame : FrameView)
  | acceptEntryBatch (frame : FrameView)
  | completeEnumeration (frame : FrameView)
  | beginStreamEntry (frame : FrameView) (expectedGeneration : CatalogGeneration)
  | acceptDataChunk (frame : FrameView)
  | completeStream (frame : FrameView)
  | acceptReadRequest (frame : FrameView) (policy : SourceReadPolicy) (expectedSequence : UInt32)
  | acceptReadReply (frame : FrameView) (expectedSequence requestedLength : UInt32)
  | acceptCancel (frame : FrameView)
  | acceptCancelAck (frame : FrameView)
  | acceptShutdown (frame : FrameView)
  | invalidateSource
  | workerFailed

structure LoggedSink (κ : Type) where
  inner : κ
  chunks : List (List UInt8)

instance {κ : Type} [ByteSink κ] : ByteSink (LoggedSink κ) where
  write bytes sink := ((ByteSink.write bytes sink.inner).1,
    ⟨(ByteSink.write bytes sink.inner).2, sink.chunks ++ [bytes]⟩)

abbrev Host (κ : Type) := ResultSession × LoggedSink κ

structure Event where
  operation : Operation
  result : Except (Stop ResultSessionError) Unit
  /-- The generation of the catalog that is live after the operation. -/
  live : Option CatalogGeneration

section Run

variable {κ : Type} [ByteSink κ]

open ResultSession in
def perform : Operation → Machine (Stop ResultSessionError) (Host κ) Unit
  | .beginEnumeration frame => onSession (beginEnumeration frame)
  | .acceptEntryBatch frame => onSession (acceptEntryBatch frame)
  | .completeEnumeration frame => onSession (completeEnumeration frame)
  | .beginStreamEntry frame generation => onSession (beginStreamEntry frame generation)
  | .acceptDataChunk frame => acceptDataChunk frame
  | .completeStream frame => onSession (completeStream frame)
  | .acceptReadRequest frame policy sequence => do
    let _ ← onSession (acceptReadRequest frame policy sequence)
    return ()
  | .acceptReadReply frame sequence length => onSession (acceptReadReply frame sequence length)
  | .acceptCancel frame => onSession (acceptCancel frame)
  | .acceptCancelAck frame => onSession (acceptCancelAck frame)
  | .acceptShutdown frame => onSession (acceptShutdown frame)
  | .invalidateSource => onSession (modify invalidateSource)
  | .workerFailed => onSession (modify workerFailed)

def step (operation : Operation) (h : Host κ) : Event × Host κ :=
  match (perform operation).exec h with
  | (result, h') => (⟨operation, result, h'.1.catalogView.map Prod.fst⟩, h')

def run : List Operation → Host κ → List Event × Host κ
  | [], h => ([], h)
  | operation :: operations, h =>
    let (event, h') := step operation h
    let (events, h'') := run operations h'
    (event :: events, h'')

theorem run_invariant (Inv : List Event → Host κ → Prop)
    (hStep : ∀ trace h operation, Inv trace h →
      Inv (trace ++ [(step operation h).1]) (step operation h).2)
    (operations : List Operation) (trace : List Event) (h : Host κ) (hInv : Inv trace h) :
    Inv (trace ++ (run operations h).1) (run operations h).2 := by
  induction operations generalizing trace h with
  | nil => simpa [run] using hInv
  | cons operation operations ih => simpa [run] using ih _ _ (hStep trace h operation hInv)

end Run

/-- The errors a session can really end with: the planner's quota checks repeat
what the batches already passed. -/
def ResultSessionError.Expected : ResultSessionError → Prop
  | .layout error => error = .invalidPath ∨ error = .pathConflict
  | .resultValidation => False
  | _ => True

namespace ResultSession

/-- An operation failed on `s`, and the session keeps its error. -/
structure Retired (s : ResultSession) (stop : Stop ResultSessionError) (t : ResultSession) : Prop where
  stop_eq : ∃ e, stop = .error e ∧ t.failure = some e ∧ e.Expected
  candidate : t.candidate = none
  catalog : t.catalog = none
  stream : t.stream = none
  epoch : t.epoch = s.epoch
  limits : t.limits = s.limits
  counter : t.enumerationCounter = s.enumerationCounter

theorem Retired.expected {s t : ResultSession} {stop : Stop ResultSessionError} (h : s.Retired stop t)
    (e : ResultSessionError) (he : t.failure = some e) : e.Expected := by
  obtain ⟨e', -, hFailed, hExpected⟩ := h.stop_eq
  rwa [Option.some.inj (he.symm.trans hFailed)]

def Observed (s : ResultSession) (direction : Direction) (frame : FrameView) (t : ResultSession) : Prop :=
  ∃ v, s.protocol.observe direction frame.header = (.ok (), v) ∧ t = { s with protocol := v }

variable {s : ResultSession} {α : Type}

theorem retire_of_none (h : s.failure = none) {e : ResultSessionError} (hExpected : e.Expected) :
    s.Retired (.error e) (s.retire e) := by
  have hRetire : s.retire e = { s.retireAll with failure := some e } := by simp [retire, h]
  rw [hRetire]
  exact ⟨⟨e, rfl, rfl, hExpected⟩, rfl, rfl, rfl, rfl, rfl, rfl⟩

theorem fail_ensures {Q : α → ResultSession → Prop} {e : ResultSessionError}
    (h : s.failure = none) (hExpected : e.Expected) : Ensures (fail e) s Q s.Retired := by
  have hRetire : s.retire e = { s.retireAll with failure := some e } := by simp [retire, h]
  rw [fail, ensures_ofFun]
  constructor
  · intro a t hOk
    cases hOk
  · intro stop t hError
    cases hError
    have hRetired := retire_of_none h hExpected
    rw [hRetire] at hRetired ⊢
    exact hRetired

theorem guard_ensures {Q : Unit → ResultSession → Prop} {E : Stop ResultSessionError → ResultSession → Prop}
    (h : s.failure = none) : Ensures guard s Q E ↔ Q () s := by
  simp only [guard, ensures_ofFun, h]
  constructor
  · intro hGuard
    exact hGuard.1 () s rfl
  · intro hQ
    exact ⟨fun _ _ hOk => by cases hOk; exact hQ, fun _ _ hError => by cases hError⟩

theorem decode_ensures {Q : α → ResultSession → Prop} {r : Except ProtocolError α}
    (h : s.failure = none) (hOk : ∀ message, r = .ok message → Q message s) :
    Ensures (decode r) s Q s.Retired := by
  cases r with
  | ok message => exact hOk message rfl
  | error e => exact fail_ensures h trivial

theorem observe_ensures (h : s.failure = none) (direction : Direction) (frame : FrameView) :
    Ensures (observe direction frame) s (fun _ t => s.Observed direction frame t) s.Retired := by
  rcases hObserve : s.protocol.observe direction frame.header with ⟨e | _, v⟩
  · have hFail : Ensures (fail (.protocol e) : Method Unit) { s with protocol := v }
        (fun _ t => s.Observed direction frame t) (Retired { s with protocol := v }) :=
      fail_ensures h trivial
    rw [observe, ensures_ofFun]
    simp only [hObserve]
    constructor
    · intro a t hOk
      exact absurd hOk (by simp [fail, exec_ofFun])
    · intro stop t hError
      obtain ⟨hStop, hCandidate, hCatalog, hStream, hEpoch, hLimits, hCounter⟩ := hFail.of_error hError
      exact ⟨hStop, hCandidate, hCatalog, hStream, hEpoch, hLimits, hCounter⟩
  · rw [observe, ensures_ofFun]
    simp only [hObserve]
    constructor
    · intro a t hOk
      cases hOk
      exact ⟨v, hObserve, rfl⟩
    · intro stop t hError
      cases hError

theorem Observed.retired {direction : Direction} {frame : FrameView} {t u : ResultSession}
    {stop : Stop ResultSessionError} (h : s.Observed direction frame t) (hRetired : t.Retired stop u) :
    s.Retired stop u := by
  obtain ⟨v, -, rfl⟩ := h
  obtain ⟨hStop, hCandidate, hCatalog, hStream, hEpoch, hLimits, hCounter⟩ := hRetired
  exact ⟨hStop, hCandidate, hCatalog, hStream, hEpoch, hLimits, hCounter⟩

theorem Observed.failure {direction : Direction} {frame : FrameView} {t : ResultSession}
    (h : s.Observed direction frame t) : t.failure = s.failure := by
  obtain ⟨v, -, rfl⟩ := h
  rfl

variable (hFailure : s.failure = none) (frame : FrameView)

include hFailure

theorem beginEnumeration_ensures :
    Ensures (beginEnumeration frame) s
      (fun _ t => frame.Canonical .enumerate ∧ ∃ u, s.Observed .parentToWorker frame u ∧
        t = { u.retireAll with
          enumerationCounter := s.enumerationCounter + 1
          candidate := some ⟨⟨s.epoch, s.enumerationCounter + 1, Nat.succ_pos _⟩, true,
            s.limits.entries, s.limits.pathBytes, s.limits.totalBytes, none, []⟩ }) s.Retired := by
  rw [beginEnumeration, ensures_bind, guard_ensures hFailure, ensures_bind]
  refine decode_ensures hFailure fun _ hDecode => ?_
  rw [ensures_bind, ensures_get, ensures_ite]
  refine ⟨fun _ => fail_ensures hFailure trivial, fun _ => ?_⟩
  rw [ensures_bind]
  refine (observe_ensures hFailure _ _).mono ?_ fun _ _ h => h
  intro _ u hObserved
  refine ⟨decodeEmpty_ok hDecode, u, hObserved, ?_⟩
  obtain ⟨v, -, rfl⟩ := hObserved
  rfl

theorem beginStreamEntry_ensures (generation : CatalogGeneration) :
    Ensures (beginStreamEntry frame generation) s
      (fun _ t => frame.Canonical .streamEntry ∧ ∃ message size, decodeStreamEntryPayload frame = .ok message ∧
        s.boundSize generation message.sourceToken = some size ∧
        ∃ u, s.Observed .parentToWorker frame u ∧ t = { u with stream := some ⟨size⟩ }) s.Retired := by
  rw [beginStreamEntry, ensures_bind, guard_ensures hFailure, ensures_bind]
  refine decode_ensures hFailure fun message hDecode => ?_
  rw [ensures_bind, ensures_get]
  split
  · exact fail_ensures hFailure trivial
  · rename_i size hSize
    rw [ensures_bind]
    refine (observe_ensures hFailure _ _).mono ?_ fun _ _ h => h
    intro _ u hObserved
    exact ⟨decodeStreamEntryPayload_ok hDecode, message, size, hDecode, hSize, u, hObserved, rfl⟩

theorem completeStream_ensures :
    Ensures (completeStream frame) s
      (fun _ t => frame.Canonical .complete ∧ s.stream = some ⟨0⟩ ∧
        ∃ u, s.Observed .workerToParent frame u ∧ t = { u with stream := none }) s.Retired := by
  rw [completeStream, ensures_bind, guard_ensures hFailure, ensures_bind]
  refine decode_ensures hFailure fun _ hDecode => ?_
  rw [ensures_bind, ensures_get]
  split
  · exact fail_ensures hFailure trivial
  · rename_i stream hStream
    rw [ensures_ite]
    refine ⟨fun _ => fail_ensures hFailure trivial, fun hRemaining => ?_⟩
    rw [ensures_bind]
    refine (observe_ensures hFailure _ _).mono ?_ fun _ _ h => h
    intro _ u hObserved
    refine ⟨decodeCompletePayload_ok hDecode, ?_, u, hObserved, rfl⟩
    rw [hStream, ← not_not.mp hRemaining]

theorem acceptReadRequest_ensures (policy : SourceReadPolicy) (sequence : UInt32) :
    Ensures (acceptReadRequest frame policy sequence) s
      (fun _ t => frame.Canonical .readRequest ∧ s.Observed .workerToParent frame t) s.Retired := by
  rw [acceptReadRequest, ensures_bind, guard_ensures hFailure, ensures_bind, ensures_get, ensures_bind]
  refine decode_ensures hFailure fun _ hDecode => ?_
  rw [ensures_bind]
  exact (observe_ensures hFailure _ _).mono
    (fun _ u hObserved => ⟨decodeReadRequestPayload_ok hDecode, hObserved⟩) fun _ _ h => h

theorem acceptReadReply_ensures (sequence length : UInt32) :
    Ensures (acceptReadReply frame sequence length) s
      (fun _ t => frame.Canonical .readReply ∧ s.Observed .parentToWorker frame t) s.Retired := by
  rw [acceptReadReply, ensures_bind, guard_ensures hFailure, ensures_bind]
  refine decode_ensures hFailure fun _ hDecode => ?_
  rw [ensures_bind]
  refine (observe_ensures hFailure _ _).mono ?_ fun _ _ h => h
  intro _ u hObserved
  have hFailed {e : ResultSessionError} (hExpected : e.Expected) : Ensures (fail e : Method Unit) u
      (fun _ t => frame.Canonical .readReply ∧ s.Observed .parentToWorker frame t) s.Retired :=
    (fail_ensures (hObserved.failure.trans hFailure) hExpected).mono (fun _ _ h => h)
      fun _ _ h => hObserved.retired h
  split
  · exact hFailed trivial
  · exact hFailed trivial
  · exact ⟨decodeReadReplyPayload_ok hDecode, hObserved⟩

theorem acceptCancel_ensures :
    Ensures (acceptCancel frame) s
      (fun _ t => frame.Canonical .cancel ∧ ∃ u, s.Observed .parentToWorker frame u ∧
        t = { u with
          catalog := none
          candidate := u.candidate.map fun c => { c with promotable := false, entries := [] } })
      s.Retired := by
  rw [acceptCancel, ensures_bind, guard_ensures hFailure, ensures_bind]
  refine decode_ensures hFailure fun _ hDecode => ?_
  rw [ensures_bind]
  exact (observe_ensures hFailure _ _).mono
    (fun _ u hObserved => ⟨decodeEmpty_ok hDecode, u, hObserved, rfl⟩) fun _ _ h => h

theorem acceptCancelAck_ensures :
    Ensures (acceptCancelAck frame) s
      (fun _ t => frame.Canonical .cancelAck ∧ ∃ u, s.Observed .workerToParent frame u ∧ t = u.retireAll)
      s.Retired := by
  rw [acceptCancelAck, ensures_bind, guard_ensures hFailure, ensures_bind]
  refine decode_ensures hFailure fun _ hDecode => ?_
  rw [ensures_bind]
  exact (observe_ensures hFailure _ _).mono
    (fun _ u hObserved => ⟨decodeEmpty_ok hDecode, u, hObserved, rfl⟩) fun _ _ h => h

theorem acceptShutdown_ensures :
    Ensures (acceptShutdown frame) s
      (fun _ t => frame.Canonical .shutdown ∧ ∃ u, s.Observed .parentToWorker frame u ∧ t = u.retireAll)
      s.Retired := by
  rw [acceptShutdown, ensures_bind, guard_ensures hFailure, ensures_bind]
  refine decode_ensures hFailure fun _ hDecode => ?_
  rw [ensures_bind]
  exact (observe_ensures hFailure _ _).mono
    (fun _ u hObserved => ⟨decodeEmpty_ok hDecode, u, hObserved, rfl⟩) fun _ _ h => h

end ResultSession

end OpenHalfLife.Import
