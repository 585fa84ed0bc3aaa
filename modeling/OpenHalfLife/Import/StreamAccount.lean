import OpenHalfLife.Import.Authority

/-! # The bytes of one stream

A stream owes the size its catalog entry had when it began. While it is
active the accepted chunks and the remainder add up to that size; once it has
ended nothing reaches the sink before the next stream begins.
-/

namespace OpenHalfLife.Protocol

set_option autoImplicit false

namespace Phase

def serving : Phase → Option RequestKind
  | active kind _ _ => some kind
  | cancelling kind _ _ _ => some kind
  | _ => none

def Serves (before after : Option RequestKind) : Letter → Prop
  | .parent (.request kind _) => before = none ∧ after = some kind
  | .parent .shutdown => before = none ∧ after = none
  | .worker (.result kind _) => before = some kind ∧ after = some kind
  | .worker (.complete _) => after = none
  | .worker (.cancelAck _) => after = none
  | _ => after = before

theorem next_serves {p p' : Phase} {letter : Letter} (h : p.next letter = some p') :
    Serves p.serving p'.serving letter := by
  cases letter with
  | parent frame =>
    change p.parent frame = some p' at h
    unfold parent at h
    split at h <;> (try split at h) <;> cases h <;> simp [Serves, serving]
  | worker frame =>
    change p.worker frame = some p' at h
    unfold worker at h
    split at h <;> (try split at h) <;> cases h <;> simp_all [Serves, serving]

end Phase

end OpenHalfLife.Protocol

namespace OpenHalfLife.Import

open Protocol Machine

set_option autoImplicit false

namespace ResultSession

/-- A session holds a stream or a candidate only while its validator serves the
request they came from. -/
def Serving (s : ResultSession) : Prop :=
  ∃ p, s.protocol.Tracks p ∧ (s.stream.isSome → p.serving = some .stream) ∧
    (s.candidate.isSome → p.serving = some .enumerate)

theorem Observed.serves {s u : ResultSession} {direction : Direction} {frame : FrameView} {p : Phase}
    (h : s.Observed direction frame u) (hTracks : s.protocol.Tracks p) :
    ∃ p' letter, letterOf direction frame.header = some letter ∧ u.protocol.Tracks p' ∧
      Phase.Serves p.serving p'.serving letter := by
  obtain ⟨v, hObserve, rfl⟩ := h
  obtain ⟨-, -, -, -, -, p', hNext, hTracks'⟩ := SessionValidator.observe_ok hTracks hObserve
  obtain ⟨letter, hLetter, hMove⟩ := Option.bind_eq_some_iff.mp hNext
  exact ⟨p', letter, hLetter, hTracks', Phase.next_serves hMove⟩

theorem new_serving {protocol : SessionValidator} {epoch : WorkerEpoch} {limits : ImportLimits}
    {start : ResultSession} (h : new protocol epoch limits = .ok start) : start.Serving := by
  unfold new at h
  split at h
  · cases h
  · rename_i hIdle
    cases h
    have hState : protocol.state = .idle := by
      by_contra hState
      exact hIdle (.inr hState)
    cases hLate : protocol.acceptLateCancel with
    | false => exact ⟨.idle _ none, ⟨hState, rfl, hLate⟩, by simp, by simp⟩
    | true => exact ⟨.idle _ (some _), ⟨hState, rfl, hLate, rfl⟩, by simp, by simp⟩

theorem Accepted.serving {s t : ResultSession} {operation : Operation} (hAccepted : s.Accepted operation t)
    (h : s.Serving) (hFailure : t.failure = none) : t.Serving := by
  obtain ⟨p, hTracks, hStream, hCandidate⟩ := h
  cases hAccepted with
  | beginEnumeration hFrame hObserved =>
    obtain ⟨p', letter, hLetter, hTracks', hServes⟩ := hObserved.serves hTracks
    simp only [letterOf, hFrame.messageType_eq, Option.some.injEq] at hLetter
    subst hLetter
    exact ⟨p', hTracks', by simp [retireAll], fun _ => hServes.2⟩
  | acceptEntryBatch hFrame hSome hTakes hObserved =>
    obtain ⟨p', letter, hLetter, hTracks', hServes⟩ := hObserved.serves hTracks
    simp only [letterOf, hFrame.messageType_eq, Option.some.injEq] at hLetter
    subst hLetter
    obtain ⟨v, -, rfl⟩ := hObserved
    refine ⟨p', hTracks', fun hIsSome => ?_, fun _ => hServes.2⟩
    cases hServes.1.symm.trans (hStream hIsSome)
  | completeEnumeration hFrame hSome hPromotes hObserved =>
    obtain ⟨p', letter, hLetter, hTracks', hServes⟩ := hObserved.serves hTracks
    obtain ⟨v, -, rfl⟩ := hObserved
    refine ⟨p', hTracks', fun hIsSome => ?_, by simp⟩
    cases (hStream hIsSome).symm.trans (hCandidate (by simp [hSome]))
  | beginStreamEntry hFrame hDecode hSize hObserved =>
    obtain ⟨p', letter, hLetter, hTracks', hServes⟩ := hObserved.serves hTracks
    simp only [letterOf, hFrame.messageType_eq, Option.some.injEq] at hLetter
    subst hLetter
    obtain ⟨v, -, rfl⟩ := hObserved
    refine ⟨p', hTracks', fun _ => hServes.2, fun hIsSome => ?_⟩
    cases hServes.1.symm.trans (hCandidate hIsSome)
  | acceptDataChunk hFrame hSome hLength hObserved =>
    obtain ⟨p', letter, hLetter, hTracks', hServes⟩ := hObserved.serves hTracks
    simp only [letterOf, hFrame.messageType_eq, Option.some.injEq] at hLetter
    subst hLetter
    obtain ⟨v, -, rfl⟩ := hObserved
    refine ⟨p', hTracks', fun _ => hServes.2, fun hIsSome => ?_⟩
    cases hServes.1.symm.trans (hCandidate hIsSome)
  | completeStream hFrame hSome hObserved =>
    obtain ⟨p', letter, hLetter, hTracks', hServes⟩ := hObserved.serves hTracks
    obtain ⟨v, -, rfl⟩ := hObserved
    refine ⟨p', hTracks', by simp, fun hIsSome => ?_⟩
    cases (hCandidate hIsSome).symm.trans (hStream (by simp [hSome]))
  | acceptReadRequest hFrame hObserved =>
    obtain ⟨p', letter, hLetter, hTracks', hServes⟩ := hObserved.serves hTracks
    simp only [letterOf, hFrame.messageType_eq, Option.some.injEq] at hLetter
    subst hLetter
    obtain ⟨v, -, rfl⟩ := hObserved
    exact ⟨p', hTracks', fun hIsSome => Eq.trans hServes (hStream hIsSome),
      fun hIsSome => Eq.trans hServes (hCandidate hIsSome)⟩
  | acceptReadReply hFrame hObserved =>
    obtain ⟨p', letter, hLetter, hTracks', hServes⟩ := hObserved.serves hTracks
    simp only [letterOf, hFrame.messageType_eq, Option.some.injEq] at hLetter
    subst hLetter
    obtain ⟨v, -, rfl⟩ := hObserved
    exact ⟨p', hTracks', fun hIsSome => Eq.trans hServes (hStream hIsSome),
      fun hIsSome => Eq.trans hServes (hCandidate hIsSome)⟩
  | acceptCancel hFrame hObserved =>
    obtain ⟨p', letter, hLetter, hTracks', hServes⟩ := hObserved.serves hTracks
    simp only [letterOf, hFrame.messageType_eq, Option.some.injEq] at hLetter
    subst hLetter
    obtain ⟨v, -, rfl⟩ := hObserved
    refine ⟨p', hTracks', fun hIsSome => Eq.trans hServes (hStream hIsSome), fun hIsSome => ?_⟩
    rw [Option.isSome_map] at hIsSome
    exact Eq.trans hServes (hCandidate hIsSome)
  | acceptCancelAck hFrame hObserved =>
    obtain ⟨p', letter, hLetter, hTracks', hServes⟩ := hObserved.serves hTracks
    exact ⟨p', hTracks', by simp [retireAll], by simp [retireAll]⟩
  | acceptShutdown hFrame hObserved =>
    obtain ⟨p', letter, hLetter, hTracks', hServes⟩ := hObserved.serves hTracks
    exact ⟨p', hTracks', by simp [retireAll], by simp [retireAll]⟩
  | invalidateSource hRetired =>
    obtain ⟨e, -, hFailed, -⟩ := hRetired.stop_eq
    cases hFailure.symm.trans hFailed
  | workerFailed hRetired =>
    obtain ⟨e, -, hFailed, -⟩ := hRetired.stop_eq
    cases hFailure.symm.trans hFailed

theorem Serving.stream_eq_none {s u : ResultSession} {frame : FrameView} (h : s.Serving)
    (hFrame : frame.Canonical .streamEntry) (hObserved : s.Observed .parentToWorker frame u) :
    s.stream = none := by
  obtain ⟨p, hTracks, hStream, -⟩ := h
  obtain ⟨p', letter, hLetter, -, hServes⟩ := hObserved.serves hTracks
  simp only [letterOf, hFrame.messageType_eq, Option.some.injEq] at hLetter
  subst hLetter
  by_contra hNone
  cases hServes.1.symm.trans (hStream (Option.isSome_iff_ne_none.mpr hNone))

end ResultSession

namespace Event

def beginsStream (event : Event) : Bool :=
  match event.operation, event.result with
  | .beginStreamEntry _ _, .ok _ => true
  | _, _ => false

def completesStream (event : Event) : Bool :=
  match event.operation, event.result with
  | .completeStream _, .ok _ => true
  | _, _ => false

def delivered (event : Event) : List (List UInt8) :=
  match event.result with
  | .ok _ => event.operation.handed
  | .error _ => []

end Event

def delivered (trace : List Event) : List (List UInt8) := trace.flatMap Event.delivered

/-- The account of a stream of `size` bytes since it began with `opened` chunks in
the sink: still active, or ended for good. -/
inductive StreamAccount {κ : Type} (size : Nat) (opened : List (List UInt8)) (trace : List Event)
    (h : Host κ) : Prop
  | active (stream : Stream) (hStream : h.1.stream = some stream)
      (hChunks : h.2.chunks = opened ++ delivered trace)
      (hBalance : (delivered trace).flatten.length + stream.remainingBytes = size)
      (hOpen : ∀ event ∈ trace, event.completesStream = false)
  | ended (handed : List (List UInt8)) (hStream : h.1.stream = none)
      (hChunks : h.2.chunks = opened ++ handed) (hLength : handed.flatten.length ≤ size)
      (hComplete : ∀ event ∈ trace, event.completesStream →
        handed = delivered trace ∧ handed.flatten.length = size)

theorem delivered_snoc (trace : List Event) (event : Event) :
    delivered (trace ++ [event]) = delivered trace ++ event.delivered := by
  simp [delivered]

section Account

variable {κ : Type} {size : Nat} {opened : List (List UInt8)} {trace : List Event} {h h' : Host κ}
  {event : Event}

theorem not_completes_snoc (hOpen : ∀ e ∈ trace, e.completesStream = false)
    (hEvent : event.completesStream = false) : ∀ e ∈ trace ++ [event], e.completesStream = false := by
  intro e he
  rcases List.mem_append.mp he with he | he
  · exact hOpen e he
  · rwa [List.mem_singleton.mp he]

theorem StreamAccount.carry (hAccount : StreamAccount size opened trace h)
    (hStream : h'.1.stream = h.1.stream) (hChunks : h'.2.chunks = h.2.chunks)
    (hDelivered : event.delivered = []) (hEvent : event.completesStream = false) :
    StreamAccount size opened (trace ++ [event]) h' := by
  have hSame : delivered (trace ++ [event]) = delivered trace := by
    rw [delivered_snoc, hDelivered, List.append_nil]
  cases hAccount with
  | active stream hActive hOpened hBalance hOpen =>
    refine .active stream (hStream.trans hActive) ?_ ?_ (not_completes_snoc hOpen hEvent)
    · rw [hChunks, hSame, hOpened]
    · rw [hSame, hBalance]
  | ended handed hNone hHanded hLength hComplete =>
    refine .ended handed (hStream.trans hNone) (hChunks.trans hHanded) hLength ?_
    intro e he hCompletes
    rw [hSame]
    rcases List.mem_append.mp he with he | he
    · exact hComplete e he hCompletes
    · rw [List.mem_singleton.mp he, hEvent] at hCompletes
      cases hCompletes

/-- An event that ends the stream without completing it; a refused chunk still
fits into the remainder. -/
theorem StreamAccount.close (hAccount : StreamAccount size opened trace h)
    {refused : List (List UInt8)} (hStream : h'.1.stream = none)
    (hChunks : h'.2.chunks = h.2.chunks ++ refused) (hRefused : h.1.Refused event.operation refused)
    (hDelivered : event.delivered = []) (hEvent : event.completesStream = false) :
    StreamAccount size opened (trace ++ [event]) h' := by
  have hSame : delivered (trace ++ [event]) = delivered trace := by
    rw [delivered_snoc, hDelivered, List.append_nil]
  cases hAccount with
  | active stream hActive hOpened hBalance hOpen =>
    refine .ended (delivered trace ++ refused) hStream ?_ ?_ ?_
    · rw [hChunks, hOpened, List.append_assoc]
    · rw [List.flatten_append, List.length_append]
      rcases hRefused with rfl | ⟨frame, stream', -, hStream', hLength, rfl⟩
      · simp only [List.flatten_nil, List.length_nil]
        omega
      · cases hActive.symm.trans hStream'
        simp only [List.flatten_singleton]
        omega
    · intro e he hCompletes
      rw [not_completes_snoc hOpen hEvent e he] at hCompletes
      cases hCompletes
  | ended handed hNone hHanded hLength hComplete =>
    have hNothing : refused = [] := by
      rcases hRefused with hNothing | ⟨frame, stream', -, hStream', -⟩
      · exact hNothing
      · cases hNone.symm.trans hStream'
    rw [hNothing, List.append_nil] at hChunks
    exact (StreamAccount.ended (κ := κ) handed hNone hHanded hLength hComplete).carry
      (hStream.trans hNone.symm) hChunks hDelivered hEvent

theorem StreamAccount.accepted (hAccount : StreamAccount size opened trace h) {operation : Operation}
    {live : Option CatalogGeneration} (hAccepted : h.1.Accepted operation h'.1)
    (hChunks : h'.2.chunks = h.2.chunks ++ operation.handed)
    (hBegins : Event.beginsStream ⟨operation, .ok (), live⟩ = false) :
    StreamAccount size opened (trace ++ [⟨operation, .ok (), live⟩]) h' := by
  obtain ⟨t, sink⟩ := h'
  cases hAccepted with
  | beginEnumeration hFrame hObserved => exact hAccount.close rfl hChunks (.inl rfl) rfl rfl
  | acceptEntryBatch hFrame hSome hTakes hObserved =>
    obtain ⟨v, -, rfl⟩ := hObserved
    exact hAccount.carry rfl (hChunks.trans (List.append_nil _)) rfl rfl
  | completeEnumeration hFrame hSome hPromotes hObserved =>
    obtain ⟨v, -, rfl⟩ := hObserved
    exact hAccount.carry rfl (hChunks.trans (List.append_nil _)) rfl rfl
  | beginStreamEntry hFrame hDecode hSize hObserved => cases hBegins
  | @acceptDataChunk frame stream u hFrame hStream hLength hObserved =>
    cases hAccount with
    | active stream' hActive hOpened hBalance hOpen =>
      cases hStream.symm.trans hActive
      have hMore : delivered (trace ++ [⟨.acceptDataChunk frame, .ok (), live⟩]) =
          delivered trace ++ [frame.payload] := delivered_snoc _ _
      refine .active _ rfl ?_ ?_ (not_completes_snoc hOpen rfl)
      · rw [hMore, ← List.append_assoc, ← hOpened]
        exact hChunks
      · rw [hMore, List.flatten_append, List.length_append, List.flatten_singleton]
        dsimp only
        omega
    | ended handed hNone hHanded hLength hComplete => cases hStream.symm.trans hNone
  | @completeStream frame u hFrame hStream hObserved =>
    cases hAccount with
    | active stream' hActive hOpened hBalance hOpen =>
      cases hStream.symm.trans hActive
      have hSame : delivered (trace ++ [⟨.completeStream frame, .ok (), live⟩]) = delivered trace :=
        (delivered_snoc _ _).trans (List.append_nil _)
      refine .ended (delivered trace) rfl ?_ (by omega) ?_
      · exact hChunks.trans (by rw [hOpened]; exact List.append_nil _)
      · intro e he hCompletes
        exact ⟨hSame.symm, by omega⟩
    | ended handed hNone hHanded hLength hComplete => cases hStream.symm.trans hNone
  | acceptReadRequest hFrame hObserved =>
    obtain ⟨v, -, rfl⟩ := hObserved
    exact hAccount.carry rfl (hChunks.trans (List.append_nil _)) rfl rfl
  | acceptReadReply hFrame hObserved =>
    obtain ⟨v, -, rfl⟩ := hObserved
    exact hAccount.carry rfl (hChunks.trans (List.append_nil _)) rfl rfl
  | acceptCancel hFrame hObserved =>
    obtain ⟨v, -, rfl⟩ := hObserved
    exact hAccount.carry rfl (hChunks.trans (List.append_nil _)) rfl rfl
  | acceptCancelAck hFrame hObserved => exact hAccount.close rfl hChunks (.inl rfl) rfl rfl
  | acceptShutdown hFrame hObserved => exact hAccount.close rfl hChunks (.inl rfl) rfl rfl
  | invalidateSource hRetired => exact hAccount.close hRetired.stream hChunks (.inl rfl) rfl rfl
  | workerFailed hRetired => exact hAccount.close hRetired.stream hChunks (.inl rfl) rfl rfl

end Account

section Runs

variable {κ : Type} [ByteSink κ] {epoch : WorkerEpoch} {limits : ImportLimits}

theorem run_serving {protocol : SessionValidator} {start : ResultSession}
    (hNew : ResultSession.new protocol epoch limits = .ok start) (sink : LoggedSink κ)
    (operations : List Operation) (hFailure : (run operations (start, sink)).2.1.failure = none) :
    (run operations (start, sink)).2.1.Serving := by
  have hStep (trace : List Event) (h : Host κ) (operation : Operation)
      (hInv : Recorded epoch limits trace h.1 ∧ (h.1.failure = none → h.1.Serving)) :
      Recorded epoch limits (trace ++ [(step operation h).1]) (step operation h).2.1 ∧
        ((step operation h).2.1.failure = none → (step operation h).2.1.Serving) := by
    refine ⟨step_recorded operation hInv.1, ?_⟩
    cases hFailure : h.1.failure with
    | some e =>
      rw [step_of_failure hFailure]
      exact hInv.2
    | none =>
      rcases step_cases hFailure hInv.1.accounts operation with
        ⟨t, sink, hStep, hAccepted, -⟩ | ⟨e, t, sink, refused, hStep, hRetired, -⟩
      · rw [hStep]
        exact hAccepted.serving (hInv.2 hFailure)
      · rw [hStep]
        intro hNone
        obtain ⟨e', -, hFailed, -⟩ := hRetired.stop_eq
        cases hNone.symm.trans hFailed
  have hRun := run_invariant
    (fun trace h => Recorded epoch limits trace h.1 ∧ (h.1.failure = none → h.1.Serving))
    hStep operations [] (start, sink) ⟨Recorded.start hNew, fun _ => ResultSession.new_serving hNew⟩
  exact hRun.2 hFailure

theorem step_account {size : Nat} {opened : List (List UInt8)} {past trace : List Event} {h : Host κ}
    (operation : Operation) (hRecorded : Recorded epoch limits past h.1)
    (hAccount : StreamAccount size opened trace h)
    (hBegins : (step operation h).1.beginsStream = false) :
    StreamAccount size opened (trace ++ [(step operation h).1]) (step operation h).2 := by
  cases hFailure : h.1.failure with
  | some e =>
    rw [step_of_failure hFailure]
    refine hAccount.carry rfl rfl ?_ ?_
    · cases operation <;> rfl
    · cases operation <;> rfl
  | none =>
    rcases step_cases hFailure hRecorded.accounts operation with
      ⟨t, sink, hStep, hAccepted, hChunks⟩ | ⟨e, t, sink, refused, hStep, hRetired, hChunks, hRefused⟩
    · rw [hStep] at hBegins ⊢
      exact hAccount.accepted hAccepted hChunks hBegins
    · rw [hStep]
      refine hAccount.close hRetired.stream hChunks hRefused rfl ?_
      cases operation <;> rfl

theorem run_account {size : Nat} {opened : List (List UInt8)} {past : List Event} {h : Host κ}
    (hRecorded : Recorded epoch limits past h.1) (hAccount : StreamAccount size opened [] h)
    (operations : List Operation)
    (hBegins : ∀ event ∈ (run operations h).1, event.beginsStream = false) :
    StreamAccount size opened (run operations h).1 (run operations h).2 := by
  have hStep (trace : List Event) (h : Host κ) (operation : Operation)
      (hInv : (∃ past, Recorded epoch limits past h.1) ∧
        ((∀ event ∈ trace, event.beginsStream = false) → StreamAccount size opened trace h)) :
      (∃ past, Recorded epoch limits past (step operation h).2.1) ∧
        ((∀ event ∈ trace ++ [(step operation h).1], event.beginsStream = false) →
          StreamAccount size opened (trace ++ [(step operation h).1]) (step operation h).2) := by
    obtain ⟨⟨past, hRecorded⟩, hAccount⟩ := hInv
    refine ⟨⟨_, step_recorded operation hRecorded⟩, fun hBegins => ?_⟩
    simp only [List.mem_append, List.mem_singleton] at hBegins
    exact step_account operation hRecorded (hAccount fun e he => hBegins e (.inl he))
      (hBegins _ (.inr rfl))
  have hRun := run_invariant
    (fun trace h => (∃ past, Recorded epoch limits past h.1) ∧
      ((∀ event ∈ trace, event.beginsStream = false) → StreamAccount size opened trace h))
    hStep operations [] h ⟨⟨past, hRecorded⟩, fun _ => hAccount⟩
  exact hRun.2 hBegins

/-- From a stream's begin to the next one, the sink receives the accepted chunks in
frame order and never more than the size the entry had at the begin. -/
theorem stream_accounting {protocol : SessionValidator} {start : ResultSession}
    (hNew : ResultSession.new protocol epoch limits = .ok start) (sink : LoggedSink κ)
    (before : List Operation) (frame : FrameView) (g : CatalogGeneration) {begun : Event} {h : Host κ}
    (hBegin : step (.beginStreamEntry frame g) (run before (start, sink)).2 = (begun, h))
    (hOk : begun.result = .ok ()) (during : List Operation)
    (hOnly : ∀ event ∈ (run during h).1, event.beginsStream = false) :
    (run before (start, sink)).2.1.stream = none ∧
    ∃ message catalog entry handed, decodeStreamEntryPayload frame = .ok message ∧
      (run before (start, sink)).2.1.catalog = some (g, catalog) ∧
      catalog.find message.sourceToken = some entry ∧
      (run during h).2.2.chunks = (run before (start, sink)).2.2.chunks ++ handed ∧
      handed.flatten.length ≤ entry.sizeBytes.toNat ∧
      ((run during h).2.1.stream.isSome → handed = delivered (run during h).1 ∧
        handed.flatten.length + (run during h).2.1.remainingStreamBytes = entry.sizeBytes.toNat) ∧
      ((∃ event ∈ (run during h).1, event.completesStream) → handed = delivered (run during h).1 ∧
        handed.flatten.length = entry.sizeBytes.toNat) := by
  have hRecorded := run_recorded hNew sink before
  have hServing := run_serving hNew sink before
  generalize (run before (start, sink)).2 = first at hRecorded hServing hBegin ⊢
  cases hFailure : first.1.failure with
  | some e =>
    rw [step_of_failure hFailure] at hBegin
    cases hBegin
    cases hOk
  | none =>
    have hNext := step_recorded (.beginStreamEntry frame g) hRecorded
    rw [hBegin] at hNext
    rcases step_cases hFailure hRecorded.accounts (.beginStreamEntry frame g) with
      ⟨t, sink', hStep, hAccepted, hChunks⟩ | ⟨e, t, sink', refused, hStep, -⟩
    · rw [hStep] at hBegin
      cases hBegin
      cases hAccepted with
      | @beginStreamEntry _ _ message size u hFrame hDecode hSize hObserved =>
        obtain ⟨catalog, entry, hCatalog, hFind, rfl⟩ := boundSize_eq_some hSize
        refine ⟨(hServing hFailure).stream_eq_none hFrame hObserved, message, catalog, entry, ?_⟩
        have hStart : StreamAccount entry.sizeBytes.toNat first.2.chunks []
            ({ u with stream := some ⟨entry.sizeBytes.toNat⟩ }, sink') :=
          .active _ rfl hChunks (Nat.zero_add _) (by simp)
        cases run_account hNext hStart during hOnly with
        | active stream hStream hHanded hBalance hOpen =>
          refine ⟨_, hDecode, hCatalog, hFind, hHanded, by omega, fun _ => ⟨rfl, ?_⟩, ?_⟩
          · simpa [ResultSession.remainingStreamBytes, hStream] using hBalance
          · rintro ⟨event, hEvent, hCompletes⟩
            rw [hOpen event hEvent] at hCompletes
            cases hCompletes
        | ended handed hNone hHanded hLength hComplete =>
          refine ⟨handed, hDecode, hCatalog, hFind, hHanded, hLength, ?_, ?_⟩
          · intro hIsSome
            simp [hNone] at hIsSome
          · rintro ⟨event, hEvent, hCompletes⟩
            exact hComplete event hEvent hCompletes
    · rw [hStep] at hBegin
      cases hBegin
      cases hOk

end Runs

def sampleStreaming : Event × Host Unit :=
  step (.beginStreamEntry sampleRequest sampleGeneration) (run sampleEnumeration (sampleSession, sampleSink)).2

def sampleDelivery : List Operation :=
  [.acceptDataChunk (sampleFrame .dataChunk 2 [1, 2]), .acceptDataChunk (sampleFrame .dataChunk 2 [3, 4, 5]),
    .completeStream (sampleFrame .complete 2 [0, 0, 4, 0])]

theorem stream_accounting_sample : ∃ handed : List (List UInt8),
    (run sampleDelivery sampleStreaming.2).2.2.chunks = handed ∧
    handed = delivered (run sampleDelivery sampleStreaming.2).1 ∧ handed.flatten.length = 5 := by
  have hBegin : step (.beginStreamEntry sampleRequest sampleGeneration)
      (run sampleEnumeration (sampleSession, sampleSink)).2 = (sampleStreaming.1, sampleStreaming.2) := rfl
  obtain ⟨-, message, catalog, entry, handed, -, -, -, hChunks, -, -, hComplete⟩ :=
    stream_accounting sampleSession_new sampleSink sampleEnumeration sampleRequest sampleGeneration
      hBegin (by decide +kernel) sampleDelivery (by decide +kernel)
  have hNothing : (run sampleEnumeration (sampleSession, sampleSink)).2.2.chunks = [] := by decide +kernel
  have hDone : ∃ event ∈ (run sampleDelivery sampleStreaming.2).1, event.completesStream := by
    decide +kernel
  have hFive : (delivered (run sampleDelivery sampleStreaming.2).1).flatten.length = 5 := by decide +kernel
  rw [hNothing, List.nil_append] at hChunks
  exact ⟨handed, hChunks, (hComplete hDone).1, by rw [(hComplete hDone).1, hFive]⟩

/-- A retired session owes nothing: after a lost worker the accepted bytes and the
reported remainder no longer add up to the entry's size. -/
theorem sampleStreaming_unbalanced : sampleStreaming.1.result = .ok () ∧
    (run sampleEnumeration (sampleSession, sampleSink)).2.1.boundSize sampleGeneration 7 = some 5 ∧
    ¬ ∀ during, (∀ event ∈ (run during sampleStreaming.2).1, event.beginsStream = false) →
      (delivered (run during sampleStreaming.2).1).flatten.length +
        (run during sampleStreaming.2).2.1.remainingStreamBytes = 5 := by
  refine ⟨by decide +kernel, by decide +kernel, ?_⟩
  intro hBalanced
  have hLost := hBalanced [.workerFailed] (by decide +kernel)
  revert hLost
  decide +kernel

end OpenHalfLife.Import
