import OpenHalfLife.Import.Step

/-! # Catalog authority and accounts over whole runs

A candidate stands for the latest enumeration of the run, with every entry its
batches brought since; a catalog stands for one that was also closed, with
nothing in between that takes authority away.
-/

namespace OpenHalfLife.Import

open Protocol Machine

set_option autoImplicit false

namespace Event

def begins (event : Event) : Bool :=
  match event.operation, event.result with
  | .beginEnumeration _, .ok _ => true
  | _, _ => false

def closes (event : Event) : Bool :=
  match event.operation, event.result with
  | .completeEnumeration _, .ok _ => true
  | _, _ => false

def keeps (event : Event) : Bool :=
  match event.operation, event.result with
  | _, .error _ => false
  | .beginEnumeration _, _ => false
  | .acceptCancel _, _ => false
  | .acceptCancelAck _, _ => false
  | .acceptShutdown _, _ => false
  | .invalidateSource, _ => false
  | .workerFailed, _ => false
  | _, _ => true

def entries (event : Event) : List EntryMetadata :=
  match event.operation, event.result with
  | .acceptEntryBatch frame, .ok _ => batchEntries frame
  | _, _ => []

def promoted (event : Event) : Option CatalogGeneration := if event.closes then event.live else none

end Event

def begun (trace : List Event) : Nat := trace.countP Event.begins

def enumerated (trace : List Event) : List EntryMetadata := trace.flatMap Event.entries

def promotions (trace : List Event) : List CatalogGeneration := trace.filterMap Event.promoted

structure Latest (epoch : WorkerEpoch) (trace before during : List Event) (g : CatalogGeneration) :
    Prop where
  trace_eq : ∃ opening : Event, opening.begins ∧ trace = before ++ opening :: during
  only : ∀ event ∈ during, event.begins = false
  epoch_eq : g.epoch = epoch
  enumeration_eq : g.enumeration = begun before + 1

namespace Latest

variable {epoch : WorkerEpoch} {trace before during : List Event} {g : CatalogGeneration}

theorem snoc (h : Latest epoch trace before during g) {event : Event} (hEvent : event.begins = false) :
    Latest epoch (trace ++ [event]) before (during ++ [event]) g := by
  obtain ⟨opening, hOpening, hTrace⟩ := h.trace_eq
  refine ⟨⟨opening, hOpening, by simp [hTrace]⟩, ?_, h.epoch_eq, h.enumeration_eq⟩
  intro e he
  rcases List.mem_append.mp he with he | he
  · exact h.only e he
  · rwa [List.mem_singleton.mp he]

theorem begun_eq (h : Latest epoch trace before during g) : begun trace = g.enumeration := by
  obtain ⟨opening, hOpening, hTrace⟩ := h.trace_eq
  have hDuring : during.countP Event.begins = 0 := by
    rw [List.countP_eq_zero]
    intro event hEvent
    simp [h.only event hEvent]
  rw [h.enumeration_eq, hTrace, begun, begun, List.countP_append, List.countP_cons, hDuring, hOpening]
  rfl

end Latest

/-- A closed enumeration that still holds authority, with the entries it brought. -/
structure Closed (epoch : WorkerEpoch) (trace : List Event) (g : CatalogGeneration)
    (accepted : List EntryMetadata) : Prop where
  split : ∃ before opening during closing after, trace = before ++ opening :: (during ++ closing :: after) ∧
    opening.begins ∧ closing.closes ∧ (∀ event ∈ during ++ after, event.keeps) ∧
    g.epoch = epoch ∧ g.enumeration = begun before + 1 ∧ accepted = enumerated during

theorem Event.begins_of_keeps {event : Event} (h : event.keeps) : event.begins = false := by
  obtain ⟨operation, result, live⟩ := event
  cases result with
  | error stop => cases operation <;> simp [keeps] at h
  | ok _ => cases operation <;> simp [keeps, begins] at h ⊢

theorem Closed.snoc {epoch : WorkerEpoch} {trace : List Event} {g : CatalogGeneration}
    {accepted : List EntryMetadata} (h : Closed epoch trace g accepted) {event : Event}
    (hEvent : event.keeps) : Closed epoch (trace ++ [event]) g accepted := by
  obtain ⟨before, opening, during, closing, after, hTrace, hOpening, hClosing, hKeeps, hEpoch,
    hEnumeration, hAccepted⟩ := h.split
  refine ⟨before, opening, during, closing, after ++ [event], by simp [hTrace], hOpening, hClosing, ?_,
    hEpoch, hEnumeration, hAccepted⟩
  intro e he
  rw [← List.append_assoc] at he
  rcases List.mem_append.mp he with he | he
  · exact hKeeps e he
  · rwa [List.mem_singleton.mp he]

structure Recorded (epoch : WorkerEpoch) (limits : ImportLimits) (trace : List Event) (s : ResultSession) :
    Prop where
  epoch_eq : s.epoch = epoch
  limits_eq : s.limits = limits
  counter_eq : s.enumerationCounter = begun trace
  failed : ∀ e, s.failure = some e →
    e.Expected ∧ s.candidate = none ∧ s.catalog = none ∧ s.stream = none
  candidate : ∀ c, s.candidate = some c → s.catalog = none ∧
    ∃ before during, Latest epoch trace before during c.generation ∧
      c.Accounts limits (enumerated during) ∧ (c.promotable → ∀ event ∈ during, event.keeps)
  catalog : ∀ g catalog, s.catalog = some (g, catalog) → ∃ accepted, Closed epoch trace g accepted ∧
    List.Forall₂ EntryMetadata.Plans accepted catalog.entries ∧
    catalog.totalBytes = totalBytesOf accepted
  results : ∀ event ∈ trace, ∀ stop, event.result = .error stop → ∃ e, stop = .error e ∧ e.Expected
  ascending : (promotions trace).Pairwise fun g g' => g.enumeration < g'.enumeration
  promoted_le : ∀ g ∈ promotions trace, g.enumeration ≤ begun trace
  promoted_lt : ∀ g ∈ promotions trace, s.candidate.isSome → g.enumeration < begun trace

theorem begun_snoc (trace : List Event) {event : Event} (h : event.begins = false) :
    begun (trace ++ [event]) = begun trace := by
  simp [begun, h]

theorem promotions_snoc (trace : List Event) {event : Event} (h : event.promoted = none) :
    promotions (trace ++ [event]) = promotions trace := by
  simp [promotions, h]

theorem enumerated_snoc (trace : List Event) (event : Event) :
    enumerated (trace ++ [event]) = enumerated trace ++ event.entries := by
  simp [enumerated]

namespace Recorded

variable {epoch : WorkerEpoch} {limits : ImportLimits} {trace : List Event} {s t : ResultSession}

theorem results_snoc (h : Recorded epoch limits trace s) {event : Event}
    (hEvent : ∀ stop, event.result = .error stop → ∃ e, stop = .error e ∧ e.Expected) :
    ∀ event' ∈ trace ++ [event], ∀ stop, event'.result = .error stop →
      ∃ e, stop = .error e ∧ e.Expected := by
  intro event' hMem
  rcases List.mem_append.mp hMem with hMem | hMem
  · exact h.results event' hMem
  · rwa [List.mem_singleton.mp hMem]

theorem emptied (h : Recorded epoch limits trace s) {event : Event} (hBegins : event.begins = false)
    (hPromoted : event.promoted = none)
    (hResult : ∀ stop, event.result = .error stop → ∃ e, stop = .error e ∧ e.Expected)
    (hEpoch : t.epoch = s.epoch) (hLimits : t.limits = s.limits)
    (hCounter : t.enumerationCounter = s.enumerationCounter) (hCandidate : t.candidate = none)
    (hCatalog : t.catalog = none) (hStream : t.stream = none)
    (hFailed : ∀ e, t.failure = some e → e.Expected) :
    Recorded epoch limits (trace ++ [event]) t where
  epoch_eq := hEpoch.trans h.epoch_eq
  limits_eq := hLimits.trans h.limits_eq
  counter_eq := by rw [hCounter, h.counter_eq, begun_snoc trace hBegins]
  failed e he := ⟨hFailed e he, hCandidate, hCatalog, hStream⟩
  candidate c hc := by rw [hCandidate] at hc; cases hc
  catalog g catalog hg := by rw [hCatalog] at hg; cases hg
  results := h.results_snoc hResult
  ascending := by rw [promotions_snoc trace hPromoted]; exact h.ascending
  promoted_le := by
    rw [promotions_snoc trace hPromoted, begun_snoc trace hBegins]
    exact h.promoted_le
  promoted_lt := by simp [hCandidate]

theorem kept (h : Recorded epoch limits trace s) {event : Event} (hOk : event.result = .ok ())
    (hKeeps : event.keeps) (hPromoted : event.promoted = none) (hEntries : event.entries = [])
    (hFailure : t.failure = none) (hEpoch : t.epoch = s.epoch) (hLimits : t.limits = s.limits)
    (hCounter : t.enumerationCounter = s.enumerationCounter) (hCandidate : t.candidate = s.candidate)
    (hCatalog : t.catalog = s.catalog) : Recorded epoch limits (trace ++ [event]) t where
  epoch_eq := hEpoch.trans h.epoch_eq
  limits_eq := hLimits.trans h.limits_eq
  counter_eq := by rw [hCounter, h.counter_eq, begun_snoc trace (Event.begins_of_keeps hKeeps)]
  failed e he := by rw [hFailure] at he; cases he
  candidate c hc := by
    obtain ⟨hNone, before, during, hLatest, hAccounts, hPromotable⟩ := h.candidate c (hCandidate ▸ hc)
    refine ⟨hCatalog.trans hNone, before, during ++ [event], hLatest.snoc (Event.begins_of_keeps hKeeps),
      ?_, ?_⟩
    · rwa [enumerated_snoc, hEntries, List.append_nil]
    · intro hp e he
      rcases List.mem_append.mp he with he | he
      · exact hPromotable hp e he
      · rwa [List.mem_singleton.mp he]
  catalog g catalog hg := by
    obtain ⟨accepted, hClosed, hPlans, hTotal⟩ := h.catalog g catalog (hCatalog ▸ hg)
    exact ⟨accepted, hClosed.snoc hKeeps, hPlans, hTotal⟩
  results := h.results_snoc (by simp [hOk])
  ascending := by rw [promotions_snoc trace hPromoted]; exact h.ascending
  promoted_le := by
    rw [promotions_snoc trace hPromoted, begun_snoc trace (Event.begins_of_keeps hKeeps)]
    exact h.promoted_le
  promoted_lt := by
    rw [promotions_snoc trace hPromoted, begun_snoc trace (Event.begins_of_keeps hKeeps), hCandidate]
    exact h.promoted_lt

theorem begin (h : Recorded epoch limits trace s) (frame : FrameView) (live : Option CatalogGeneration)
    {u : ResultSession} (hObserved : s.Observed .parentToWorker frame u) (hFailure : s.failure = none) :
    Recorded epoch limits (trace ++ [⟨.beginEnumeration frame, .ok (), live⟩]) { u.retireAll with
      enumerationCounter := s.enumerationCounter + 1
      candidate := some ⟨⟨s.epoch, s.enumerationCounter + 1, Nat.succ_pos _⟩, true,
        s.limits.entries, s.limits.pathBytes, s.limits.totalBytes, none, []⟩ } := by
  obtain ⟨v, -, rfl⟩ := hObserved
  have hBegun : begun (trace ++ [⟨.beginEnumeration frame, .ok (), live⟩]) = begun trace + 1 := by
    simp [begun, Event.begins]
  have hPromotions : promotions (trace ++ [⟨.beginEnumeration frame, .ok (), live⟩]) = promotions trace :=
    promotions_snoc trace rfl
  refine ⟨h.epoch_eq, h.limits_eq, ?_, ?_, ?_, ?_, h.results_snoc (by simp), ?_, ?_, ?_⟩
  · rw [hBegun]
    exact congrArg (· + 1) h.counter_eq
  · intro e he
    exact absurd (hFailure.symm.trans he) (by simp)
  · intro c hc
    cases hc
    refine ⟨rfl, trace, [], ⟨⟨_, rfl, rfl⟩, by simp, h.epoch_eq, ?_⟩, ?_, by simp⟩
    · exact congrArg (· + 1) h.counter_eq
    · simp only [h.limits_eq]
      constructor <;> simp [enumerated, pathBytesOf, totalBytesOf]
  · intro g catalog hg
    cases hg
  · rw [hPromotions]
    exact h.ascending
  · intro g hg
    rw [hPromotions] at hg
    have := h.promoted_le g hg
    omega
  · intro g hg _
    rw [hPromotions] at hg
    have := h.promoted_le g hg
    omega

theorem carried (h : Recorded epoch limits trace s) {event : Event} (hOk : event.result = .ok ())
    (hBegins : event.begins = false) (hPromoted : event.promoted = none) (hFailure : t.failure = none)
    (hEpoch : t.epoch = s.epoch) (hLimits : t.limits = s.limits)
    (hCounter : t.enumerationCounter = s.enumerationCounter) (hCatalog : t.catalog = none)
    (hCandidate : ∀ c', t.candidate = some c' → ∃ c, s.candidate = some c ∧
      c'.generation = c.generation ∧
      (∀ accepted, c.Accounts limits accepted → c'.Accounts limits (accepted ++ event.entries)) ∧
      (c'.promotable → c.promotable ∧ event.keeps)) :
    Recorded epoch limits (trace ++ [event]) t where
  epoch_eq := hEpoch.trans h.epoch_eq
  limits_eq := hLimits.trans h.limits_eq
  counter_eq := by rw [hCounter, h.counter_eq, begun_snoc trace hBegins]
  failed e he := by rw [hFailure] at he; cases he
  candidate c' hc' := by
    obtain ⟨c, hc, hGeneration, hAccounts, hKeeps⟩ := hCandidate c' hc'
    obtain ⟨-, before, during, hLatest, hAccepted, hPromotable⟩ := h.candidate c hc
    refine ⟨hCatalog, before, during ++ [event], hGeneration ▸ hLatest.snoc hBegins, ?_, ?_⟩
    · rw [enumerated_snoc]
      exact hAccounts _ hAccepted
    · intro hp e he
      rcases List.mem_append.mp he with he | he
      · exact hPromotable (hKeeps hp).1 e he
      · rw [List.mem_singleton.mp he]
        exact (hKeeps hp).2
  catalog g catalog hg := by rw [hCatalog] at hg; cases hg
  results := h.results_snoc (by simp [hOk])
  ascending := by rw [promotions_snoc trace hPromoted]; exact h.ascending
  promoted_le := by
    rw [promotions_snoc trace hPromoted, begun_snoc trace hBegins]
    exact h.promoted_le
  promoted_lt := by
    rw [promotions_snoc trace hPromoted, begun_snoc trace hBegins]
    intro g hg hSome
    obtain ⟨c', hc'⟩ := Option.isSome_iff_exists.mp hSome
    obtain ⟨c, hc, -⟩ := hCandidate c' hc'
    exact h.promoted_lt g hg (by simp [hc])

theorem promote (h : Recorded epoch limits trace s) (hFailure : s.failure = none) (frame : FrameView)
    {c : Candidate} {planned : Catalog} (hCandidate : s.candidate = some c) (hPromotable : c.promotable)
    (hPlans : List.Forall₂ EntryMetadata.Plans c.entries planned.entries)
    (hTotal : planned.totalBytes = totalBytesOf c.entries) (v : SessionValidator) :
    Recorded epoch limits (trace ++ [⟨.completeEnumeration frame, .ok (), some c.generation⟩])
      { s with protocol := v, catalog := some (c.generation, planned), candidate := none } := by
  obtain ⟨-, before, during, hLatest, hAccounts, hKeeps⟩ := h.candidate c hCandidate
  have hBegun : begun (trace ++ [⟨.completeEnumeration frame, .ok (), some c.generation⟩]) = begun trace :=
    begun_snoc trace rfl
  have hPromotions : promotions (trace ++ [⟨.completeEnumeration frame, .ok (), some c.generation⟩]) =
      promotions trace ++ [c.generation] := by
    simp [promotions, Event.promoted, Event.closes]
  refine ⟨h.epoch_eq, h.limits_eq, h.counter_eq.trans hBegun.symm, ?_, ?_, ?_, h.results_snoc (by simp),
    ?_, ?_, by simp⟩
  · intro e he
    exact absurd (hFailure.symm.trans he) (by simp)
  · intro c hc
    cases hc
  · intro g catalog hg
    cases hg
    obtain ⟨opening, hOpening, hTrace⟩ := hLatest.trace_eq
    rw [hAccounts.kept hPromotable] at hPlans hTotal
    refine ⟨enumerated during, ⟨before, opening, during, _, [], by simp [hTrace]; rfl, hOpening, rfl, ?_,
      hLatest.epoch_eq, hLatest.enumeration_eq, rfl⟩, hPlans, hTotal⟩
    rw [List.append_nil]
    exact hKeeps hPromotable
  · rw [hPromotions, List.pairwise_append]
    refine ⟨h.ascending, List.pairwise_singleton _ _, ?_⟩
    intro g hg g' hg'
    rw [List.mem_singleton.mp hg', ← hLatest.begun_eq]
    exact h.promoted_lt g hg (by simp [hCandidate])
  · rw [hPromotions, hBegun]
    intro g hg
    rcases List.mem_append.mp hg with hg | hg
    · exact h.promoted_le g hg
    · rw [List.mem_singleton.mp hg, hLatest.begun_eq]

theorem accounts (h : Recorded epoch limits trace s) (c : Candidate) (hc : s.candidate = some c) :
    ∃ accepted, c.Accounts s.limits accepted := by
  obtain ⟨-, before, during, -, hAccounts, -⟩ := h.candidate c hc
  exact ⟨enumerated during, h.limits_eq ▸ hAccounts⟩

theorem accepted (h : Recorded epoch limits trace s) (hFailure : s.failure = none) {operation : Operation}
    (hAccepted : s.Accepted operation t) :
    Recorded epoch limits (trace ++ [⟨operation, .ok (), t.catalogView.map Prod.fst⟩]) t := by
  cases hAccepted with
  | beginEnumeration hFrame hObserved => exact h.begin _ _ hObserved hFailure
  | @acceptEntryBatch frame c u hFrame hCandidate hTakes hObserved =>
    obtain ⟨v, -, rfl⟩ := hObserved
    refine h.carried rfl rfl rfl hFailure rfl rfl rfl (h.candidate c hCandidate).1 ?_
    intro c' hc'
    cases hc'
    rw [h.limits_eq] at hTakes
    exact ⟨c, hCandidate, rfl, fun accepted hAccounts => hAccounts.spent hTakes, fun hp => ⟨hp, rfl⟩⟩
  | @completeEnumeration frame c promoted u hFrame hCandidate hPromotes hObserved =>
    obtain ⟨v, -, rfl⟩ := hObserved
    have hNone := (h.candidate c hCandidate).1
    unfold ResultSession.Promotes at hPromotes
    split at hPromotes
    · rename_i hPromotable
      obtain ⟨planned, rfl, hPlans, hTotal⟩ := hPromotes
      simpa [ResultSession.catalogView, ResultSession.isTerminal, hFailure] using
        h.promote hFailure frame hCandidate hPromotable hPlans hTotal v
    · -- A cancelled enumeration closes without a catalog.
      subst hPromotes
      refine h.carried rfl rfl ?_ hFailure rfl rfl rfl ?_ ?_
      · simp [Event.promoted, ResultSession.catalogView, hNone]
      · simpa using hNone
      · intro c' hc'
        cases hc'
  | beginStreamEntry hFrame hDecode hSize hObserved =>
    obtain ⟨v, -, rfl⟩ := hObserved
    exact h.kept rfl rfl rfl rfl hFailure rfl rfl rfl rfl rfl
  | acceptDataChunk hFrame hStream hLength hObserved =>
    obtain ⟨v, -, rfl⟩ := hObserved
    exact h.kept rfl rfl rfl rfl hFailure rfl rfl rfl rfl rfl
  | completeStream hFrame hStream hObserved =>
    obtain ⟨v, -, rfl⟩ := hObserved
    exact h.kept rfl rfl rfl rfl hFailure rfl rfl rfl rfl rfl
  | acceptReadRequest hFrame hObserved =>
    obtain ⟨v, -, rfl⟩ := hObserved
    exact h.kept rfl rfl rfl rfl hFailure rfl rfl rfl rfl rfl
  | acceptReadReply hFrame hObserved =>
    obtain ⟨v, -, rfl⟩ := hObserved
    exact h.kept rfl rfl rfl rfl hFailure rfl rfl rfl rfl rfl
  | acceptCancel hFrame hObserved =>
    obtain ⟨v, -, rfl⟩ := hObserved
    refine h.carried rfl rfl rfl hFailure rfl rfl rfl rfl ?_
    intro c' hc'
    obtain ⟨c, hc, rfl⟩ := Option.map_eq_some_iff.mp hc'
    refine ⟨c, hc, rfl, ?_, fun hp => by cases hp⟩
    intro accepted hAccounts
    rw [show Event.entries _ = [] from rfl, List.append_nil]
    exact { hAccounts with kept := fun hp => by cases hp }
  | acceptCancelAck hFrame hObserved =>
    obtain ⟨v, -, rfl⟩ := hObserved
    exact h.emptied rfl rfl (by simp) rfl rfl rfl rfl rfl rfl (by simp [ResultSession.retireAll, hFailure])
  | acceptShutdown hFrame hObserved =>
    obtain ⟨v, -, rfl⟩ := hObserved
    exact h.emptied rfl rfl (by simp) rfl rfl rfl rfl rfl rfl (by simp [ResultSession.retireAll, hFailure])
  | invalidateSource hRetired =>
    exact h.emptied rfl rfl (by simp) hRetired.epoch hRetired.limits hRetired.counter
      hRetired.candidate hRetired.catalog hRetired.stream hRetired.expected
  | workerFailed hRetired =>
    exact h.emptied rfl rfl (by simp) hRetired.epoch hRetired.limits hRetired.counter
      hRetired.candidate hRetired.catalog hRetired.stream hRetired.expected

theorem start {protocol : SessionValidator} (h : ResultSession.new protocol epoch limits = .ok s) :
    Recorded epoch limits [] s := by
  unfold ResultSession.new at h
  split at h
  · cases h
  · cases h
    constructor <;> simp [begun, promotions]

end Recorded

section Runs

variable {κ : Type} [ByteSink κ] {epoch : WorkerEpoch} {limits : ImportLimits}

theorem step_recorded {trace : List Event} {h : Host κ} (operation : Operation)
    (hRecorded : Recorded epoch limits trace h.1) :
    Recorded epoch limits (trace ++ [(step operation h).1]) (step operation h).2.1 := by
  cases hFailure : h.1.failure with
  | some e =>
    obtain ⟨hExpected, hCandidate, hCatalog, hStream⟩ := hRecorded.failed e hFailure
    rw [step_of_failure hFailure]
    refine hRecorded.emptied ?_ ?_ ?_ rfl rfl rfl hCandidate hCatalog hStream ?_
    · cases operation <;> rfl
    · cases operation <;> rfl
    · intro stop hStop
      cases operation <;> cases hStop <;> exact ⟨e, rfl, hExpected⟩
    · intro e' he'
      rwa [Option.some.inj (he'.symm.trans hFailure)]
  | none =>
    rcases step_cases hFailure hRecorded.accounts operation with
      ⟨t, sink, hStep, hAccepted, -⟩ | ⟨e, t, sink, refused, hStep, hRetired, -, -⟩
    · rw [hStep]
      exact hRecorded.accepted hFailure hAccepted
    · rw [hStep]
      obtain ⟨e', hError, -, hExpected⟩ := hRetired.stop_eq
      refine hRecorded.emptied ?_ ?_ ?_ hRetired.epoch hRetired.limits hRetired.counter
        hRetired.candidate hRetired.catalog hRetired.stream hRetired.expected
      · cases operation <;> rfl
      · cases operation <;> rfl
      · intro stop hStop
        cases hStop
        exact ⟨e', hError, hExpected⟩

theorem run_recorded {protocol : SessionValidator} {start : ResultSession}
    (hNew : ResultSession.new protocol epoch limits = .ok start) (sink : LoggedSink κ)
    (operations : List Operation) :
    Recorded epoch limits (run operations (start, sink)).1 (run operations (start, sink)).2.1 := by
  have hRun := run_invariant (fun trace h => Recorded epoch limits trace h.1)
    (fun trace h operation hRecorded => step_recorded operation hRecorded) operations []
    (start, sink) (Recorded.start hNew)
  simpa using hRun

theorem mem_of_find {accepted : List EntryMetadata} {catalog : Catalog} {token : UInt64}
    {entry : PlannedEntry} (hPlans : List.Forall₂ EntryMetadata.Plans accepted catalog.entries)
    (hFind : catalog.find token = some entry) : token ∈ accepted.map EntryMetadata.sourceToken := by
  obtain ⟨hMem, rfl⟩ := Catalog.find_eq_some hFind
  rw [← planned_map_eq hPlans fun _ _ h => h.token]
  exact List.mem_map_of_mem hMem

theorem boundSize_eq_some {s : ResultSession} {g : CatalogGeneration} {token : UInt64} {size : Nat}
    (h : s.boundSize g token = some size) :
    ∃ catalog entry, s.catalog = some (g, catalog) ∧ catalog.find token = some entry ∧
      size = entry.sizeBytes.toNat := by
  unfold ResultSession.boundSize at h
  split at h
  · rename_i generation catalog hCatalog
    split at h
    · rename_i hGeneration
      obtain ⟨entry, hEntry, rfl⟩ := Option.map_eq_some_iff.mp h
      exact ⟨catalog, entry, hGeneration ▸ hCatalog, hEntry, rfl⟩
    · cases h
  · cases h

theorem step_retires {trace : List Event} {h : Host κ} (hRecorded : Recorded epoch limits trace h.1)
    (operation : Operation) (hFails : (step operation h).1.result ≠ .ok () ∨
      operation = .invalidateSource ∨ operation = .workerFailed) :
    ∃ e, (step operation h).2.1.failure = some e ∧ (step operation h).1.result = operation.retained e ∧
      ∀ e', h.1.failure = some e' → e = e' := by
  cases hFailure : h.1.failure with
  | some e =>
    rw [step_of_failure hFailure]
    exact ⟨e, hFailure, rfl, fun _ he' => Option.some.inj he'⟩
  | none =>
    rcases step_cases hFailure hRecorded.accounts operation with
      ⟨t, sink, hStep, hAccepted, -⟩ | ⟨e, t, sink, refused, hStep, hRetired, -⟩
    · rw [hStep] at hFails ⊢
      -- Only the notifications return without an error and still retire the session.
      rcases hFails with hError | rfl | rfl
      · exact absurd rfl hError
      · cases hAccepted with
        | invalidateSource hRetired =>
          obtain ⟨e, -, hFailed, -⟩ := hRetired.stop_eq
          exact ⟨e, hFailed, rfl, by simp⟩
      · cases hAccepted with
        | workerFailed hRetired =>
          obtain ⟨e, -, hFailed, -⟩ := hRetired.stop_eq
          exact ⟨e, hFailed, rfl, by simp⟩
    · rw [hStep] at hFails ⊢
      obtain ⟨e', hError, hFailed, -⟩ := hRetired.stop_eq
      cases hError
      refine ⟨e, hFailed, ?_, by simp⟩
      cases operation with
      | invalidateSource =>
        have hOk : (step .invalidateSource h).1.result = .ok () := rfl
        rw [hStep] at hOk
        cases hOk
      | workerFailed =>
        have hOk : (step .workerFailed h).1.result = .ok () := rfl
        rw [hStep] at hOk
        cases hOk
      | _ => rfl

section Sample

def sampleFrame (kind : MessageType) (requestId : UInt64) (payload : List UInt8) : FrameView :=
  ⟨.new kind 1 requestId (UInt32.ofNat payload.length), payload⟩

/-- A validator after `hello` and `ready`. -/
def sampleProtocol : SessionValidator :=
  (((SessionValidator.new ⟨1, by decide⟩ .default).observe .parentToWorker
    (.new .hello 1 0 12)).2.observe .workerToParent (.new .ready 1 0 0)).2

def sampleEpoch : WorkerEpoch := ⟨1, by decide⟩

def sampleGeneration : CatalogGeneration := ⟨sampleEpoch, 1, Nat.one_pos⟩

def sampleSession : ResultSession :=
  ⟨sampleProtocol, .default, sampleEpoch, none, 0, none, none, none⟩

theorem sampleSession_new :
    ResultSession.new sampleProtocol sampleEpoch .default = .ok sampleSession := rfl

instance acceptingSink : ByteSink Unit := ⟨fun _ sink => (true, sink)⟩

def sampleSink : LoggedSink Unit := ⟨(), []⟩

/-- One entry `a` of five bytes under the token 7. -/
def sampleBatch : List Operation :=
  [.beginEnumeration (sampleFrame .enumerate 1 []),
    .acceptEntryBatch
      (sampleFrame .entryBatch 1 (toLe 2 1 ++ toLe 8 7 ++ toLe 8 5 ++ toLe 2 1 ++ [0x61]))]

def sampleEnumeration : List Operation :=
  sampleBatch ++ [.completeEnumeration (sampleFrame .complete 1 [0, 0, 4, 0])]

def sampleRequest : FrameView := sampleFrame .streamEntry 2 (toLe 8 7)

end Sample

/-- Streams start only under the latest enumeration, closed and untouched since;
a generation is promoted once; the first failure is final. -/
theorem catalog_authority {protocol : SessionValidator} {start : ResultSession}
    (hNew : ResultSession.new protocol epoch limits = .ok start) (sink : LoggedSink κ)
    (operations : List Operation) :
    (∀ frame g, (step (.beginStreamEntry frame g) (run operations (start, sink)).2).1.result = .ok () →
      ∃ message accepted, decodeStreamEntryPayload frame = .ok message ∧
        Closed epoch (run operations (start, sink)).1 g accepted ∧
        message.sourceToken ∈ accepted.map EntryMetadata.sourceToken) ∧
    (promotions (run operations (start, sink)).1).Nodup ∧
    ∀ operation after,
      (step operation (run operations (start, sink)).2).1.result ≠ .ok () ∨
        operation = .invalidateSource ∨ operation = .workerFailed →
      ∃ e, (step operation (run operations (start, sink)).2).2.1.failure = some e ∧
        (step operation (run operations (start, sink)).2).1.result = operation.retained e ∧
        (∀ e', (run operations (start, sink)).2.1.failure = some e' → e = e') ∧
        (step operation (run operations (start, sink)).2).2.1.catalogView = none ∧
        run after (step operation (run operations (start, sink)).2).2 =
          (after.map fun later => ⟨later, later.retained e, none⟩,
            (step operation (run operations (start, sink)).2).2) := by
  have hRecorded := run_recorded hNew sink operations
  generalize hRun : run operations (start, sink) = reached at hRecorded ⊢
  obtain ⟨trace, h⟩ := reached
  refine ⟨?_, ?_, ?_⟩
  · intro frame g hOk
    cases hFailure : h.1.failure with
    | some e =>
      rw [step_of_failure hFailure] at hOk
      cases hOk
    | none =>
      rcases step_cases hFailure hRecorded.accounts (.beginStreamEntry frame g) with
        ⟨t, sink', hStep, hAccepted, -⟩ | ⟨e, t, sink', refused, hStep, -⟩
      · cases hAccepted with
        | @beginStreamEntry _ _ message _ _ hFrame hDecode hSize hObserved =>
          obtain ⟨catalog, entry, hCatalog, hFind, -⟩ := boundSize_eq_some hSize
          obtain ⟨accepted, hClosed, hPlans, -⟩ := hRecorded.catalog g catalog hCatalog
          exact ⟨message, accepted, hDecode, hClosed, mem_of_find hPlans hFind⟩
      · rw [hStep] at hOk
        cases hOk
  · exact hRecorded.ascending.imp fun hLess hEq => by rw [hEq] at hLess; omega
  · intro operation after hFails
    obtain ⟨e, hFailed, hResult, hFirst⟩ := step_retires hRecorded operation hFails
    refine ⟨e, hFailed, hResult, hFirst, ?_, run_of_failure hFailed after⟩
    simp [ResultSession.catalogView, ResultSession.isTerminal, hFailed]

theorem catalog_authority_sample : ∃ message accepted, decodeStreamEntryPayload sampleRequest = .ok message ∧
    Closed sampleEpoch (run sampleEnumeration (sampleSession, sampleSink)).1 sampleGeneration accepted ∧
    message.sourceToken ∈ accepted.map EntryMetadata.sourceToken :=
  (catalog_authority sampleSession_new sampleSink sampleEnumeration).1 sampleRequest sampleGeneration
    (by decide +kernel)

/-- The batch decoder, the candidate and the planner agree: nothing underflows,
the planner only ever objects to a path, and the total is the sum of the sizes. -/
theorem enumeration_accounts {protocol : SessionValidator} {start : ResultSession}
    (hNew : ResultSession.new protocol epoch limits = .ok start) (sink : LoggedSink κ)
    (operations : List Operation) :
    (∀ event ∈ (run operations (start, sink)).1, ∀ stop, event.result = .error stop →
      ∃ e, stop = .error e ∧ e.Expected) ∧
    (∀ c, (run operations (start, sink)).2.1.candidate = some c →
      ∃ before during, Latest epoch (run operations (start, sink)).1 before during c.generation ∧
        c.Accounts limits (enumerated during) ∧ (enumerated during).length ≤ limits.entries ∧
        WithinQuotas limits (enumerated during) ∧
        ∀ e, planCatalog (enumerated during) limits = .error e → e = .invalidPath ∨ e = .pathConflict) ∧
    ∀ g catalog, (run operations (start, sink)).2.1.catalog = some (g, catalog) →
      ∃ accepted, Closed epoch (run operations (start, sink)).1 g accepted ∧
        catalog.totalBytes = totalBytesOf accepted := by
  have hRecorded := run_recorded hNew sink operations
  refine ⟨hRecorded.results, ?_, ?_⟩
  · intro c hc
    obtain ⟨-, before, during, hLatest, hAccounts, -⟩ := hRecorded.candidate c hc
    have hEntries := hAccounts.entries_eq
    refine ⟨before, during, hLatest, hAccounts, by omega, hAccounts.withinQuotas, ?_⟩
    intro e he
    rcases planCatalog_of_quotas (by omega) hAccounts.withinQuotas with
      ⟨planned, hPlanned, -⟩ | hError | hError
    · cases hPlanned.symm.trans he
    · exact .inl (Except.error.inj (he.symm.trans hError))
    · exact .inr (Except.error.inj (he.symm.trans hError))
  · intro g catalog hg
    obtain ⟨accepted, hClosed, -, hTotal⟩ := hRecorded.catalog g catalog hg
    exact ⟨accepted, hClosed, hTotal⟩

theorem enumeration_accounts_sample : ∃ c,
    (run sampleBatch (sampleSession, sampleSink)).2.1.candidate = some c ∧
    ∃ before during,
      Latest sampleEpoch (run sampleBatch (sampleSession, sampleSink)).1 before during c.generation ∧
      c.Accounts .default (enumerated during) := by
  have hSome : (run sampleBatch (sampleSession, sampleSink)).2.1.candidate.isSome := by decide +kernel
  obtain ⟨c, hc⟩ := Option.isSome_iff_exists.mp hSome
  obtain ⟨before, during, hLatest, hAccounts, -⟩ :=
    (enumeration_accounts sampleSession_new sampleSink sampleBatch).2.1 c hc
  exact ⟨c, hc, before, during, hLatest, hAccounts⟩

end Runs

end OpenHalfLife.Import
