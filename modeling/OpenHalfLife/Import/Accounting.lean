import OpenHalfLife.Import.History

/-! # The accounts of an enumeration

Three pieces of code enforce the quotas: the batch decoder, the candidate's
remainders and the planner. Over any run the remainders are the limits less
what the accepted batches used, so the planner never finds an excess.
-/

namespace OpenHalfLife.Protocol

open Result

set_option autoImplicit false

namespace EntryBatchAccumulator

variable {policy : EntryBatchPolicy} {acc acc' : EntryBatchAccumulator}

theorem accept_ok {token size : UInt64} {path : List UInt8}
    (h : acc.accept token size path policy = .ok acc') :
    acc.pathBytes + path.length ≤ policy.remainingPathBytes ∧
    acc.totalBytes + size.toNat ≤ policy.remainingTotalBytes ∧
    size.toNat ≤ policy.maximumEntryBytes ∧
    (∀ previous, acc.previousSourceToken = some previous → previous < token) ∧
    acc' = ⟨acc.pathBytes + path.length, acc.totalBytes + size.toNat, some token⟩ := by
  simp only [accept, bind_eq_ok, ite_error_eq_ok, not_or] at h
  obtain ⟨_, -, hPath, hTotal, ⟨hSize, hPath', hTotal', hToken⟩, hReturn⟩ := h
  cases hReturn
  refine ⟨by omega, by omega, by omega, ?_, rfl⟩
  intro previous hPrevious
  simpa [hPrevious] using hToken

theorem acceptAll_ok {entries : List EntryBatchEntry} (h : acc.acceptAll policy entries = .ok acc')
    (hPath : acc.pathBytes ≤ policy.remainingPathBytes)
    (hTotal : acc.totalBytes ≤ policy.remainingTotalBytes) :
    acc.pathBytes + (entries.map fun e => e.archivePath.bytes.length).sum ≤ policy.remainingPathBytes ∧
    acc.totalBytes + (entries.map fun e => e.sizeBytes.toNat).sum ≤ policy.remainingTotalBytes ∧
    (∀ e ∈ entries, e.sizeBytes.toNat ≤ policy.maximumEntryBytes) ∧
    (entries.map EntryBatchEntry.sourceToken).Pairwise (· < ·) ∧
    ∀ previous, acc.previousSourceToken = some previous → ∀ e ∈ entries, previous < e.sourceToken := by
  induction entries generalizing acc with
  | nil => simpa using ⟨hPath, hTotal⟩
  | cons entry entries ih =>
    obtain ⟨next, hAccept, hRest⟩ := bind_eq_ok.mp h
    obtain ⟨hPath', hTotal', hSize, hToken, rfl⟩ := accept_ok hAccept
    obtain ⟨hPaths, hTotals, hSizes, hSorted, hAbove⟩ := ih hRest hPath' hTotal'
    have hAbove := hAbove entry.sourceToken rfl
    simp only [List.map_cons, List.sum_cons, List.pairwise_cons, List.forall_mem_cons]
    refine ⟨by simpa [Nat.add_assoc] using hPaths, by simpa [Nat.add_assoc] using hTotals,
      ⟨hSize, hSizes⟩, ⟨by simpa using hAbove, hSorted⟩, ?_⟩
    intro previous hPrevious
    refine ⟨hToken previous hPrevious, ?_⟩
    intro e he
    exact UInt64.lt_trans (hToken previous hPrevious) (hAbove e he)

end EntryBatchAccumulator

end OpenHalfLife.Protocol

namespace OpenHalfLife.Import

open Protocol Machine Result

set_option autoImplicit false

def pathBytesOf (entries : List EntryMetadata) : Nat :=
  (entries.map fun entry => entry.archivePath.length).sum

def totalBytesOf (entries : List EntryMetadata) : Nat :=
  (entries.map fun entry => entry.sizeBytes.toNat).sum

structure Candidate.Accounts (limits : ImportLimits) (c : Candidate) (accepted : List EntryMetadata) :
    Prop where
  tokens : (accepted.map EntryMetadata.sourceToken).Pairwise (· < ·)
  previous : c.previousSourceToken = (accepted.getLast?).map EntryMetadata.sourceToken
  sizes : ∀ entry ∈ accepted, entry.sizeBytes.toNat ≤ limits.entryBytes
  entries_eq : c.remainingEntries + accepted.length = limits.entries
  path_eq : c.remainingPathBytes + pathBytesOf accepted = limits.pathBytes
  total_eq : c.remainingTotalBytes + totalBytesOf accepted = limits.totalBytes
  kept : c.promotable = true → c.entries = accepted

theorem Candidate.Accounts.withinQuotas {limits : ImportLimits} {c : Candidate}
    {accepted : List EntryMetadata} (h : c.Accounts limits accepted) : WithinQuotas limits accepted :=
  ⟨h.tokens.imp ne_of_lt, h.sizes, by have := h.total_eq; rw [totalBytesOf] at this; omega,
    by have := h.path_eq; rw [pathBytesOf] at this; omega⟩

structure Candidate.Takes (limits : ImportLimits) (c : Candidate) (batch : List EntryMetadata) :
    Prop where
  nonempty : batch ≠ []
  length_le : batch.length ≤ maximumEntryBatchEntries
  entries_le : batch.length ≤ c.remainingEntries
  path_le : pathBytesOf batch ≤ c.remainingPathBytes
  total_le : totalBytesOf batch ≤ c.remainingTotalBytes
  total_lt : totalBytesOf batch < 2 ^ 64
  path_lt : pathBytesOf batch < 2 ^ 64
  sizes : ∀ entry ∈ batch, entry.sizeBytes.toNat ≤ limits.entryBytes
  tokens : (batch.map EntryMetadata.sourceToken).Pairwise (· < ·)
  above : ∀ previous, c.previousSourceToken = some previous →
    ∀ entry ∈ batch, previous < entry.sourceToken

def Candidate.spent (c : Candidate) (batch : List EntryMetadata) : Candidate :=
  { c with
    entries := if c.promotable then c.entries ++ batch else c.entries
    remainingEntries := c.remainingEntries - batch.length
    remainingPathBytes := c.remainingPathBytes - pathBytesOf batch
    remainingTotalBytes := c.remainingTotalBytes - totalBytesOf batch
    previousSourceToken := some ((batch.getLast?.map EntryMetadata.sourceToken).getD 0) }

theorem le_getLast_of_sorted {tokens : List UInt64} (h : tokens.Pairwise (· < ·)) {last : UInt64}
    (hLast : tokens.getLast? = some last) {token : UInt64} (hToken : token ∈ tokens) :
    token ≤ last := by
  obtain ⟨init, rfl⟩ := List.getLast?_eq_some_iff.mp hLast
  rcases List.mem_append.mp hToken with hInit | hEnd
  · exact le_of_lt ((List.pairwise_append.mp h).2.2 token hInit last (by simp))
  · exact (List.mem_singleton.mp hEnd).le

theorem Candidate.Accounts.spent {limits : ImportLimits} {c : Candidate}
    {accepted batch : List EntryMetadata} (h : c.Accounts limits accepted) (hTakes : c.Takes limits batch) :
    (c.spent batch).Accounts limits (accepted ++ batch) := by
  obtain ⟨last, hLast⟩ : ∃ last, batch.getLast? = some last :=
    ⟨batch.getLast hTakes.nonempty, List.getLast?_eq_some_getLast hTakes.nonempty⟩
  constructor
  case tokens =>
    rw [List.map_append, List.pairwise_append]
    refine ⟨h.tokens, hTakes.tokens, ?_⟩
    intro a ha b hb
    obtain ⟨entry, hEntry, rfl⟩ := List.mem_map.mp hb
    -- Every earlier token is at most the last one, which the batch lies above.
    obtain ⟨lastToken, hPrevious⟩ : ∃ lastToken, c.previousSourceToken = some lastToken := by
      rw [h.previous, ← List.getLast?_map]
      exact ⟨_, List.getLast?_eq_some_getLast (List.ne_nil_of_mem ha)⟩
    have hBelow : a ≤ lastToken := by
      refine le_getLast_of_sorted h.tokens ?_ ha
      rw [List.getLast?_map, ← h.previous, hPrevious]
    exact lt_of_le_of_lt hBelow (hTakes.above lastToken hPrevious entry hEntry)
  case previous =>
    simp [Candidate.spent, hLast, List.getLast?_append]
  case sizes =>
    intro entry hEntry
    rcases List.mem_append.mp hEntry with hEntry | hEntry
    · exact h.sizes entry hEntry
    · exact hTakes.sizes entry hEntry
  case entries_eq =>
    have := h.entries_eq
    have := hTakes.entries_le
    simp only [Candidate.spent, List.length_append]
    omega
  case path_eq =>
    have hSum : pathBytesOf (accepted ++ batch) = pathBytesOf accepted + pathBytesOf batch := by
      simp [pathBytesOf]
    have := h.path_eq
    have := hTakes.path_le
    simp only [Candidate.spent, hSum]
    omega
  case total_eq =>
    have hSum : totalBytesOf (accepted ++ batch) = totalBytesOf accepted + totalBytesOf batch := by
      simp [totalBytesOf]
    have := h.total_eq
    have := hTakes.total_le
    simp only [Candidate.spent, hSum]
    omega
  case kept =>
    intro hPromotable
    have hPromotable : c.promotable = true := hPromotable
    simp [Candidate.spent, hPromotable, h.kept hPromotable]

def batchEntries (frame : FrameView) : List EntryMetadata :=
  match PayloadReader.decode frame.payload (do
    let count ← PayloadReader.readU16
    readEntries count.toNat) with
  | .ok entries => entries.map entryMetadata
  | .error _ => []

theorem batchEntries_of_decode {frame : FrameView} {policy : EntryBatchPolicy} {storage : Nat}
    {message : EntryBatch} (h : decodeEntryBatchPayload frame policy storage = .ok message) :
    batchEntries frame = message.entries.map entryMetadata := by
  simp only [decodeEntryBatchPayload, bind_eq_ok, ite_error_eq_ok] at h
  obtain ⟨_, -, count, hCount, -, hEntries⟩ := h
  obtain ⟨_, hFirst⟩ := decode_eq_ok.mp hCount
  obtain ⟨_, hSecond⟩ := decode_eq_ok.mp hEntries
  simp only [exec_bind_eq_ok] at hFirst hSecond
  obtain ⟨entryCount, reader, hRead, _, _, -, _, _, -, _, _, -, hReturn⟩ := hFirst
  obtain ⟨_, _, hRead', entries, _, hReadEntries, hReturn'⟩ := hSecond
  cases hReturn
  cases hReturn'
  cases hRead.symm.trans hRead'
  have hAll : PayloadReader.decode frame.payload (do
      let count ← PayloadReader.readU16
      readEntries count.toNat) = .ok entries :=
    decode_eq_ok.mpr ⟨_, exec_bind_eq_ok.mpr ⟨_, _, hRead, hReadEntries⟩⟩
  simp [batchEntries, hAll]

namespace ResultSession

theorem batchPolicy_ok {limits : ImportLimits} {c : Candidate} {policy : EntryBatchPolicy}
    (h : batchPolicy limits c = .ok policy) :
    policy.remainingEntries = c.remainingEntries ∧ policy.remainingPathBytes = c.remainingPathBytes ∧
    policy.maximumEntryBytes = limits.entryBytes ∧ policy.remainingTotalBytes = c.remainingTotalBytes ∧
    policy.previousSourceToken = c.previousSourceToken := by
  unfold batchPolicy EntryBatchPolicy.new at h
  split at h
  · cases h
  · cases h
    exact ⟨rfl, rfl, rfl, rfl, rfl⟩

theorem takes_of_decode {limits : ImportLimits} {c : Candidate} {policy : EntryBatchPolicy}
    {frame : FrameView} {message : EntryBatch} (hPolicy : batchPolicy limits c = .ok policy)
    (h : decodeEntryBatchPayload frame policy maximumEntryBatchEntries = .ok message) :
    c.Takes limits (message.entries.map entryMetadata) := by
  obtain ⟨hEntries, hPath, hSize, hTotal, hPrevious⟩ := batchPolicy_ok hPolicy
  obtain ⟨-, hNonempty, hLength, hRemaining, acc, hAccepted⟩ := decodeEntryBatchPayload_ok h
  obtain ⟨hPaths, hTotals, hSizes, hSorted, hAbove⟩ :=
    EntryBatchAccumulator.acceptAll_ok hAccepted (Nat.zero_le _) (Nat.zero_le _)
  have hPathSum : pathBytesOf (message.entries.map entryMetadata) =
      (message.entries.map fun e => e.archivePath.bytes.length).sum := by
    simp [pathBytesOf, Function.comp_def, entryMetadata]
  have hTotalSum : totalBytesOf (message.entries.map entryMetadata) =
      (message.entries.map fun e => e.sizeBytes.toNat).sum := by
    simp [totalBytesOf, Function.comp_def, entryMetadata]
  have hPathCeiling := policy.pathBytes_le
  have hTotalCeiling := policy.totalBytes_le
  simp only [maximumEnumeratedPathBytes, maximumEnumeratedTotalBytes] at hPathCeiling hTotalCeiling
  simp only [EntryBatchAccumulator.start, Nat.zero_add] at hPaths hTotals
  constructor
  case nonempty => simpa using hNonempty
  case length_le => simpa using hLength
  case entries_le => simpa [← hEntries] using hRemaining
  case path_le => rw [hPathSum, ← hPath]; exact hPaths
  case total_le => rw [hTotalSum, ← hTotal]; exact hTotals
  case total_lt => rw [hTotalSum]; omega
  case path_lt => rw [hPathSum]; omega
  case sizes =>
    intro entry hEntry
    obtain ⟨e, he, rfl⟩ := List.mem_map.mp hEntry
    rw [← hSize]
    exact hSizes e he
  case tokens => simpa [Function.comp_def, entryMetadata] using hSorted
  case above =>
    intro previous hToken entry hEntry
    obtain ⟨e, he, rfl⟩ := List.mem_map.mp hEntry
    exact hAbove previous (hPrevious.trans hToken) e he

theorem sumOrPanic_ensures {values : List Nat} {s : ResultSession} {Q : Nat → ResultSession → Prop}
    {E : Stop ResultSessionError → ResultSession → Prop} (h : values.sum < 2 ^ 64) :
    Ensures (sumOrPanic values) s Q E ↔ Q values.sum s := by
  have hFrom (start : Nat) (h : start + values.sum < 2 ^ 64) :
      Ensures (values.foldlM (addOrPanic 64) start) s Q E ↔ Q (start + values.sum) s := by
    induction values generalizing start with
    | nil => simp
    | cons value values ih =>
      rw [List.sum_cons] at h
      rw [List.foldlM_cons, ensures_bind, ensures_addOrPanic (by omega), ih (by omega) _ (by omega),
        List.sum_cons, Nat.add_assoc]
  have hZero := hFrom 0 (by omega)
  rw [Nat.zero_add] at hZero
  exact hZero

variable {s : ResultSession}

theorem spendBatch_ensures {limits : ImportLimits} {c : Candidate} {batch : List EntryMetadata}
    {Q : Candidate → ResultSession → Prop} {E : Stop ResultSessionError → ResultSession → Prop}
    (hTakes : c.Takes limits batch) (hQ : Q (c.spent batch) s) :
    Ensures (spendBatch batch (pathBytesOf batch) (totalBytesOf batch)
      ((batch.getLast?.map EntryMetadata.sourceToken).getD 0) c) s Q E := by
  have hLength := hTakes.length_le
  have hCount : countOf batch = batch.length := by
    rw [maximumEntryBatchEntries] at hLength
    rw [countOf]
    omega
  rw [spendBatch, hCount, ensures_bind, ensures_subOrPanic hTakes.entries_le, ensures_bind,
    ensures_subOrPanic hTakes.path_le, ensures_bind, ensures_subOrPanic hTakes.total_le]
  exact hQ

theorem acceptEntryBatch_ensures (hFailure : s.failure = none) (frame : FrameView) :
    Ensures (acceptEntryBatch frame) s
      (fun _ t => frame.Canonical .entryBatch ∧ ∃ c u, s.candidate = some c ∧
        c.Takes s.limits (batchEntries frame) ∧ s.Observed .workerToParent frame u ∧
        t = { u with candidate := some (c.spent (batchEntries frame)) }) s.Retired := by
  rw [acceptEntryBatch, ensures_bind, guard_ensures hFailure, ensures_bind, ensures_get]
  split
  · exact fail_ensures hFailure trivial
  · rename_i c hCandidate
    rw [ensures_bind]
    refine decode_ensures hFailure fun policy hPolicy => ?_
    rw [ensures_bind]
    refine decode_ensures hFailure fun message hDecode => ?_
    have hTakes := takes_of_decode hPolicy hDecode
    have hPathSum : (message.entries.map fun e => e.archivePath.bytes.length).sum =
        pathBytesOf (message.entries.map entryMetadata) := by
      simp [pathBytesOf, Function.comp_def, entryMetadata]
    have hTotalSum : (message.entries.map fun e => e.sizeBytes.toNat).sum =
        totalBytesOf (message.entries.map entryMetadata) := by
      simp [totalBytesOf, Function.comp_def, entryMetadata]
    have hPathLt := hTakes.path_lt
    have hTotalLt := hTakes.total_lt
    rw [ensures_bind, sumOrPanic_ensures (by omega), ensures_bind, sumOrPanic_ensures (by omega),
      ensures_bind, hPathSum, hTotalSum]
    refine (observe_ensures hFailure _ _).mono ?_ fun _ _ h => h
    intro _ u hObserved
    have hSame : u.candidate = some c := by
      obtain ⟨v, -, rfl⟩ := hObserved
      exact hCandidate
    rw [ensures_bind, ensures_get, hSame]
    rw [ensures_bind]
    refine spendBatch_ensures hTakes ?_
    rw [batchEntries_of_decode hDecode]
    exact ⟨(decodeEntryBatchPayload_ok hDecode).1, c, u, hCandidate, hTakes, hObserved, rfl⟩

/-- What a candidate becomes: the planned catalog, or nothing after a cancel. -/
def Promotes (c : Candidate) (promoted : Option (CatalogGeneration × Catalog)) : Prop :=
  if c.promotable then
    ∃ planned, promoted = some (c.generation, planned) ∧
      List.Forall₂ EntryMetadata.Plans c.entries planned.entries ∧
      planned.totalBytes = totalBytesOf c.entries
  else promoted = none

theorem promotion_ensures {c : Candidate} {accepted : List EntryMetadata} (hFailure : s.failure = none)
    (hAccounts : c.Accounts s.limits accepted) :
    Ensures (promotion c) s (fun promoted t => Promotes c promoted ∧ t = s) s.Retired := by
  simp only [promotion, ensures_bind, ensures_get, ensures_ite, ensures_pure, Promotes]
  refine ⟨fun hPromotable => ?_, fun hCancelled => ⟨by simp [hCancelled], trivial⟩⟩
  have hTotal := hAccounts.total_eq
  have hEntries := hAccounts.entries_eq
  rw [ensures_subOrPanic (by omega)]
  simp only [hAccounts.kept hPromotable, hPromotable, if_true]
  rcases planCatalog_of_quotas (by omega) hAccounts.withinQuotas with
    ⟨planned, hPlanned, hPlans, hSum⟩ | hError | hError
  · simp only [hPlanned]
    have hSum' : planned.totalBytes = totalBytesOf accepted := hSum
    rw [if_neg (by
      rw [hSum', hPlans.length_eq]
      omega)]
    exact ⟨⟨planned, rfl, hPlans, hSum'⟩, rfl⟩
  · simp only [hError]
    exact fail_ensures hFailure (.inl rfl)
  · simp only [hError]
    exact fail_ensures hFailure (.inr rfl)

theorem completeEnumeration_ensures (hFailure : s.failure = none) (frame : FrameView)
    (hAccounts : ∀ c, s.candidate = some c → ∃ accepted, c.Accounts s.limits accepted) :
    Ensures (completeEnumeration frame) s
      (fun _ t => frame.Canonical .complete ∧ ∃ c promoted u, s.candidate = some c ∧
        Promotes c promoted ∧ s.Observed .workerToParent frame u ∧
        t = { u with catalog := promoted.or s.catalog, candidate := none }) s.Retired := by
  rw [completeEnumeration, ensures_bind, guard_ensures hFailure, ensures_bind]
  refine decode_ensures hFailure fun _ hDecode => ?_
  rw [ensures_bind, ensures_get]
  split
  · exact fail_ensures hFailure trivial
  · rename_i c hCandidate
    obtain ⟨accepted, hAccounts⟩ := hAccounts c hCandidate
    have hRetired {t : ResultSession} {stop : Stop ResultSessionError}
        (h : Retired { s with candidate := some { c with entries := [] } } stop t) : s.Retired stop t :=
      ⟨h.stop_eq, h.candidate, h.catalog, h.stream, h.epoch, h.limits, h.counter⟩
    rw [ensures_bind, ensures_modify, ensures_bind]
    refine (promotion_ensures (s := { s with candidate := some { c with entries := [] } }) hFailure
      hAccounts).mono ?_ fun _ _ h => hRetired h
    rintro promoted _ ⟨hPromotes, rfl⟩
    rw [ensures_bind]
    refine (observe_ensures (s := { s with candidate := some { c with entries := [] } }) hFailure
      _ _).mono ?_ fun _ _ h => hRetired h
    rintro _ _ ⟨v, hObserve, rfl⟩
    exact ⟨decodeCompletePayload_ok hDecode, c, promoted, { s with protocol := v }, hCandidate,
      hPromotes, ⟨v, hObserve, rfl⟩, rfl⟩

end ResultSession

end OpenHalfLife.Import
