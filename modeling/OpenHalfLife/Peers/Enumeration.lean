import Mathlib.Logic.Relation
import OpenHalfLife.Import.Authority
import OpenHalfLife.Protocol.MessageCodec
import OpenHalfLife.Worker.Service

/-! # Both ends of one enumerate request

The worker spends a raw budget, the parent the remainders of its candidate.
Both are charged for the same batches, so they agree after each of them.
-/

namespace OpenHalfLife.Protocol.SessionValidator

set_option autoImplicit false

theorem valid_of_observe {v v' : SessionValidator} {direction : Direction} {header : FrameHeader}
    (h : v.observe direction header = (.ok (), v')) : header.Valid := by
  unfold observe at h
  split at h
  · cases h
  split at h
  · cases h
  split at h
  · cases h
  · rename_i hValid
    exact hValid

end OpenHalfLife.Protocol.SessionValidator

namespace OpenHalfLife.Import

open Protocol Machine

set_option autoImplicit false

namespace ResultSession

variable {s : ResultSession}

theorem acceptEntryBatch_accepts {c : Candidate} {policy : EntryBatchPolicy} {frame : FrameView}
    {message : EntryBatch} {v : SessionValidator} (hFailure : s.failure = none)
    (hCandidate : s.candidate = some c) (hPolicy : batchPolicy s.limits c = .ok policy)
    (hDecode : decodeEntryBatchPayload frame policy maximumEntryBatchEntries = .ok message)
    (hObserve : s.protocol.observe .workerToParent frame.header = (.ok (), v)) :
    (acceptEntryBatch frame).exec s = (.ok (), { s with
      protocol := v
      candidate := some (c.spent (message.entries.map entryMetadata)) }) := by
  have hTakes := takes_of_decode hPolicy hDecode
  have hPathSum : (message.entries.map fun e => e.archivePath.bytes.length).sum =
      pathBytesOf (message.entries.map entryMetadata) := by
    simp [pathBytesOf, Function.comp_def, entryMetadata]
  have hTotalSum : (message.entries.map fun e => e.sizeBytes.toNat).sum =
      totalBytesOf (message.entries.map entryMetadata) := by
    simp [totalBytesOf, Function.comp_def, entryMetadata]
  have hPathLt := hTakes.path_lt
  have hTotalLt := hTakes.total_lt
  have hAccepts : Ensures (acceptEntryBatch frame) s
      (fun _ t => t = { s with
        protocol := v
        candidate := some (c.spent (message.entries.map entryMetadata)) }) fun _ _ => False := by
    rw [acceptEntryBatch, ensures_bind, guard_ensures hFailure, ensures_bind, ensures_get]
    simp only [hCandidate, hPolicy]
    rw [ensures_bind]
    change Ensures (decode (decodeEntryBatchPayload frame policy maximumEntryBatchEntries) >>= _) s _ _
    rw [hDecode, ensures_bind]
    change Ensures (sumOrPanic (message.entries.map fun entry => entry.archivePath.bytes.length) >>= _) s _ _
    rw [ensures_bind, sumOrPanic_ensures (by omega), ensures_bind, sumOrPanic_ensures (by omega),
      ensures_bind, hPathSum, hTotalSum, observe, ensures_ofFun]
    simp only [hObserve]
    constructor
    · rintro _ _ ⟨⟩
      rw [ensures_bind, ensures_get]
      simp only [hCandidate]
      rw [ensures_bind]
      exact spendBatch_ensures hTakes rfl
    · rintro _ _ ⟨⟩
  unfold Ensures at hAccepts
  rcases hExec : (acceptEntryBatch frame).exec s with ⟨_ | _, t⟩ <;> rw [hExec] at hAccepts
  · exact hAccepts.elim
  · rw [hAccepts]

end ResultSession

end OpenHalfLife.Import

namespace OpenHalfLife.Worker

open Protocol Result

set_option autoImplicit false

namespace EnumerationBudget

def after (budget : EnumerationBudget) (entries : List EntryBatchEntry) : EnumerationBudget where
  remainingEntries := budget.remainingEntries - entries.length
  remainingPathBytes := budget.remainingPathBytes - (entries.map fun e => e.archivePath.bytes.length).sum
  remainingTotalBytes := budget.remainingTotalBytes - (entries.map fun e => e.sizeBytes.toNat).sum
  previousSourceToken := (entries.getLast?.map EntryBatchEntry.sourceToken).or budget.previousSourceToken

theorem spend_eq {budget : EnumerationBudget} {entries : List EntryBatchEntry}
    (hEntries : entries.length ≤ budget.remainingEntries)
    (hPath : (entries.map fun e => e.archivePath.bytes.length).sum ≤ budget.remainingPathBytes)
    (hTotal : (entries.map fun e => e.sizeBytes.toNat).sum ≤ budget.remainingTotalBytes) :
    budget.spend entries = some (budget.after entries) := by
  induction entries generalizing budget with
  | nil => simp [spend, after]
  | cons entry entries ih =>
    simp only [List.length_cons, List.map_cons, List.sum_cons] at hEntries hPath hTotal
    simp only [spend, checkedSub]
    rw [if_neg (by omega), if_neg (by omega), if_neg (by omega)]
    simp only [Option.bind_eq_bind, Option.bind_some]
    rw [ih (by simp only; omega) (by simp only; omega) (by simp only; omega)]
    simp only [after, List.length_cons, List.map_cons, List.sum_cons, Option.some.injEq,
      EnumerationBudget.mk.injEq, Nat.sub_sub, true_and]
    refine ⟨by rw [Nat.add_comm], ?_⟩
    cases entries with
    | nil => rfl
    | cons next entries => simp [List.getLast?_cons]

theorem spend_of_admits {budget : EnumerationBudget} {policy : EntryBatchPolicy}
    {entries : List EntryBatchEntry} (hPolicy : budget.policy = .ok policy) (hAdmits : policy.Admits entries) :
    budget.spend entries = some (budget.after entries) := by
  obtain ⟨hEntries, hPath, hTotal⟩ : policy.remainingEntries = budget.remainingEntries ∧
      policy.remainingPathBytes = budget.remainingPathBytes ∧
      policy.remainingTotalBytes = budget.remainingTotalBytes := by
    unfold EnumerationBudget.policy EntryBatchPolicy.new at hPolicy
    split at hPolicy
    · cases hPolicy
    · cases hPolicy
      exact ⟨rfl, rfl, rfl⟩
  obtain ⟨acc, hAccepted⟩ := hAdmits.accepted
  obtain ⟨hPaths, hTotals, -⟩ :=
    EntryBatchAccumulator.acceptAll_ok hAccepted (Nat.zero_le _) (Nat.zero_le _)
  simp only [EntryBatchAccumulator.start, Nat.zero_add] at hPaths hTotals
  apply spend_eq
  · rw [← hEntries]
    exact hAdmits.remaining
  · rw [← hPath]
    exact hPaths
  · rw [← hTotal]
    exact hTotals

end EnumerationBudget

/-- A prepared batch: its payload is the image of admitted entries, and its
commit the budget after them. -/
theorem prepareEntryBatch_ok {entries : List EntryBatchEntry} {operation : Operation}
    {budget : EnumerationBudget} {context : FrameContext} {prepared : PreparedFrame}
    (h : prepareEntryBatch entries operation budget context = .ok prepared) :
    ∃ policy, budget.policy = .ok policy ∧ policy.Admits entries ∧ prepared.payload = batchImage entries ∧
      prepared.header = .new .entryBatch context.sessionId context.requestId
        (UInt32.ofNat prepared.payload.length) ∧ prepared.payload.length < 2 ^ 32 ∧
      prepared.commit = .entryBatch (budget.after entries) := by
  simp only [prepareEntryBatch, ite_error_eq_ok, bind_eq_ok] at h
  obtain ⟨-, -, policy, hPolicy, payload, hPayload, h⟩ := h
  have hPolicy : budget.policy = .ok policy := by
    cases hCase : budget.policy with
    | error _ => rw [hCase] at hPolicy; cases hPolicy
    | ok _ => rw [hCase] at hPolicy; cases hPolicy; rfl
  have hPayload : encodeEntryBatchPayload ⟨entries⟩ policy context.sendPayload = .ok payload := by
    cases hCase : encodeEntryBatchPayload ⟨entries⟩ policy context.sendPayload with
    | error _ => rw [hCase] at hPayload; cases hPayload
    | ok _ => rw [hCase] at hPayload; cases hPayload; rfl
  obtain ⟨hAdmits, -, rfl⟩ := encodeEntryBatchPayload_eq_ok_iff.mp hPayload
  rw [EnumerationBudget.spend_of_admits hPolicy hAdmits] at h
  simp only [PreparedFrame.new, ite_error_eq_ok] at h
  obtain ⟨hLength, h⟩ := h
  cases h
  exact ⟨policy, hPolicy, hAdmits, rfl, rfl, Nat.lt_of_not_le hLength, rfl⟩

end OpenHalfLife.Worker

namespace OpenHalfLife.Peers

open Protocol Machine Import Worker

set_option autoImplicit false

/-- The worker's budget and validator, the parent's session, and whether the
parent has sent a cancel that the worker has not received. -/
structure EnumerationEnds where
  budget : EnumerationBudget
  validator : SessionValidator
  parent : ResultSession
  cancelSent : Bool

/-- One exchange of the request: a batch the worker prepared and sent and the
parent accepted, a read in either direction, or the parent's cancel. -/
inductive EnumerationStep : EnumerationEnds → EnumerationEnds → Prop
  | batch {e : EnumerationEnds} {entries : List EntryBatchEntry} {context : FrameContext}
      {prepared : PreparedFrame} {next : EnumerationBudget} {v : SessionValidator} {s : ResultSession}
      (hPrepared : prepareEntryBatch entries .enumerate e.budget context = .ok prepared)
      (hCommit : prepared.commit = .entryBatch next)
      (hSent : e.validator.observe .workerToParent prepared.header = (.ok (), v))
      (hAccepted : (ResultSession.acceptEntryBatch ⟨prepared.header, prepared.payload⟩).exec e.parent = (.ok (), s)) :
      EnumerationStep e { e with budget := next, validator := v, parent := s }
  | readRequest {e : EnumerationEnds} {frame : FrameView} {policy : SourceReadPolicy} {sequence : UInt32}
      {outcome : ReadRequestOutcome} {v : SessionValidator} {s : ResultSession}
      (hSent : e.validator.observe .workerToParent frame.header = (.ok (), v))
      (hAccepted : (ResultSession.acceptReadRequest frame policy sequence).exec e.parent = (.ok outcome, s)) :
      EnumerationStep e { e with validator := v, parent := s }
  | readReply {e : EnumerationEnds} {frame : FrameView} {sequence length : UInt32}
      {v : SessionValidator} {s : ResultSession}
      (hSent : (ResultSession.acceptReadReply frame sequence length).exec e.parent = (.ok (), s))
      (hReceived : e.validator.observe .parentToWorker frame.header = (.ok (), v)) :
      EnumerationStep e { e with validator := v, parent := s }
  | cancel {e : EnumerationEnds} {frame : FrameView} {s : ResultSession}
      (hSent : (ResultSession.acceptCancel frame).exec e.parent = (.ok (), s)) :
      EnumerationStep e { e with parent := s, cancelSent := true }

structure InStep (budget : EnumerationBudget) (s : ResultSession) (c : Candidate) : Prop where
  candidate : s.candidate = some c
  entries : c.remainingEntries = budget.remainingEntries
  pathBytes : c.remainingPathBytes = budget.remainingPathBytes
  totalBytes : c.remainingTotalBytes = budget.remainingTotalBytes
  token : c.previousSourceToken = budget.previousSourceToken

structure Aligned (e : EnumerationEnds) : Prop where
  failure : e.parent.failure = none
  limits : e.parent.limits = .default
  inStep : ∃ c, InStep e.budget e.parent c
  validators : e.cancelSent = false → e.parent.protocol = e.validator

section Step

variable {e : EnumerationEnds}

theorem Aligned.batchPolicy_eq (h : Aligned e) {c : Candidate} (hStep : InStep e.budget e.parent c) :
    ResultSession.batchPolicy e.parent.limits c = e.budget.policy := by
  rw [ResultSession.batchPolicy, EnumerationBudget.policy, h.limits, hStep.entries, hStep.pathBytes,
    hStep.totalBytes, hStep.token]
  rfl

theorem inStep_spent {budget : EnumerationBudget} {s t : ResultSession} {c : Candidate}
    (h : InStep budget s c) {entries : List EntryBatchEntry} (hNonempty : entries ≠ [])
    (hCandidate : t.candidate = some (c.spent (entries.map entryMetadata))) :
    InStep (budget.after entries) t (c.spent (entries.map entryMetadata)) := by
  obtain ⟨last, hLast⟩ : ∃ last, entries.getLast? = some last :=
    ⟨_, List.getLast?_eq_some_getLast hNonempty⟩
  constructor
  · exact hCandidate
  · simp [Candidate.spent, EnumerationBudget.after, h.entries]
  · simp [Candidate.spent, EnumerationBudget.after, h.pathBytes, pathBytesOf, Function.comp_def, entryMetadata]
  · simp [Candidate.spent, EnumerationBudget.after, h.totalBytes, totalBytesOf, Function.comp_def, entryMetadata]
  · simp [Candidate.spent, EnumerationBudget.after, hLast, entryMetadata]

theorem Aligned.accepts (h : Aligned e) {entries : List EntryBatchEntry} {context : FrameContext}
    {prepared : PreparedFrame} {v' : SessionValidator}
    (hPrepared : prepareEntryBatch entries .enumerate e.budget context = .ok prepared)
    (hHeader : prepared.header.Valid)
    (hReceived : e.parent.protocol.observe .workerToParent prepared.header = (.ok (), v')) :
    ∃ c s, prepared.commit = .entryBatch (e.budget.after entries) ∧
      (ResultSession.acceptEntryBatch ⟨prepared.header, prepared.payload⟩).exec e.parent = (.ok (), s) ∧
      InStep (e.budget.after entries) s c ∧ s.failure = none ∧ s.limits = e.parent.limits ∧ s.protocol = v' := by
  obtain ⟨c, hStep⟩ := h.inStep
  obtain ⟨policy, hPolicy, hAdmits, hPayload, hNew, hLength, hCommit⟩ := prepareEntryBatch_ok hPrepared
  have hFrame : FrameView.Canonical ⟨prepared.header, prepared.payload⟩ .entryBatch := by
    refine ⟨hHeader, ?_, by rw [hNew]; rfl⟩
    rw [hNew]
    exact (UInt32.toNat_ofNat_of_lt' hLength).symm
  have hDecode : decodeEntryBatchPayload ⟨prepared.header, prepared.payload⟩ policy maximumEntryBatchEntries =
      .ok ⟨entries⟩ :=
    decodeEntryBatchPayload_image ⟨entries⟩ hAdmits hFrame hPayload hAdmits.length_le
  have hAccepts := ResultSession.acceptEntryBatch_accepts h.failure hStep.candidate
    ((h.batchPolicy_eq hStep).trans hPolicy) hDecode hReceived
  exact ⟨_, _, hCommit, hAccepts, inStep_spent hStep hAdmits.ne_nil rfl, h.failure, rfl, rfl⟩

theorem inStep_observed {budget : EnumerationBudget} {s t : ResultSession} {direction : Direction}
    {frame : FrameView} (h : s.Observed direction frame t) {c : Candidate} (hStep : InStep budget s c) :
    InStep budget t c := by
  obtain ⟨v, -, rfl⟩ := h
  exact ⟨hStep.candidate, hStep.entries, hStep.pathBytes, hStep.totalBytes, hStep.token⟩

theorem protocol_of_observed {s t : ResultSession} {direction : Direction} {frame : FrameView}
    {v w : SessionValidator} (h : s.Observed direction frame t) (hSame : s.protocol = v)
    (hObserve : v.observe direction frame.header = (.ok (), w)) : t.protocol = w := by
  obtain ⟨u, hu, rfl⟩ := h
  rw [hSame, hObserve] at hu
  cases hu
  rfl

theorem Aligned.observed (h : Aligned e) {direction : Direction} {frame : FrameView} {v : SessionValidator}
    {s : ResultSession} (hObserved : e.parent.Observed direction frame s)
    (hObserve : e.validator.observe direction frame.header = (.ok (), v)) :
    Aligned { e with validator := v, parent := s } := by
  obtain ⟨c, hStep⟩ := h.inStep
  refine ⟨hObserved.failure.trans h.failure, ?_, ⟨c, inStep_observed hObserved hStep⟩, ?_⟩
  · obtain ⟨_, -, rfl⟩ := hObserved
    exact h.limits
  · intro hLive
    exact protocol_of_observed hObserved (h.validators hLive) hObserve

theorem Aligned.step {e' : EnumerationEnds} (h : Aligned e) (hStep : EnumerationStep e e') : Aligned e' := by
  cases hStep with
  | batch hPrepared hCommit hSent hAccepted =>
    obtain ⟨-, c, u, -, -, hObserved, -⟩ :=
      (ResultSession.acceptEntryBatch_ensures h.failure _).of_ok hAccepted
    obtain ⟨v', hObserve, -⟩ := hObserved
    obtain ⟨c', s', hCommit', hAccepts, hInStep, hFailure, hLimits, hProtocol⟩ :=
      h.accepts hPrepared (SessionValidator.valid_of_observe hSent) hObserve
    cases hAccepts.symm.trans hAccepted
    cases hCommit'.symm.trans hCommit
    refine ⟨hFailure, hLimits.trans h.limits, ⟨c', hInStep⟩, ?_⟩
    intro hLive
    rw [h.validators hLive] at hObserve
    cases hObserve.symm.trans hSent
    exact hProtocol
  | readRequest hSent hAccepted =>
    exact h.observed ((ResultSession.acceptReadRequest_ensures h.failure _ _ _).of_ok hAccepted).2 hSent
  | readReply hSent hReceived =>
    exact h.observed ((ResultSession.acceptReadReply_ensures h.failure _ _ _).of_ok hSent).2 hReceived
  | cancel hSent =>
    obtain ⟨-, u, hObserved, rfl⟩ := (ResultSession.acceptCancel_ensures h.failure _).of_ok hSent
    obtain ⟨c, hStep⟩ := h.inStep
    have hKept := inStep_observed hObserved hStep
    have hCandidate : u.candidate = some c := hKept.candidate
    refine ⟨hObserved.failure.trans h.failure, ?_, ⟨{ c with promotable := false, entries := [] }, ?_⟩, ?_⟩
    · obtain ⟨_, -, rfl⟩ := hObserved
      exact h.limits
    · exact ⟨by simp [hCandidate], hKept.entries, hKept.pathBytes, hKept.totalBytes, hKept.token⟩
    · intro hLive
      cases hLive

theorem Aligned.steps {e e' : EnumerationEnds} (h : Aligned e)
    (hSteps : Relation.ReflTransGen EnumerationStep e e') : Aligned e' := by
  induction hSteps with
  | refl => exact h
  | tail _ hStep ih => exact ih.step hStep

/-- Both ends right after the parent's `enumerate`. -/
theorem aligned_begin {frame : FrameView} {s t : ResultSession} (hLimits : s.limits = .default)
    (hBegin : (ResultSession.beginEnumeration frame).exec s = (.ok (), t)) :
    Aligned ⟨.start, t.protocol, t, false⟩ := by
  have hFailure : s.failure = none := by
    cases hCase : s.failure with
    | none => rfl
    | some e =>
      rw [ResultSession.beginEnumeration, guard_of_failure hCase] at hBegin
      cases hBegin
  obtain ⟨-, u, hObserved, rfl⟩ := (ResultSession.beginEnumeration_ensures hFailure frame).of_ok hBegin
  have hSame : u.limits = s.limits := by
    obtain ⟨_, -, rfl⟩ := hObserved
    rfl
  refine ⟨hObserved.failure.trans hFailure, hSame.trans hLimits, ⟨_, rfl, ?_, ?_, ?_, rfl⟩, fun _ => rfl⟩
  · rw [hLimits]
    rfl
  · rw [hLimits]
    rfl
  · rw [hLimits]
    rfl

end Step

/-- After any exchanges of one enumerate request both ends agree on what is left,
and the parent accepts the next batch the worker sends. A cancel the worker has
not seen changes nothing but the parent's validator. -/
theorem enumeration_budgets_agree {frame : FrameView} {s t : ResultSession} (hLimits : s.limits = .default)
    (hBegin : (ResultSession.beginEnumeration frame).exec s = (.ok (), t)) {e : EnumerationEnds}
    (hSteps : Relation.ReflTransGen EnumerationStep ⟨.start, t.protocol, t, false⟩ e) :
    (∃ c, InStep e.budget e.parent c) ∧
    (∀ entries context prepared v,
      prepareEntryBatch entries .enumerate e.budget context = .ok prepared →
      e.validator.observe .workerToParent prepared.header = (.ok (), v) →
      (e.cancelSent = true → ∃ v', e.parent.protocol.observe .workerToParent prepared.header = (.ok (), v')) →
      ∃ next c s, prepared.commit = .entryBatch next ∧
        (ResultSession.acceptEntryBatch ⟨prepared.header, prepared.payload⟩).exec e.parent = (.ok (), s) ∧
        InStep next s c) ∧
    ∀ (budget : EnumerationBudget) policy entries destination encoded, budget.policy = .ok policy →
      encodeEntryBatchPayload ⟨entries⟩ policy destination = .ok encoded → (budget.spend entries).isSome := by
  have hAligned := (aligned_begin hLimits hBegin).steps hSteps
  refine ⟨hAligned.inStep, ?_, ?_⟩
  · intro entries context prepared v hPrepared hSent hCancelled
    obtain ⟨v', hReceived⟩ : ∃ v', e.parent.protocol.observe .workerToParent prepared.header = (.ok (), v') := by
      cases hCase : e.cancelSent with
      | true => exact hCancelled hCase
      | false => exact ⟨v, by rw [hAligned.validators hCase]; exact hSent⟩
    obtain ⟨c, s, hCommit, hAccepts, hInStep, -⟩ :=
      hAligned.accepts hPrepared (SessionValidator.valid_of_observe hSent) hReceived
    exact ⟨_, c, s, hCommit, hAccepts, hInStep⟩
  · intro budget policy entries destination encoded hPolicy hEncode
    obtain ⟨hAdmits, -⟩ := encodeEntryBatchPayload_eq_ok_iff.mp hEncode
    rw [EnumerationBudget.spend_of_admits hPolicy hAdmits]
    rfl

def sampleEnumerating : ResultSession :=
  ((ResultSession.beginEnumeration (sampleFrame .enumerate 1 [])).exec sampleSession).2

theorem sampleEnumerating_begin :
    (ResultSession.beginEnumeration (sampleFrame .enumerate 1 [])).exec sampleSession =
      (.ok (), sampleEnumerating) := rfl

/-- One entry `a` of five bytes under the token 7. -/
def sampleEntry : EntryBatchEntry := ⟨7, 5, ⟨[0x61], by decide, by decide⟩⟩

def samplePrepared : PreparedFrame :=
  ⟨.new .entryBatch 1 1 21, batchImage [sampleEntry], .entryBatch (EnumerationBudget.start.after [sampleEntry])⟩

theorem enumeration_budgets_agree_oneEntry : ∃ next c s, samplePrepared.commit = .entryBatch next ∧
    (ResultSession.acceptEntryBatch ⟨samplePrepared.header, samplePrepared.payload⟩).exec sampleEnumerating =
      (.ok (), s) ∧ InStep next s c :=
  (enumeration_budgets_agree rfl sampleEnumerating_begin .refl).2.1 [sampleEntry] ⟨1, 1, 100⟩ samplePrepared
    (sampleEnumerating.protocol.observe .workerToParent samplePrepared.header).2 rfl rfl nofun

end OpenHalfLife.Peers
