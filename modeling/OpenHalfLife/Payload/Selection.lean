import OpenHalfLife.Lib.Bytes
import OpenHalfLife.Lib.Machine
import OpenHalfLife.Payload.Layout

/-! # Component selection

A recipe says which components are imported and below which root. Selection
runs before layout planning, and neither depends on the order in which the
entries are offered. The digest is a parameter.
-/

namespace OpenHalfLife.Payload

open Import (slash toAsciiLowercase)
open Machine (Stop)
open Result

set_option autoImplicit false

def recipeFormatVersion : Nat := 1

def maximumSelectableEntries : Nat := 50000

def digestDomain : Text := text "open-half-life-payload-selection"

inductive SelectionDecision
  | include
  | exclude
  deriving DecidableEq, Repr

def SelectionDecision.spelling : SelectionDecision → Text
  | .include => text "include"
  | .exclude => text "exclude"

inductive SelectionError
  | tooManyEntries
  | invalidDestination
  deriving DecidableEq, Repr

structure ComponentRule where
  foldedName : Text
  decision : SelectionDecision
  destination : Option PayloadPath
  deriving DecidableEq

structure SelectionRecipe where
  rules : List ComponentRule
  defaultDecision : SelectionDecision
  ordered : rules.Pairwise fun first second => first.foldedName < second.foldedName

def SelectionRecipe.ruleFor (recipe : SelectionRecipe) (component : Text) : Option ComponentRule :=
  recipe.rules.find? (·.foldedName = toAsciiLowercase component)

structure SelectableEntry where
  sourceToken : UInt64
  component : Text
  archivePath : Text
  sizeBytes : UInt64
  deriving DecidableEq, Repr

structure SelectionPlan where
  entries : List PayloadEntryMetadata
  excluded : Nat
  digest : Text
  deriving DecidableEq, Repr

def bigEndian (value : Nat) : Text := (toLe 8 value).reverse

def absorbed (bytes : Text) : Text := bigEndian (min bytes.length (2 ^ 64 - 1)) ++ bytes

def ComponentRule.absorbed (rule : ComponentRule) : Text :=
  Payload.absorbed rule.foldedName ++ Payload.absorbed rule.decision.spelling ++
    Payload.absorbed ((rule.destination.map PayloadPath.relativePath).getD [])

def decisionDigest (sha256 : Text → Text) (recipe : SelectionRecipe) : Text :=
  sha256 (absorbed digestDomain ++ bigEndian recipeFormatVersion ++ absorbed recipe.defaultDecision.spelling ++
    bigEndian (min recipe.rules.length (2 ^ 64 - 1)) ++ recipe.rules.flatMap ComponentRule.absorbed)

namespace SelectionRecipe

variable (recipe : SelectionRecipe)

def decision (entry : SelectableEntry) : SelectionDecision :=
  ((recipe.ruleFor entry.component).map ComponentRule.decision).getD recipe.defaultDecision

def joined (entry : SelectableEntry) : Text :=
  match (recipe.ruleFor entry.component).bind ComponentRule.destination with
  | some root => root.relativePath ++ [slash] ++ entry.archivePath
  | none => entry.archivePath

def selectEntry (selected : List PlannedPayloadEntry × Nat) (entry : SelectableEntry) :
    Except SelectionError (List PlannedPayloadEntry × Nat) :=
  if recipe.decision entry = .exclude then .ok (selected.1, selected.2 + 1)
  else match PayloadPath.parse (recipe.joined entry) with
    | .ok destination => .ok (selected.1 ++ [⟨entry.sourceToken, destination, entry.sizeBytes⟩], selected.2)
    | .error _ => .error .invalidDestination

end SelectionRecipe

def selectionOrder (first second : PlannedPayloadEntry) : Bool :=
  first.path.portabilityKey < second.path.portabilityKey ∨
    (first.path.portabilityKey = second.path.portabilityKey ∧ first.sourceToken ≤ second.sourceToken)

def PlannedPayloadEntry.metadata (entry : PlannedPayloadEntry) : PayloadEntryMetadata :=
  ⟨entry.sourceToken, entry.path.relativePath, entry.sizeBytes⟩

def select (sha256 : Text → Text) (entries : List SelectableEntry) (recipe : SelectionRecipe) :
    Except SelectionError SelectionPlan :=
  if entries.length > maximumSelectableEntries then .error .tooManyEntries
  else do
    let selected ← entries.foldlM recipe.selectEntry ([], 0)
    return ⟨(selected.1.mergeSort selectionOrder).map PlannedPayloadEntry.metadata, selected.2,
      decisionDigest sha256 recipe⟩

inductive SelectedLayoutError
  | selection (error : SelectionError)
  | layout (rejection : PayloadLayoutRejection)
  deriving DecidableEq, Repr

def planSelected (sha256 : Text → Text) (entries : List SelectableEntry) (recipe : SelectionRecipe)
    (limits : PayloadImportLimits) : Except (Stop SelectedLayoutError) PayloadLayout :=
  match select sha256 entries recipe with
  | .error error => .error (.error (.selection error))
  | .ok plan => match planPayloadLayout plan.entries limits with
    | .ok layout => .ok layout
    | .error (.error rejection) => .error (.error (.layout rejection))
    | .error .panic => .error .panic
    | .error .stuck => .error .stuck

/-! ## Order independence -/

section Order

variable {sha256 : Text → Text} {recipe : SelectionRecipe} {entries entries' : List SelectableEntry}

def chosen (recipe : SelectionRecipe) (entry : SelectableEntry) : Option PlannedPayloadEntry :=
  if recipe.decision entry = .exclude then none
  else (PayloadPath.parse (recipe.joined entry)).toOption.map fun destination =>
    ⟨entry.sourceToken, destination, entry.sizeBytes⟩

def Placed (recipe : SelectionRecipe) (entries : List SelectableEntry) : Prop :=
  ∀ entry ∈ entries, recipe.decision entry ≠ .exclude → ∃ path, PayloadPath.parse (recipe.joined entry) = .ok path

def excludedCount (recipe : SelectionRecipe) (entries : List SelectableEntry) : Nat :=
  entries.countP fun entry => recipe.decision entry = .exclude

theorem foldlM_selectEntry (h : Placed recipe entries) (selected : List PlannedPayloadEntry × Nat) :
    entries.foldlM recipe.selectEntry selected =
      .ok (selected.1 ++ entries.filterMap (chosen recipe), selected.2 + excludedCount recipe entries) := by
  induction entries generalizing selected with
  | nil => simp [excludedCount]; rfl
  | cons entry entries ih =>
    have hRest : Placed recipe entries := fun other hOther => h other (List.mem_cons_of_mem _ hOther)
    rw [List.foldlM_cons, SelectionRecipe.selectEntry]
    by_cases hDropped : recipe.decision entry = .exclude
    · rw [if_pos hDropped, ok_bind, ih hRest]
      simp [chosen, excludedCount, hDropped, Nat.add_assoc, Nat.add_comm 1]
    · obtain ⟨path, hPath⟩ := h entry List.mem_cons_self hDropped
      rw [if_neg hDropped, hPath, ok_bind, ih hRest]
      simp [chosen, excludedCount, hDropped, hPath, Except.toOption]

theorem foldlM_selectEntry_error (h : ¬Placed recipe entries) (selected : List PlannedPayloadEntry × Nat) :
    entries.foldlM recipe.selectEntry selected = .error .invalidDestination := by
  induction entries generalizing selected with
  | nil => exact absurd (fun _ hNone => absurd hNone List.not_mem_nil) h
  | cons entry entries ih =>
    rw [List.foldlM_cons, SelectionRecipe.selectEntry]
    by_cases hDropped : recipe.decision entry = .exclude
    · rw [if_pos hDropped, ok_bind]
      refine ih (fun hRest => h fun other hOther => ?_) _
      rcases List.mem_cons.mp hOther with rfl | hOther
      · exact fun hIncluded => absurd hDropped hIncluded
      · exact hRest other hOther
    · rw [if_neg hDropped]
      cases hPath : PayloadPath.parse (recipe.joined entry) with
      | error error => rfl
      | ok path =>
        refine ih (fun hRest => h fun other hOther => ?_) _
        rcases List.mem_cons.mp hOther with rfl | hOther
        · exact fun _ => ⟨path, hPath⟩
        · exact hRest other hOther

variable (sha256 recipe) in
theorem select_perm (hPerm : entries.Perm entries') :
    (∃ plan plan', select sha256 entries recipe = .ok plan ∧ select sha256 entries' recipe = .ok plan' ∧
      plan.entries.Perm plan'.entries ∧ plan.excluded = plan'.excluded ∧ plan.digest = plan'.digest) ∨
    ∃ error, select sha256 entries recipe = .error error ∧ select sha256 entries' recipe = .error error := by
  rw [select, select, hPerm.length_eq]
  by_cases hCount : entries'.length > maximumSelectableEntries
  · exact .inr ⟨_, if_pos hCount, if_pos hCount⟩
  · rw [if_neg hCount, if_neg hCount]
    by_cases hPlaced : Placed recipe entries
    · have hPlaced' : Placed recipe entries' := fun entry hEntry => hPlaced entry (hPerm.mem_iff.mpr hEntry)
      rw [foldlM_selectEntry hPlaced, foldlM_selectEntry hPlaced']
      refine .inl ⟨_, _, rfl, rfl, ?_, ?_, rfl⟩
      · exact ((List.mergeSort_perm _ _).trans ((hPerm.filterMap _).trans (List.mergeSort_perm _ _).symm)).map _
      · simp only [excludedCount, hPerm.countP_eq]
    · have hPlaced' : ¬Placed recipe entries' := fun h => hPlaced fun entry hEntry => h entry (hPerm.mem_iff.mp hEntry)
      rw [foldlM_selectEntry_error hPlaced, foldlM_selectEntry_error hPlaced']
      exact .inr ⟨_, rfl, rfl⟩

theorem planSelected_perm (limits : PayloadImportLimits) (hPerm : entries.Perm entries') :
    SameOutcome (planSelected sha256 entries recipe limits) (planSelected sha256 entries' recipe limits) := by
  unfold planSelected
  rcases select_perm sha256 recipe hPerm with ⟨plan, plan', hFirst, hSecond, hEntries, -, -⟩ |
    ⟨error, hFirst, hSecond⟩
  · rw [hFirst, hSecond]
    rcases planPayloadLayout_perm limits hEntries with ⟨layout, hLayout, hLayout'⟩ | ⟨r, r', hReject, hReject'⟩
    · simp only [hLayout, hLayout']
      exact .inl ⟨layout, rfl, rfl⟩
    · simp only [hReject, hReject']
      exact .inr ⟨_, _, rfl, rfl⟩
  · rw [hFirst, hSecond]
    exact .inr ⟨_, _, rfl, rfl⟩

end Order

/-- Planning accepts exactly the acceptable sets, lists each of their entries once in the order of the keys,
and depends on the set only; so does selection followed by planning. -/
theorem planning_exact (limits : PayloadImportLimits) (entries : List PayloadEntryMetadata) :
    ((∃ layout, planPayloadLayout entries limits = .ok layout) ↔ Acceptable limits entries) ∧
    (∀ layout, planPayloadLayout entries limits = .ok layout →
      (∃ planned, List.Forall₂ Describes entries planned ∧ layout.entries.Perm planned) ∧
      layout.entries.Pairwise (fun first second => first.path.portabilityKey < second.path.portabilityKey) ∧
      layout.totalBytes = (entries.map fun entry => entry.sizeBytes.toNat).sum) ∧
    (∀ entries', entries.Perm entries' →
      SameOutcome (planPayloadLayout entries limits) (planPayloadLayout entries' limits)) ∧
    ∀ sha256 recipe offered offered', List.Perm offered offered' →
      SameOutcome (planSelected sha256 offered recipe limits) (planSelected sha256 offered' recipe limits) := by
  refine ⟨?_, fun layout h => ?_, fun entries' hPerm => planPayloadLayout_perm limits hPerm,
    fun sha256 recipe offered offered' hPerm => planSelected_perm limits hPerm⟩
  · simp only [planPayloadLayout_eq_ok, exists_and_left, exists_eq, and_true]
  · obtain ⟨hAcceptable, rfl⟩ := planPayloadLayout_eq_ok.mp h
    exact ⟨⟨_, describes_destinations hAcceptable.parsed, List.mergeSort_perm _ _⟩,
      pairwise_layoutOf hAcceptable.keys, rfl⟩

end OpenHalfLife.Payload
