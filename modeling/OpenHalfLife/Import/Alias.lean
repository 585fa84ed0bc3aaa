import OpenHalfLife.Import.Planner

/-! # File and directory aliases

The planner looks for an entry below another one only between neighbours of
the sorted folded paths. A byte below the slash can separate them.
-/

namespace OpenHalfLife.Import

open Result

set_option autoImplicit false

/-- `q` lies in the directory `p`. -/
def DirectoryPrefix (p q : Text) : Prop := p ++ [slash] <+: q

theorem isDirectoryPrefix_iff {p q : Text} : isDirectoryPrefix p q = true ↔ DirectoryPrefix p q := by
  simp only [isDirectoryPrefix, DirectoryPrefix, Bool.and_eq_true, decide_eq_true_eq,
    List.isPrefixOf_iff_prefix]
  constructor
  · rintro ⟨⟨-, r, rfl⟩, hSlash⟩
    cases r with
    | nil => simp at hSlash
    | cons c r =>
      rw [List.getElem?_append_right le_rfl, Nat.sub_self, List.getElem?_cons_zero] at hSlash
      exact ⟨r, by simp [Option.some.inj hSlash]⟩
  · rintro ⟨r, rfl⟩
    refine ⟨⟨by simp, [slash] ++ r, by simp⟩, ?_⟩
    rw [List.append_assoc, List.getElem?_append_right le_rfl, Nat.sub_self]
    rfl

theorem neighbourConflict_some (previous : Text) (paths : List Text) :
    neighbourConflict (some previous) paths = false ↔
      (previous :: paths).IsChain fun p q => ¬ DirectoryPrefix p q := by
  induction paths generalizing previous with
  | nil => simp [neighbourConflict]
  | cons path paths ih =>
    rw [neighbourConflict, Bool.or_eq_false_iff, ih, List.isChain_cons_cons, ← isDirectoryPrefix_iff]
    simp

theorem neighbourConflict_none (paths : List Text) :
    neighbourConflict none paths = false ↔ paths.IsChain fun p q => ¬ DirectoryPrefix p q := by
  cases paths with
  | nil => simp [neighbourConflict]
  | cons path paths => simpa [neighbourConflict] using neighbourConflict_some path paths

structure Plannable (limits : ImportLimits) (entries : List EntryMetadata) : Prop
    extends WithinQuotas limits entries where
  count : entries.length ≤ limits.entries
  valid : ∀ entry ∈ entries, ∃ path, normalizePath entry.archivePath = some path ∧ path ≠ [slash]
  distinct : (foldedPaths entries).Nodup

/-- Some entry with others in its directory has none that extends it by a byte
below the slash. -/
def HasVisibleAlias (paths : List Text) : Prop :=
  ∃ p ∈ paths, (∃ q ∈ paths, DirectoryPrefix p q) ∧ ∀ q ∈ paths, ∀ c < slash, ¬ p ++ [c] <+: q

theorem neighbourConflict_plan {entries : List EntryMetadata} {plan : Plan} (h : PlansAll entries plan) :
    neighbourConflict none plan.folded.elements = true ↔ HasVisibleAlias (foldedPaths entries) := by
  have hMem : ∀ p, p ∈ plan.folded.elements ↔ p ∈ foldedPaths entries := by
    intro p
    rw [plan.folded_perm.mem_iff, h.folded_eq]
  rw [← Bool.not_eq_false, neighbourConflict_none]
  have hNeighbour := exists_neighbour_iff plan.folded.sorted slash
  simp only [hMem] at hNeighbour
  exact hNeighbour

variable {limits : ImportLimits} {entries : List EntryMetadata}

theorem planCatalog_ok {catalog : Catalog} (h : planCatalog entries limits = .ok catalog) :
    Plannable limits entries ∧ ¬ HasVisibleAlias (foldedPaths entries) ∧
      List.Forall₂ EntryMetadata.Plans entries catalog.entries := by
  simp only [planCatalog, ite_error_eq_ok, bind_eq_ok] at h
  obtain ⟨hCount, plan, hPlan, hConflict, hCatalog⟩ := h
  cases hCatalog
  obtain ⟨hPlans, hQuotas⟩ := Plan.addAll_ok hPlan
  refine ⟨⟨hQuotas, by omega, fun entry hEntry => ?_, ?_⟩, ?_, hPlans.planned⟩
  · obtain ⟨planned, -, hPlanned⟩ := plans_of_mem hPlans.planned hEntry
    exact ⟨_, hPlanned.path, hPlanned.notRoot⟩
  · rw [← hPlans.folded_eq]
    exact plan.folded_nodup
  · rwa [← neighbourConflict_plan hPlans]

theorem planCatalog_of_plannable (h : Plannable limits entries)
    (hAlias : ¬ HasVisibleAlias (foldedPaths entries)) : ∃ catalog, planCatalog entries limits = .ok catalog := by
  rcases Plan.addAll_of_quotas h.toWithinQuotas with ⟨plan, hPlan⟩ | ⟨-, entry, hMem, hBad⟩ | ⟨-, hDup⟩
  · refine ⟨plan.catalog, ?_⟩
    rw [← neighbourConflict_plan (Plan.addAll_ok hPlan).1] at hAlias
    simp only [planCatalog, ite_error_eq_ok, bind_eq_ok]
    exact ⟨Nat.not_lt.mpr h.count, plan, hPlan, hAlias, rfl⟩
  · obtain ⟨path, hPath, hRoot⟩ := h.valid entry hMem
    exact absurd ⟨rfl, rfl, hPath, hRoot⟩
      (hBad ⟨entry.sourceToken, ⟨path, _, hPath⟩, entry.sizeBytes⟩)
  · exact absurd h.distinct hDup

/-- No two entries share a folded path, and none lies in another's directory. -/
structure Catalog.ConflictFree (catalog : Catalog) : Prop where
  distinct : catalog.entries.Pairwise fun a b => a.folded ≠ b.folded
  noAlias : ∀ a ∈ catalog.entries, ∀ b ∈ catalog.entries, ¬ DirectoryPrefix a.folded b.folded

/-- The planner's contract: what it accepts is free of conflicts, and it accepts
everything that breaks no rule. -/
def PlannedSafely (entries : List EntryMetadata) (limits : ImportLimits) : Prop :=
  (∀ catalog, planCatalog entries limits = .ok catalog → catalog.ConflictFree) ∧
    (Plannable limits entries →
      (∀ p ∈ foldedPaths entries, ∀ q ∈ foldedPaths entries, ¬ DirectoryPrefix p q) →
      ∃ catalog, planCatalog entries limits = .ok catalog)

/-- There is an alias, and a path extended by a byte below the slash hides every one. -/
def Shadowed (paths : List Text) : Prop :=
  (∃ p ∈ paths, ∃ q ∈ paths, DirectoryPrefix p q) ∧
    ∀ p ∈ paths, ∀ q ∈ paths, DirectoryPrefix p q → ∃ r ∈ paths, ∃ c < slash, p ++ [c] <+: r

theorem shadowed_iff {paths : List Text} :
    Shadowed paths ↔ (∃ p ∈ paths, ∃ q ∈ paths, DirectoryPrefix p q) ∧ ¬ HasVisibleAlias paths := by
  refine and_congr_right fun _ => ?_
  constructor
  · rintro hShadow ⟨p, hp, ⟨q, hq, hAlias⟩, hNone⟩
    obtain ⟨r, hr, c, hc, hPrefix⟩ := hShadow p hp q hq hAlias
    exact hNone r hr c hc hPrefix
  · intro hVisible p hp q hq hAlias
    by_contra hNone
    push Not at hNone
    exact hVisible ⟨p, hp, ⟨q, hq, hAlias⟩, hNone⟩

theorem conflictFree_iff {catalog : Catalog} (h : planCatalog entries limits = .ok catalog) :
    catalog.ConflictFree ↔
      ∀ p ∈ foldedPaths entries, ∀ q ∈ foldedPaths entries, ¬ DirectoryPrefix p q := by
  obtain ⟨hPlannable, -, hPlanned⟩ := planCatalog_ok h
  rw [← foldedPaths_eq hPlanned]
  have hDistinct : catalog.entries.Pairwise fun a b => a.folded ≠ b.folded := by
    rw [← List.pairwise_map, foldedPaths_eq hPlanned]
    exact hPlannable.distinct
  simp only [List.mem_map, forall_exists_index, and_imp, forall_apply_eq_imp_iff₂]
  exact ⟨fun hFree a ha b hb => hFree.noAlias a ha b hb, fun hAlias => ⟨hDistinct, hAlias⟩⟩

/-- The contract fails exactly on otherwise acceptable entries whose aliases are
all hidden from the neighbour check. -/
theorem plannedSafely_iff (entries : List EntryMetadata) (limits : ImportLimits) :
    PlannedSafely entries limits ↔ ¬ (Plannable limits entries ∧ Shadowed (foldedPaths entries)) := by
  constructor
  · rintro ⟨hSafe, -⟩ ⟨hPlannable, hShadowed⟩
    obtain ⟨⟨p, hp, q, hq, hAlias⟩, hHidden⟩ := shadowed_iff.mp hShadowed
    obtain ⟨catalog, hCatalog⟩ := planCatalog_of_plannable hPlannable hHidden
    exact (conflictFree_iff hCatalog).mp (hSafe catalog hCatalog) p hp q hq hAlias
  · intro hNot
    refine ⟨fun catalog hCatalog => ?_, fun hPlannable hFree => ?_⟩
    · obtain ⟨hPlannable, hHidden, -⟩ := planCatalog_ok hCatalog
      rw [conflictFree_iff hCatalog]
      intro p hp q hq hAlias
      exact hNot ⟨hPlannable, shadowed_iff.mpr ⟨⟨p, hp, q, hq, hAlias⟩, hHidden⟩⟩
    · refine planCatalog_of_plannable hPlannable ?_
      rintro ⟨p, hp, ⟨q, hq, hAlias⟩, -⟩
      exact hFree p hp q hq hAlias

/-- The files `a`, `a b` and `a/b`: the space sorts below the slash. -/
def hiddenAlias : List EntryMetadata :=
  [⟨0, [0x61], 0⟩, ⟨1, [0x61, 0x20, 0x62], 0⟩, ⟨2, [0x61, 0x2f, 0x62], 0⟩]

theorem hiddenAlias_not_plannedSafely : ¬ PlannedSafely hiddenAlias .default := by
  intro hSafe
  have hOk : (planCatalog hiddenAlias .default).map (fun catalog => catalog.entries.map PlannedEntry.folded) =
      .ok [[0x2f, 0x61], [0x2f, 0x61, 0x20, 0x62], [0x2f, 0x61, 0x2f, 0x62]] := by decide
  cases hCatalog : planCatalog hiddenAlias .default with
  | error e =>
    rw [hCatalog] at hOk
    cases hOk
  | ok catalog =>
    rw [hCatalog] at hOk
    have hPaths : catalog.entries.map PlannedEntry.folded = _ := Except.ok.inj hOk
    have hFile : [0x2f, 0x61] ∈ catalog.entries.map PlannedEntry.folded := by rw [hPaths]; decide
    have hBelow : [0x2f, 0x61, 0x2f, 0x62] ∈ catalog.entries.map PlannedEntry.folded := by
      rw [hPaths]; decide
    obtain ⟨a, ha, hFolded⟩ := List.mem_map.mp hFile
    obtain ⟨b, hb, hFolded'⟩ := List.mem_map.mp hBelow
    refine (hSafe.1 catalog hCatalog).noAlias a ha b hb ?_
    rw [hFolded, hFolded']
    exact ⟨[0x62], rfl⟩

end OpenHalfLife.Import
