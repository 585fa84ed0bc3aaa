import OpenHalfLife.Import.Catalog

/-! # What the planner accepts

One turn of the planner's loop adds an entry that has room under every quota;
the loop accepts exactly the enumerations that fit as a whole.
-/

namespace OpenHalfLife.Import

open Result

set_option autoImplicit false

structure Plan.Room (limits : ImportLimits) (plan : Plan) (entry : EntryMetadata) : Prop where
  token : entry.sourceToken ∉ plan.planned.map PlannedEntry.sourceToken
  size : entry.sizeBytes.toNat ≤ limits.entryBytes
  total : plan.totalBytes + entry.sizeBytes.toNat ≤ limits.totalBytes
  path : plan.pathBytes + entry.archivePath.length ≤ limits.pathBytes

structure EntryMetadata.Plans (entry : EntryMetadata) (planned : PlannedEntry) : Prop where
  token : planned.sourceToken = entry.sourceToken
  size : planned.sizeBytes = entry.sizeBytes
  path : normalizePath entry.archivePath = some planned.relativePath.text
  notRoot : planned.relativePath.text ≠ [slash]

structure Plan.Added (plan : Plan) (entry : EntryMetadata) (planned : PlannedEntry) (plan' : Plan) :
    Prop where
  plans : entry.Plans planned
  folded : planned.folded ∉ plan.planned.map PlannedEntry.folded
  planned_eq : plan'.planned = plan.planned ++ [planned]
  pathBytes_eq : plan'.pathBytes = plan.pathBytes + entry.archivePath.length

namespace Plan

variable {limits : ImportLimits} {plan plan' : Plan} {entry : EntryMetadata}

theorem add_ok (h : plan.add limits entry = .ok plan') :
    plan.Room limits entry ∧ ∃ planned, plan.Added entry planned plan' := by
  unfold add at h
  split at h
  · cases h
  rename_i tokens hTokens
  simp only [ite_error_eq_ok, not_or] at h
  obtain ⟨hSize, hTotal, hPath, h⟩ := h
  split at h
  · cases h
  rename_i normalized hNormalized
  rw [ite_error_eq_ok] at h
  obtain ⟨hRoot, h⟩ := h
  split at h
  · cases h
  rename_i folded hFolded
  cases h
  refine ⟨⟨?_, by omega, by omega, by omega⟩, ⟨entry.sourceToken, ⟨normalized, _, hNormalized⟩,
    entry.sizeBytes⟩, ⟨rfl, rfl, hNormalized, hRoot⟩, ?_, rfl, rfl⟩
  · rw [← plan.tokens_perm.mem_iff]
    exact (SortedSet.insert_eq_some hTokens).1
  · rw [← plan.folded_perm.mem_iff]
    exact (SortedSet.insert_eq_some hFolded).1

theorem add_of_room (h : plan.Room limits entry) :
    (∃ plan', plan.add limits entry = .ok plan') ∨
    (plan.add limits entry = .error .invalidPath ∧ ∀ planned, ¬ entry.Plans planned) ∨
    (plan.add limits entry = .error .pathConflict ∧ ∃ planned, entry.Plans planned ∧
      planned.folded ∈ plan.planned.map PlannedEntry.folded) := by
  obtain ⟨hToken, hSize, hTotal, hPath⟩ := h
  have hTotals := limits.totalBytes_le
  have hPaths := limits.pathBytes_le
  simp only [Protocol.maximumEnumeratedTotalBytes, Protocol.maximumEnumeratedPathBytes] at hTotals hPaths
  rw [← plan.tokens_perm.mem_iff] at hToken
  unfold add
  split
  · rename_i hTokens
    exact absurd (SortedSet.insert_eq_none.mp hTokens) hToken
  rw [if_neg (by omega), if_neg (by omega), if_neg (by omega)]
  split
  · rename_i hNormalized
    refine .inr (.inl ⟨rfl, fun planned hPlans => ?_⟩)
    rw [hPlans.path] at hNormalized
    cases hNormalized
  rename_i normalized hNormalized
  split
  · rename_i hRoot
    refine .inr (.inl ⟨rfl, fun planned hPlans => hPlans.notRoot ?_⟩)
    exact (Option.some.inj (hPlans.path.symm.trans hNormalized)).trans hRoot
  rename_i hRoot
  split
  · rename_i hFolded
    refine .inr (.inr ⟨rfl, ⟨entry.sourceToken, ⟨normalized, _, hNormalized⟩, entry.sizeBytes⟩,
      ⟨rfl, rfl, hNormalized, hRoot⟩, ?_⟩)
    rw [← plan.folded_perm.mem_iff]
    exact SortedSet.insert_eq_none.mp hFolded
  · exact .inl ⟨_, rfl⟩

theorem addAll_snoc (entries : List EntryMetadata) (entry : EntryMetadata) :
    addAll limits (entries ++ [entry]) = addAll limits entries >>= fun plan => plan.add limits entry := by
  simp [addAll, List.foldlM_append]

end Plan

/-- The quotas over a whole enumeration, and no token used twice. -/
structure WithinQuotas (limits : ImportLimits) (entries : List EntryMetadata) : Prop where
  tokens : (entries.map EntryMetadata.sourceToken).Nodup
  sizes : ∀ entry ∈ entries, entry.sizeBytes.toNat ≤ limits.entryBytes
  total : (entries.map fun entry => entry.sizeBytes.toNat).sum ≤ limits.totalBytes
  paths : (entries.map fun entry => entry.archivePath.length).sum ≤ limits.pathBytes

theorem WithinQuotas.of_snoc {limits : ImportLimits} {entries : List EntryMetadata}
    {entry : EntryMetadata} (h : WithinQuotas limits (entries ++ [entry])) :
    WithinQuotas limits entries := by
  obtain ⟨hTokens, hSizes, hTotal, hPaths⟩ := h
  simp only [List.map_append, List.sum_append] at hTokens hTotal hPaths
  exact ⟨hTokens.of_append_left, fun e he => hSizes e (List.mem_append_left _ he), by omega, by omega⟩

def EntryMetadata.foldedPath (entry : EntryMetadata) : Option Text :=
  (normalizePath entry.archivePath).map toAsciiLowercase

def foldedPaths (entries : List EntryMetadata) : List Text := entries.filterMap EntryMetadata.foldedPath

theorem EntryMetadata.Plans.foldedPath_eq {entry : EntryMetadata} {planned : PlannedEntry}
    (h : entry.Plans planned) : entry.foldedPath = some planned.folded := by
  rw [foldedPath, h.path]
  rfl

section Planned

variable {entries : List EntryMetadata} {planned : List PlannedEntry}

theorem planned_map_eq {β : Type} {f : EntryMetadata → β} {g : PlannedEntry → β}
    (h : List.Forall₂ EntryMetadata.Plans entries planned)
    (hfg : ∀ entry planned, entry.Plans planned → g planned = f entry) :
    planned.map g = entries.map f := by
  induction h with
  | nil => rfl
  | cons hPlans _ ih => rw [List.map_cons, List.map_cons, ih, hfg _ _ hPlans]

theorem foldedPaths_eq (h : List.Forall₂ EntryMetadata.Plans entries planned) :
    planned.map PlannedEntry.folded = foldedPaths entries := by
  induction h with
  | nil => rfl
  | cons hPlans _ ih =>
    rw [List.map_cons, ih, foldedPaths, foldedPaths, List.filterMap_cons_some hPlans.foldedPath_eq]

theorem plans_of_mem (h : List.Forall₂ EntryMetadata.Plans entries planned) {entry : EntryMetadata}
    (hMem : entry ∈ entries) : ∃ p ∈ planned, entry.Plans p := by
  induction h with
  | nil => cases hMem
  | cons hPlans _ ih =>
    rcases List.mem_cons.mp hMem with rfl | hMem
    · exact ⟨_, List.mem_cons_self, hPlans⟩
    · obtain ⟨p, hp, hPlans'⟩ := ih hMem
      exact ⟨p, List.mem_cons_of_mem _ hp, hPlans'⟩

end Planned

structure PlansAll (entries : List EntryMetadata) (plan : Plan) : Prop where
  planned : List.Forall₂ EntryMetadata.Plans entries plan.planned
  pathBytes : plan.pathBytes = (entries.map fun entry => entry.archivePath.length).sum

namespace PlansAll

variable {limits : ImportLimits} {entries : List EntryMetadata} {plan plan' : Plan}

theorem folded_eq (h : PlansAll entries plan) :
    plan.planned.map PlannedEntry.folded = foldedPaths entries := foldedPaths_eq h.planned

theorem total_eq (h : PlansAll entries plan) :
    plan.totalBytes = (entries.map fun entry => entry.sizeBytes.toNat).sum := by
  rw [plan.totalBytes_eq, planned_map_eq h.planned fun entry planned hPlans => by rw [hPlans.size]]

theorem tokens_eq (h : PlansAll entries plan) :
    plan.planned.map PlannedEntry.sourceToken = entries.map EntryMetadata.sourceToken :=
  planned_map_eq h.planned fun _ _ hPlans => hPlans.token

theorem snoc {entry : EntryMetadata} {planned : PlannedEntry} (h : PlansAll entries plan)
    (hAdded : plan.Added entry planned plan') : PlansAll (entries ++ [entry]) plan' := by
  constructor
  · rw [hAdded.planned_eq]
    exact List.rel_append h.planned (.cons hAdded.plans .nil)
  · simp [hAdded.pathBytes_eq, h.pathBytes]

theorem room_iff {entry : EntryMetadata} (h : PlansAll entries plan) (hQuotas : WithinQuotas limits entries) :
    plan.Room limits entry ↔ WithinQuotas limits (entries ++ [entry]) := by
  have hTokens := hQuotas.tokens
  constructor
  · rintro ⟨hToken, hSize, hTotal, hPath⟩
    rw [h.tokens_eq] at hToken
    rw [h.total_eq] at hTotal
    rw [h.pathBytes] at hPath
    refine ⟨?_, ?_, by simpa using hTotal, by simpa using hPath⟩
    · rw [List.map_append, List.nodup_append]
      exact ⟨hTokens, by simp, fun a ha b hb => by rintro rfl; exact hToken (by simp_all)⟩
    · intro e he
      rcases List.mem_append.mp he with he | he
      · exact hQuotas.sizes e he
      · rwa [List.mem_singleton.mp he]
  · rintro ⟨hTokens', hSizes, hTotal, hPaths⟩
    refine ⟨?_, hSizes entry (by simp), ?_, ?_⟩
    · rw [h.tokens_eq]
      rw [List.map_append, List.nodup_append] at hTokens'
      exact fun hMem => hTokens'.2.2 _ hMem entry.sourceToken (by simp) rfl
    · rw [h.total_eq]
      simpa using hTotal
    · rw [h.pathBytes]
      simpa using hPaths

end PlansAll

namespace Plan

variable {limits : ImportLimits} {entries : List EntryMetadata} {plan : Plan}

theorem addAll_ok (h : addAll limits entries = .ok plan) :
    PlansAll entries plan ∧ WithinQuotas limits entries := by
  induction entries using List.reverseRecOn generalizing plan with
  | nil =>
    cases h
    exact ⟨⟨.nil, rfl⟩, .nil, by simp, by simp, by simp⟩
  | append_singleton entries entry ih =>
    rw [addAll_snoc, bind_eq_ok] at h
    obtain ⟨before, hBefore, hAdd⟩ := h
    obtain ⟨hPlans, hQuotas⟩ := ih hBefore
    obtain ⟨hRoom, planned, hAdded⟩ := add_ok hAdd
    exact ⟨hPlans.snoc hAdded, (hPlans.room_iff hQuotas).mp hRoom⟩

theorem folded_nodup (plan : Plan) : (plan.planned.map PlannedEntry.folded).Nodup :=
  plan.folded_perm.nodup_iff.mp (plan.folded.sorted.imp ne_of_lt)

theorem addAll_of_quotas (h : WithinQuotas limits entries) :
    (∃ plan, addAll limits entries = .ok plan) ∨
    (addAll limits entries = .error .invalidPath ∧
      ∃ entry ∈ entries, ∀ planned, ¬ entry.Plans planned) ∨
    (addAll limits entries = .error .pathConflict ∧ ¬ (foldedPaths entries).Nodup) := by
  induction entries using List.reverseRecOn with
  | nil => exact .inl ⟨_, rfl⟩
  | append_singleton entries entry ih =>
    simp only [addAll_snoc]
    rcases ih h.of_snoc with ⟨plan, hPlan⟩ | ⟨hError, bad, hMem, hBad⟩ | ⟨hError, hDup⟩
    · rw [hPlan]
      obtain ⟨hPlans, hQuotas⟩ := addAll_ok hPlan
      rcases add_of_room ((hPlans.room_iff hQuotas).mpr h) with
        hOk | ⟨hError, hBad⟩ | ⟨hError, planned, hPlanned, hMem⟩
      · exact .inl hOk
      · exact .inr (.inl ⟨hError, entry, by simp, hBad⟩)
      · refine .inr (.inr ⟨hError, fun hNodup => ?_⟩)
        rw [hPlans.folded_eq] at hMem
        rw [foldedPaths, List.filterMap_append, List.nodup_append] at hNodup
        exact hNodup.2.2 _ hMem planned.folded (by simp [hPlanned.foldedPath_eq]) rfl
    · exact .inr (.inl ⟨by rw [hError]; rfl, bad, by simp [hMem], hBad⟩)
    · refine .inr (.inr ⟨by rw [hError]; rfl, fun hNodup => hDup ?_⟩)
      rw [foldedPaths, List.filterMap_append] at hNodup
      exact hNodup.of_append_left

end Plan

theorem planCatalog_of_quotas {limits : ImportLimits} {entries : List EntryMetadata}
    (hCount : entries.length ≤ limits.entries) (h : WithinQuotas limits entries) :
    (∃ catalog, planCatalog entries limits = .ok catalog ∧
      List.Forall₂ EntryMetadata.Plans entries catalog.entries ∧
      catalog.totalBytes = (entries.map fun entry => entry.sizeBytes.toNat).sum) ∨
    planCatalog entries limits = .error .invalidPath ∨
    planCatalog entries limits = .error .pathConflict := by
  rw [planCatalog, if_neg (by omega)]
  rcases Plan.addAll_of_quotas h with ⟨plan, hPlan⟩ | ⟨hError, -⟩ | ⟨hError, -⟩
  · obtain ⟨hPlans, -⟩ := Plan.addAll_ok hPlan
    rw [hPlan]
    cases hConflict : neighbourConflict none plan.folded.elements with
    | true => exact .inr (.inr (by simp [bind, Except.bind, hConflict]))
    | false =>
      refine .inl ⟨plan.catalog, by simp [bind, Except.bind, hConflict], hPlans.planned, ?_⟩
      exact hPlans.total_eq
  · exact .inr (.inl (by rw [hError]; rfl))
  · exact .inr (.inr (by rw [hError]; rfl))

end OpenHalfLife.Import
