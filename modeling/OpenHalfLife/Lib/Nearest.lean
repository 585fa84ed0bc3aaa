import Mathlib.Data.List.Perm.Basic
import Mathlib.Data.List.Induction
import Mathlib.Order.Bounds.Basic

/-! # The last one standing

A tournament in which each newcomer meets the winner so far. The relation that
decides the meetings need not be an order.
-/

namespace OpenHalfLife

set_option autoImplicit false

variable {α : Type*} {beats : α → α → Bool} {best rival : α} {rivals : List α}

def duel (beats : α → α → Bool) (best rival : α) : α := if beats rival best then rival else best

def champion (beats : α → α → Bool) : List α → Option α
  | [] => none
  | first :: rivals => some (rivals.foldl (duel beats) first)

theorem foldl_duel_mem (beats : α → α → Bool) (best : α) (rivals : List α) :
    rivals.foldl (duel beats) best ∈ best :: rivals := by
  induction rivals generalizing best with
  | nil => exact List.mem_singleton_self best
  | cons rival rivals ih =>
    have hRest := ih (duel beats best rival)
    rw [List.foldl_cons]
    rcases List.mem_cons.mp hRest with hDuel | hLater
    · rw [hDuel, duel]
      split
      · exact List.mem_cons_of_mem _ List.mem_cons_self
      · exact List.mem_cons_self
    · exact List.mem_cons_of_mem _ (List.mem_cons_of_mem _ hLater)

structure Unbeaten (beats : α → α → Bool) (best : α) (rivals : List α) : Prop where
  wins : ∀ rival ∈ rivals, rival ≠ best → beats best rival = true
  holds : ∀ rival ∈ rivals, beats rival best = false

theorem Unbeaten.perm {rivals' : List α} (h : Unbeaten beats best rivals) (hPerm : rivals'.Perm rivals) :
    Unbeaten beats best rivals' :=
  ⟨fun rival hMem => h.wins rival (hPerm.subset hMem), fun rival hMem => h.holds rival (hPerm.subset hMem)⟩

theorem Unbeaten.foldl_duel (h : Unbeaten beats best rivals) : rivals.foldl (duel beats) best = best := by
  induction rivals with
  | nil => rfl
  | cons rival rivals ih =>
    have hStays : duel beats best rival = best := by
      rw [duel, h.holds rival List.mem_cons_self, if_neg Bool.false_ne_true]
    rw [List.foldl_cons, hStays]
    exact ih ⟨fun r hr => h.wins r (List.mem_cons_of_mem _ hr), fun r hr => h.holds r (List.mem_cons_of_mem _ hr)⟩

theorem Unbeaten.foldl_duel_of_mem (h : Unbeaten beats best (rival :: rivals)) (hMem : best ∈ rival :: rivals) :
    rivals.foldl (duel beats) rival = best := by
  induction rivals generalizing rival with
  | nil => exact (List.mem_singleton.mp hMem).symm
  | cons next rivals ih =>
    by_cases hFirst : rival = best
    · subst hFirst
      exact Unbeaten.foldl_duel ⟨fun r hr => h.wins r (List.mem_cons_of_mem _ hr),
        fun r hr => h.holds r (List.mem_cons_of_mem _ hr)⟩
    · rw [List.foldl_cons]
      have hSub : duel beats rival next :: rivals ⊆ rival :: next :: rivals := by
        intro r hr
        rcases List.mem_cons.mp hr with rfl | hr
        · rw [duel]
          split <;> simp
        · simp [hr]
      have hHere : best ∈ duel beats rival next :: rivals := by
        rcases List.mem_cons.mp hMem with hSame | hMem
        · exact absurd hSame.symm hFirst
        · rcases List.mem_cons.mp hMem with rfl | hLater
          · rw [duel, h.wins rival List.mem_cons_self hFirst, if_pos rfl]
            exact List.mem_cons_self
          · exact List.mem_cons_of_mem _ hLater
      exact ih ⟨fun r hr => h.wins r (hSub hr), fun r hr => h.holds r (hSub hr)⟩ hHere

theorem Unbeaten.champion_eq (h : Unbeaten beats best rivals) (hMem : best ∈ rivals) :
    champion beats rivals = some best := by
  cases rivals with
  | nil => cases hMem
  | cons first rivals => exact congrArg some (h.foldl_duel_of_mem hMem)

theorem champion_ne_of_loses (hLoses : beats rival best = true) (hApart : best ∉ rival :: rivals) :
    champion beats (best :: rival :: rivals) ≠ some best := by
  intro h
  have hDuel : duel beats best rival = rival := by rw [duel, hLoses, if_pos rfl]
  rw [champion, List.foldl_cons, hDuel, Option.some.injEq] at h
  exact hApart (h ▸ foldl_duel_mem beats rival rivals)

end OpenHalfLife

namespace OpenHalfLife

set_option autoImplicit false

/-! ## The nearest of several

A search that keeps the best hit so far. A candidate's hit has to be better to be kept, so it is the
first of the best ones that is found.
-/

variable {α σ K : Type*} [LinearOrder K] {key : σ → K} {reach : α → Option σ} {best hit : σ} {candidate : α}
  {candidates candidates' before after : List α}

def nearer (key : σ → K) (reach : α → Option σ) (best : σ) (candidate : α) : σ :=
  match reach candidate with
  | none => best
  | some hit => if key best ≤ key hit then best else hit

def nearest (key : σ → K) (reach : α → Option σ) (best : σ) (candidates : List α) : σ :=
  candidates.foldl (nearer key reach) best

def NoneBelow (key : σ → K) (reach : α → Option σ) (candidates : List α) (value : K) : Prop :=
  ∀ candidate ∈ candidates, ∀ hit, reach candidate = some hit → value ≤ key hit

def AllAbove (key : σ → K) (reach : α → Option σ) (candidates : List α) (value : K) : Prop :=
  ∀ candidate ∈ candidates, ∀ hit, reach candidate = some hit → value < key hit

@[simp] theorem noneBelow_nil (value : K) : NoneBelow key reach [] value := nofun

@[simp] theorem allAbove_nil (value : K) : AllAbove key reach [] value := nofun

@[simp] theorem noneBelow_cons (value : K) : NoneBelow key reach (candidate :: candidates) value ↔
    (∀ hit, reach candidate = some hit → value ≤ key hit) ∧ NoneBelow key reach candidates value := by
  simp [NoneBelow]

@[simp] theorem allAbove_cons (value : K) : AllAbove key reach (candidate :: candidates) value ↔
    (∀ hit, reach candidate = some hit → value < key hit) ∧ AllAbove key reach candidates value := by
  simp [AllAbove]

@[simp] theorem noneBelow_append (value : K) : NoneBelow key reach (before ++ after) value ↔
    NoneBelow key reach before value ∧ NoneBelow key reach after value := by
  simp only [NoneBelow, List.mem_append, or_imp, forall_and]

theorem AllAbove.noneBelow {value : K} (h : AllAbove key reach candidates value) :
    NoneBelow key reach candidates value :=
  fun candidate hMem hit hReach => (h candidate hMem hit hReach).le

theorem NoneBelow.mono {value low : K} (h : NoneBelow key reach candidates value) (hLow : low ≤ value) :
    NoneBelow key reach candidates low :=
  fun candidate hMem hit hReach => hLow.trans (h candidate hMem hit hReach)

theorem nearest_append (best : σ) (before after : List α) :
    nearest key reach best (before ++ after) = nearest key reach (nearest key reach best before) after := by
  simp [nearest]

theorem nearer_of_none (best : σ) (h : reach candidate = none) : nearer key reach best candidate = best := by
  simp [nearer, h]

theorem nearer_of_le (h : reach candidate = some hit) (hLe : key best ≤ key hit) :
    nearer key reach best candidate = best := by
  simp [nearer, h, hLe]

theorem nearer_of_lt (h : reach candidate = some hit) (hLt : key hit < key best) :
    nearer key reach best candidate = hit := by
  simp [nearer, h, not_le.mpr hLt]

theorem nearest_eq_self (h : NoneBelow key reach candidates (key best)) : nearest key reach best candidates = best := by
  induction candidates with
  | nil => rfl
  | cons candidate candidates ih =>
    obtain ⟨hFirst, hRest⟩ := (noneBelow_cons _).mp h
    have hKeep : nearer key reach best candidate = best := by
      cases hReach : reach candidate with
      | none => exact nearer_of_none best hReach
      | some hit => exact nearer_of_le hReach (hFirst hit hReach)
    calc nearest key reach best (candidate :: candidates)
        = nearest key reach (nearer key reach best candidate) candidates := rfl
      _ = best := by rw [hKeep, ih hRest]

theorem lt_key_nearest {value : K} (hBest : value < key best) (h : AllAbove key reach candidates value) :
    value < key (nearest key reach best candidates) := by
  induction candidates generalizing best with
  | nil => exact hBest
  | cons candidate candidates ih =>
    obtain ⟨hFirst, hRest⟩ := (allAbove_cons _).mp h
    refine ih ?_ hRest
    rw [nearer]
    split
    · exact hBest
    · rename_i hit hReach
      split
      · exact hBest
      · exact hFirst hit hReach

theorem nearest_eq_hit (h : reach candidate = some hit) (hBest : key hit < key best)
    (hBefore : AllAbove key reach before (key hit)) (hAfter : NoneBelow key reach after (key hit)) :
    nearest key reach best (before ++ candidate :: after) = hit := by
  have hLt := lt_key_nearest hBest hBefore
  calc nearest key reach best (before ++ candidate :: after)
      = nearest key reach (nearer key reach (nearest key reach best before) candidate) after := by
        rw [nearest_append]; rfl
    _ = hit := by rw [nearer_of_lt h hLt, nearest_eq_self hAfter]

/-- Either nothing is better, or the first of the best candidates is found. -/
inductive Found (key : σ → K) (reach : α → Option σ) (best : σ) (candidates : List α) : Prop
  | kept : NoneBelow key reach candidates (key best) → Found key reach best candidates
  | hit (before after : List α) (candidate : α) (hit : σ) : candidates = before ++ candidate :: after →
    reach candidate = some hit → key hit < key best → AllAbove key reach before (key hit) →
    NoneBelow key reach after (key hit) → Found key reach best candidates

theorem found (key : σ → K) (reach : α → Option σ) (best : σ) (candidates : List α) :
    Found key reach best candidates := by
  induction candidates with
  | nil => exact .kept (noneBelow_nil _)
  | cons candidate candidates ih =>
    cases hReach : reach candidate with
    | none =>
      cases ih with
      | kept hNone => exact .kept (by simp [hReach, hNone])
      | hit before after other hit hSplit hFound hLt hBefore hAfter =>
        exact .hit (candidate :: before) after other hit (by simp [hSplit]) hFound hLt (by simp [hReach, hBefore]) hAfter
    | some first =>
      cases ih with
      | kept hNone =>
        rcases le_or_gt (key best) (key first) with hLe | hLt
        · exact .kept (by simp [hReach, hLe, hNone])
        · exact .hit [] candidates candidate first rfl hReach hLt (allAbove_nil _) (hNone.mono hLt.le)
      | hit before after other hit hSplit hFound hLt hBefore hAfter =>
        rcases le_or_gt (key first) (key hit) with hLe | hGt
        · refine .hit [] candidates candidate first rfl hReach (hLe.trans_lt hLt) (allAbove_nil _) ?_
          rw [hSplit, noneBelow_append, noneBelow_cons]
          refine ⟨hBefore.noneBelow.mono hLe, ?_, hAfter.mono hLe⟩
          rintro _ hOther
          rwa [← Option.some.inj (hFound.symm.trans hOther)]
        · exact .hit (candidate :: before) after other hit (by simp [hSplit]) hFound hLt
            (by simp [hReach, hGt, hBefore]) hAfter

end OpenHalfLife
