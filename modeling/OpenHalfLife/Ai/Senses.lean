import Mathlib.Algebra.Order.Field.Rat
import Mathlib.Algebra.Order.Ring.Abs
import Mathlib.Data.List.Nodup
import Mathlib.Tactic.Linarith
import Mathlib.Tactic.NormNum
import OpenHalfLife.Lib.Nearest

/-! # The choice of an enemy

Of what a monster sees, the hostile and living are compared by relationship,
then by distance, then by name. Distances that differ by no more than a small
gap count as equal.
-/

namespace OpenHalfLife.Ai

set_option autoImplicit false

inductive Relationship
  | fear
  | ally
  | noRelationship
  | dislike
  | hate
  | nemesis
  deriving DecidableEq

namespace Relationship

def tag : Relationship → Nat
  | fear => 0
  | ally => 1
  | noRelationship => 2
  | dislike => 3
  | hate => 4
  | nemesis => 5

def isHostile : Relationship → Bool
  | dislike | hate | nemesis => true
  | fear | ally | noRelationship => false

end Relationship

structure Sighting (K : Type) where
  entity : Nat
  relationship : Relationship
  distance : K
  alive : Bool
  deriving DecidableEq

variable {K : Type}

namespace Sighting

def isEnemy (sighting : Sighting K) : Bool := sighting.relationship.isHostile && sighting.alive

variable [LinearOrder K]

def better [Field K] (epsilon : K) (candidate best : Sighting K) : Bool :=
  match compare candidate.relationship.tag best.relationship.tag with
  | .gt => true
  | .lt => false
  | .eq =>
    if epsilon < |candidate.distance - best.distance| then candidate.distance < best.distance
    else candidate.entity < best.entity

end Sighting

variable [LinearOrder K]

def selectEnemy [Field K] (epsilon : K) (visible : List (Sighting K)) : Option (Sighting K) :=
  champion (Sighting.better epsilon) (visible.filter Sighting.isEnemy)

/-! ## What the choice is meant to be -/

namespace Sighting

/-- One enemy is to be preferred: it is the worse one, or as bad and nearer, or as
near too and of the lower name. -/
def Precedes (s t : Sighting K) : Prop :=
  t.relationship.tag < s.relationship.tag ∨ t.relationship = s.relationship ∧
    (s.distance < t.distance ∨ s.distance = t.distance ∧ s.entity ≤ t.entity)

def Enemy (visible : List (Sighting K)) (s : Sighting K) : Prop := s ∈ visible ∧ s.isEnemy = true

def Worst (visible : List (Sighting K)) (s : Sighting K) : Prop :=
  Enemy visible s ∧ ∀ other, Enemy visible other → s.Precedes other

end Sighting

open Sighting

/-- The choice is the worst enemy, in whatever order the sightings come. -/
structure OrderFree [Field K] (epsilon : K) (visible : List (Sighting K)) : Prop where
  perm : ∀ other, other.Perm visible → selectEnemy epsilon other = selectEnemy epsilon visible
  worst : ∀ s, Enemy visible s → ∃ best, selectEnemy epsilon visible = some best ∧ Worst visible best

/-- No enemy as bad as the worst one is farther by a gap that counts as none and of a lower name. -/
def WellSpaced [Field K] (epsilon : K) (visible : List (Sighting K)) : Prop :=
  ∀ best rival, Worst visible best → Enemy visible rival → rival.relationship = best.relationship →
    best.distance < rival.distance → rival.distance - best.distance ≤ epsilon → best.entity < rival.entity

theorem Relationship.tag_inj {a b : Relationship} (h : a.tag = b.tag) : a = b := by
  cases a <;> cases b <;> first | rfl | cases h

namespace Sighting

theorem precedes_refl (s : Sighting K) : s.Precedes s := .inr ⟨rfl, .inr ⟨rfl, le_rfl⟩⟩

theorem Precedes.trans {s t u : Sighting K} (hst : s.Precedes t) (htu : t.Precedes u) : s.Precedes u := by
  rcases hst with hTag | ⟨hSame, hst⟩
  · rcases htu with hTag' | ⟨hSame', -⟩
    · exact .inl (hTag'.trans hTag)
    · exact .inl (hSame' ▸ hTag)
  · rcases htu with hTag' | ⟨hSame', htu⟩
    · exact .inl (hSame ▸ hTag')
    · refine .inr ⟨hSame'.trans hSame, ?_⟩
      rcases hst with hNear | ⟨hDistance, hEntity⟩
      · rcases htu with hNear' | ⟨hDistance', -⟩
        · exact .inl (hNear.trans hNear')
        · exact .inl (hDistance' ▸ hNear)
      · rcases htu with hNear' | ⟨hDistance', hEntity'⟩
        · exact .inl (hDistance ▸ hNear')
        · exact .inr ⟨hDistance.trans hDistance', hEntity.trans hEntity'⟩

theorem precedes_total (s t : Sighting K) : s.Precedes t ∨ t.Precedes s := by
  rcases lt_trichotomy s.relationship.tag t.relationship.tag with hTag | hTag | hTag
  · exact .inr (.inl hTag)
  · have hSame := Relationship.tag_inj hTag
    rcases lt_trichotomy s.distance t.distance with hNear | hNear | hNear
    · exact .inl (.inr ⟨hSame.symm, .inl hNear⟩)
    · rcases Nat.le_total s.entity t.entity with hEntity | hEntity
      · exact .inl (.inr ⟨hSame.symm, .inr ⟨hNear, hEntity⟩⟩)
      · exact .inr (.inr ⟨hSame, .inr ⟨hNear.symm, hEntity⟩⟩)
    · exact .inr (.inr ⟨hSame, .inl hNear⟩)
  · exact .inl (.inl hTag)

theorem exists_preceding {enemies : List (Sighting K)} (h : enemies ≠ []) :
    ∃ best ∈ enemies, ∀ other ∈ enemies, best.Precedes other := by
  induction enemies with
  | nil => exact absurd rfl h
  | cons first rest ih =>
    cases rest with
    | nil => exact ⟨first, List.mem_cons_self, by simp [precedes_refl]⟩
    | cons second rest =>
      obtain ⟨best, hMem, hBest⟩ := ih (List.cons_ne_nil _ _)
      rcases precedes_total first best with hFirst | hFirst
      · refine ⟨first, List.mem_cons_self, fun other hOther => ?_⟩
        rcases List.mem_cons.mp hOther with rfl | hOther
        · exact precedes_refl _
        · exact hFirst.trans (hBest other hOther)
      · refine ⟨best, List.mem_cons_of_mem _ hMem, fun other hOther => ?_⟩
        rcases List.mem_cons.mp hOther with rfl | hOther
        · exact hFirst
        · exact hBest other hOther

theorem Precedes.antisymm {s t : Sighting K} (hst : s.Precedes t) (hts : t.Precedes s) : s.entity = t.entity := by
  rcases hst with hTag | ⟨hSame, hst⟩
  · rcases hts with hTag' | ⟨hSame', -⟩
    · exact absurd hTag hTag'.not_gt
    · exact absurd hTag (by simp [hSame'])
  · rcases hts with hTag' | ⟨-, hts⟩
    · exact absurd hTag' (by simp [hSame])
    · rcases hst with hNear | ⟨hDistance, hEntity⟩
      · rcases hts with hNear' | ⟨hDistance', -⟩
        · exact absurd hNear hNear'.not_gt
        · exact absurd hDistance' hNear.ne'
      · rcases hts with hNear' | ⟨-, hEntity'⟩
        · exact absurd hDistance hNear'.ne'
        · exact le_antisymm hEntity hEntity'

variable {visible : List (Sighting K)} {best rival s : Sighting K} {epsilon : K}

omit [LinearOrder K] in
theorem mem_enemies : s ∈ visible.filter isEnemy ↔ Enemy visible s := List.mem_filter

theorem exists_worst (h : Enemy visible s) : ∃ best, Worst visible best := by
  obtain ⟨best, hMem, hBest⟩ := exists_preceding (List.ne_nil_of_mem (mem_enemies.mpr h))
  exact ⟨best, mem_enemies.mp hMem, fun other hOther => hBest other (mem_enemies.mpr hOther)⟩

omit [LinearOrder K] in
theorem eq_of_entity_eq (hDistinct : (visible.map entity).Nodup) (hBest : Enemy visible best) (hRival : Enemy visible rival)
    (h : best.entity = rival.entity) : best = rival :=
  List.inj_on_of_nodup_map hDistinct hBest.1 hRival.1 h

theorem Worst.eq (hDistinct : (visible.map entity).Nodup) (hBest : Worst visible best) (hRival : Worst visible rival) :
    best = rival := by
  exact eq_of_entity_eq hDistinct hBest.1 hRival.1 ((hBest.2 rival hRival.1).antisymm (hRival.2 best hBest.1))

variable [Field K]

theorem better_of_worse (h : rival.relationship.tag < best.relationship.tag) :
    better epsilon best rival = true ∧ better epsilon rival best = false := by
  simp [better, Nat.compare_eq_gt.mpr h, Nat.compare_eq_lt.mpr h]

theorem better_of_same (h : rival.relationship = best.relationship) :
    better epsilon best rival = if epsilon < |best.distance - rival.distance| then decide (best.distance < rival.distance)
      else decide (best.entity < rival.entity) := by
  simp [better, h]

variable [IsStrictOrderedRing K]

theorem better_of_precedes (hEpsilon : 0 < epsilon) (hPrecedes : best.Precedes rival) (hApart : best.entity ≠ rival.entity)
    (hSpaced : rival.relationship = best.relationship → best.distance < rival.distance →
      rival.distance - best.distance ≤ epsilon → best.entity < rival.entity) :
    better epsilon best rival = true ∧ better epsilon rival best = false := by
  rcases hPrecedes with hTag | ⟨hSame, hNear | ⟨hDistance, hEntity⟩⟩
  · exact better_of_worse hTag
  · rw [better_of_same hSame, better_of_same hSame.symm, abs_sub_comm]
    have hGap : |rival.distance - best.distance| = rival.distance - best.distance := abs_of_pos (sub_pos.mpr hNear)
    rw [hGap]
    by_cases hFar : epsilon < rival.distance - best.distance
    · simp [hFar, hNear, hNear.le]
    · have hEntity := hSpaced hSame hNear (not_lt.mp hFar)
      simp [hFar, hEntity, hEntity.le]
  · have hLower : best.entity < rival.entity := lt_of_le_of_ne hEntity hApart
    rw [better_of_same hSame, better_of_same hSame.symm]
    simp [hDistance, hEpsilon.not_gt, hLower, hLower.le]

theorem Worst.unbeaten (hEpsilon : 0 < epsilon) (hDistinct : (visible.map entity).Nodup) (hSpaced : WellSpaced epsilon visible)
    (h : Worst visible best) : Unbeaten (better epsilon) best (visible.filter isEnemy) := by
  have hMeets (rival : Sighting K) (hRival : Enemy visible rival) (hNe : rival ≠ best) :
      better epsilon best rival = true ∧ better epsilon rival best = false :=
    better_of_precedes hEpsilon (h.2 rival hRival) (fun hSame => hNe (eq_of_entity_eq hDistinct h.1 hRival hSame).symm)
      fun hSame => hSpaced best rival h hRival hSame
  refine ⟨fun rival hMem hNe => (hMeets rival (mem_enemies.mp hMem) hNe).1, fun rival hMem => ?_⟩
  by_cases hNe : rival = best
  · subst hNe
    simp [better_of_same, hEpsilon.not_gt]
  · exact (hMeets rival (mem_enemies.mp hMem) hNe).2

end Sighting

variable [Field K] [IsStrictOrderedRing K] {epsilon : K} {visible : List (Sighting K)}

theorem WellSpaced.orderFree (hEpsilon : 0 < epsilon) (hDistinct : (visible.map entity).Nodup)
    (h : WellSpaced epsilon visible) : OrderFree epsilon visible := by
  have hChosen {other : List (Sighting K)} {best : Sighting K} (hPerm : other.Perm visible) (hBest : Worst visible best) :
      selectEnemy epsilon other = some best := by
    have hFilter := hPerm.filter isEnemy
    exact ((hBest.unbeaten hEpsilon hDistinct h).perm hFilter).champion_eq (hFilter.symm.subset (mem_enemies.mpr hBest.1))
  constructor
  · intro other hPerm
    by_cases hAny : ∃ s, Enemy visible s
    · obtain ⟨s, hs⟩ := hAny
      obtain ⟨best, hBest⟩ := exists_worst hs
      rw [hChosen hPerm hBest, hChosen (.refl _) hBest]
    · have hNone : visible.filter isEnemy = [] := by
        rw [List.filter_eq_nil_iff]
        exact fun s hs hEnemy => hAny ⟨s, hs, hEnemy⟩
      have hNone' : other.filter isEnemy = [] := List.perm_nil.mp (hNone ▸ hPerm.filter isEnemy)
      rw [selectEnemy, selectEnemy, hNone, hNone']
  · intro s hs
    obtain ⟨best, hBest⟩ := exists_worst hs
    exact ⟨best, hChosen (.refl _) hBest, hBest⟩

theorem OrderFree.wellSpaced (hDistinct : (visible.map entity).Nodup) (h : OrderFree epsilon visible) :
    WellSpaced epsilon visible := by
  intro best rival hBest hRival hSame hNear hGap
  by_contra hLower
  have hNe : best ≠ rival := fun hEq => hNear.ne (by rw [hEq])
  -- the preferred enemy comes first and meets the rival next
  obtain ⟨rest, hPerm⟩ : ∃ rest, (best :: rival :: rest).Perm visible := by
    have hFirst := List.perm_cons_erase hBest.1.1
    have hSecond := List.perm_cons_erase ((List.mem_erase_of_ne hNe.symm).mpr hRival.1)
    exact ⟨_, (hFirst.trans (hSecond.cons best)).symm⟩
  obtain ⟨chosen, hChosen, hWorst⟩ := h.worst best hBest.1
  have hFirst : selectEnemy epsilon (best :: rival :: rest) = some best := by
    rw [h.perm _ hPerm, hChosen, hWorst.eq hDistinct hBest]
  have hFilter : (best :: rival :: rest).filter isEnemy = best :: rival :: rest.filter isEnemy := by
    rw [List.filter_cons_of_pos hBest.1.2, List.filter_cons_of_pos hRival.2]
  have hNodup : (best :: rival :: rest).Nodup := (hPerm.nodup_iff).mpr (List.Nodup.of_map _ hDistinct)
  rw [selectEnemy, hFilter] at hFirst
  refine champion_ne_of_loses ?_ ?_ hFirst
  · have hEntity : rival.entity < best.entity :=
      lt_of_le_of_ne (not_lt.mp hLower) fun hEq => hNe (eq_of_entity_eq hDistinct hRival hBest.1 hEq).symm
    rw [better_of_same hSame.symm, if_neg, decide_eq_true hEntity]
    rw [abs_of_pos (sub_pos.mpr hNear)]
    exact not_lt.mpr hGap
  · intro hMem
    exact (List.nodup_cons.mp hNodup).1 ((List.Sublist.cons_cons rival List.filter_sublist).subset hMem)

/-- Which sightings are chosen from without regard to their order. -/
theorem orderFree_iff_wellSpaced (hEpsilon : 0 < epsilon) (hDistinct : (visible.map entity).Nodup) :
    OrderFree epsilon visible ↔ WellSpaced epsilon visible :=
  ⟨OrderFree.wellSpaced hDistinct, WellSpaced.orderFree hEpsilon hDistinct⟩

def sighted (entity : Nat) (distance : ℚ) : Sighting ℚ := ⟨entity, .hate, distance, true⟩

theorem orderFree_apart : OrderFree (1 / 2 ^ 23) [sighted 3 1, sighted 2 5] := by
  refine (orderFree_iff_wellSpaced (by norm_num) (by decide)).mpr ?_
  intro best rival hBest hRival _ hNear hGap
  have hFirst : best ∈ [sighted 3 1, sighted 2 5] := hBest.1.1
  have hSecond : rival ∈ [sighted 3 1, sighted 2 5] := hRival.1
  simp only [List.mem_cons, List.not_mem_nil, or_false] at hFirst hSecond
  rcases hFirst with rfl | rfl
  · rcases hSecond with rfl | rfl
    · norm_num [sighted] at hNear
    · norm_num [sighted] at hGap
  · rcases hSecond with rfl | rfl <;> norm_num [sighted] at hNear

/-- Three neighbouring numbers of single precision: the last sighting wins only if it comes last. -/
theorem not_orderFree_chain :
    ¬OrderFree (1 / 2 ^ 23) [sighted 3 1, sighted 2 (1 + 1 / 2 ^ 23), sighted 1 (1 + 2 / 2 ^ 23)] := by
  intro h
  have hSame := h.perm [sighted 3 1, sighted 1 (1 + 2 / 2 ^ 23), sighted 2 (1 + 1 / 2 ^ 23)] ((List.Perm.swap _ _ _).cons _)
  exact absurd hSame (by decide +kernel)

end OpenHalfLife.Ai
