import Mathlib.Algebra.Order.Monoid.WithTop
import Mathlib.Data.Fintype.Card
import Mathlib.Logic.Function.Basic

/-! # Cheapest routes

A search of a weighted graph keeps for every node the least cost at which it was
reached and the node it was reached from. The table may be improved in any
order; the routes it holds are always real, and never cost more than it says.
-/

namespace OpenHalfLife

set_option autoImplicit false

variable {ν K : Type*}

namespace Weighted

section Routes

variable [AddCommMonoid K] (edge : ν → ν → K → Prop)

/-- The nodes from `start` to the last one, and what the edges between them cost. -/
inductive Route (start : ν) : ν → List ν → K → Prop
  | nil : Route start start [start] 0
  | step {u v : ν} {nodes : List ν} {total cost : K} :
    Route start u nodes total → edge u v cost → Route start v (nodes ++ [v]) (total + cost)

variable {edge} {start v : ν} {nodes : List ν} {total : K}

theorem Route.head (h : Route edge start v nodes total) : nodes.head? = some start := by
  induction h with
  | nil => rfl
  | step _ _ ih => rw [List.head?_append, ih, Option.some_or]

theorem Route.getLast (h : Route edge start v nodes total) : nodes.getLast? = some v := by
  cases h with
  | nil => rfl
  | step _ _ => rw [List.getLast?_concat]

theorem Route.map {ν' : Type*} (edge' : ν' → ν' → K → Prop) (f : ν → ν')
    (hf : ∀ u v cost, edge u v cost → edge' (f u) (f v) cost) (h : Route edge start v nodes total) :
    Route edge' (f start) (f v) (nodes.map f) total := by
  induction h with
  | nil => exact .nil
  | step _ hEdge ih =>
    rw [List.map_append]
    exact ih.step (hf _ _ _ hEdge)

theorem Route.nonneg [LinearOrder K] [IsOrderedAddMonoid K] (hNonneg : ∀ u v cost, edge u v cost → 0 ≤ cost)
    (h : Route edge start v nodes total) : 0 ≤ total := by
  induction h with
  | nil => exact le_rfl
  | step _ hEdge ih => exact add_nonneg ih (hNonneg _ _ _ hEdge)

end Routes

/-! ## Predecessors -/

section Predecessors

variable (pred : ν → Option ν) (start : ν)

inductive Back : ν → List ν → Prop
  | start : Back start [start]
  | step {u v : ν} {nodes : List ν} : pred v = some u → Back u nodes → Back v (v :: nodes)

variable {pred start} {u v : ν} {nodes nodes' : List ν}

theorem Back.mem (h : Back pred start v nodes) : v ∈ nodes := by
  cases h with
  | start => exact List.mem_singleton_self _
  | step _ _ => exact List.mem_cons_self

theorem Back.of_mem (h : Back pred start v nodes) (hu : u ∈ nodes) :
    ∃ rest, Back pred start u rest ∧ rest.length ≤ nodes.length := by
  induction h with
  | start =>
    rw [List.mem_singleton] at hu
    subst hu
    exact ⟨_, .start, Nat.le_refl _⟩
  | @step w v nodes hPred hBack ih =>
    rcases List.mem_cons.mp hu with rfl | hu
    · exact ⟨_, .step hPred hBack, Nat.le_refl _⟩
    · obtain ⟨rest, hRest, hLength⟩ := ih hu
      exact ⟨rest, hRest, Nat.le_trans hLength (Nat.le_succ _)⟩

theorem Back.unique (hRoot : pred start = none) (h : Back pred start v nodes)
    (h' : Back pred start v nodes') : nodes = nodes' := by
  induction h generalizing nodes' with
  | start =>
    cases h' with
    | start => rfl
    | step hPred _ =>
      rw [hRoot] at hPred
      cases hPred
  | step hPred _ ih =>
    cases h' with
    | start =>
      rw [hRoot] at hPred
      cases hPred
    | step hPred' hBack' =>
      rw [hPred] at hPred'
      cases hPred'
      rw [ih hBack']

theorem Back.nodup (hRoot : pred start = none) (h : Back pred start v nodes) : nodes.Nodup := by
  induction h with
  | start => exact List.nodup_singleton _
  | step hPred hBack ih =>
    refine List.nodup_cons.mpr ⟨fun hAgain => ?_, ih⟩
    obtain ⟨rest, hRest, hLength⟩ := hBack.of_mem hAgain
    have hSame := (Back.step hPred hBack).unique hRoot hRest
    rw [← hSame, List.length_cons] at hLength
    omega

end Predecessors

/-! ## Labels -/

structure Labels (ν K : Type*) where
  best : ν → WithTop K
  pred : ν → Option ν

namespace Labels

def improve [DecidableEq ν] (t : Labels ν K) (v u : ν) (cost : WithTop K) : Labels ν K :=
  ⟨Function.update t.best v cost, Function.update t.pred v (some u)⟩

section Improve

variable [DecidableEq ν] (t : Labels ν K) {v u w : ν} {cost : WithTop K}

@[simp] theorem best_improve_self : (t.improve v u cost).best v = cost := Function.update_self _ _ _

theorem best_improve_of_ne (h : w ≠ v) : (t.improve v u cost).best w = t.best w := Function.update_of_ne h _ _

@[simp] theorem pred_improve_self : (t.improve v u cost).pred v = some u := Function.update_self _ _ _

theorem pred_improve_of_ne (h : w ≠ v) : (t.improve v u cost).pred w = t.pred w := Function.update_of_ne h _ _

end Improve

variable [AddCommMonoid K] [LinearOrder K] {edge : ν → ν → K → Prop} {start : ν} {t : Labels ν K}

omit [AddCommMonoid K] in
theorem best_improve_le [DecidableEq ν] {v u : ν} {cost : WithTop K} (h : cost < t.best v) (w : ν) :
    (t.improve v u cost).best w ≤ t.best w := by
  rcases eq_or_ne w v with rfl | hOther
  · rw [best_improve_self]
    exact h.le
  · rw [best_improve_of_ne t hOther]

/-- Every node with a label has a way back, along edges that the labels pay for. -/
structure Sound (edge : ν → ν → K → Prop) (start : ν) (t : Labels ν K) : Prop where
  origin : t.best start = 0
  root : t.pred start = none
  back : ∀ v, t.best v ≠ ⊤ → ∃ nodes, Back t.pred start v nodes
  link : ∀ u v, t.pred v = some u → ∃ cost : K, edge u v cost ∧ t.best u + cost ≤ t.best v

theorem sound_initial [DecidableEq ν] (edge : ν → ν → K → Prop) (start : ν) :
    Sound edge start ⟨Function.update (fun _ => ⊤) start 0, fun _ => none⟩ where
  origin := by
    dsimp only
    rw [Function.update_self]
  root := rfl
  back v h := by
    rcases eq_or_ne v start with rfl | hOther
    · exact ⟨[v], .start⟩
    · dsimp only at h
      rw [Function.update_of_ne hOther] at h
      exact (h rfl).elim
  link _ _ := nofun

theorem Sound.route [IsOrderedAddMonoid K] (h : Sound edge start t) {v : ν} {nodes : List ν}
    (hBack : Back t.pred start v nodes) :
    ∃ total, Route edge start v nodes.reverse total ∧ (total : WithTop K) ≤ t.best v := by
  induction hBack with
  | start => exact ⟨0, .nil, by rw [h.origin]; rfl⟩
  | @step u v nodes hPred hBack ih =>
    obtain ⟨total, hRoute, hTotal⟩ := ih
    obtain ⟨cost, hEdge, hCost⟩ := h.link u v hPred
    refine ⟨total + cost, ?_, ?_⟩
    · rw [List.reverse_cons]
      exact hRoute.step hEdge
    · rw [WithTop.coe_add]
      exact (add_le_add_left hTotal _).trans hCost

section Nonneg

variable [IsOrderedAddMonoid K] (hNonneg : ∀ u v cost, edge u v cost → 0 ≤ cost)

include hNonneg

theorem Sound.back_le (h : Sound edge start t) {v : ν} {nodes : List ν} (hBack : Back t.pred start v nodes) :
    ∀ u ∈ nodes, t.best u ≤ t.best v := by
  induction hBack with
  | start =>
    intro u hu
    rw [List.mem_singleton.mp hu]
  | @step w v nodes hPred hBack ih =>
    intro u hu
    rcases List.mem_cons.mp hu with rfl | hu
    · exact le_rfl
    · obtain ⟨cost, hEdge, hCost⟩ := h.link w v hPred
      have hPaid : (0 : WithTop K) ≤ cost := WithTop.coe_nonneg.mpr (hNonneg w v cost hEdge)
      exact ((ih u hu).trans (le_add_of_nonneg_right hPaid)).trans hCost

theorem Sound.nonneg (h : Sound edge start t) (v : ν) : 0 ≤ t.best v := by
  by_cases hLabel : t.best v = ⊤
  · rw [hLabel]
    exact le_top
  · obtain ⟨nodes, hBack⟩ := h.back v hLabel
    have hStart : start ∈ nodes := by
      clear hLabel
      induction hBack with
      | start => exact List.mem_singleton_self _
      | step _ _ ih => exact List.mem_cons_of_mem _ ih
    rw [← h.origin]
    exact h.back_le hNonneg hBack start hStart

/-- A label may be improved along any edge that its new cost pays for: a way back that went
through the improved node would make it cheaper than it was. -/
theorem Sound.improve [DecidableEq ν] (h : Sound edge start t) {u v : ν} {cost : K} {label : WithTop K}
    (hEdge : edge u v cost) (hPaid : t.best u + cost ≤ label) (hLess : label < t.best v) :
    Sound edge start (t.improve v u label) := by
  have hCost : (0 : WithTop K) ≤ cost := WithTop.coe_nonneg.mpr (hNonneg u v cost hEdge)
  have hFrom : t.best u ≤ label := (le_add_of_nonneg_right hCost).trans hPaid
  have hLabelled : t.best u ≠ ⊤ := ((hFrom.trans_lt hLess).trans_le le_top).ne
  obtain ⟨nodes, hBack⟩ := h.back u hLabelled
  have hFresh : v ∉ nodes := fun hv => (hLess.trans_le ((h.back_le hNonneg hBack v hv).trans hFrom)).false
  have hStart : v ≠ start := by
    rintro rfl
    rw [h.origin] at hLess
    exact (hLess.trans_le ((h.nonneg hNonneg u).trans hFrom)).false
  have hKept {w : ν} {before : List ν} (hBefore : Back t.pred start w before) (hw : v ∉ before) :
      Back (t.improve v u label).pred start w before := by
    induction hBefore with
    | start => exact .start
    | @step x w before hPred _ ih =>
      rw [List.mem_cons, not_or] at hw
      exact .step (by rw [pred_improve_of_ne t (Ne.symm hw.1), hPred]) (ih hw.2)
  have hNew : Back (t.improve v u label).pred start v (v :: nodes) :=
    .step (pred_improve_self t) (hKept hBack hFresh)
  refine ⟨?_, ?_, fun w hw => ?_, fun w x hPred => ?_⟩
  · rw [best_improve_of_ne t (Ne.symm hStart), h.origin]
  · rw [pred_improve_of_ne t (Ne.symm hStart), h.root]
  · rcases eq_or_ne w v with rfl | hOther
    · exact ⟨_, hNew⟩
    · rw [best_improve_of_ne t hOther] at hw
      obtain ⟨before, hBefore⟩ := h.back w hw
      clear hw hOther
      induction hBefore with
      | start => exact ⟨_, .start⟩
      | @step x w before hPred _ ih =>
        rcases eq_or_ne w v with rfl | hOther
        · exact ⟨_, hNew⟩
        · obtain ⟨after, hAfter⟩ := ih
          exact ⟨_, .step (by rw [pred_improve_of_ne t hOther, hPred]) hAfter⟩
  · rcases eq_or_ne x v with rfl | hOther
    · rw [pred_improve_self] at hPred
      cases hPred
      refine ⟨cost, hEdge, ?_⟩
      rw [best_improve_self]
      exact (add_le_add_left (best_improve_le hLess _) _).trans hPaid
    · rw [pred_improve_of_ne t hOther] at hPred
      obtain ⟨paid, hLink, hPays⟩ := h.link w x hPred
      refine ⟨paid, hLink, ?_⟩
      rw [best_improve_of_ne t hOther]
      exact (add_le_add_left (best_improve_le hLess w) _).trans hPays

end Nonneg

end Labels

/-! ## Potentials -/

section Potentials

variable [AddCommMonoid K] [LinearOrder K] [IsOrderedCancelAddMonoid K] {edge : ν → ν → K → Prop} {start : ν}

/-- An estimate of the cost that is left, and that no edge belies. -/
def Consistent (edge : ν → ν → K → Prop) (estimate : ν → K) : Prop :=
  ∀ u v cost, edge u v cost → estimate u ≤ cost + estimate v

/-- Where the settled nodes have their least costs and have labelled their neighbours, a route to
another node passes one whose label and estimate are no more than the route's. -/
theorem Route.exists_frontier {estimate : ν → K} (hConsistent : Consistent edge estimate)
    (settled : ν → Prop) (best : ν → WithTop K) (hStart : best start = 0)
    (hLeast : ∀ u nodes total, settled u → Route edge start u nodes total → best u ≤ total)
    (hLabelled : ∀ u v (cost : K), settled u → edge u v cost → best v ≤ best u + cost)
    {v : ν} {nodes : List ν} {total : K} (hRoute : Route edge start v nodes total) (hOpen : ¬ settled v) :
    ∃ w, ¬ settled w ∧ best w + estimate w ≤ ((total + estimate v : K) : WithTop K) := by
  induction hRoute with
  | nil => exact ⟨start, hOpen, by rw [hStart, zero_add, zero_add]⟩
  | @step u v nodes total cost hRoute hEdge ih =>
    by_cases hSettled : settled u
    · refine ⟨v, hOpen, ?_⟩
      have hLabel := (hLabelled u v cost hSettled hEdge).trans
        (add_le_add_left (hLeast u nodes total hSettled hRoute) _)
      rw [WithTop.coe_add, WithTop.coe_add]
      exact add_le_add_left hLabel _
    · obtain ⟨w, hw, hBound⟩ := ih hSettled
      refine ⟨w, hw, hBound.trans (WithTop.coe_le_coe.mpr ?_)⟩
      rw [add_assoc]
      exact add_le_add_right (hConsistent u v cost hEdge) _

end Potentials

end Weighted

end OpenHalfLife
