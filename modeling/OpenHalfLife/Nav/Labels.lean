import OpenHalfLife.Lib.Weighted
import OpenHalfLife.Nav.Search

/-! # The labels of a search

A node that was closed may be labelled again, and the heap keeps entries of
labels that were improved since. What holds all the same: the labels are sound,
and each open node with a label has an entry for just this label.
-/

namespace OpenHalfLife.Nav

set_option autoImplicit false

open Weighted

variable {n : Nat} {K : Type} [AddCommMonoid K] [LinearOrder K]

def Query.edge (q : Query n K) (u v : Fin n) (cost : K) : Prop :=
  ∃ link ∈ q.links u, link.Usable q.hull n ∧ link.toNode = v ∧ link.cost = cost

theorem Query.edge_nonneg (q : Query n K) (u v : Fin n) (cost : K) (h : q.edge u v cost) : 0 ≤ cost := by
  obtain ⟨link, -, hUsable, -, rfl⟩ := h
  exact hUsable.2.2

namespace Search

variable {q : Query n K} {s : Search n K} {node : Fin n} {nodeCost : WithTop K} {link : Link K}

def pred (cameFrom : Fin n → Nat) (v : Fin n) : Option (Fin n) :=
  if h : cameFrom v < n then some ⟨cameFrom v, h⟩ else none

def labels (s : Search n K) : Labels (Fin n) K := ⟨s.best, pred s.cameFrom⟩

/-! ## One link -/

def improve (q : Query n K) (node next : Fin n) (candidate : WithTop K) (s : Search n K) : Search n K :=
  { s with
    best := Function.update s.best next candidate
    cameFrom := Function.update s.cameFrom next node
    opened := s.opened.orderedInsert (· ≤ ·) (toLex (candidate + q.heuristic next, next)) }

omit [AddCommMonoid K] [LinearOrder K] in
theorem pred_update (cameFrom : Fin n → Nat) (next node : Fin n) :
    pred (Function.update cameFrom next node.val) = Function.update (pred cameFrom) next (some node) := by
  funext v
  rcases eq_or_ne v next with rfl | hOther
  · simp [pred]
  · simp [pred, hOther]

theorem labels_improve (q : Query n K) (node next : Fin n) (candidate : WithTop K) (s : Search n K) :
    (improve q node next candidate s).labels = s.labels.improve next node candidate := by
  rw [labels, improve, pred_update]
  rfl

section Improve

variable (q s) {v w : Fin n} {candidate : WithTop K}

theorem best_improve_self : (improve q node v candidate s).best v = candidate := Function.update_self _ _ _

theorem best_improve_of_ne (h : w ≠ v) : (improve q node v candidate s).best w = s.best w :=
  Function.update_of_ne h _ _

theorem cameFrom_improve_self : (improve q node v candidate s).cameFrom v = node := Function.update_self _ _ _

theorem cameFrom_improve_of_ne (h : w ≠ v) : (improve q node v candidate s).cameFrom w = s.cameFrom w :=
  Function.update_of_ne h _ _

theorem best_improve_le {s : Search n K} (h : candidate < s.best v) (w : Fin n) :
    (improve q node v candidate s).best w ≤ s.best w := by
  change (s.labels.improve v node candidate).best w ≤ s.labels.best w
  exact Labels.best_improve_le h w

theorem mem_opened_improve (entry : Open n K) : entry ∈ (improve q node v candidate s).opened ↔
    entry = toLex (candidate + q.heuristic v, v) ∨ entry ∈ s.opened := List.mem_orderedInsert _

end Improve

theorem relax_cases (q : Query n K) (node : Fin n) (nodeCost : WithTop K) (s : Search n K) (link : Link K) :
    (relax q node nodeCost s link = s ∧ ∀ v : Fin n, link.Usable q.hull n → link.toNode = v →
      s.best v ≤ nodeCost + link.cost) ∨
    ∃ v : Fin n, link.Usable q.hull n ∧ link.toNode = v ∧ nodeCost + link.cost < s.best v ∧
      relax q node nodeCost s link = improve q node v (nodeCost + link.cost) s := by
  unfold relax
  split
  · rename_i hUsable
    dsimp only
    split
    · rename_i hLess
      exact .inr ⟨⟨link.toNode, hUsable.2.1⟩, hUsable, rfl, hLess, rfl⟩
    · rename_i hLess
      refine .inl ⟨rfl, fun v _ hv => ?_⟩
      have hSame : v = ⟨link.toNode, hUsable.2.1⟩ := Fin.ext hv.symm
      rw [hSame]
      exact not_lt.mp hLess
  · rename_i hUsable
    exact .inl ⟨rfl, fun _ h => (hUsable h).elim⟩

theorem best_relax_le (q : Query n K) (node : Fin n) (nodeCost : WithTop K) (s : Search n K) (link : Link K)
    (v : Fin n) : (relax q node nodeCost s link).best v ≤ s.best v := by
  rcases relax_cases q node nodeCost s link with ⟨hSame, -⟩ | ⟨w, -, -, hLess, hNext⟩
  · rw [hSame]
  · rw [hNext]
    exact best_improve_le q hLess v

theorem best_relax_link {v : Fin n} (hUsable : link.Usable q.hull n) (hv : link.toNode = v) :
    (relax q node nodeCost s link).best v ≤ nodeCost + link.cost := by
  rcases relax_cases q node nodeCost s link with ⟨hSame, hBest⟩ | ⟨w, -, hw, hLess, hNext⟩
  · rw [hSame]
    exact hBest v hUsable hv
  · have hSame : v = w := Fin.ext (hv.symm.trans hw)
    rw [hNext, hSame, best_improve_self]

structure Kept (q : Query n K) (s : Search n K) : Prop where
  labels : s.labels.Sound q.edge q.start
  cameFrom : ∀ v, s.cameFrom v < n ∨ s.cameFrom v = u32Max
  sorted : s.opened.Pairwise (· ≤ ·)
  labelled : ∀ entry ∈ s.opened, s.best (ofLex entry).2 ≠ ⊤
  above : ∀ entry ∈ s.opened, s.best (ofLex entry).2 + q.heuristic (ofLex entry).2 ≤ (ofLex entry).1
  fresh : ∀ v, s.best v ≠ ⊤ → s.closed v = false → toLex (s.best v + q.heuristic v, v) ∈ s.opened

variable [IsOrderedAddMonoid K]

theorem Kept.relax (h : Kept q s) (hLink : link ∈ q.links node) (hCost : s.best node ≤ nodeCost) :
    Kept q (relax q node nodeCost s link) := by
  rcases relax_cases q node nodeCost s link with ⟨hSame, -⟩ | ⟨v, hUsable, hv, hLess, hNext⟩
  · rw [hSame]
    exact h
  · rw [hNext]
    have hEdge : q.edge node v link.cost := ⟨link, hLink, hUsable, hv, rfl⟩
    have hFinite : nodeCost + link.cost ≠ ⊤ := (hLess.trans_le le_top).ne
    refine ⟨?_, fun w => ?_, ?_, fun entry hEntry => ?_, fun entry hEntry => ?_, fun w hw hOpen => ?_⟩
    · rw [labels_improve]
      exact h.labels.improve q.edge_nonneg hEdge (add_le_add_left hCost _) hLess
    · rcases eq_or_ne w v with rfl | hOther
      · rw [cameFrom_improve_self]
        exact .inl node.isLt
      · rw [cameFrom_improve_of_ne q s hOther]
        exact h.cameFrom w
    · exact h.sorted.orderedInsert _ _
    · rcases (mem_opened_improve q s entry).mp hEntry with rfl | hOld
      · exact (best_improve_self q s).trans_ne hFinite
      · exact ((best_improve_le q hLess _).trans_lt (lt_top_iff_ne_top.mpr (h.labelled entry hOld))).ne
    · rcases (mem_opened_improve q s entry).mp hEntry with rfl | hOld
      · exact (congrArg (· + _) (best_improve_self q s)).le
      · exact (add_le_add_left (best_improve_le q hLess _) _).trans (h.above entry hOld)
    · rw [mem_opened_improve]
      rcases eq_or_ne w v with rfl | hOther
      · exact .inl (by rw [best_improve_self])
      · rw [best_improve_of_ne q s hOther] at hw ⊢
        exact .inr (h.fresh w hw hOpen)

end Search

end OpenHalfLife.Nav

namespace OpenHalfLife.Nav

set_option autoImplicit false

/-! ## Whole searches

What a search has at its end follows from what an expanded node leaves behind.
-/

open Weighted

variable {n : Nat} {K : Type} [AddCommMonoid K] [LinearOrder K]

namespace Search

variable {q : Query n K} {s : Search n K} {node : Fin n}

theorem best_foldl_le (q : Query n K) (node : Fin n) (nodeCost : WithTop K) (links : List (Link K))
    (s : Search n K) (v : Fin n) : (links.foldl (relax q node nodeCost) s).best v ≤ s.best v := by
  induction links generalizing s with
  | nil => exact le_rfl
  | cons link links ih => exact (ih _).trans (best_relax_le q node nodeCost s link v)

theorem best_foldl_link {links : List (Link K)} {link : Link K} {nodeCost : WithTop K} {v : Fin n}
    (hLink : link ∈ links) (hUsable : link.Usable q.hull n) (hv : link.toNode = v) :
    (links.foldl (relax q node nodeCost) s).best v ≤ nodeCost + link.cost := by
  induction links generalizing s with
  | nil => cases hLink
  | cons other links ih =>
    rw [List.foldl_cons]
    rcases List.mem_cons.mp hLink with rfl | hLink
    · exact (best_foldl_le q node nodeCost links _ v).trans (best_relax_link hUsable hv)
    · exact ih hLink

theorem best_expand_edge {v : Fin n} {cost : K} (hEdge : q.edge node v cost) :
    (expand q node s).best v ≤ s.best node + cost := by
  obtain ⟨link, hLink, hUsable, hv, rfl⟩ := hEdge
  exact best_foldl_link hLink hUsable hv

theorem best_expand_le (q : Query n K) (node : Fin n) (s : Search n K) (v : Fin n) :
    (expand q node s).best v ≤ s.best v := best_foldl_le q node _ _ s v

theorem explored_expand (q : Query n K) (node : Fin n) (s : Search n K) :
    (expand q node s).explored = s.explored := by
  unfold expand
  generalize s.best node = nodeCost
  induction q.links node generalizing s with
  | nil => rfl
  | cons link links ih =>
    rw [List.foldl_cons, ih]
    rcases relax_cases q node nodeCost s link with ⟨hSame, -⟩ | ⟨w, -, -, -, hNext⟩
    · rw [hSame]
    · rw [hNext]
      rfl

omit [AddCommMonoid K] in
theorem labelled_of_le {v w : WithTop K} (h : v ≤ w) (hw : w ≠ ⊤) : v ≠ ⊤ :=
  (h.trans_lt (lt_top_iff_ne_top.mpr hw)).ne

theorem Kept.foldl [IsOrderedAddMonoid K] {links : List (Link K)} {nodeCost : WithTop K} (h : Kept q s)
    (hLinks : ∀ link ∈ links, link ∈ q.links node) (hCost : s.best node ≤ nodeCost) :
    Kept q (links.foldl (Search.relax q node nodeCost) s) := by
  induction links generalizing s with
  | nil => exact h
  | cons link links ih =>
    have hNext := h.relax (hLinks link List.mem_cons_self) hCost
    refine ih hNext (fun other hOther => hLinks other (List.mem_cons_of_mem _ hOther)) ?_
    exact (best_relax_le q node nodeCost s link node).trans hCost

theorem Kept.expand [IsOrderedAddMonoid K] (h : Kept q s) (node : Fin n) : Kept q (Search.expand q node s) :=
  h.foldl (fun _ hLink => hLink) le_rfl

/-! ## Between two expansions -/

structure Invariant (q : Query n K) (s : Search n K) : Prop extends Kept q s where
  closedLabelled : ∀ u, s.closed u → s.best u ≠ ⊤
  reached : ∀ u v cost, s.closed u → q.edge u v cost → s.best v ≠ ⊤
  explored : s.explored = s.closedNodes.card
  goal : s.closed q.goal = false

omit [LinearOrder K] in
theorem best_initial (q : Query n K) : (initial q).best q.start = 0 := by simp [initial]

omit [LinearOrder K] in
theorem best_initial_of_ne {v : Fin n} (h : v ≠ q.start) : (initial q).best v = ⊤ := by simp [initial, h]

theorem invariant_initial (q : Query n K) (hCount : n ≤ u32Max) : Invariant q (initial q) where
  labels := by
    have hPred : pred (initial q).cameFrom = fun _ => none := by
      funext v
      exact dif_neg (Nat.not_lt.mpr hCount)
    rw [Search.labels, hPred]
    exact Labels.sound_initial q.edge q.start
  cameFrom _ := .inr rfl
  sorted := List.pairwise_singleton _ _
  labelled entry hEntry := by
    rw [List.mem_singleton.mp hEntry]
    exact (best_initial q).trans_ne WithTop.zero_ne_top
  above entry hEntry := by
    rw [List.mem_singleton.mp hEntry]
    exact ((congrArg (· + _) (best_initial q)).trans (zero_add _)).le
  fresh v hv _ := by
    rcases eq_or_ne v q.start with rfl | hOther
    · rw [best_initial, zero_add]
      exact List.mem_singleton_self _
    · exact (hv (best_initial_of_ne hOther)).elim
  closedLabelled _ := nofun
  reached _ _ _ := nofun
  explored := by
    simp [initial, closedNodes]
  goal := rfl

variable {entry : Open n K} {rest : List (Open n K)}

theorem Kept.popped (h : Kept q s) (hOpened : s.opened = entry :: rest)
    (hClosed : s.closed (ofLex entry).2 = true) : Kept q (s.popped rest) where
  labels := h.labels
  cameFrom := h.cameFrom
  sorted := by
    have hSorted := h.sorted
    rw [hOpened] at hSorted
    exact hSorted.of_cons
  labelled other hOther := h.labelled other (hOpened ▸ List.mem_cons_of_mem _ hOther)
  above other hOther := h.above other (hOpened ▸ List.mem_cons_of_mem _ hOther)
  fresh v hv hOpen := by
    have hFresh := h.fresh v hv hOpen
    rw [hOpened] at hFresh
    rcases List.mem_cons.mp hFresh with rfl | hOther
    · exact (Bool.false_ne_true (hOpen.symm.trans hClosed)).elim
    · exact hOther

theorem Kept.close (h : Kept q s) (hOpened : s.opened = entry :: rest) :
    Kept q ((s.popped rest).close (ofLex entry).2) where
  labels := h.labels
  cameFrom := h.cameFrom
  sorted := by
    have hSorted := h.sorted
    rw [hOpened] at hSorted
    exact hSorted.of_cons
  labelled other hOther := h.labelled other (hOpened ▸ List.mem_cons_of_mem _ hOther)
  above other hOther := h.above other (hOpened ▸ List.mem_cons_of_mem _ hOther)
  fresh v hv hOpen := by
    have hOther : v ≠ (ofLex entry).2 := by
      rintro rfl
      rw [closed_close_self] at hOpen
      cases hOpen
    have hWas : s.closed v = false := by
      rwa [closed_close_of_ne _ hOther] at hOpen
    have hFresh := h.fresh v hv hWas
    rw [hOpened] at hFresh
    rcases List.mem_cons.mp hFresh with rfl | hRest
    · exact (hOther rfl).elim
    · exact hRest

theorem Invariant.skip (h : Invariant q s) (hOpened : s.opened = entry :: rest)
    (hClosed : s.closed (ofLex entry).2 = true) : Invariant q (s.popped rest) where
  toKept := h.toKept.popped hOpened hClosed
  closedLabelled := h.closedLabelled
  reached := h.reached
  explored := h.explored
  goal := h.goal

theorem Invariant.expand [IsOrderedAddMonoid K] (h : Invariant q s) (hOpened : s.opened = entry :: rest)
    (hOpen : s.closed (ofLex entry).2 = false) (hGoal : (ofLex entry).2 ≠ q.goal) :
    Invariant q (expand q (ofLex entry).2 ((s.popped rest).close (ofLex entry).2)) where
  toKept := (h.toKept.close hOpened).expand _
  closedLabelled u hu := by
    rw [closed_expand, closed_close] at hu
    refine labelled_of_le (best_expand_le q _ _ u) ?_
    rcases hu with rfl | hu
    · exact h.labelled entry (hOpened ▸ List.mem_cons_self)
    · exact h.closedLabelled u hu
  reached u v cost hu hEdge := by
    rw [closed_expand, closed_close] at hu
    rcases hu with rfl | hu
    · refine labelled_of_le (best_expand_edge hEdge) ?_
      have hLabel : s.best (ofLex entry).2 ≠ ⊤ := h.labelled entry (hOpened ▸ List.mem_cons_self)
      exact WithTop.add_ne_top.mpr ⟨hLabel, WithTop.coe_ne_top⟩
    · exact labelled_of_le (best_expand_le q _ _ v) (h.reached u v cost hu hEdge)
  explored := by
    rw [explored_expand, closedNodes, closed_expand]
    exact (congrArg (· + 1) h.explored).trans (card_close hOpen).symm
  goal := by
    rw [closed_expand, closed_close_of_ne _ (Ne.symm hGoal)]
    exact h.goal

/-! ## From the first state to the last -/

inductive Ends (q : Query n K) (I : Search n K → Prop) : Option (List Nat × WithTop K × Nat) → Prop
  | exhausted {s : Search n K} : I s → s.opened = [] → Ends q I none
  | limited {s : Search n K} {entry : Open n K} {rest : List (Open n K)} :
    I s → s.opened = entry :: rest → s.closed (ofLex entry).2 = false →
      q.maxExplored < s.explored + 1 → Ends q I none
  | found {s : Search n K} {entry : Open n K} {rest : List (Open n K)} :
    I s → s.opened = entry :: rest → s.closed (ofLex entry).2 = false → (ofLex entry).2 = q.goal →
      Ends q I (some (reconstruct s.cameFrom q.start q.goal, s.best q.goal, s.explored + 1))

theorem ends_loop {I : Search n K → Prop}
    (hSkip : ∀ s entry rest, I s → s.opened = entry :: rest → s.closed (ofLex entry).2 = true →
      I (s.popped rest))
    (hExpand : ∀ s entry rest, I s → s.opened = entry :: rest → s.closed (ofLex entry).2 = false →
      (ofLex entry).2 ≠ q.goal → I (expand q (ofLex entry).2 ((s.popped rest).close (ofLex entry).2)))
    (s : Search n K) (hI : I s) : Ends q I (loop q s) := by
  fun_induction loop q s with
  | case1 s hOpened => exact .exhausted hI hOpened
  | case2 s entry rest hOpened node hClosed ih => exact ih (hSkip s entry rest hI hOpened hClosed)
  | case3 s entry rest hOpened node hClosed next hLimit =>
    exact .limited hI hOpened (Bool.not_eq_true _ ▸ hClosed) hLimit
  | case4 s entry rest hOpened node hClosed next hLimit hGoal =>
    rw [hGoal]
    exact .found hI hOpened (Bool.not_eq_true _ ▸ hClosed) hGoal
  | case5 s entry rest hOpened node hClosed next hLimit hGoal ih =>
    exact ih (hExpand s entry rest hI hOpened (Bool.not_eq_true _ ▸ hClosed) hGoal)

theorem ends_invariant [IsOrderedAddMonoid K] (q : Query n K) (hCount : n ≤ u32Max) :
    Ends q (Invariant q) (loop q (initial q)) :=
  ends_loop (fun _ _ _ h => h.skip) (fun _ _ _ h => h.expand) _ (invariant_initial q hCount)

/-! ## The route that is given -/

theorem pred_eq_some {cameFrom : Fin n → Nat} {u v : Fin n} (h : pred cameFrom v = some u) :
    cameFrom v = u := by
  unfold pred at h
  split at h
  · cases h
    rfl
  · cases h

theorem reconstructFrom_back (hCount : n ≤ u32Max) {cameFrom : Fin n → Nat} {start v : Fin n}
    {nodes : List (Fin n)} (hBack : Back (pred cameFrom) start v nodes) (hRoot : pred cameFrom start = none)
    (rounds : Nat) (hRounds : nodes.length ≤ rounds + 1) (route : List Nat) :
    reconstructFrom cameFrom start rounds v (v :: route) = (nodes.reverse.map (·.val)) ++ route := by
  induction hBack generalizing rounds route with
  | start =>
    cases rounds with
    | zero => rfl
    | succ rounds =>
      rw [reconstructFrom, if_pos rfl]
      rfl
  | @step u v nodes hPred hBack ih =>
    have hOther : (v : Nat) ≠ start := by
      intro hSame
      rw [Fin.ext hSame, hRoot] at hPred
      cases hPred
    have hFrom := pred_eq_some hPred
    have hMark : (u : Nat) ≠ u32Max := (u.isLt.trans_le hCount).ne
    have hNodes := List.length_pos_of_mem hBack.mem
    rw [List.length_cons] at hRounds
    obtain ⟨fewer, rfl⟩ : ∃ fewer, rounds = fewer + 1 := ⟨rounds - 1, by omega⟩
    rw [reconstructFrom, if_neg hOther, dif_pos v.isLt]
    dsimp only
    rw [hFrom, if_neg hMark, ih fewer (by omega), List.reverse_cons, List.map_append, List.append_assoc]
    rfl

theorem reconstruct_eq (hCount : n ≤ u32Max) {cameFrom : Fin n → Nat} {start v : Fin n} {nodes : List (Fin n)}
    (hBack : Back (pred cameFrom) start v nodes) (hRoot : pred cameFrom start = none) :
    reconstruct cameFrom start v = nodes.reverse.map (·.val) := by
  have hLength : nodes.length ≤ n := by
    have hCard := (hBack.nodup hRoot).length_le_card
    rwa [Fintype.card_fin] at hCard
  have hRoute := reconstructFrom_back hCount hBack hRoot n (Nat.le_succ_of_le hLength) []
  rwa [List.append_nil] at hRoute

def IsRoute (q : Query n K) (route : List Nat) (total : K) : Prop :=
  ∃ nodes : List (Fin n), route = nodes.map (·.val) ∧ nodes.Nodup ∧ Route q.edge q.start q.goal nodes total

theorem Kept.route [IsOrderedAddMonoid K] (h : Kept q s) (hCount : n ≤ u32Max) (hGoal : s.best q.goal ≠ ⊤) :
    ∃ total, IsRoute q (reconstruct s.cameFrom q.start q.goal) total ∧ (total : WithTop K) ≤ s.best q.goal := by
  obtain ⟨nodes, hBack⟩ := h.labels.back q.goal hGoal
  obtain ⟨total, hRoute, hTotal⟩ := h.labels.route hBack
  refine ⟨total, ⟨nodes.reverse, ?_, ?_, hRoute⟩, hTotal⟩
  · exact reconstruct_eq hCount hBack h.labels.root
  · exact List.nodup_reverse.mpr (hBack.nodup h.labels.root)

end Search

end OpenHalfLife.Nav
