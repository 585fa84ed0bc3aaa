import OpenHalfLife.Nav.Labels
import OpenHalfLife.Nav.Graph

/-! # Cheapest routes of a graph

Where the estimate is consistent, a node that is closed has its least cost, and
is not labelled again.
-/

namespace OpenHalfLife.Nav

set_option autoImplicit false

open Weighted

variable {n : Nat} {K : Type} [AddCommMonoid K] [LinearOrder K]

namespace Search

variable {q : Query n K} {s : Search n K} {node : Fin n} {entry : Open n K} {rest : List (Open n K)}

theorem Invariant.closed_of_route (h : Invariant q s) (hOpened : s.opened = []) {v : Fin n}
    {nodes : List (Fin n)} {total : K} (hRoute : Route q.edge q.start v nodes total) : s.closed v = true := by
  have hClosed (w : Fin n) (hw : s.best w ≠ ⊤) : s.closed w = true := by
    rw [← Bool.not_eq_false]
    intro hOpen
    have hFresh := h.fresh w hw hOpen
    rw [hOpened] at hFresh
    cases hFresh
  induction hRoute with
  | nil => exact hClosed _ (h.labels.origin.trans_ne WithTop.zero_ne_top)
  | @step u v _ _ cost _ hEdge ih => exact hClosed v (h.reached u v cost ih hEdge)

theorem Invariant.explored_lt (h : Invariant q s) (hOpen : s.closed node = false) : s.explored + 1 ≤ n := by
  rw [h.explored, ← card_close hOpen]
  exact card_closedNodes_le _

/-! ## Settled nodes -/

def Least (q : Query n K) (s : Search n K) : Prop :=
  ∀ u nodes total, s.closed u → Route q.edge q.start u nodes total → s.best u ≤ (total : WithTop K)

structure Settled (q : Query n K) (s : Search n K) : Prop extends Invariant q s where
  least : Least q s
  relaxed : ∀ u v (cost : K), s.closed u → q.edge u v cost → s.best v ≤ s.best u + cost

theorem settled_initial (q : Query n K) (hCount : n ≤ u32Max) : Settled q (initial q) where
  toInvariant := invariant_initial q hCount
  least _ _ _ := nofun
  relaxed _ _ _ := nofun

variable [IsOrderedCancelAddMonoid K]

theorem Settled.popped_le (h : Settled q s) (hConsistent : Consistent q.edge q.heuristic)
    (hOpened : s.opened = entry :: rest) (hOpen : s.closed (ofLex entry).2 = false) {nodes : List (Fin n)}
    {total : K} (hRoute : Route q.edge q.start (ofLex entry).2 nodes total) :
    s.best (ofLex entry).2 ≤ (total : WithTop K) := by
  have hMem : entry ∈ s.opened := hOpened ▸ List.mem_cons_self
  obtain ⟨w, hw, hBound⟩ := hRoute.exists_frontier hConsistent (fun u => s.closed u = true) s.best
    h.labels.origin h.least h.relaxed (by rw [hOpen]; exact Bool.false_ne_true)
  have hLabelled : s.best w ≠ ⊤ := by
    intro hTop
    rw [hTop, WithTop.top_add] at hBound
    exact WithTop.coe_ne_top (top_le_iff.mp hBound)
  have hFresh := h.fresh w hLabelled (Bool.not_eq_true _ ▸ hw)
  have hFirst : entry ≤ toLex (s.best w + q.heuristic w, w) := by
    have hSorted := h.sorted
    rw [hOpened] at hSorted hFresh
    rcases List.mem_cons.mp hFresh with hSame | hRest
    · exact hSame.ge
    · exact List.rel_of_pairwise_cons hSorted hRest
  have hEstimate : (ofLex entry).1 ≤ s.best w + q.heuristic w := by
    rcases Prod.Lex.le_iff.mp hFirst with hLess | ⟨hSame, -⟩
    · exact hLess.le
    · exact hSame.le
  have hAll := ((h.above entry hMem).trans hEstimate).trans hBound
  rw [WithTop.coe_add] at hAll
  exact (WithTop.add_le_add_iff_right WithTop.coe_ne_top).mp hAll

theorem best_relax_closed {nodeCost : WithTop K} {link : Link K} (hKept : Kept q s) (hLeast : Least q s)
    (hLink : link ∈ q.links node) (hCost : s.best node = nodeCost) (hLabel : nodeCost ≠ ⊤) {u : Fin n}
    (hu : s.closed u) : (relax q node nodeCost s link).best u = s.best u := by
  rcases relax_cases q node nodeCost s link with ⟨hSame, -⟩ | ⟨v, hUsable, hv, hLess, hNext⟩
  · rw [hSame]
  · rw [hNext]
    rcases eq_or_ne u v with rfl | hOther
    · obtain ⟨nodes, hBack⟩ := hKept.labels.back node (hCost.trans_ne hLabel)
      obtain ⟨total, hRoute, hTotal⟩ := hKept.labels.route hBack
      have hPaid : (total : WithTop K) ≤ nodeCost := hTotal.trans_eq hCost
      have hReached := hLeast u _ _ hu (hRoute.step ⟨link, hLink, hUsable, hv, rfl⟩)
      rw [WithTop.coe_add] at hReached
      exact ((hReached.trans (add_le_add_left hPaid _)).trans_lt hLess).false.elim
    · exact best_improve_of_ne q s hOther

theorem best_foldl_closed {nodeCost : WithTop K} {links : List (Link K)} (hKept : Kept q s) (hLeast : Least q s)
    (hLinks : ∀ link ∈ links, link ∈ q.links node) (hNode : s.closed node) (hCost : s.best node = nodeCost)
    (hLabel : nodeCost ≠ ⊤) {u : Fin n} (hu : s.closed u) :
    (links.foldl (relax q node nodeCost) s).best u = s.best u := by
  induction links generalizing s with
  | nil => rfl
  | cons link links ih =>
    have hLink := hLinks link List.mem_cons_self
    have hClosed := closed_relax q node nodeCost s link
    have hBest {w : Fin n} (hw : s.closed w) := best_relax_closed hKept hLeast hLink hCost hLabel hw
    have hNext : Least q (relax q node nodeCost s link) := by
      intro w nodes total hw hRoute
      rw [hClosed] at hw
      rw [hBest hw]
      exact hLeast w nodes total hw hRoute
    rw [List.foldl_cons, ← hBest hu]
    refine ih (hKept.relax hLink hCost.le) hNext ?_ (hClosed ▸ hNode) ((hBest hNode).trans hCost) (hClosed ▸ hu)
    exact fun other hOther => hLinks other (List.mem_cons_of_mem _ hOther)

omit [IsOrderedCancelAddMonoid K] in
theorem Settled.skip (h : Settled q s) (hOpened : s.opened = entry :: rest)
    (hClosed : s.closed (ofLex entry).2 = true) : Settled q (s.popped rest) where
  toInvariant := h.toInvariant.skip hOpened hClosed
  least := h.least
  relaxed := h.relaxed

theorem Settled.expand (h : Settled q s) (hConsistent : Consistent q.edge q.heuristic)
    (hOpened : s.opened = entry :: rest) (hOpen : s.closed (ofLex entry).2 = false)
    (hGoal : (ofLex entry).2 ≠ q.goal) :
    Settled q (expand q (ofLex entry).2 ((s.popped rest).close (ofLex entry).2)) := by
  let next := (s.popped rest).close (ofLex entry).2
  have hNode : next.closed (ofLex entry).2 := closed_close_self _ _
  have hLabel : next.best (ofLex entry).2 ≠ ⊤ := h.labelled entry (hOpened ▸ List.mem_cons_self)
  have hLeast : Least q next := by
    intro u nodes total hu hRoute
    rcases (closed_close _ _ u).mp hu with rfl | hu
    · exact h.popped_le hConsistent hOpened hOpen hRoute
    · exact h.least u nodes total hu hRoute
  have hBest {u : Fin n} (hu : next.closed u) : (Search.expand q (ofLex entry).2 next).best u = next.best u :=
    best_foldl_closed (h.toKept.close hOpened) hLeast (fun _ hLink => hLink) hNode rfl hLabel hu
  refine ⟨h.toInvariant.expand hOpened hOpen hGoal, fun u nodes total hu hRoute => ?_, fun u v cost hu hEdge => ?_⟩
  · rw [closed_expand] at hu
    rw [hBest hu]
    exact hLeast u nodes total hu hRoute
  · rw [closed_expand] at hu
    rw [hBest hu]
    rcases (closed_close _ _ u).mp hu with rfl | hu
    · exact best_expand_edge hEdge
    · exact (best_expand_le q _ _ v).trans (h.relaxed u v cost hu hEdge)

theorem ends_settled (q : Query n K) (hCount : n ≤ u32Max) (hConsistent : Consistent q.edge q.heuristic) :
    Ends q (Settled q) (loop q (initial q)) :=
  ends_loop (fun _ _ _ h => h.skip) (fun _ _ _ h => h.expand hConsistent) _ (settled_initial q hCount)

end Search

end OpenHalfLife.Nav

namespace OpenHalfLife.Nav

set_option autoImplicit false

/-! ## Routes through a navigation graph -/

open Weighted
open Physics (Hull)

namespace NodeGraph

variable {graph : NodeGraph ℝ} {hull : Hull} {start goal maxExplored : Nat}

def Uses (graph : NodeGraph ℝ) (hull : Hull) (u v : Nat) (cost : ℝ) : Prop :=
  u < graph.nodes.length ∧
    ∃ link ∈ graph.linksFrom u, link.Usable hull graph.nodes.length ∧ link.toNode = v ∧ link.cost = cost

def Path (graph : NodeGraph ℝ) (hull : Hull) (start goal : Nat) (nodes : List Nat) (total : ℝ) : Prop :=
  start < graph.nodes.length ∧ Route (graph.Uses hull) start goal nodes total

theorem uses_nonneg {u v : Nat} {cost : ℝ} (h : graph.Uses hull u v cost) : 0 ≤ cost := by
  obtain ⟨-, link, -, hUsable, -, rfl⟩ := h
  exact hUsable.2.2

theorem lt_of_route {v : Nat} {nodes : List Nat} {total : ℝ} (hStart : start < graph.nodes.length)
    (h : Route (graph.Uses hull) start v nodes total) : v < graph.nodes.length := by
  cases h with
  | nil => exact hStart
  | step _ hUses =>
    obtain ⟨-, link, -, hUsable, hv, -⟩ := hUses
    exact hv ▸ hUsable.2.1

/-! ## The query -/

section Query

variable {s g : Fin graph.nodes.length}

theorem links_query (v : Fin graph.nodes.length) :
    (graph.query s g hull maxExplored).links v = graph.linksFrom v := rfl

theorem edge_iff {u v : Fin graph.nodes.length} {cost : ℝ} :
    (graph.query s g hull maxExplored).edge u v cost ↔ graph.Uses hull u v cost :=
  ⟨fun h => ⟨u.isLt, h⟩, fun h => h.2⟩

theorem path_of_route {nodes : List (Fin graph.nodes.length)} {total : ℝ}
    (h : Route (graph.query s g hull maxExplored).edge s g nodes total) :
    graph.Path hull s g (nodes.map (·.val)) total := by
  exact ⟨s.isLt, h.map (graph.Uses hull) (·.val) fun u v cost hEdge => edge_iff.mp hEdge⟩

theorem route_of_path (maxExplored : Nat) {v : Nat} {nodes : List Nat} {total : ℝ}
    (h : Route (graph.Uses hull) s v nodes total) :
    ∃ (hv : v < graph.nodes.length) (nodes' : List (Fin graph.nodes.length)),
      Route (graph.query s g hull maxExplored).edge s ⟨v, hv⟩ nodes' total := by
  induction h with
  | nil => exact ⟨s.isLt, [s], .nil⟩
  | @step u v nodes total cost _ hEdge ih =>
    obtain ⟨hu, nodes', hRoute⟩ := ih
    obtain ⟨-, link, hLink, hUsable, hv, hCost⟩ := hEdge
    have hLess : v < graph.nodes.length := hv ▸ hUsable.2.1
    exact ⟨hLess, _, hRoute.step ⟨link, hLink, hUsable, hv, hCost⟩⟩

theorem consistent_query (hCosts : graph.CostsDistance) :
    Consistent (graph.query s g hull maxExplored).edge (graph.query s g hull maxExplored).heuristic := by
  rintro u v cost ⟨link, hLink, hUsable, hv, rfl⟩
  have hStart : graph.nodes[(u : Nat)]? = some graph.nodes[u] := List.getElem?_eq_getElem u.isLt
  have hFinish : graph.nodes[link.toNode]? = some graph.nodes[v] := by
    rw [hv]
    exact List.getElem?_eq_getElem v.isLt
  have hDistance := hCosts u _ _ link hLink hStart hFinish
  exact (distance_triangle _ _ _).trans (add_le_add_left hDistance _)

end Query

/-! ## What a search gives -/

/-- A search's answer: a path that no node is on twice, and at least its cost. -/
structure Answers (graph : NodeGraph ℝ) (hull : Hull) (start goal : Nat) (route : List Nat) (total : ℝ)
    (cost : ℝ) : Prop where
  head : route.head? = some start
  last : route.getLast? = some goal
  nodup : route.Nodup
  path : graph.Path hull start goal route total
  paid : total ≤ cost

/-- The answer's cost is that of the route, and no path costs less. -/
def IsLeast (graph : NodeGraph ℝ) (hull : Hull) (start goal : Nat) (total cost : ℝ) : Prop :=
  total = cost ∧ ∀ nodes other, graph.Path hull start goal nodes other → cost ≤ other

def IsBuilt (graph : NodeGraph ℝ) : Prop :=
  ∃ hullMask snap seeds limits, graph = build hullMask snap seeds limits

section Found

variable {s g : Fin graph.nodes.length} {route : List Nat} {cost : WithTop ℝ} {explored : Nat}

open Search in
theorem answers_of_kept {last : Search graph.nodes.length ℝ} (hCount : graph.nodes.length ≤ u32Max)
    (h : Kept (graph.query s g hull maxExplored) last) (hGoal : last.best g ≠ ⊤) :
    ∃ total paid : ℝ, last.best g = paid ∧
      graph.Answers hull s g (reconstruct last.cameFrom s g) total paid := by
  obtain ⟨total, ⟨nodes, hNodes, hNodup, hRoute⟩, hTotal⟩ := h.route hCount hGoal
  obtain ⟨paid, hPaid⟩ := WithTop.ne_top_iff_exists.mp hGoal
  have hCost : (total : WithTop ℝ) ≤ paid := hTotal.trans_eq hPaid.symm
  have hSame : reconstruct last.cameFrom s g = nodes.map (·.val) := hNodes
  refine ⟨total, paid, hPaid.symm, ?_, ?_, ?_, ?_, WithTop.coe_le_coe.mp hCost⟩
  · rw [hSame, List.head?_map, hRoute.head]
    rfl
  · rw [hSame, List.getLast?_map, hRoute.getLast]
    rfl
  · rw [hSame]
    exact hNodup.map Fin.val_injective
  · rw [hSame]
    exact path_of_route hRoute

open Search in
theorem isLeast_of_settled {last : Search graph.nodes.length ℝ} {entry : Open graph.nodes.length ℝ}
    {rest : List (Open graph.nodes.length ℝ)} (h : Settled (graph.query s g hull maxExplored) last)
    (hCosts : graph.CostsDistance) (hOpened : last.opened = entry :: rest)
    (hOpen : last.closed (ofLex entry).2 = false) (hGoal : (ofLex entry).2 = g) {total paid : ℝ}
    (hPaid : last.best g = paid) (hAnswers : graph.Answers hull s g route total paid) :
    graph.IsLeast hull s g total paid := by
  subst hGoal
  have hAll (nodes : List Nat) (other : ℝ) (hPath : graph.Path hull s (ofLex entry).2 nodes other) :
      paid ≤ other := by
    obtain ⟨hv, nodes', hRoute⟩ := route_of_path maxExplored hPath.2
    have hLeast := h.popped_le (consistent_query hCosts) hOpened hOpen hRoute
    rw [hPaid] at hLeast
    exact WithTop.coe_le_coe.mp hLeast
  exact ⟨le_antisymm hAnswers.paid (hAll route total hAnswers.path), hAll⟩

theorem answers_of_loop (hCount : graph.nodes.length ≤ u32Max)
    (h : Search.loop (graph.query s g hull maxExplored) (Search.initial (graph.query s g hull maxExplored)) =
      some (route, cost, explored)) :
    ∃ total paid : ℝ, cost = paid ∧ graph.Answers hull s g route total paid ∧
      (graph.CostsDistance → graph.IsLeast hull s g total paid) := by
  by_cases hCosts : graph.CostsDistance
  · have hEnds := Search.ends_settled (graph.query s g hull maxExplored) hCount (consistent_query hCosts)
    rw [h] at hEnds
    cases hEnds with
    | @found last entry rest hLast hOpened hOpen hGoal =>
      have hNode : (ofLex entry).2 = g := hGoal
      have hLabel : last.best g ≠ ⊤ := by
        rw [← hNode]
        exact hLast.labelled entry (hOpened ▸ List.mem_cons_self)
      obtain ⟨total, paid, hPaid, hAnswers⟩ := answers_of_kept hCount hLast.toKept hLabel
      exact ⟨total, paid, hPaid, hAnswers, fun _ =>
        isLeast_of_settled hLast hCosts hOpened hOpen hGoal hPaid hAnswers⟩
  · have hEnds := Search.ends_invariant (graph.query s g hull maxExplored) hCount
    rw [h] at hEnds
    cases hEnds with
    | @found last entry rest hLast hOpened hOpen hGoal =>
      have hNode : (ofLex entry).2 = g := hGoal
      have hLabel : last.best g ≠ ⊤ := by
        rw [← hNode]
        exact hLast.labelled entry (hOpened ▸ List.mem_cons_self)
      obtain ⟨total, paid, hPaid, hAnswers⟩ := answers_of_kept hCount hLast.toKept hLabel
      exact ⟨total, paid, hPaid, hAnswers, fun h => (hCosts h).elim⟩

theorem not_path_of_loop (hCount : graph.nodes.length ≤ u32Max) (hLimit : graph.nodes.length ≤ maxExplored)
    (h : Search.loop (graph.query s g hull maxExplored) (Search.initial (graph.query s g hull maxExplored)) =
      none) (nodes : List Nat) (total : ℝ) : ¬ graph.Path hull s g nodes total := by
  intro hPath
  have hEnds := Search.ends_invariant (graph.query s g hull maxExplored) hCount
  rw [h] at hEnds
  cases hEnds with
  | exhausted hLast hOpened =>
    obtain ⟨hv, nodes', hRoute⟩ := route_of_path maxExplored hPath.2
    have hClosed := hLast.closed_of_route hOpened hRoute
    exact Bool.false_ne_true (hLast.goal.symm.trans hClosed)
  | limited hLast hOpened hOpen hLess =>
    have hFewer := hLast.explored_lt hOpen
    have hSame : (graph.query s g hull maxExplored).maxExplored = maxExplored := rfl
    omega

end Found

/-- The search finds a path where there is one, and the cheapest one where no link costs less than
the straight distance between its ends, as in every graph that is built. -/
theorem search_finds_path (graph : NodeGraph ℝ) (hCount : graph.nodes.length ≤ u32Max) (start goal : Nat)
    (hull : Hull) (maxExplored : Nat) :
    (∀ route cost explored, graph.search start goal hull maxExplored = some (route, cost, explored) →
      ∃ total paid : ℝ, cost = paid ∧ graph.Answers hull start goal route total paid ∧
        (graph.CostsDistance ∨ graph.IsBuilt → graph.IsLeast hull start goal total paid)) ∧
    (graph.nodes.length ≤ maxExplored →
      (graph.search start goal hull maxExplored = none ↔
        ∀ nodes total, ¬ graph.Path hull start goal nodes total)) := by
  have hDistance (hGraph : graph.CostsDistance ∨ graph.IsBuilt) : graph.CostsDistance := by
    rcases hGraph with hCosts | ⟨hullMask, snap, seeds, limits, rfl⟩
    · exact hCosts
    · exact costsDistance_build hullMask snap seeds limits hCount
  unfold search
  split
  · rename_i hRange
    split
    · rename_i hSame
      subst hSame
      have hHere : graph.Path hull start start [start] 0 := ⟨hRange.1, .nil⟩
      refine ⟨fun route cost explored h => ?_, fun _ => ⟨nofun, fun hNone => (hNone _ _ hHere).elim⟩⟩
      cases h
      refine ⟨0, 0, rfl, ⟨rfl, rfl, List.nodup_singleton _, hHere, le_rfl⟩, fun _ => ⟨rfl, ?_⟩⟩
      exact fun nodes other hPath => hPath.2.nonneg fun u v cost hUses => uses_nonneg hUses
    · refine ⟨fun route cost explored h => ?_, fun hLimit => ⟨fun hNone => ?_, fun hNone => ?_⟩⟩
      · obtain ⟨total, paid, hPaid, hAnswers, hLeast⟩ := answers_of_loop hCount h
        exact ⟨total, paid, hPaid, hAnswers, fun hGraph => hLeast (hDistance hGraph)⟩
      · exact not_path_of_loop hCount hLimit hNone
      · rw [Option.eq_none_iff_forall_ne_some]
        rintro ⟨route, cost, explored⟩ hSome
        obtain ⟨total, paid, -, hAnswers, -⟩ := answers_of_loop hCount hSome
        exact hNone _ _ hAnswers.path
  · rename_i hRange
    refine ⟨nofun, fun _ => ⟨fun _ nodes total hPath => hRange ⟨hPath.1, ?_⟩, fun _ => rfl⟩⟩
    exact lt_of_route hPath.1 hPath.2

/-! ## A line of two nodes -/

noncomputable def line : NodeGraph ℝ where
  nodes := [⟨⟨0, 0, 0⟩, .air, false⟩, ⟨⟨(3 : Nat), (4 : Nat), 0⟩, .air, false⟩]
  links := [⟨1, (5 : Nat), 1⟩]
  offsets := [0, 1, 1]

theorem path_line : line.Path .point 0 1 [0, 1] (0 + 5) := by
  refine ⟨by decide, .step .nil ⟨by decide, ⟨1, (5 : Nat), 1⟩, List.mem_singleton_self _, ⟨by decide, by decide, ?_⟩, rfl, Nat.cast_ofNat⟩⟩
  norm_num

theorem search_finds_path_line : line.search 0 1 .point 2 ≠ none := by
  intro hNone
  exact ((search_finds_path line (by decide) 0 1 .point 2).2 (by decide)).mp hNone [0, 1] _ path_line

end NodeGraph

/-! ## A graph with too many nodes -/

section Search

open Search

variable {n : Nat} {K : Type} [AddCommMonoid K] [LinearOrder K] {q : Query n K} {s : Search n K}
  {rest : List (Open n K)}

theorem loop_expand (entry : Open n K) (hOpened : s.opened = entry :: rest) (hOpen : s.closed (ofLex entry).2 = false)
    (hLimit : s.explored + 1 ≤ q.maxExplored) (hGoal : (ofLex entry).2 ≠ q.goal) :
    loop q s = loop q (expand q (ofLex entry).2 ((s.popped rest).close (ofLex entry).2)) := by
  rw [loop]
  split
  · rename_i hNone
    rw [hOpened] at hNone
    cases hNone
  · rename_i entry' rest' hSome
    rw [hOpened] at hSome
    cases hSome
    have hNext : ¬ q.maxExplored < ((s.popped rest).close (ofLex entry).2).explored := Nat.not_lt.mpr hLimit
    dsimp only
    rw [dif_neg (by rw [hOpen]; exact Bool.false_ne_true), if_neg hNext, if_neg hGoal]

theorem loop_goal (entry : Open n K) (hOpened : s.opened = entry :: rest) (hOpen : s.closed (ofLex entry).2 = false)
    (hLimit : s.explored + 1 ≤ q.maxExplored) (hGoal : (ofLex entry).2 = q.goal) :
    loop q s = some (reconstruct s.cameFrom q.start q.goal, s.best q.goal, s.explored + 1) := by
  rw [loop]
  split
  · rename_i hNone
    rw [hOpened] at hNone
    cases hNone
  · rename_i entry' rest' hSome
    rw [hOpened] at hSome
    cases hSome
    have hNext : ¬ q.maxExplored < ((s.popped rest).close (ofLex entry).2).explored := Nat.not_lt.mpr hLimit
    dsimp only
    rw [dif_neg (by rw [hOpen]; exact Bool.false_ne_true), if_neg hNext, if_pos hGoal, ← hGoal]
    rfl

theorem expand_single {node v : Fin n} {link : Link K} (hLinks : q.links node = [link])
    (hUsable : link.Usable q.hull n) (hv : link.toNode = v) (hLess : s.best node + link.cost < s.best v) :
    expand q node s = improve q node v (s.best node + link.cost) s := by
  have hSame : (⟨link.toNode, hUsable.2.1⟩ : Fin n) = v := Fin.ext hv
  rw [expand, hLinks, List.foldl_cons, List.foldl_nil, relax, dif_pos hUsable]
  dsimp only
  rw [hSame, if_pos hLess]
  rfl

theorem loop_through_mark (v : Fin n) {first second : Link K} (hFirst : q.links q.start = [first])
    (hFirstUsable : first.Usable q.hull n) (hv : first.toNode = v) (hSecond : q.links v = [second])
    (hSecondUsable : second.Usable q.hull n) (hGoal : second.toNode = q.goal) (hMark : (v : Nat) = u32Max)
    (hStart : v ≠ q.start) (hThrough : v ≠ q.goal) (hOther : q.start ≠ q.goal) (hLimit : 3 ≤ q.maxExplored) :
    ∃ cost, loop q (initial q) = some ([q.goal.val], cost, 3) := by
  let closing := ((initial q).popped []).close q.start
  have hFresh {w : Fin n} (hw : w ≠ q.start) : closing.best w = ⊤ := best_initial_of_ne hw
  have hStarted : closing.best q.start = 0 := best_initial q
  have hExpand : expand q q.start closing = improve q q.start v (closing.best q.start + first.cost) closing := by
    refine expand_single hFirst hFirstUsable hv ?_
    rw [hStarted, zero_add, hFresh hStart]
    exact WithTop.coe_lt_top _
  have hStep : loop q (initial q) = loop q (expand q q.start closing) :=
    loop_expand (toLex (q.heuristic q.start, q.start)) rfl rfl ((Nat.le_succ 1).trans ((Nat.le_succ 2).trans hLimit)) hOther
  let reached := improve q q.start v (closing.best q.start + first.cost) closing
  let closing' := (reached.popped []).close v
  have hThere : closing'.best v = closing.best q.start + first.cost := by
    change (improve q q.start v (closing.best q.start + first.cost) closing).best v = _
    rw [best_improve_self]
  have hGoalFresh : closing'.best q.goal = ⊤ := by
    change (improve q q.start v (closing.best q.start + first.cost) closing).best q.goal = _
    rw [best_improve_of_ne q closing (Ne.symm hThrough), hFresh (Ne.symm hOther)]
  have hExpand' : expand q v closing' = improve q v q.goal (closing'.best v + second.cost) closing' := by
    refine expand_single hSecond hSecondUsable hGoal ?_
    rw [hThere, hGoalFresh, hStarted, ← WithTop.coe_zero, ← WithTop.coe_add, ← WithTop.coe_add]
    exact WithTop.coe_lt_top _
  have hOpen : reached.closed v = false := closed_close_of_ne _ hStart
  have hStep' : loop q reached = loop q (expand q v closing') :=
    loop_expand (toLex ((closing.best q.start + first.cost + q.heuristic v : WithTop K), v)) rfl hOpen
      ((Nat.le_succ 2).trans hLimit) hThrough
  let found := improve q v q.goal (closing'.best v + second.cost) closing'
  have hGoalOpen : found.closed q.goal = false :=
    (closed_close_of_ne _ (Ne.symm hThrough)).trans (closed_close_of_ne _ (Ne.symm hOther))
  have hLast : loop q found = some (reconstruct found.cameFrom q.start q.goal, found.best q.goal, 3) :=
    loop_goal (toLex ((closing'.best v + second.cost + q.heuristic q.goal : WithTop K), q.goal)) rfl hGoalOpen hLimit rfl
  have hRoute : reconstruct found.cameFrom q.start q.goal = [q.goal.val] := by
    have hFrom : found.cameFrom q.goal = u32Max := by
      change (improve q v q.goal (closing'.best v + second.cost) closing').cameFrom q.goal = _
      rw [cameFrom_improve_self, hMark]
    obtain ⟨rounds, hRounds⟩ : ∃ rounds, n = rounds + 1 := ⟨n - 1, by have := v.isLt; omega⟩
    have hNotStart : (q.goal : Nat) ≠ q.start := fun hSame => hOther (Fin.ext hSame.symm)
    have hWalk : reconstructFrom found.cameFrom q.start (rounds + 1) q.goal [q.goal.val] = [q.goal.val] := by
      rw [reconstructFrom, if_neg hNotStart, dif_pos q.goal.isLt]
      dsimp only
      rw [if_pos hFrom]
    rw [← hRounds] at hWalk
    exact hWalk
  exact ⟨found.best q.goal, by rw [hStep, hExpand, hStep', hExpand', hLast, hRoute]⟩

end Search

namespace NodeGraph

/-- A graph of `2 ^ 32` nodes at one place, with a link from node 0 to the last one and one from
there to node 1. -/
noncomputable def full : NodeGraph ℝ where
  nodes := List.replicate (2 ^ 32) ⟨⟨0, 0, 0⟩, .air, false⟩
  links := [⟨u32Max, 0, 1⟩, ⟨1, 0, 1⟩]
  offsets := 0 :: (List.replicate u32Max 1 ++ [2])

theorem length_full : full.nodes.length = 2 ^ 32 := List.length_replicate

theorem offset_full {index : Nat} (h : index < u32Max) : full.offsets[index + 1]? = some 1 := by
  rw [full, List.getElem?_cons_succ, List.getElem?_append_left (by rwa [List.length_replicate]),
    List.getElem?_replicate, if_pos h]

theorem last_offset_full : full.offsets[u32Max + 1]? = some 2 := by
  rw [full, List.getElem?_cons_succ, List.getElem?_append_right (by rw [List.length_replicate]),
    List.length_replicate, Nat.sub_self]
  rfl

theorem linksFrom_full_zero : full.linksFrom 0 = [⟨u32Max, 0, 1⟩] := by
  have hOffset : full.offsets[0]? = some 0 := rfl
  have hNext : full.offsets[0 + 1]? = some 1 := offset_full (by decide)
  rw [linksFrom, hOffset, hNext]
  rfl

theorem linksFrom_full_last : full.linksFrom u32Max = [⟨1, 0, 1⟩] := by
  have hOffset : full.offsets[u32Max]? = some 1 := offset_full (show u32Max - 1 < u32Max by decide)
  rw [linksFrom, hOffset, last_offset_full]
  rfl

theorem search_loses_start : ¬ ∀ (graph : NodeGraph ℝ) (start goal : Nat) (hull : Hull) (maxExplored : Nat)
    (route : List Nat) (cost : WithTop ℝ) (explored : Nat),
      graph.search start goal hull maxExplored = some (route, cost, explored) → route.head? = some start := by
  intro hAll
  have hStart : 0 < full.nodes.length := by rw [length_full]; decide
  have hGoal : 1 < full.nodes.length := by rw [length_full]; decide
  have hMark : u32Max < full.nodes.length := by rw [length_full]; decide
  let s : Fin full.nodes.length := ⟨0, hStart⟩
  let g : Fin full.nodes.length := ⟨1, hGoal⟩
  let v : Fin full.nodes.length := ⟨u32Max, hMark⟩
  have hFirst : full.linksFrom s = [⟨u32Max, 0, 1⟩] := linksFrom_full_zero
  have hSecond : full.linksFrom v = [⟨1, 0, 1⟩] := linksFrom_full_last
  have hUsable {index : Nat} (h : index < full.nodes.length) :
      (⟨index, 0, 1⟩ : Link ℝ).Usable .point full.nodes.length := by
    refine ⟨?_, h, le_rfl⟩
    rw [Link.allows]
    dsimp only
    decide
  have hOther {a b : Fin full.nodes.length} (h : a.val ≠ b.val) : a ≠ b := fun hSame => h (congrArg _ hSame)
  obtain ⟨cost, hLoop⟩ : ∃ cost, Search.loop (full.query s g .point 3) (Search.initial (full.query s g .point 3)) =
      some ([1], cost, 3) := by
    have hTo : (⟨u32Max, 0, 1⟩ : Link ℝ).toNode = v.val := Eq.refl u32Max
    have hOn : (⟨1, 0, 1⟩ : Link ℝ).toNode = (full.query s g .point 3).goal.val := Eq.refl 1
    refine loop_through_mark (q := full.query s g .point 3) v ((links_query s).trans hFirst)
      (hUsable hMark) hTo ((links_query v).trans hSecond) (hUsable hGoal) hOn (Eq.refl u32Max) ?_ ?_ ?_ le_rfl
    · exact hOther (show u32Max ≠ 0 by decide)
    · exact hOther (show u32Max ≠ 1 by decide)
    · exact hOther Nat.zero_ne_one
  have hSearch : full.search 0 1 .point 3 = some ([1], cost, 3) := by
    rw [search, dif_pos ⟨hStart, hGoal⟩, if_neg Nat.zero_ne_one]
    exact hLoop
  have hHead := hAll full 0 1 .point 3 _ _ _ hSearch
  cases hHead

end NodeGraph

end OpenHalfLife.Nav
