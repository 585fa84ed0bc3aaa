import Mathlib.Algebra.Order.Monoid.WithTop
import Mathlib.Data.List.Sort
import Mathlib.Data.Prod.Lex
import Mathlib.Order.Fin.Basic
import OpenHalfLife.Nav.Graph

/-! # The search for a route

The heap of open nodes is a list with its least entry first. A node may stand
in it more than once; the entries after the first one count for nothing.
-/

namespace OpenHalfLife.Nav

set_option autoImplicit false

open Physics (Hull)

variable {n : Nat} {K : Type}

abbrev Open (n : Nat) (K : Type) := WithTop K ×ₗ Fin n

structure Search (n : Nat) (K : Type) where
  best : Fin n → WithTop K
  cameFrom : Fin n → Nat
  closed : Fin n → Bool
  opened : List (Open n K)
  explored : Nat

/-- What is asked of a graph with `n` nodes. -/
structure Query (n : Nat) (K : Type) where
  links : Fin n → List (Link K)
  hull : Hull
  start : Fin n
  goal : Fin n
  maxExplored : Nat
  heuristic : Fin n → K

/-! ## The route back -/

/-- The nodes before `current`, put before `route`. -/
def reconstructFrom (cameFrom : Fin n → Nat) (start : Nat) : Nat → Nat → List Nat → List Nat
  | 0, _, route => route
  | rounds + 1, current, route =>
    if current = start then route
    else if h : current < n then
      let previous := cameFrom ⟨current, h⟩
      if previous = u32Max then route
      else reconstructFrom cameFrom start rounds previous (previous :: route)
    else route

def reconstruct (cameFrom : Fin n → Nat) (start goal : Nat) : List Nat :=
  reconstructFrom cameFrom start n goal [goal]

namespace Search

def popped (s : Search n K) (rest : List (Open n K)) : Search n K := { s with opened := rest }

def close (node : Fin n) (s : Search n K) : Search n K :=
  { s with closed := Function.update s.closed node true, explored := s.explored + 1 }

def closedNodes (s : Search n K) : Finset (Fin n) := Finset.univ.filter fun node => s.closed node = true

theorem closedNodes_close (node : Fin n) (s : Search n K) :
    (s.close node).closedNodes = insert node s.closedNodes := by
  ext other
  rw [closedNodes, closedNodes, Finset.mem_filter, Finset.mem_insert, Finset.mem_filter, close]
  rcases eq_or_ne other node with rfl | hOther
  · simp
  · simp [hOther]

theorem closed_close_self (s : Search n K) (node : Fin n) : (s.close node).closed node = true :=
  Function.update_self _ _ _

theorem closed_close_of_ne (s : Search n K) {node u : Fin n} (h : u ≠ node) :
    (s.close node).closed u = s.closed u := Function.update_of_ne h _ _

theorem closed_close (s : Search n K) (node u : Fin n) : (s.close node).closed u ↔ u = node ∨ s.closed u := by
  rcases eq_or_ne u node with rfl | hOther
  · simp [closed_close_self]
  · simp [closed_close_of_ne s hOther, hOther]

theorem card_close {node : Fin n} {s : Search n K} (h : s.closed node = false) :
    (s.close node).closedNodes.card = s.closedNodes.card + 1 := by
  rw [closedNodes_close, Finset.card_insert_of_notMem]
  rw [closedNodes, Finset.mem_filter, h]
  exact fun hClosed => Bool.false_ne_true hClosed.2

theorem card_closedNodes_le (s : Search n K) : s.closedNodes.card ≤ n :=
  (Finset.card_le_univ _).trans_eq (Fintype.card_fin n)

end Search

section Steps

variable [AddCommMonoid K] [LinearOrder K]

abbrev Link.Usable (link : Link K) (hull : Hull) (count : Nat) : Prop :=
  link.allows hull ∧ link.toNode < count ∧ 0 ≤ link.cost

namespace Search

variable (q : Query n K)

def relax (node : Fin n) (nodeCost : WithTop K) (s : Search n K) (link : Link K) : Search n K :=
  if h : link.Usable q.hull n then
    let next : Fin n := ⟨link.toNode, h.2.1⟩
    let candidate := nodeCost + link.cost
    if candidate < s.best next then
      { s with
        best := Function.update s.best next candidate
        cameFrom := Function.update s.cameFrom next node
        opened := s.opened.orderedInsert (· ≤ ·) (toLex (candidate + q.heuristic next, next)) }
    else s
  else s

def expand (node : Fin n) (s : Search n K) : Search n K :=
  (q.links node).foldl (relax q node (s.best node)) s

theorem closed_relax (node : Fin n) (nodeCost : WithTop K) (s : Search n K) (link : Link K) :
    (relax q node nodeCost s link).closed = s.closed := by
  unfold relax
  split
  · dsimp only
    split
    · rfl
    · rfl
  · rfl

theorem closed_expand (node : Fin n) (s : Search n K) : (expand q node s).closed = s.closed := by
  unfold expand
  generalize s.best node = nodeCost
  induction q.links node generalizing s with
  | nil => rfl
  | cons link links ih => rw [List.foldl_cons, ih, closed_relax]

def loop (s : Search n K) : Option (List Nat × WithTop K × Nat) :=
  match _hOpened : s.opened with
  | [] => none
  | entry :: rest =>
    let node := (ofLex entry).2
    if _hClosed : s.closed node then loop (s.popped rest)
    else
      let next := (s.popped rest).close node
      if q.maxExplored < next.explored then none
      else if node = q.goal then some (reconstruct next.cameFrom q.start q.goal, next.best node, next.explored)
      else loop (expand q node next)
termination_by (n - s.closedNodes.card, s.opened.length)
decreasing_by
  · refine Prod.Lex.right _ ?_
    rw [_hOpened]
    exact Nat.lt_succ_self _
  · refine Prod.Lex.left _ _ ?_
    have hOpen : (s.popped rest).closed node = false := Bool.not_eq_true _ ▸ _hClosed
    have hCard : (expand q node next).closedNodes.card = s.closedNodes.card + 1 := by
      rw [closedNodes, closed_expand]
      exact card_close hOpen
    have hBound := card_closedNodes_le (expand q node next)
    change n - (expand q node next).closedNodes.card < n - s.closedNodes.card
    rw [hCard] at hBound ⊢
    exact Nat.sub_lt_sub_left hBound (Nat.lt_succ_self _)

def initial : Search n K where
  best := Function.update (fun _ => ⊤) q.start 0
  cameFrom _ := u32Max
  closed _ := false
  opened := [toLex (q.heuristic q.start, q.start)]
  explored := 0

end Search

end Steps

noncomputable def NodeGraph.query (graph : NodeGraph ℝ) (start goal : Fin graph.nodes.length) (hull : Hull)
    (maxExplored : Nat) : Query graph.nodes.length ℝ where
  links node := graph.linksFrom node
  hull := hull
  start := start
  goal := goal
  maxExplored := maxExplored
  heuristic node := distance graph.nodes[node].position graph.nodes[goal].position

noncomputable def NodeGraph.search (graph : NodeGraph ℝ) (start goal : Nat) (hull : Hull) (maxExplored : Nat) :
    Option (List Nat × WithTop ℝ × Nat) :=
  if h : start < graph.nodes.length ∧ goal < graph.nodes.length then
    if start = goal then some ([start], 0, 0)
    else
      let q := graph.query ⟨start, h.1⟩ ⟨goal, h.2⟩ hull maxExplored
      Search.loop q (Search.initial q)
  else none

end OpenHalfLife.Nav
