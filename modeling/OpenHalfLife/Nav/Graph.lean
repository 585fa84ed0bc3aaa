import OpenHalfLife.Physics.Hull
import Mathlib.Analysis.Real.Sqrt
import Mathlib.Analysis.InnerProductSpace.PiL2

/-! # Navigation graphs

The links of all nodes stand in one list, of which each node has a slice. Which
hulls can use a link is found out by traces through the map; a function stands
for them here, and another one for the drop of a node onto the floor.
-/

namespace OpenHalfLife

set_option autoImplicit false

def Physics.Hull.index : Physics.Hull → UInt8
  | .point => 0
  | .standing => 1
  | .large => 2
  | .crouched => 3

namespace Nav

open Physics (Hull)

def u32Max : Nat := 2 ^ 32 - 1

inductive NodeKind
  | ground
  | air
  | water
  deriving DecidableEq

structure NodeSeed (K : Type) where
  position : Physics.Vec3 K
  kind : NodeKind

structure Node (K : Type) where
  position : Physics.Vec3 K
  kind : NodeKind
  snapped : Bool

structure Link (K : Type) where
  toNode : Nat
  cost : K
  hullMask : UInt8

def Link.allows {K : Type} (link : Link K) (hull : Hull) : Bool := link.hullMask &&& (1 <<< hull.index) != 0

/-- The links of node `i` stand from `offsets[i]` to `offsets[i + 1]`. -/
structure NodeGraph (K : Type) where
  nodes : List (Node K)
  links : List (Link K)
  offsets : List Nat

def NodeGraph.linksFrom {K : Type} (graph : NodeGraph K) (index : Nat) : List (Link K) :=
  match graph.offsets[index]?, graph.offsets[index + 1]? with
  | some start, some finish =>
    if start ≤ finish ∧ finish ≤ graph.links.length then (graph.links.drop start).take (finish - start) else []
  | _, _ => []

noncomputable def distance (v w : Physics.Vec3 ℝ) : ℝ := √((w - v).lengthSquared)

structure BuildLimits where
  linkRadius : ℝ
  maxNodes : Nat
  maxLinksPerNode : Nat
  maxCandidatePairs : Nat

/-! ## Building -/

namespace NodeGraph

/-- A `usize` as a `u32`; one that is too great becomes the greatest. -/
def saturate (index : Nat) : Nat := min index u32Max

section Build

variable (hullMask : Node ℝ → Node ℝ → UInt8)

noncomputable def linkTo (start finish : Node ℝ) (toNode : Nat) (cost : ℝ) : List (Link ℝ) :=
  if hullMask start finish ≠ 0 then [⟨saturate toNode, cost, hullMask start finish⟩] else []

noncomputable def connect (nodes : List (Node ℝ)) (radiusSquared : ℝ) :
    List (Nat × Nat) → Nat → List (List (Link ℝ)) → List (List (Link ℝ))
  | [], _, adjacency => adjacency
  | (a, b) :: pairs, budget, adjacency =>
    match nodes[a]?, nodes[b]? with
    | some start, some finish =>
      let distanceSquared := (finish.position - start.position).lengthSquared
      if radiusSquared < distanceSquared ∨ distanceSquared ≤ 0 then
        connect nodes radiusSquared pairs budget adjacency
      else match budget with
        | 0 => adjacency
        | budget + 1 =>
          let cost := √distanceSquared
          let adjacency := adjacency.modify a (· ++ linkTo hullMask start finish b cost)
          let adjacency := adjacency.modify b (· ++ linkTo hullMask finish start a cost)
          connect nodes radiusSquared pairs budget adjacency
    | _, _ => adjacency

def pairs (count : Nat) : List (Nat × Nat) :=
  (List.range count).flatMap fun a => (List.range' (a + 1) (count - (a + 1))).map (a, ·)

noncomputable def cheaper (left right : Link ℝ) : Bool :=
  decide (left.cost < right.cost ∨ left.cost = right.cost ∧ left.toNode ≤ right.toNode)

noncomputable def kept (limits : BuildLimits) (adjacency : List (List (Link ℝ))) : List (List (Link ℝ)) :=
  adjacency.map fun list => (list.mergeSort cheaper).take limits.maxLinksPerNode

def flatten {K : Type} (nodes : List (Node K)) (lists : List (List (Link K))) : NodeGraph K where
  nodes := nodes
  links := lists.flatten
  offsets := (List.range (lists.length + 1)).map fun i => saturate (lists.take i).flatten.length

noncomputable def build (snap : NodeSeed ℝ → Node ℝ) (seeds : List (NodeSeed ℝ)) (limits : BuildLimits) :
    NodeGraph ℝ :=
  let nodes := (seeds.take limits.maxNodes).map snap
  let adjacency := connect hullMask nodes (limits.linkRadius * limits.linkRadius) (pairs nodes.length)
    limits.maxCandidatePairs (List.replicate nodes.length [])
  flatten nodes (kept limits adjacency)

end Build

end NodeGraph

end Nav

end OpenHalfLife

namespace OpenHalfLife.Nav

set_option autoImplicit false

/-! ## Costs and distances

The straight distance obeys the triangle inequality, and the links of a graph
that was built cost just this distance.
-/

/-! ## The straight distance -/

theorem distance_eq_dist (v w : Physics.Vec3 ℝ) :
    distance v w = dist (!₂[v.x, v.y, v.z] : EuclideanSpace ℝ (Fin 3)) !₂[w.x, w.y, w.z] := by
  rw [EuclideanSpace.dist_eq, Fin.sum_univ_three, distance]
  congr 1
  simp only [Real.dist_eq, sq_abs]
  change (w.x - v.x) * (w.x - v.x) + (w.y - v.y) * (w.y - v.y) + (w.z - v.z) * (w.z - v.z) =
    (v.x - w.x) ^ 2 + (v.y - w.y) ^ 2 + (v.z - w.z) ^ 2
  ring

theorem distance_comm (v w : Physics.Vec3 ℝ) : distance v w = distance w v := by
  rw [distance_eq_dist, distance_eq_dist, dist_comm]

theorem distance_triangle (u v w : Physics.Vec3 ℝ) : distance u w ≤ distance u v + distance v w := by
  rw [distance_eq_dist, distance_eq_dist, distance_eq_dist]
  exact dist_triangle _ _ _

namespace NodeGraph

/-- Every link costs at least the straight distance between its ends. -/
def CostsDistance (graph : NodeGraph ℝ) : Prop :=
  ∀ (index : Nat) (start finish : Node ℝ) (link : Link ℝ), link ∈ graph.linksFrom index →
    graph.nodes[index]? = some start → graph.nodes[link.toNode]? = some finish →
      distance start.position finish.position ≤ link.cost

/-! ## Graphs that are built -/

section Build

variable (nodes : List (Node ℝ))

def Straight (index : Nat) (link : Link ℝ) : Prop :=
  ∀ start finish : Node ℝ, nodes[index]? = some start → nodes[link.toNode]? = some finish →
    link.cost = distance start.position finish.position

def AllStraight (adjacency : List (List (Link ℝ))) : Prop :=
  ∀ (index : Nat) (list : List (Link ℝ)), adjacency[index]? = some list → ∀ link ∈ list, Straight nodes index link

variable {nodes}

theorem AllStraight.modify {adjacency : List (List (Link ℝ))} (h : AllStraight nodes adjacency) {index : Nat}
    {links : List (Link ℝ)} (hLinks : ∀ link ∈ links, Straight nodes index link) :
    AllStraight nodes (adjacency.modify index (· ++ links)) := by
  intro other list hList link hLink
  rw [List.getElem?_modify] at hList
  split at hList
  · rename_i hSame
    obtain ⟨before, hBefore, rfl⟩ := Option.map_eq_some_iff.mp hList
    rcases List.mem_append.mp hLink with hOld | hNew
    · exact h other before hBefore link hOld
    · exact hSame ▸ hLinks link hNew
  · have hOld : adjacency[other]? = some list := by simpa using hList
    exact h other list hOld link hLink

theorem straight_linkTo {hullMask : Node ℝ → Node ℝ → UInt8} (hCount : nodes.length ≤ u32Max) {a b : Nat}
    {start finish : Node ℝ} {cost : ℝ} (ha : nodes[a]? = some start) (hb : nodes[b]? = some finish)
    (hCost : cost = distance start.position finish.position) :
    ∀ link ∈ linkTo hullMask start finish b cost, Straight nodes a link := by
  intro link hLink start' finish' hStart hFinish
  have hIndex : saturate b = b := by
    obtain ⟨hLess, -⟩ := List.getElem?_eq_some_iff.mp hb
    exact Nat.min_eq_left (hLess.le.trans hCount)
  unfold linkTo at hLink
  split at hLink
  · rw [List.mem_singleton] at hLink
    subst hLink
    dsimp only at hFinish ⊢
    rw [hIndex, hb] at hFinish
    rw [ha] at hStart
    cases hStart
    cases hFinish
    exact hCost
  · cases hLink

theorem allStraight_connect (hullMask : Node ℝ → Node ℝ → UInt8) (hCount : nodes.length ≤ u32Max)
    (radiusSquared : ℝ) (pairs : List (Nat × Nat)) (budget : Nat) (adjacency : List (List (Link ℝ)))
    (h : AllStraight nodes adjacency) :
    AllStraight nodes (connect hullMask nodes radiusSquared pairs budget adjacency) := by
  induction pairs generalizing budget adjacency with
  | nil => exact h
  | cons pair pairs ih =>
    obtain ⟨a, b⟩ := pair
    rw [connect]
    split
    · rename_i start finish ha hb
      dsimp only
      split
      · exact ih budget adjacency h
      · split
        · exact h
        · refine ih _ _ ((h.modify ?_).modify ?_)
          · exact straight_linkTo hCount ha hb rfl
          · exact straight_linkTo hCount hb ha (distance_comm _ _)
    · exact h

theorem AllStraight.kept {adjacency : List (List (Link ℝ))} (h : AllStraight nodes adjacency)
    (limits : BuildLimits) : AllStraight nodes (kept limits adjacency) := by
  intro index list hList link hLink
  unfold NodeGraph.kept at hList
  rw [List.getElem?_map] at hList
  obtain ⟨before, hBefore, rfl⟩ := Option.map_eq_some_iff.mp hList
  have hMem := List.mem_of_mem_take hLink
  rw [List.mem_mergeSort] at hMem
  exact h index before hBefore link hMem

theorem mem_of_linksFrom_flatten {lists : List (List (Link ℝ))} {index : Nat} {link : Link ℝ}
    (h : link ∈ (flatten nodes lists).linksFrom index) : ∃ list, lists[index]? = some list ∧ link ∈ list := by
  have hOffset (i : Nat) : (flatten nodes lists).offsets[i]? =
      if i < lists.length + 1 then some (saturate (lists.take i).flatten.length) else none := by
    rw [flatten, List.getElem?_map]
    split
    · rename_i hLess
      rw [List.getElem?_range hLess, Option.map_some]
    · rename_i hLess
      rw [List.getElem?_eq_none (by rw [List.length_range]; omega), Option.map_none]
  unfold linksFrom at h
  rw [hOffset, hOffset] at h
  by_cases hIndex : index < lists.length
  · rw [if_pos (by omega), if_pos (by omega)] at h
    dsimp only at h
    obtain ⟨list, hList⟩ : ∃ list, lists[index]? = some list := ⟨_, List.getElem?_eq_getElem hIndex⟩
    have hTake : lists.take (index + 1) = lists.take index ++ [list] := by
      rw [List.take_add_one, hList, Option.toList_some]
    have hNext : (lists.take (index + 1)).flatten.length = (lists.take index).flatten.length + list.length := by
      rw [hTake, List.flatten_append, List.length_append, List.flatten_singleton]
    have hFlat : lists.flatten = (lists.take index).flatten ++ (list ++ (lists.drop (index + 1)).flatten) := by
      have hFirst : (lists.take (index + 1)).flatten = (lists.take index).flatten ++ list := by
        rw [hTake, List.flatten_append, List.flatten_singleton]
      rw [← List.append_assoc, ← hFirst, ← List.flatten_append, List.take_append_drop]
    refine ⟨list, hList, ?_⟩
    split at h
    · rw [hNext] at h
      unfold saturate at h
      rcases Nat.le_total (lists.take index).flatten.length u32Max with hLow | hHigh
      · rw [Nat.min_eq_left hLow] at h
        have hShort : min ((lists.take index).flatten.length + list.length) u32Max -
            (lists.take index).flatten.length ≤ list.length := by omega
        have hLinks : (flatten nodes lists).links = lists.flatten := rfl
        rw [hLinks, hFlat, List.drop_left, List.take_append_of_le_length hShort] at h
        exact List.mem_of_mem_take h
      · rw [Nat.min_eq_right hHigh, Nat.min_eq_right (by omega), Nat.sub_self, List.take_zero] at h
        cases h
    · cases h
  · rw [if_neg (show ¬ index + 1 < lists.length + 1 by omega)] at h
    split at h
    · contradiction
    · cases h

theorem costsDistance_build (hullMask : Node ℝ → Node ℝ → UInt8) (snap : NodeSeed ℝ → Node ℝ)
    (seeds : List (NodeSeed ℝ)) (limits : BuildLimits)
    (hCount : (build hullMask snap seeds limits).nodes.length ≤ u32Max) :
    (build hullMask snap seeds limits).CostsDistance := by
  intro index start finish link hLink hStart hFinish
  obtain ⟨list, hList, hMem⟩ := mem_of_linksFrom_flatten hLink
  have hEmpty : AllStraight ((seeds.take limits.maxNodes).map snap)
      (List.replicate ((seeds.take limits.maxNodes).map snap).length []) := by
    intro other list hList
    rw [List.eq_of_mem_replicate (List.mem_of_getElem? hList)]
    exact nofun
  have hAll := (allStraight_connect hullMask hCount (limits.linkRadius * limits.linkRadius)
    (pairs ((seeds.take limits.maxNodes).map snap).length) limits.maxCandidatePairs _ hEmpty).kept limits
  exact (hAll index list hList link hMem start finish hStart hFinish).ge

end Build

end NodeGraph

end OpenHalfLife.Nav
