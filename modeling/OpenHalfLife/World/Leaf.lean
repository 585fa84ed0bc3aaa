import OpenHalfLife.Formats.Slice
import OpenHalfLife.Lib.Scalar

/-! # Walking the node tree of a map

A walk that is bounded finds the leaf a point lies in, also where the nodes
of a malformed map form a cycle.
-/

namespace OpenHalfLife.Formats

set_option autoImplicit false

structure BspPlane (K : Type) where
  normal : Vec3 K
  dist : K

structure BspNode where
  plane : UInt32
  children : Int16 × Int16

def leafIndexFromChild (child : Int) : Except FormatError Nat :=
  if child < 0 then .ok (-child - 1).toNat else .error .indexOutOfRange

section Walk

variable {K : Type} [Field K] [LinearOrder K]

def isFront (point : Vec3 K) (plane : BspPlane K) : Bool :=
  point.x * plane.normal.x + point.y * plane.normal.y + point.z * plane.normal.z ≥ plane.dist

variable (nodes : List BspNode) (planes : List (BspPlane K)) (point : Vec3 K)

def follow (link : Int) : Option Int :=
  if link < 0 then none
  else do
    let node ← nodes[link.toNat]?
    let plane ← planes[node.plane.toNat]?
    some (if isFront point plane then node.children.1 else node.children.2).toInt

def findLeafFrom : Nat → Int → Except FormatError Nat
  | 0, _ => .error .recursionLimitExceeded
  | depth + 1, current =>
    match follow nodes planes point current with
    | none => .error .indexOutOfRange
    | some child => if child < 0 then leafIndexFromChild child else findLeafFrom depth child

def findLeaf (headNode : Int) (maxDepth : Nat) : Except FormatError Nat :=
  if headNode < 0 then leafIndexFromChild headNode else findLeafFrom nodes planes point maxDepth headNode

def linkAfter : Nat → Int → Option Int
  | 0, link => some link
  | steps + 1, link => (follow nodes planes point link).bind (linkAfter steps)

variable {nodes planes point}

theorem findLeafFrom_succ {depth leaf : Nat} {link : Int}
    (h : findLeafFrom nodes planes point depth link = .ok leaf) :
    findLeafFrom nodes planes point (depth + 1) link = .ok leaf := by
  induction depth generalizing link with
  | zero => cases h
  | succ depth ih =>
    rw [findLeafFrom] at h ⊢
    cases hChild : follow nodes planes point link with
    | none =>
      rw [hChild] at h
      cases h
    | some child =>
      rw [hChild] at h
      dsimp only at h ⊢
      split at h <;> rename_i hLeaf
      · rw [if_pos hLeaf]
        exact h
      · rw [if_neg hLeaf]
        exact ih h

theorem findLeafFrom_succ_ok {depth leaf : Nat} {link : Int}
    (h : findLeafFrom nodes planes point (depth + 1) link = .ok leaf) :
    findLeafFrom nodes planes point depth link = .ok leaf ∨
      ∃ child < 0, linkAfter nodes planes point (depth + 1) link = some child := by
  induction depth generalizing link with
  | zero =>
    rw [findLeafFrom] at h
    cases hChild : follow nodes planes point link with
    | none =>
      rw [hChild] at h
      cases h
    | some child =>
      rw [hChild] at h
      dsimp only at h
      split at h <;> rename_i hLeaf
      · exact Or.inr ⟨child, hLeaf, by rw [linkAfter, hChild]; rfl⟩
      · cases h
  | succ depth ih =>
    rw [findLeafFrom] at h
    rw [findLeafFrom, linkAfter]
    cases hChild : follow nodes planes point link with
    | none =>
      rw [hChild] at h
      cases h
    | some child =>
      rw [hChild] at h
      dsimp only at h ⊢
      split at h <;> rename_i hLeaf
      · exact Or.inl (by rw [if_pos hLeaf]; exact h)
      · rw [if_neg hLeaf]
        exact ih h

theorem findLeafFrom_of_linkAfter {depth : Nat} {link child : Int} (hChild : child < 0)
    (h : linkAfter nodes planes point (depth + 1) link = some child) :
    findLeafFrom nodes planes point (depth + 1) link = .ok (-child - 1).toNat ∧
      findLeafFrom nodes planes point depth link = .error .recursionLimitExceeded := by
  induction depth generalizing link with
  | zero =>
    rw [linkAfter] at h
    obtain ⟨other, hOther, hLast⟩ := Option.bind_eq_some_iff.mp h
    obtain rfl := Option.some.inj hLast
    refine ⟨?_, rfl⟩
    rw [findLeafFrom, hOther]
    simp only [hChild, leafIndexFromChild, if_true]
  | succ depth ih =>
    rw [linkAfter] at h
    obtain ⟨next, hNext, hLater⟩ := Option.bind_eq_some_iff.mp h
    have hNode : ¬next < 0 := by
      intro hLeaf
      rw [linkAfter, follow, if_pos hLeaf] at hLater
      cases hLater
    rw [findLeafFrom, findLeafFrom, hNext]
    simp only [hNode, if_false]
    exact ih hLater

end Walk

end OpenHalfLife.Formats

namespace OpenHalfLife.World

set_option autoImplicit false

/-! ## The leaf a point lies in

The world model walks the tree of the map a second way, and looks for a leaf
before a step instead of after it.
-/

open Formats

structure WorldNode where
  plane : Nat
  children : Int × Int

structure WorldPlane (K : Type) where
  normal : Vec3 K
  dist : K

structure WorldTree (K : Type) where
  nodes : List WorldNode
  planes : List (WorldPlane K)
  maxWalkDepth : Nat

namespace WorldTree

def build {K : Type} (nodes : List BspNode) (planes : List (BspPlane K)) (maxWalkDepth : Nat) : WorldTree K where
  nodes := nodes.map fun node => ⟨node.plane.toNat, (node.children.1.toInt, node.children.2.toInt)⟩
  planes := planes.map fun plane => ⟨plane.normal, plane.dist⟩
  maxWalkDepth

variable {K : Type} [Field K] [LinearOrder K]

def follow (tree : WorldTree K) (point : Vec3 K) (link : Int) : Option Int := do
  let node ← tree.nodes[link.toNat]?
  let plane ← tree.planes[node.plane]?
  let distance :=
    point.x * plane.normal.x + point.y * plane.normal.y + point.z * plane.normal.z - plane.dist
  some (if distance < 0 then node.children.2 else node.children.1)

def leafFrom (tree : WorldTree K) (point : Vec3 K) : Nat → Int → Option Nat
  | 0, _ => none
  | depth + 1, current =>
    if current < 0 then some (-current - 1).toNat
    else (tree.follow point current).bind (tree.leafFrom point depth)

def leafAt (tree : WorldTree K) (point : Vec3 K) : Option Nat :=
  if tree.nodes.isEmpty then none else tree.leafFrom point tree.maxWalkDepth 0

variable [IsStrictOrderedRing K] {nodes : List BspNode} {planes : List (BspPlane K)} {maxWalkDepth : Nat}
  {point : Vec3 K}

theorem follow_build {link : Int} (h : ¬link < 0) :
    (build nodes planes maxWalkDepth).follow point link = Formats.follow nodes planes point link := by
  rw [follow, Formats.follow, if_neg h, build]
  dsimp only
  rw [List.getElem?_map]
  cases nodes[link.toNat]? with
  | none => rfl
  | some node =>
    change (List.map _ planes)[node.plane.toNat]?.bind _ = planes[node.plane.toNat]?.bind _
    rw [List.getElem?_map]
    cases planes[node.plane.toNat]? with
    | none => rfl
    | some plane =>
      change some _ = some _
      rw [Option.some_inj]
      dsimp only
      by_cases hFront : isFront point plane = true
      · have hNot := not_lt.mpr (sub_nonneg.mpr (of_decide_eq_true hFront))
        rw [if_pos hFront, if_neg hNot]
      · have hBehind := sub_neg.mpr (not_le.mp (mt decide_eq_true hFront))
        rw [if_neg hFront, if_pos hBehind]

theorem leafFrom_succ (depth : Nat) {link : Int} (h : ¬link < 0) :
    (build nodes planes maxWalkDepth).leafFrom point (depth + 1) link =
      (findLeafFrom nodes planes point depth link).toOption := by
  induction depth generalizing link with
  | zero =>
    rw [leafFrom, if_neg h]
    cases (build nodes planes maxWalkDepth).follow point link with
    | none => rfl
    | some child => rfl
  | succ depth ih =>
    rw [leafFrom, if_neg h, follow_build h, findLeafFrom]
    cases Formats.follow nodes planes point link with
    | none => rfl
    | some child =>
      rw [Option.bind_some]
      dsimp only
      by_cases hLeaf : child < 0
      · rw [leafFrom, if_pos hLeaf, if_pos hLeaf, leafIndexFromChild, if_pos hLeaf]
        rfl
      · rw [if_neg hLeaf, ih hLeaf]

omit [IsStrictOrderedRing K] in
theorem leafAt_build : (build nodes planes maxWalkDepth).leafAt point =
    (build nodes planes maxWalkDepth).leafFrom point maxWalkDepth 0 := by
  rw [leafAt]
  split <;> rename_i hNodes
  · have hNone : (build nodes planes maxWalkDepth).follow point 0 = none := by
      rw [follow, List.isEmpty_iff.mp hNodes]
      rfl
    cases maxWalkDepth with
    | zero => rfl
    | succ depth =>
      rw [leafFrom, if_neg (lt_irrefl 0), hNone]
      rfl
  · rfl

structure Agrees (nodes : List BspNode) (planes : List (BspPlane K)) (maxWalkDepth : Nat) (point : Vec3 K) : Prop where
  leaf : ∀ leaf, (build nodes planes maxWalkDepth).leafAt point = some leaf ↔
    findLeaf nodes planes point 0 maxWalkDepth = .ok leaf
  none : (build nodes planes maxWalkDepth).leafAt point = none ↔
    ∃ error, findLeaf nodes planes point 0 maxWalkDepth = .error error

/-- The walks part exactly where a leaf is met at the last step there is. -/
theorem leaves_agree_iff (nodes : List BspNode) (planes : List (BspPlane K)) (maxWalkDepth : Nat) (point : Vec3 K) :
    Agrees nodes planes maxWalkDepth point ↔
      ¬∃ child < 0, linkAfter nodes planes point maxWalkDepth 0 = some child := by
  have hNode : ¬(0 : Int) < 0 := lt_irrefl 0
  cases maxWalkDepth with
  | zero =>
    refine ⟨fun _ => ?_, fun _ => ⟨fun leaf => ⟨fun h => ?_, fun h => ?_⟩, fun _ => ⟨_, rfl⟩, fun _ => ?_⟩⟩
    · rintro ⟨child, hChild, hLink⟩
      obtain rfl := Option.some.inj hLink
      exact hNode hChild
    · rw [leafAt_build] at h
      cases h
    · cases h
    · rw [leafAt_build]
      rfl
  | succ depth =>
    have hWalk : (build nodes planes (depth + 1)).leafAt point = (findLeafFrom nodes planes point depth 0).toOption :=
      leafAt_build.trans (leafFrom_succ depth hNode)
    constructor
    · rintro h ⟨child, hChild, hLink⟩
      obtain ⟨hFound, hGivenUp⟩ := findLeafFrom_of_linkAfter hChild hLink
      have hLeaf := (h.leaf _).mpr hFound
      rw [hWalk, hGivenUp] at hLeaf
      cases hLeaf
    · intro h
      have hSame : ∀ leaf, findLeafFrom nodes planes point depth 0 = .ok leaf ↔
          findLeaf nodes planes point 0 (depth + 1) = .ok leaf := fun leaf =>
        ⟨findLeafFrom_succ, fun hFound => (findLeafFrom_succ_ok hFound).resolve_right h⟩
      constructor
      · intro leaf
        rw [hWalk, ← hSame]
        cases findLeafFrom nodes planes point depth 0 with
        | error error => simp [Except.toOption]
        | ok other => simp [Except.toOption]
      · rw [hWalk]
        cases hEarly : findLeafFrom nodes planes point depth 0 with
        | error error =>
          refine ⟨fun _ => ?_, fun _ => rfl⟩
          cases hFound : findLeaf nodes planes point 0 (depth + 1) with
          | error other => exact ⟨other, rfl⟩
          | ok leaf =>
            have hOk := (hSame leaf).mpr hFound
            rw [hEarly] at hOk
            cases hOk
        | ok leaf =>
          have hFound := (hSame leaf).mp hEarly
          rw [hFound]
          simp [Except.toOption]

/-- A tree of one node, walked two nodes deep. -/
theorem agrees_two_deep : Agrees [⟨0, (-1, -2)⟩] [⟨⟨1, 0, 0⟩, (0 : Rat)⟩] 2 ⟨5, 0, 0⟩ :=
  (leaves_agree_iff _ _ _ _).mpr fun ⟨child, _, hLink⟩ => by
    have hNone : linkAfter [⟨0, (-1, -2)⟩] [⟨⟨1, 0, 0⟩, (0 : Rat)⟩] ⟨5, 0, 0⟩ 2 0 = none := by decide +kernel
    exact Option.some_ne_none child (hLink.symm.trans hNone)

/-- The same tree, walked one node deep. -/
theorem not_agrees_one_deep : ¬Agrees [⟨0, (-1, -2)⟩] [⟨⟨1, 0, 0⟩, (0 : Rat)⟩] 1 ⟨5, 0, 0⟩ := fun h =>
  absurd ((h.leaf 0).mpr (by decide +kernel)) (by decide +kernel)

end WorldTree

end OpenHalfLife.World
