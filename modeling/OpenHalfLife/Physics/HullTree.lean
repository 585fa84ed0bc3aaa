import OpenHalfLife.Physics.Trace

/-! # Hull trees

What the node arrays hold below a link is a tree, cut off where a walk gives up. A walk of a segment
through the arrays is a sweep of the tree.
-/

namespace OpenHalfLife.Physics

set_option autoImplicit false

variable {K : Type} [Field K] [LinearOrder K]

inductive HullTree (K : Type)
  | leaf (link : Int)
  | exhausted
  | split (plane : HullPlane K) (children : Bool → HullTree K)

namespace HullTree

def contents : HullTree K → Vec3 K → Int
  | .leaf link, _ => link
  | .exhausted, _ => Contents.solid
  | .split plane children, point => (children (behind (plane.distance point))).contents point

inductive HasPlane (plane : HullPlane K) : HullTree K → Prop
  | here (children : Bool → HullTree K) : HasPlane plane (.split plane children)
  | child {other : HullPlane K} {children : Bool → HullTree K} (side : Bool) (h : HasPlane plane (children side)) :
    HasPlane plane (.split other children)

end HullTree

inductive Unrolls (planes : List (HullPlane K)) (nodes : List HullNode) : Nat → Int → HullTree K → Prop
  | leaf {depth : Nat} {link : Int} (hLink : link < 0) : Unrolls planes nodes depth link (.leaf link)
  | exhausted {link : Int} {node : HullNode} {plane : HullPlane K} (hLink : ¬link < 0)
    (hNode : nodes[link.toNat]? = some node) (hPlane : planes[node.plane]? = some plane) :
    Unrolls planes nodes 0 link .exhausted
  | split {depth : Nat} {link : Int} {node : HullNode} {plane : HullPlane K} {children : Bool → HullTree K}
    (hLink : ¬link < 0) (hNode : nodes[link.toNat]? = some node) (hPlane : planes[node.plane]? = some plane)
    (hChildren : ∀ side, Unrolls planes nodes depth (node.child side) (children side)) :
    Unrolls planes nodes (depth + 1) link (.split plane children)

/-- Every link of the nodes leads to one of them or to a contents value. -/
def InRange (planes : List (HullPlane K)) (nodes : List HullNode) : Prop :=
  ∀ node ∈ nodes, node.plane < planes.length ∧ ∀ side, node.child side < nodes.length

namespace Unrolls

variable {planes : List (HullPlane K)} {nodes : List HullNode} {depth : Nat} {link : Int} {tree : HullTree K}

omit [Field K] [LinearOrder K] in
theorem exists_tree (hNodes : InRange planes nodes) (depth : Nat) {link : Int} (hLink : link < nodes.length) :
    ∃ tree, Unrolls planes nodes depth link tree := by
  induction depth generalizing link with
  | zero =>
    by_cases hLeaf : link < 0
    · exact ⟨_, .leaf hLeaf⟩
    · have hIndex : link.toNat < nodes.length := by omega
      exact ⟨_, .exhausted hLeaf (List.getElem?_eq_getElem hIndex)
        (List.getElem?_eq_getElem (hNodes _ (List.getElem_mem hIndex)).1)⟩
  | succ depth ih =>
    by_cases hLeaf : link < 0
    · exact ⟨_, .leaf hLeaf⟩
    · have hIndex : link.toNat < nodes.length := by omega
      obtain ⟨hPlane, hChildren⟩ := hNodes _ (List.getElem_mem hIndex)
      choose children hBelow using fun side => ih (hChildren side)
      exact ⟨_, .split hLeaf (List.getElem?_eq_getElem hIndex) (List.getElem?_eq_getElem hPlane) hBelow⟩

omit [Field K] [LinearOrder K] in
theorem hasPlane (h : Unrolls planes nodes depth link tree) {plane : HullPlane K} (hPlane : tree.HasPlane plane) :
    plane ∈ planes := by
  induction h with
  | leaf => cases hPlane
  | exhausted => cases hPlane
  | split _ _ hHere _ ih =>
    cases hPlane with
    | here => exact List.mem_of_getElem? hHere
    | child side hBelow => exact ih side hBelow

omit [Field K] [LinearOrder K] in
theorem unique {other : HullTree K} (h : Unrolls planes nodes depth link tree)
    (hOther : Unrolls planes nodes depth link other) : tree = other := by
  induction h generalizing other with
  | leaf hLink =>
    cases hOther with
    | leaf => rfl
    | exhausted hNot => exact absurd hLink hNot
    | split hNot => exact absurd hLink hNot
  | exhausted hNot =>
    cases hOther with
    | leaf hLink => exact absurd hLink hNot
    | exhausted => rfl
  | split hNot hNode hPlane _ ih =>
    cases hOther with
    | leaf hLink => exact absurd hLink hNot
    | split _ hNode' hPlane' hChildren' =>
      cases hNode.symm.trans hNode'
      cases hPlane.symm.trans hPlane'
      rw [funext fun side => ih side (hChildren' side)]

theorem contentsLink (h : Unrolls planes nodes depth link tree) (point : Vec3 K) :
    contentsLink planes nodes link point depth = some (tree.contents point) := by
  induction h with
  | leaf hLink => rw [Physics.contentsLink, descend, if_pos hLink, HullTree.contents]
  | exhausted hLink hNode hPlane =>
    rw [Physics.contentsLink, descend, if_neg hLink, hNode, Option.bind_eq_bind, Option.bind_some, hPlane,
      Option.bind_eq_bind, Option.bind_some, descend, HullTree.contents]
  | split hLink hNode hPlane _ ih =>
    rw [Physics.contentsLink, descend, if_neg hLink, hNode, Option.bind_eq_bind, Option.bind_some, hPlane,
      Option.bind_eq_bind, Option.bind_some, HullTree.contents]
    exact ih _

end Unrolls

/-! ### Sweeping a segment through a tree -/

theorem backOff_total (contentsOf : Vec3 K → Int) (kind : BrushKind) (p1f p2f : K) (p1 p2 : Vec3 K) (rounds : Nat) (endFraction : K) (endPoint : Vec3 K) (backoff : K) :
    ∃ stop, backOff (fun point => some (contentsOf point)) kind p1f p2f p1 p2 rounds endFraction endPoint backoff =
      some stop := by
  induction rounds generalizing endFraction endPoint backoff with
  | zero => exact ⟨_, rfl⟩
  | succ rounds ih =>
    rw [backOff, Option.bind_eq_bind, Option.bind_some]
    split
    · split
      · exact ⟨_, rfl⟩
      · exact ih _ _ _
    · exact ⟨_, rfl⟩

/-- How far towards `p2` a segment that crosses a plane is split. -/
def HullPlane.midFraction (plane : HullPlane K) (p1 p2 : Vec3 K) : K :=
  stopFraction distEpsilon (plane.distance p1) (plane.distance p2)

/-- A sweep of a segment through a tree: whether it came through, and the trace it leaves. -/
inductive Swept (kind : BrushKind) :
    HullTree K → K → K → Vec3 K → Vec3 K → Trace K → Bool → Trace K → Prop
  | leaf {link : Int} {p1f p2f : K} {p1 p2 : Vec3 K} {trace : Trace K} :
    Swept kind (.leaf link) p1f p2f p1 p2 trace true (trace.passLeaf (remapLeaf link kind))
  | exhausted {p1f p2f : K} {p1 p2 : Vec3 K} {trace : Trace K} :
    Swept kind .exhausted p1f p2f p1 p2 trace false { trace with startSolid := true }
  /-- The segment stays on one side of the plane. -/
  | same {plane : HullPlane K} {children : Bool → HullTree K} {p1f p2f : K} {p1 p2 : Vec3 K} {trace out : Trace K}
    {through : Bool} (hSame : behind (plane.distance p1) = behind (plane.distance p2))
    (hNear : Swept kind (children (behind (plane.distance p1))) p1f p2f p1 p2 trace through out) :
    Swept kind (.split plane children) p1f p2f p1 p2 trace through out
  /-- It is stopped before the plane. -/
  | near {plane : HullPlane K} {children : Bool → HullTree K} {p1f p2f : K} {p1 p2 : Vec3 K} {trace out : Trace K}
    (hCross : behind (plane.distance p1) ≠ behind (plane.distance p2))
    (hNear : Swept kind (children (behind (plane.distance p1))) p1f (p1f + (p2f - p1f) * plane.midFraction p1 p2) p1
      (Vec3.along p1 p2 (plane.midFraction p1 p2)) trace false out) :
    Swept kind (.split plane children) p1f p2f p1 p2 trace false out
  /-- It goes on beyond the plane. -/
  | far {plane : HullPlane K} {children : Bool → HullTree K} {p1f p2f : K} {p1 p2 : Vec3 K}
    {trace between out : Trace K} {through : Bool}
    (hCross : behind (plane.distance p1) ≠ behind (plane.distance p2))
    (hNear : Swept kind (children (behind (plane.distance p1))) p1f (p1f + (p2f - p1f) * plane.midFraction p1 p2) p1
      (Vec3.along p1 p2 (plane.midFraction p1 p2)) trace true between)
    (hOpen : ¬Contents.isSolid (remapLeaf ((children (!behind (plane.distance p1))).contents
      (Vec3.along p1 p2 (plane.midFraction p1 p2))) kind))
    (hFar : Swept kind (children (!behind (plane.distance p1))) (p1f + (p2f - p1f) * plane.midFraction p1 p2) p2f
      (Vec3.along p1 p2 (plane.midFraction p1 p2)) p2 between through out) :
    Swept kind (.split plane children) p1f p2f p1 p2 trace through out
  /-- It never left solid, so that the plane is no surface. -/
  | inside {plane : HullPlane K} {children : Bool → HullTree K} {p1f p2f : K} {p1 p2 : Vec3 K}
    {trace between : Trace K} (hCross : behind (plane.distance p1) ≠ behind (plane.distance p2))
    (hNear : Swept kind (children (behind (plane.distance p1))) p1f (p1f + (p2f - p1f) * plane.midFraction p1 p2) p1
      (Vec3.along p1 p2 (plane.midFraction p1 p2)) trace true between)
    (hSolid : Contents.isSolid (remapLeaf ((children (!behind (plane.distance p1))).contents
      (Vec3.along p1 p2 (plane.midFraction p1 p2))) kind)) (hInside : between.allSolid) :
    Swept kind (.split plane children) p1f p2f p1 p2 trace false between
  /-- The plane stops it. -/
  | stop {plane : HullPlane K} {children : Bool → HullTree K} {p1f p2f : K} {p1 p2 : Vec3 K}
    {trace between : Trace K} {stop : K × Vec3 K} (hCross : behind (plane.distance p1) ≠ behind (plane.distance p2))
    (hNear : Swept kind (children (behind (plane.distance p1))) p1f (p1f + (p2f - p1f) * plane.midFraction p1 p2) p1
      (Vec3.along p1 p2 (plane.midFraction p1 p2)) trace true between)
    (hSolid : Contents.isSolid (remapLeaf ((children (!behind (plane.distance p1))).contents
      (Vec3.along p1 p2 (plane.midFraction p1 p2))) kind)) (hInside : between.allSolid = false)
    (hStop : backOff (fun point => some ((HullTree.split plane children).contents point)) kind p1f p2f p1 p2 11
      (p1f + (p2f - p1f) * plane.midFraction p1 p2) (Vec3.along p1 p2 (plane.midFraction p1 p2))
      (plane.midFraction p1 p2) = some stop) :
    Swept kind (.split plane children) p1f p2f p1 p2 trace false
      (between.stopAt plane (behind (plane.distance p1)) stop)

theorem Unrolls.recurse {planes : List (HullPlane K)} {nodes : List HullNode} {depth : Nat} {link : Int}
    {tree : HullTree K} (h : Unrolls planes nodes depth link tree) (kind : BrushKind) (p1f p2f : K) (p1 p2 : Vec3 K)
    (trace : Trace K) :
    ∃ through out, recurse planes nodes kind depth link p1f p2f p1 p2 trace = some (through, out) ∧
      Swept kind tree p1f p2f p1 p2 trace through out := by
  induction h generalizing p1f p2f p1 p2 trace with
  | @leaf depth link hLink =>
    refine ⟨_, _, ?_, .leaf⟩
    cases depth with
    | zero => rw [Physics.recurse, if_pos hLink]
    | succ depth => rw [Physics.recurse, if_pos hLink]
  | exhausted hLink =>
    refine ⟨_, _, ?_, .exhausted⟩
    rw [Physics.recurse, if_neg hLink]
  | @split depth link node plane children hLink hNode hPlane hChildren ih =>
    have hTree : Unrolls planes nodes (depth + 1) link (.split plane children) := .split hLink hNode hPlane hChildren
    have hContents : (fun point => Physics.contentsLink planes nodes link point (depth + 1)) =
        fun point => some ((HullTree.split plane children).contents point) :=
      funext hTree.contentsLink
    rw [Physics.recurse, if_neg hLink, hNode, Option.bind_eq_bind, Option.bind_some, hPlane, Option.bind_eq_bind,
      Option.bind_some]
    dsimp only
    by_cases hSame : behind (plane.distance p1) = behind (plane.distance p2)
    · rw [if_pos hSame]
      obtain ⟨through, out, hRun, hSwept⟩ := ih (behind (plane.distance p1)) p1f p2f p1 p2 trace
      exact ⟨through, out, hRun, .same hSame hSwept⟩
    · rw [if_neg hSame]
      obtain ⟨through, between, hRun, hNear⟩ := ih (behind (plane.distance p1)) p1f
        (p1f + (p2f - p1f) * plane.midFraction p1 p2) p1 (Vec3.along p1 p2 (plane.midFraction p1 p2)) trace
      rw [HullPlane.midFraction] at hRun
      rw [hRun, Option.bind_eq_bind, Option.bind_some]
      cases through with
      | false => exact ⟨false, between, rfl, .near hSame hNear⟩
      | true =>
        have hFarLink := (hChildren (!behind (plane.distance p1))).contentsLink
          (Vec3.along p1 p2 (plane.midFraction p1 p2))
        rw [HullPlane.midFraction] at hFarLink
        simp only [Bool.not_true, Bool.false_eq_true, if_false, hFarLink, Option.bind_eq_bind, Option.bind_some,
          Bool.not_eq_true']
        by_cases hOpen : Contents.isSolid (remapLeaf ((children (!behind (plane.distance p1))).contents
            (Vec3.along p1 p2 (plane.midFraction p1 p2))) kind) = false
        · obtain ⟨through, out, hRun, hFar⟩ := ih (!behind (plane.distance p1))
            (p1f + (p2f - p1f) * plane.midFraction p1 p2) p2f (Vec3.along p1 p2 (plane.midFraction p1 p2)) p2 between
          refine ⟨through, out, ?_, .far hSame hNear (by rw [hOpen]; exact Bool.false_ne_true) hFar⟩
          rw [HullPlane.midFraction] at hOpen hRun
          rw [if_pos hOpen, hRun]
        · have hSolid := Bool.eq_true_of_not_eq_false hOpen
          rw [HullPlane.midFraction] at hOpen
          rw [if_neg hOpen]
          by_cases hInside : between.allSolid = true
          · rw [if_pos hInside]
            exact ⟨false, between, rfl, .inside hSame hNear hSolid hInside⟩
          · obtain ⟨stop, hStop⟩ := backOff_total (HullTree.split plane children).contents kind
              p1f p2f p1 p2 11 (p1f + (p2f - p1f) * plane.midFraction p1 p2)
              (Vec3.along p1 p2 (plane.midFraction p1 p2)) (plane.midFraction p1 p2)
            refine ⟨false, _, ?_, .stop hSame hNear hSolid (Bool.eq_false_of_not_eq_true hInside) hStop⟩
            rw [HullPlane.midFraction] at hStop
            rw [if_neg hInside, hContents, hStop]
            rfl

end OpenHalfLife.Physics
