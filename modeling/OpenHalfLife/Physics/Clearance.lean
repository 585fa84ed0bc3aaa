import OpenHalfLife.Physics.PointQuery

/-! # Where a trace comes to rest

Every crossing is taken a gap short of its plane. What a trace passes is open when read so; it comes
to rest outside solid as long as nothing solid lies where that reading is still open.
-/

namespace OpenHalfLife.Physics

open OpenHalfLife.Media (SanitizedError)
open OpenHalfLife.Result

set_option autoImplicit false

variable {K : Type} [Field K] [LinearOrder K]

/-- The contents at a point of a segment when every plane that the segment crosses, on its way to
`last` within the part of the tree that it is in, counts as crossed a gap early. -/
def HullTree.early (start finish : Vec3 K) : HullTree K → K → K → Int
  | .leaf link, _, _ => link
  | .exhausted, _, _ => Contents.solid
  | .split plane children, last, t =>
    let distance := fun s => plane.distance (Vec3.along start finish s)
    let near := behind (distance t)
    if near = behind (distance last) then (children near).early start finish last t
    else if |distance t| ≤ distEpsilon then (children (!near)).early start finish last t
    else (children near).early start finish (stopShort distEpsilon distance t last) t

namespace HullTree

variable {start finish : Vec3 K} {plane : HullPlane K} {children : Bool → HullTree K} {last t : K}

theorem early_same (h : behind (plane.distance (Vec3.along start finish t)) =
    behind (plane.distance (Vec3.along start finish last))) :
    (split plane children).early start finish last t =
      (children (behind (plane.distance (Vec3.along start finish t)))).early start finish last t := by
  rw [early]
  exact if_pos h

theorem early_gap (h : behind (plane.distance (Vec3.along start finish t)) ≠
    behind (plane.distance (Vec3.along start finish last)))
    (hGap : |plane.distance (Vec3.along start finish t)| ≤ distEpsilon) :
    (split plane children).early start finish last t =
      (children (!behind (plane.distance (Vec3.along start finish t)))).early start finish last t := by
  rw [early]
  exact (if_neg h).trans (if_pos hGap)

theorem early_before (h : behind (plane.distance (Vec3.along start finish t)) ≠
    behind (plane.distance (Vec3.along start finish last)))
    (hGap : distEpsilon < |plane.distance (Vec3.along start finish t)|) :
    (split plane children).early start finish last t =
      (children (behind (plane.distance (Vec3.along start finish t)))).early start finish
        (stopShort distEpsilon (fun s => plane.distance (Vec3.along start finish s)) t last) t := by
  rw [early]
  exact (if_neg h).trans (if_neg hGap.not_ge)

end HullTree

variable [IsStrictOrderedRing K] {start finish : Vec3 K}

def reach (through : Bool) (last : K) (out : Trace K) : K := if through then last else out.fraction

theorem Swept.reach_le {tree : HullTree K} {p1f p2f : K} {p1 p2 : Vec3 K} {trace out : Trace K} {through : Bool}
    (h : Swept .solid tree p1f p2f p1 p2 trace through out) (hOpen : ¬Contents.isSolid (tree.contents p1))
    (h1 : p1 = Vec3.along start finish p1f) (h2 : p2 = Vec3.along start finish p2f) (hLow : 0 ≤ p1f) (hLe : p1f ≤ p2f)
    (hHigh : p2f ≤ 1) : reach through p2f out ≤ p2f := by
  cases through with
  | true => exact le_rfl
  | false => exact (h.stopped rfl hOpen h1 h2 hLow hLe hHigh).highest

theorem early_near {plane : HullPlane K} {children : Bool → HullTree K} {low last t : K} (hLe : low ≤ last)
    (hCross : behind (plane.distance (Vec3.along start finish low)) ≠
      behind (plane.distance (Vec3.along start finish last))) (hPast : low ≤ t)
    (hBefore : t < low + (last - low) *
      plane.midFraction (Vec3.along start finish low) (Vec3.along start finish last)) :
    (HullTree.split plane children).early start finish last t =
      (children (behind (plane.distance (Vec3.along start finish low)))).early start finish
        (low + (last - low) * plane.midFraction (Vec3.along start finish low) (Vec3.along start finish last)) t := by
  obtain ⟨hSide, hGap, hStop⟩ :=
    (plane.straight start finish).before_stop distEpsilon_pos hLe hCross hPast hBefore
  rw [HullTree.early_before (fun hSame => hCross (hSide.symm.trans hSame)) hGap, hSide, hStop]
  rfl

theorem early_far {plane : HullPlane K} {children : Bool → HullTree K} {low last t : K} (hLe : low ≤ last)
    (hCross : behind (plane.distance (Vec3.along start finish low)) ≠
      behind (plane.distance (Vec3.along start finish last)))
    (hAfter : low + (last - low) *
      plane.midFraction (Vec3.along start finish low) (Vec3.along start finish last) ≤ t) :
    (HullTree.split plane children).early start finish last t =
      (children (!behind (plane.distance (Vec3.along start finish low)))).early start finish last t := by
  by_cases hSide : behind (plane.distance (Vec3.along start finish t)) =
      behind (plane.distance (Vec3.along start finish low))
  · have hGap := (plane.straight start finish).after_stop distEpsilon_pos hLe hCross hAfter hSide
    rw [HullTree.early_gap (fun hSame => hCross (hSide.symm.trans hSame)) hGap, hSide]
  · have hFar : behind (plane.distance (Vec3.along start finish t)) =
        !behind (plane.distance (Vec3.along start finish low)) := Bool.eq_not.mpr hSide
    rw [HullTree.early_same (hFar.trans (Bool.eq_not.mpr hCross.symm).symm), hFar]

theorem Swept.early_open {tree : HullTree K} {p1f p2f : K} {p1 p2 : Vec3 K} {trace out : Trace K} {through : Bool}
    (h : Swept .solid tree p1f p2f p1 p2 trace through out) (hOpen : ¬Contents.isSolid (tree.contents p1))
    (h1 : p1 = Vec3.along start finish p1f) (h2 : p2 = Vec3.along start finish p2f) (hLow : 0 ≤ p1f) (hLe : p1f ≤ p2f)
    (hHigh : p2f ≤ 1) {t : K} (hPast : p1f ≤ t) (hReach : t < reach through p2f out) :
    ¬Contents.isSolid (tree.early start finish p2f t) := by
  induction h with
  | leaf => exact hOpen
  | exhausted => exact absurd rfl hOpen
  | @same plane children p1f p2f p1 p2 trace out through hSame hNear ih =>
    have hEnd := hReach.le.trans (hNear.reach_le hOpen h1 h2 hLow hLe hHigh)
    have hOpenNow := ih hOpen h1 h2 hLow hLe hHigh hPast hReach
    rw [h1] at hOpenNow
    rw [h1, h2] at hSame
    have hSide := (plane.straight start finish).side_between hPast hEnd hSame
    rw [HullTree.early_same (hSide.trans hSame), hSide]
    exact hOpenNow
  | @near plane children p1f p2f p1 p2 trace out hCross hNear ih =>
    subst h1 h2
    obtain ⟨hMidLow, hMidHigh, -⟩ := between_unit hLow hLe hHigh (plane.midFraction_nonneg _ _)
      (plane.midFraction_le_one (Vec3.along start finish p1f) (Vec3.along start finish p2f))
    have hMid := Vec3.along_along start finish p1f p2f
      (plane.midFraction (Vec3.along start finish p1f) (Vec3.along start finish p2f))
    have hBefore := lt_of_lt_of_le hReach (hNear.reach_le hOpen rfl hMid hLow hMidLow (hMidHigh.trans hHigh))
    rw [early_near hLe hCross hPast hBefore]
    exact ih hOpen rfl hMid hLow hMidLow (hMidHigh.trans hHigh) hPast hReach
  | @far plane children p1f p2f p1 p2 trace between out through hCross hNear hFar hRest ihNear ihFar =>
    subst h1 h2
    obtain ⟨hMidLow, hMidHigh, -⟩ := between_unit hLow hLe hHigh (plane.midFraction_nonneg _ _)
      (plane.midFraction_le_one (Vec3.along start finish p1f) (Vec3.along start finish p2f))
    have hMid := Vec3.along_along start finish p1f p2f
      (plane.midFraction (Vec3.along start finish p1f) (Vec3.along start finish p2f))
    rcases lt_or_ge t (p1f + (p2f - p1f) *
        plane.midFraction (Vec3.along start finish p1f) (Vec3.along start finish p2f)) with hBefore | hAfter
    · rw [early_near hLe hCross hPast hBefore]
      exact ihNear hOpen rfl hMid hLow hMidLow (hMidHigh.trans hHigh) hPast hBefore
    · rw [early_far hLe hCross hAfter]
      exact ihFar hFar hMid rfl (hLow.trans hMidLow) hMidHigh hHigh hAfter hReach
  | inside _ hNear _ hInside =>
    rw [hNear.allSolid_of_open hOpen] at hInside
    cases hInside
  | @stop plane children p1f p2f p1 p2 trace between stop hCross hNear hSolid hInside hStop ih =>
    subst h1 h2
    obtain ⟨hMidLow, hMidHigh, -⟩ := between_unit hLow hLe hHigh (plane.midFraction_nonneg _ _)
      (plane.midFraction_le_one (Vec3.along start finish p1f) (Vec3.along start finish p2f))
    have hMid := Vec3.along_along start finish p1f p2f
      (plane.midFraction (Vec3.along start finish p1f) (Vec3.along start finish p2f))
    obtain ⟨b, hb, hbMid, rfl⟩ := backOff_between hLow hLe hHigh (plane.midFraction_nonneg _ _)
      (plane.midFraction_le_one _ _) hStop
    -- backing off only shortens the move
    have hShorter := mul_le_mul_of_nonneg_left hbMid (sub_nonneg.mpr hLe)
    have hBefore := hReach.trans_le ((add_le_add_iff_left p1f).mpr hShorter)
    rw [early_near hLe hCross hPast hBefore]
    exact ih hOpen rfl hMid hLow hMidLow (hMidHigh.trans hHigh) hPast hBefore

/-! ### Moves through a model -/

def DepthAtMost (nodes : List HullNode) : Nat → Int → Prop
  | 0, link => link < 0
  | depth + 1, link => link < 0 ∨ ∀ node ∈ nodes[link.toNat]?, ∀ side, DepthAtMost nodes depth (node.child side)

omit [IsStrictOrderedRing K] in
theorem leafAfter_of_shallow {planes : List (HullPlane K)} {nodes : List HullNode} {depth : Nat} {link : Int}
    (h : DepthAtMost nodes depth link) {count : Nat} (hCount : depth < count) (point : Vec3 K) :
    leafAfter planes nodes count link point = none := by
  induction count generalizing depth link with
  | zero => exact absurd hCount (Nat.not_lt_zero _)
  | succ count ih =>
    rw [leafAfter]
    split
    · rfl
    · rename_i hLink
      cases depth with
      | zero => exact absurd h hLink
      | succ depth =>
        rw [Option.bind_eq_bind, Option.bind_eq_none_iff]
        intro node hNode
        rw [Option.bind_eq_bind, Option.bind_eq_none_iff]
        intro plane _
        exact ih (h.resolve_left hLink node hNode _) (Nat.lt_of_succ_lt_succ hCount)

namespace CollisionModel

variable {rotation : Rotation K} {model : CollisionModel K} {hull : Hull}

/-- Before every solid point of the segment comes one that is solid when every plane that the segment
crosses is taken a gap early. -/
def Clear (model : CollisionModel K) (hull : Hull) (start finish : Vec3 K) : Prop :=
  ∃ tree, Unrolls model.planes (model.nodesOf hull) maxTraceDepth (model.heads hull) tree ∧
    ∀ t, 0 ≤ t → t ≤ 1 → Contents.isSolid (tree.contents (Vec3.along start finish t)) →
      ∃ s, 0 ≤ s ∧ s < t ∧ Contents.isSolid (tree.early start finish 1 s)

def SolidAt (rotation : Rotation K) (model : CollisionModel K) (hull : Hull) (point : Vec3 K) : Prop :=
  ∃ value, model.contentsAt rotation hull point = some value ∧ Contents.isSolid value

def move (rotation : Rotation K) (model : CollisionModel K) (hull : Hull) : Vec3 K → List (Vec3 K) → Option (Vec3 K)
  | position, [] => some position
  | position, target :: targets => do
    let trace ← model.trace rotation hull position target
    move rotation model hull trace.endPos targets

section

variable (hModel : model.WellFormed) (hBrushes : model.brushes = [])
  (hShallow : DepthAtMost (model.nodesOf hull) (maxTraceDepth - 1) (model.heads hull))
include hModel hBrushes hShallow

omit [IsStrictOrderedRing K] in
theorem contentsAt_eq {tree : HullTree K}
    (hTree : Unrolls model.planes (model.nodesOf hull) maxTraceDepth (model.heads hull) tree) (point : Vec3 K) :
    model.contentsAt rotation hull point = some (tree.contents point) := by
  obtain ⟨value, hWalk, hDeeper, -⟩ := descend_succ (hModel.nodes hull) maxTraceDepth (hModel.heads hull) point
  have hLink := hTree.contentsLink point
  rw [leafAfter_of_shallow hShallow (by decide : maxTraceDepth - 1 < maxTraceDepth)] at hDeeper
  rw [contentsAt_bare hBrushes, walk, hWalk]
  exact hDeeper.symm.trans hLink

omit [IsStrictOrderedRing K] in
theorem solidAt_iff {tree : HullTree K}
    (hTree : Unrolls model.planes (model.nodesOf hull) maxTraceDepth (model.heads hull) tree) (point : Vec3 K) :
    SolidAt rotation model hull point ↔ Contents.isSolid (tree.contents point) := by
  rw [SolidAt, contentsAt_eq hModel hBrushes hShallow hTree]
  constructor
  · rintro ⟨value, hValue, hSolid⟩
    cases hValue
    exact hSolid
  · intro hSolid
    exact ⟨_, rfl, hSolid⟩

/-- A trace along a clear segment starts solid just where the query says so, and else comes to rest
outside solid. -/
theorem rests_outside (rotation : Rotation K) {start finish : Vec3 K} (hClear : Clear model hull start finish) :
    ∃ trace, model.trace rotation hull start finish = some trace ∧
      (trace.startSolid = true ↔ SolidAt rotation model hull start) ∧
      (trace.startSolid = false → ¬SolidAt rotation model hull trace.endPos) := by
  obtain ⟨tree, through, out, contents, hTree, hSwept, hTrace⟩ :=
    trace_bare rotation hModel hBrushes hull start finish
  refine ⟨_, hTrace, ?_, ?_⟩
  · rw [solidAt_iff hModel hBrushes hShallow hTree]
    have hStart : out.startSolid = Contents.isSolid (tree.contents start) := hSwept.startSolid
    rw [← hStart]
    cases hBool : out.startSolid with
    | true => exact iff_of_true rfl rfl
    | false =>
      have hOpen : ¬Contents.isSolid (tree.contents start) := by
        rw [← hStart, hBool]
        exact Bool.false_ne_true
      rw [hSwept.allSolid_of_open hOpen, Bool.or_self, if_neg Bool.false_ne_true]
      exact iff_of_false (Bool.not_eq_true _ ▸ hBool) Bool.false_ne_true
  · intro hOut
    have hNone : (out.startSolid || out.allSolid) = false := by
      by_contra hSome
      rw [if_pos (Bool.eq_true_of_not_eq_false hSome)] at hOut
      cases hOut
    have hOpen : ¬Contents.isSolid (tree.contents start) := by
      have hStart : out.startSolid = Contents.isSolid (tree.contents start) := hSwept.startSolid
      rw [← hStart, (Bool.or_eq_false_iff.mp hNone).1]
      exact Bool.false_ne_true
    rw [hNone, if_neg Bool.false_ne_true, solidAt_iff hModel hBrushes hShallow hTree]
    have hReach : out.endPos = Vec3.along start finish (reach through 1 out) ∧
        0 ≤ reach through 1 out ∧ reach through 1 out ≤ 1 := by
      cases through with
      | true => exact ⟨(hSwept.kept rfl).2.1.trans (Vec3.along_one start finish).symm, zero_le_one, le_rfl⟩
      | false =>
        have hStopped := hSwept.stopped rfl hOpen (Vec3.along_zero start finish).symm (Vec3.along_one start finish).symm
          le_rfl zero_le_one le_rfl
        exact ⟨hStopped.endPos, hStopped.lowest, hStopped.highest⟩
    obtain ⟨hEnd, hFrom, hTo⟩ := hReach
    obtain ⟨other, hOther, hEarlier⟩ := hClear
    cases hTree.unique hOther
    intro hSolid
    change Contents.isSolid (tree.contents out.endPos) at hSolid
    rw [hEnd] at hSolid
    obtain ⟨s, hs, hLess, hEarly⟩ := hEarlier _ hFrom hTo hSolid
    exact hSwept.early_open hOpen (Vec3.along_zero start finish).symm (Vec3.along_one start finish).symm le_rfl
      zero_le_one le_rfl hs hLess hEarly

theorem stays_outside (rotation : Rotation K) {start : Vec3 K} (hStart : ¬SolidAt rotation model hull start)
    (targets : List (Vec3 K))
    (hClear : ∀ done target rest position, targets = done ++ target :: rest →
      move rotation model hull start done = some position → Clear model hull position target) :
    ∃ position, move rotation model hull start targets = some position ∧ ¬SolidAt rotation model hull position := by
  induction targets generalizing start with
  | nil => exact ⟨start, rfl, hStart⟩
  | cons target targets ih =>
    obtain ⟨trace, hTrace, hSolid, hRest⟩ :=
      rests_outside hModel hBrushes hShallow rotation (hClear [] target targets start rfl rfl)
    have hOpen : trace.startSolid = false := Bool.eq_false_of_not_eq_true fun h => hStart (hSolid.mp h)
    have hMove : ∀ others, move rotation model hull start (target :: others) =
        move rotation model hull trace.endPos others := by
      intro others
      rw [move, hTrace, Option.bind_eq_bind, Option.bind_some]
    obtain ⟨position, hPosition, hOutside⟩ := ih (hRest hOpen) fun done other rest position hTargets hDone =>
      hClear (target :: done) other rest position (by rw [hTargets, List.cons_append]) ((hMove done).trans hDone)
    exact ⟨position, (hMove targets).trans hPosition, hOutside⟩

end

end CollisionModel

theorem depthAtMost_of_neg (nodes : List HullNode) (depth : Nat) {link : Int} (h : link < 0) :
    DepthAtMost nodes depth link := by
  cases depth with
  | zero => exact h
  | succ depth => exact .inl h

theorem depthAtMost_of_children {nodes : List HullNode} {depth : Nat} {link : Int} {node : HullNode}
    (hNode : nodes[link.toNat]? = some node) (hFront : DepthAtMost nodes depth node.front)
    (hBack : DepthAtMost nodes depth node.back) : DepthAtMost nodes (depth + 1) link := by
  refine .inr fun other hOther side => ?_
  cases hNode.symm.trans hOther
  cases side with
  | false => exact hFront
  | true => exact hBack

structure IsPointModel (model : CollisionModel ℚ) (planes : List ℚ) (nodes : List HullNode) : Prop where
  planes : model.planes = planes.map fun x => ⟨atX 1, x⟩
  nodes : model.pointNodes = nodes
  point : model.heads .point = 0
  bare : model.heads .standing < 0 ∧ model.heads .large < 0 ∧ model.heads .crouched < 0

theorem IsPointModel.shallow {model : CollisionModel ℚ} {planes : List ℚ} {nodes : List HullNode}
    (h : IsPointModel model planes nodes) (hNodes : DepthAtMost nodes (maxTraceDepth - 1) 0) (hull : Hull) :
    DepthAtMost (model.nodesOf hull) (maxTraceDepth - 1) (model.heads hull) := by
  cases hull with
  | point =>
    rw [CollisionModel.nodesOf, h.nodes, h.point]
    exact hNodes
  | standing => exact depthAtMost_of_neg _ _ h.bare.1
  | large => exact depthAtMost_of_neg _ _ h.bare.2.1
  | crouched => exact depthAtMost_of_neg _ _ h.bare.2.2

theorem isPointModel_of_loaded {bsp : Bsp ℚ} {model : CollisionModel ℚ} {planes : List ℚ} {nodes : List HullNode}
    (hModel : CollisionModel.fromBspModel bsp 0 = .ok model)
    (h : (CollisionModel.fromBspModel bsp 0).toOption.any fun model =>
      decide (model.planes = (planes.map fun x => ⟨atX 1, x⟩) ∧ model.pointNodes = nodes ∧ model.heads .point = 0 ∧
        model.heads .standing < 0 ∧ model.heads .large < 0 ∧ model.heads .crouched < 0)) :
    IsPointModel model planes nodes := by
  rw [hModel] at h
  obtain ⟨hPlanes, hNodes, hPoint, hBare⟩ := of_decide_eq_true h
  exact ⟨hPlanes, hNodes, hPoint, hBare⟩

theorem wall_clear {model : CollisionModel ℚ} (h : IsPointModel model [0] [⟨0, -1, -2⟩]) :
    CollisionModel.Clear model .point (atX 3) (atX (-1)) := by
  refine ⟨.split ⟨atX 1, 0⟩ fun side => .leaf (if side then -2 else -1), ?_, fun t hLow _ hSolid => ?_⟩
  · rw [h.planes, CollisionModel.nodesOf, h.nodes, h.point]
    refine .split (by decide) rfl rfl fun side => ?_
    cases side with
    | false => exact .leaf (by decide)
    | true => exact .leaf (by decide)
  · have hDistance : HullPlane.distance ⟨atX 1, 0⟩ (Vec3.along (atX 3) (atX (-1)) t) = 3 - 4 * t := by
      simp only [HullPlane.distance, Vec3.dot, Vec3.along_x, Vec3.along_y, Vec3.along_z, atX]
      ring
    have hBehind : 3 / 4 < t := by
      by_contra hBefore
      have hFront : behind (HullPlane.distance ⟨atX 1, 0⟩ (Vec3.along (atX 3) (atX (-1)) t)) = false := by
        rw [hDistance]
        exact decide_eq_false (by linarith)
      rw [HullTree.contents, hFront] at hSolid
      cases hSolid
    exact ⟨3 / 4, by norm_num, hBehind, by decide +kernel⟩

def slivers : Bsp ℚ := pointMap [0, 1 / 64, -3 / 128] [⟨0, (1, 2)⟩, ⟨1, (-1, -2)⟩, ⟨2, (-1, -2)⟩]

end OpenHalfLife.Physics
