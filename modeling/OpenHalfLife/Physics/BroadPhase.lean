import OpenHalfLife.Physics.Sweep
import Mathlib.Algebra.Order.Field.Rat
import Mathlib.Tactic.NormNum

/-! # The broad phase

A brush is passed over when the box around the segment does not meet the one around the brush. A segment
is stopped short of the planes of a convex brush, which may be outside of either box.
-/

namespace OpenHalfLife.Physics

set_option autoImplicit false

variable {K : Type} [Field K] [LinearOrder K]

def CollisionModel.walkBrush (model : CollisionModel K) (rotation : Rotation K) (hull : Hull) (start finish : Vec3 K)
    (brush : Nat) : Option (Trace K) :=
  match model.brushes[brush]? with
  | none => some (Trace.miss finish)
  | some part =>
    if part.heads hull < 0 then some (Trace.miss finish)
    else do
      let hit ← model.traceTree rotation hull (part.heads hull) (some part) start finish part.kind
      let trace := combine (Trace.miss finish) hit brush
      some (if trace.startSolid then { trace with fraction := 0, endPos := start } else trace)

/-! ### Convex trees -/

structure HalfSpace (K : Type) where
  plane : HullPlane K
  outer : Bool

namespace HalfSpace

variable (half : HalfSpace K)

def Inside (point : Vec3 K) : Prop := behind (half.plane.distance point) ≠ half.outer

/-- Where a segment that crosses the plane is cut, short of it on the side it comes from. -/
def short (p1 p2 : Vec3 K) : Vec3 K := Vec3.along p1 p2 (half.plane.midFraction p1 p2)

end HalfSpace

def InAll (halves : List (HalfSpace K)) (point : Vec3 K) : Prop := ∀ half ∈ halves, half.Inside point

/-- The tree of what is inside of all half-spaces: beyond each plane it is empty, and within them all solid, or the
tree goes deeper than a walk does. -/
inductive HullTree.Convex : HullTree K → List (HalfSpace K) → Prop
  | solid {link : Int} : Contents.isSolid link = true → Convex (.leaf link) []
  | deep : Convex .exhausted []
  | split {plane : HullPlane K} {children : Bool → HullTree K} {outer : Bool} {halves : List (HalfSpace K)} :
    children outer = .leaf Contents.empty → Convex (children !outer) halves →
    Convex (.split plane children) (⟨plane, outer⟩ :: halves)

def HullTree.ofHalves : List (HalfSpace K) → HullTree K
  | [] => .leaf Contents.solid
  | half :: halves =>
    .split half.plane fun side => if side = half.outer then .leaf Contents.empty else ofHalves halves

/-- The segment is cut by one half-space after another, and where it enters one the cut is inside of all that follow. -/
def Caught : List (HalfSpace K) → Vec3 K → Vec3 K → Prop
  | [], _, _ => False
  | half :: halves, p1, p2 =>
    (half.Inside p1 ∧ half.Inside p2 ∧ Caught halves p1 p2) ∨
    (half.Inside p1 ∧ ¬ half.Inside p2 ∧ Caught halves p1 (half.short p1 p2)) ∨
    (¬ half.Inside p1 ∧ half.Inside p2 ∧ (InAll halves (half.short p1 p2) ∨ Caught halves (half.short p1 p2) p2))

variable {tree : HullTree K} {halves : List (HalfSpace K)} {p1f p2f : K} {p1 p2 point : Vec3 K} {trace out : Trace K}
  {through : Bool}

theorem inAll_cons {half : HalfSpace K} : InAll (half :: halves) point ↔ half.Inside point ∧ InAll halves point :=
  List.forall_mem_cons

omit [Field K] [LinearOrder K] in
theorem HullTree.convex_ofHalves (halves : List (HalfSpace K)) : (HullTree.ofHalves halves).Convex halves := by
  induction halves with
  | nil => exact .solid rfl
  | cons half halves ih =>
    refine .split (if_pos rfl) ?_
    rwa [if_neg (Bool.not_ne_self half.outer)]

omit [Field K] [LinearOrder K] in
theorem Unrolls.ofHalves_cons {planes : List (HullPlane K)} {nodes : List HullNode} {depth : Nat} {link : Int}
    {node : HullNode} {half : HalfSpace K} (hLink : ¬ link < 0) (hNode : nodes[link.toNat]? = some node)
    (hPlane : planes[node.plane]? = some half.plane) (hOuter : node.child half.outer = Contents.empty)
    (hInner : Unrolls planes nodes depth (node.child !half.outer) (.ofHalves halves)) :
    Unrolls planes nodes (depth + 1) link (.ofHalves (half :: halves)) := by
  refine .split hLink hNode hPlane fun side => ?_
  rcases Bool.eq_or_eq_not side half.outer with rfl | rfl
  · rw [if_pos rfl, hOuter]
    exact .leaf (by decide)
  · rwa [if_neg (Bool.not_ne_self half.outer)]

theorem HullTree.Convex.solid_iff (h : tree.Convex halves) (point : Vec3 K) :
    Contents.isSolid (tree.contents point) = true ↔ InAll halves point := by
  induction h with
  | solid hSolid => exact iff_of_true hSolid nofun
  | deep => exact iff_of_true rfl nofun
  | @split plane children outer halves hOuter _ ih =>
    rw [inAll_cons, HullTree.contents]
    rcases Bool.eq_or_eq_not (behind (plane.distance point)) outer with hOut | hIn
    · rw [hOut, hOuter]
      exact iff_of_false Bool.false_ne_true fun hInside => hInside.1 hOut
    · rw [hIn, ih]
      exact ⟨fun hAll => ⟨fun hOut => Bool.not_ne_self outer (hIn.symm.trans hOut), hAll⟩, And.right⟩

theorem inside_front {plane : HullPlane K} : HalfSpace.Inside ⟨plane, false⟩ point ↔ plane.distance point < 0 := by
  rw [HalfSpace.Inside, Ne, Bool.not_eq_false, behind, decide_eq_true_eq]

section

variable {half : HalfSpace K}

theorem caught_inside (h1 : half.Inside p1) (h2 : half.Inside p2) :
    Caught (half :: halves) p1 p2 ↔ Caught halves p1 p2 := by
  simp [Caught, h1, h2]

theorem caught_leaving (h1 : half.Inside p1) (h2 : ¬ half.Inside p2) :
    Caught (half :: halves) p1 p2 ↔ Caught halves p1 (half.short p1 p2) := by
  simp [Caught, h1, h2]

theorem caught_entering (h1 : ¬ half.Inside p1) (h2 : half.Inside p2) :
    Caught (half :: halves) p1 p2 ↔ InAll halves (half.short p1 p2) ∨ Caught halves (half.short p1 p2) p2 := by
  simp [Caught, h1, h2]

theorem not_caught_outside (h1 : ¬ half.Inside p1) (h2 : ¬ half.Inside p2) : ¬ Caught (half :: halves) p1 p2 := by
  simp [Caught, h1, h2]

end

theorem through_of_leaf {link : Int} (h : Swept .solid (.leaf link) p1f p2f p1 p2 trace through out) : through = true := by
  cases h
  rfl

theorem HullTree.Convex.through_iff (h : tree.Convex halves)
    (hSwept : Swept .solid tree p1f p2f p1 p2 trace through out) (hOut : ¬ InAll halves p1) :
    through = true ↔ ¬ Caught halves p1 p2 := by
  induction h generalizing p1f p2f p1 p2 trace out through with
  | solid => exact absurd nofun hOut
  | deep => exact absurd nofun hOut
  | @split plane children outer halves hOuter hRest ih =>
    rw [inAll_cons] at hOut
    have hInner {point : Vec3 K} (hIn : behind (plane.distance point) ≠ outer) :
        behind (plane.distance point) = !outer := Bool.eq_not.mpr hIn
    rcases eq_or_ne (behind (plane.distance p1)) outer with hOut1 | hIn1
    · have h1 : ¬ HalfSpace.Inside ⟨plane, outer⟩ p1 := not_not.mpr hOut1
      cases hSwept with
      | same hSame hNear =>
        rw [hOut1, hOuter] at hNear
        exact iff_of_true (through_of_leaf hNear) (not_caught_outside h1 (not_not.mpr (hSame ▸ hOut1)))
      | near _ hNear =>
        rw [hOut1, hOuter] at hNear
        exact absurd (through_of_leaf hNear) Bool.false_ne_true
      | far hCross _ hOpen hFar =>
        rw [hOut1, remapLeaf_solid, hRest.solid_iff] at hOpen
        rw [hOut1] at hFar
        rw [caught_entering h1 fun h2 => hCross (hOut1.trans h2.symm), ih hFar hOpen, not_or]
        exact (and_iff_right hOpen).symm
      | inside hCross _ hSolid _ =>
        rw [hOut1, remapLeaf_solid, hRest.solid_iff] at hSolid
        rw [caught_entering h1 fun h2 => hCross (hOut1.trans h2.symm)]
        exact iff_of_false Bool.false_ne_true (not_not.mpr (.inl hSolid))
      | stop hCross _ hSolid _ _ =>
        rw [hOut1, remapLeaf_solid, hRest.solid_iff] at hSolid
        rw [caught_entering h1 fun h2 => hCross (hOut1.trans h2.symm)]
        exact iff_of_false Bool.false_ne_true (not_not.mpr (.inl hSolid))
    · have h1 : HalfSpace.Inside ⟨plane, outer⟩ p1 := hIn1
      have hOutRest : ¬ InAll halves p1 := fun hAll => hOut ⟨h1, hAll⟩
      have hEmpty : ¬ Contents.isSolid (remapLeaf ((children (!(!outer))).contents
          (Vec3.along p1 p2 (plane.midFraction p1 p2))) .solid) = true := by
        rw [Bool.not_not, hOuter]
        exact Bool.false_ne_true
      have hLeaves (hCross : behind (plane.distance p1) ≠ behind (plane.distance p2)) :
          ¬ HalfSpace.Inside ⟨plane, outer⟩ p2 := by
        rw [HalfSpace.Inside, not_not, ← Bool.not_not outer, ← hInner hIn1]
        exact Bool.eq_not.mpr hCross.symm
      cases hSwept with
      | same hSame hNear =>
        rw [hInner hIn1] at hNear
        rw [caught_inside h1 (show behind (plane.distance p2) ≠ outer from hSame ▸ hIn1)]
        exact ih hNear hOutRest
      | near hCross hNear =>
        rw [hInner hIn1] at hNear
        rw [caught_leaving h1 (hLeaves hCross)]
        exact ih hNear hOutRest
      | far hCross hNear _ hFar =>
        rw [hInner hIn1] at hNear
        rw [hInner hIn1, Bool.not_not, hOuter] at hFar
        rw [caught_leaving h1 (hLeaves hCross)]
        exact iff_of_true (through_of_leaf hFar) ((ih hNear hOutRest).mp rfl)
      | inside _ _ hSolid _ =>
        rw [hInner hIn1] at hSolid
        exact absurd hSolid hEmpty
      | stop _ _ hSolid _ _ =>
        rw [hInner hIn1] at hSolid
        exact absurd hSolid hEmpty

theorem HullTree.Convex.inWater (h : tree.Convex halves)
    (hSwept : Swept .solid tree p1f p2f p1 p2 trace through out) : out.inWater = trace.inWater := by
  have hLeaf {link : Int} {p1f p2f : K} {p1 p2 : Vec3 K} {trace out : Trace K} {through : Bool}
      (hSwept : Swept .solid (.leaf link) p1f p2f p1 p2 trace through out)
      (hKind : Contents.isSolid link = true ∨ link = Contents.empty) : out.inWater = trace.inWater := by
    cases hSwept
    rw [remapLeaf_solid, Trace.passLeaf]
    rcases hKind with hSolid | rfl
    · rw [if_pos hSolid]
    · rfl
  induction h generalizing p1f p2f p1 p2 trace out through with
  | solid hSolid => exact hLeaf hSwept (.inl hSolid)
  | deep =>
    cases hSwept
    rfl
  | @split plane children outer halves hOuter _ ih =>
    have hChild (side : Bool) {p1f p2f : K} {p1 p2 : Vec3 K} {trace out : Trace K} {through : Bool}
        (hSwept : Swept .solid (children side) p1f p2f p1 p2 trace through out) : out.inWater = trace.inWater := by
      rcases Bool.eq_or_eq_not side outer with rfl | rfl
      · rw [hOuter] at hSwept
        exact hLeaf hSwept (.inr rfl)
      · exact ih hSwept
    cases hSwept with
    | same _ hNear => exact hChild _ hNear
    | near _ hNear => exact hChild _ hNear
    | far _ hNear _ hFar => exact (hChild _ hFar).trans (hChild _ hNear)
    | inside _ hNear _ _ => exact hChild _ hNear
    | @stop _ _ _ _ _ _ _ between _ _ hNear _ _ _ =>
      have hBetween : between.inWater = trace.inWater := hChild _ hNear
      exact hBetween

/-! ### Where a sweep is stopped -/

theorem Swept.through_of_point (h : Swept .solid tree p1f p2f p1 p2 trace through out) (hPoint : p1 = p2)
    (hOpen : ¬ Contents.isSolid (tree.contents p1) = true) : through = true := by
  induction h with
  | leaf => rfl
  | exhausted => exact absurd rfl hOpen
  | same _ _ ih => exact ih hPoint hOpen
  | near hCross => exact absurd (by rw [hPoint]) hCross
  | far hCross => exact absurd (by rw [hPoint]) hCross
  | inside hCross => exact absurd (by rw [hPoint]) hCross
  | stop hCross => exact absurd (by rw [hPoint]) hCross

variable [IsStrictOrderedRing K]

theorem Swept.fraction_lt (h : Swept .solid tree p1f p2f p1 p2 trace through out) (hThrough : through = false)
    (hOpen : ¬ Contents.isSolid (tree.contents p1) = true) (hLow : 0 ≤ p1f) (hLt : p1f < p2f) (hHigh : p2f ≤ 1) :
    out.fraction < p2f := by
  induction h with
  | leaf => cases hThrough
  | exhausted => exact absurd rfl hOpen
  | same _ _ ih => exact ih hThrough hOpen hLow hLt hHigh
  | @near plane children p1f p2f p1 p2 trace out hCross hNear ih =>
    obtain ⟨hMidLow, hMidHigh, -⟩ := between_unit hLow hLt.le hHigh (plane.midFraction_nonneg p1 p2)
      (plane.midFraction_le_one p1 p2)
    rcases hMidLow.eq_or_lt with hEq | hMidLt
    · have hZero : plane.midFraction p1 p2 = 0 := by
        have hProduct : (p2f - p1f) * plane.midFraction p1 p2 = 0 := by linarith
        exact (mul_eq_zero.mp hProduct).resolve_left (sub_pos.mpr hLt).ne'
      have hPoint : p1 = Vec3.along p1 p2 (plane.midFraction p1 p2) := by rw [hZero, Vec3.along_zero]
      exact absurd (hNear.through_of_point hPoint hOpen) Bool.false_ne_true
    · exact (ih rfl hOpen hLow hMidLt (hMidHigh.trans hHigh)).trans_le hMidHigh
  | @far plane children p1f p2f p1 p2 trace between out through hCross _ hFar _ _ ih =>
    have hShort : plane.midFraction p1 p2 < 1 := stopFraction_lt_one distEpsilon_pos hCross
    have hMidLt := mul_lt_of_lt_one_right (sub_pos.mpr hLt) hShort
    have hMidLow := mul_nonneg (sub_pos.mpr hLt).le (plane.midFraction_nonneg p1 p2)
    exact ih hThrough hFar (by linarith) (by linarith) hHigh
  | inside _ hNear _ hInside =>
    rw [hNear.allSolid_of_open hOpen] at hInside
    cases hInside
  | @stop plane children p1f p2f p1 p2 trace between stop hCross _ _ _ hStop _ =>
    have hShort : plane.midFraction p1 p2 < 1 := stopFraction_lt_one distEpsilon_pos hCross
    obtain ⟨b, hb, hbMid, rfl⟩ := backOff_between hLow hLt.le hHigh (plane.midFraction_nonneg p1 p2) hShort.le hStop
    have hLess := mul_lt_of_lt_one_right (sub_pos.mpr hLt) (hbMid.trans_lt hShort)
    change p1f + (p2f - p1f) * b < p2f
    linarith

/-! ### One brush -/

theorem HullTree.Convex.treeTrace {model : CollisionModel K} {hull : Hull} {head : Int} {start : Vec3 K}
    (h : tree.Convex halves) (hTree : Unrolls model.planes (model.nodesOf hull) maxTraceDepth head tree)
    (hOut : ¬ InAll halves start) (finish : Vec3 K) : ∃ trace, model.treeTrace hull head start finish .solid = some trace ∧
      trace.startSolid = false ∧ trace.allSolid = false ∧ trace.inWater = false ∧
      (trace.fraction < 1 ↔ Caught halves start finish) := by
  obtain ⟨through, out, hRun, hSwept⟩ := hTree.recurse .solid 0 1 start finish
    { Trace.miss finish with allSolid := true }
  have hOpen : ¬ Contents.isSolid (tree.contents start) = true := mt (h.solid_iff start).mp hOut
  have hAllSolid := hSwept.allSolid_of_open hOpen
  have hStartSolid : out.startSolid = false := by
    rw [hSwept.startSolid, Bool.eq_false_of_not_eq_true hOpen]
    rfl
  refine ⟨out, ?_, hStartSolid, hAllSolid, h.inWater hSwept, ?_⟩
  · simp [CollisionModel.treeTrace, hRun, hAllSolid, hStartSolid]
  · rw [← not_iff_not, ← h.through_iff hSwept hOut]
    cases hThrough : through with
    | true => exact iff_of_true ((hSwept.kept hThrough).1 ▸ lt_irrefl (1 : K)) rfl
    | false =>
      have hLess := hSwept.fraction_lt hThrough hOpen le_rfl one_pos le_rfl
      exact iff_of_false (not_not.mpr hLess) Bool.false_ne_true

variable {rotation : Rotation K} {part : BrushPart K} {hull : Hull} {start finish : Vec3 K} {model : CollisionModel K}
  {brush : Nat}

theorem HullTree.Convex.traceTree {head : Int} (h : tree.Convex halves)
    (hTree : Unrolls model.planes (model.nodesOf hull) maxTraceDepth head tree)
    (hOut : ¬ InAll halves (start - part.origin)) (rotation : Rotation K) (finish : Vec3 K)
    (hPose : part.hasRotation = false) :
    ∃ hit, model.traceTree rotation hull head (some part) start finish .solid = some hit ∧
      hit.startSolid = false ∧ hit.allSolid = false ∧ hit.inWater = false ∧
      (hit.fraction < 1 ↔ Caught halves (start - part.origin) (finish - part.origin)) := by
  obtain ⟨trace, hTrace, hStartSolid, hAllSolid, hWater, hCaught⟩ := h.treeTrace hTree hOut (finish - part.origin)
  refine ⟨{ trace with
    endPos := trace.endPos + part.origin
    planeDist := trace.planeDist + trace.planeNormal.dot part.origin }, ?_, hStartSolid, hAllSolid, hWater, hCaught⟩
  simp [CollisionModel.traceTree, hPose, hTrace]

omit [IsStrictOrderedRing K] in
theorem combine_miss (hit : Trace K) (brush : Nat) (hStart : hit.startSolid = false) (hAll : hit.allSolid = false)
    (hWater : hit.inWater = false) : combine (Trace.miss finish) hit brush =
      if hit.fraction < 1 then
        { Trace.miss finish with
          fraction := hit.fraction
          endPos := hit.endPos
          planeNormal := hit.planeNormal
          planeDist := hit.planeDist
          brushIndex := some brush }
      else Trace.miss finish := by
  simp [combine, hStart, hAll, hWater, Trace.miss]

omit [IsStrictOrderedRing K] in
theorem reaches_iff {mins maxs : Vec3 K} : part.reaches rotation hull mins maxs = true ↔
    mins.x ≤ (part.broadBounds rotation hull).2.x ∧ (part.broadBounds rotation hull).1.x ≤ maxs.x ∧
    mins.y ≤ (part.broadBounds rotation hull).2.y ∧ (part.broadBounds rotation hull).1.y ≤ maxs.y ∧
    mins.z ≤ (part.broadBounds rotation hull).2.z ∧ (part.broadBounds rotation hull).1.z ≤ maxs.z := decide_eq_true_iff

theorem reaches_of_along {t : K} (hLow : 0 ≤ t) (hHigh : t ≤ 1)
    (h : part.reaches rotation hull (Vec3.along start finish t) (Vec3.along start finish t) = true) :
    part.reaches rotation hull (start.min finish) (start.max finish) = true := by
  have hMin (a b : K) : min a b ≤ a + (b - a) * t := by
    rcases min_le_iff.mp (le_refl (min a b)) with ha | hb <;> nlinarith [min_le_left a b, min_le_right a b]
  have hMax (a b : K) : a + (b - a) * t ≤ max a b := by
    nlinarith [le_max_left a b, le_max_right a b]
  rw [reaches_iff] at h ⊢
  obtain ⟨hx, hx', hy, hy', hz, hz'⟩ := h
  exact ⟨(hMin _ _).trans hx, hx'.trans (hMax _ _), (hMin _ _).trans hy, hy'.trans (hMax _ _),
    (hMin _ _).trans hz, hz'.trans (hMax _ _)⟩

omit [IsStrictOrderedRing K] in
theorem walkBrush_eq_traceBrush (h : part.reaches rotation hull (start.min finish) (start.max finish) = true)
    (hPart : model.brushes[brush]? = some part) :
    model.walkBrush rotation hull start finish brush = model.traceBrush rotation hull start finish brush := by
  rw [CollisionModel.walkBrush, CollisionModel.traceBrush, hPart]
  dsimp only
  rw [CollisionModel.hitBrush]
  split
  · rfl
  · simp only [h]
    cases model.traceTree rotation hull (part.heads hull) (some part) start finish part.kind <;> rfl

/-- The broad phase changes no trace, unless the box around a segment is apart from the brush's and its planes still
stop the segment. -/
theorem traceBrush_eq_walkBrush_iff (hPart : model.brushes[brush]? = some part) (hKind : part.kind = .solid)
    (hPose : part.hasRotation = false)
    (hTree : Unrolls model.planes (model.nodesOf hull) maxTraceDepth (part.heads hull) tree) (hConvex : tree.Convex halves)
    (hBounds : ∀ point, Contents.isSolid (tree.contents (point - part.origin)) = true →
      part.reaches rotation hull point point = true) :
    model.traceBrush rotation hull start finish brush = model.walkBrush rotation hull start finish brush ↔
      part.reaches rotation hull (start.min finish) (start.max finish) = true ∨
        ¬ Caught halves (start - part.origin) (finish - part.origin) := by
  cases hReaches : part.reaches rotation hull (start.min finish) (start.max finish) with
  | true => exact iff_of_true (walkBrush_eq_traceBrush hReaches hPart).symm (.inl rfl)
  | false =>
    have hMiss : model.traceBrush rotation hull start finish brush = some (Trace.miss finish) := by
      rw [CollisionModel.traceBrush, hPart]
      simp [CollisionModel.hitBrush, hReaches]
    have hOut : ¬ InAll halves (start - part.origin) := by
      intro hAll
      have hStart : part.reaches rotation hull (Vec3.along start finish 0) (Vec3.along start finish 0) = true := by
        rw [Vec3.along_zero]
        exact hBounds start ((hConvex.solid_iff _).mpr hAll)
      exact Bool.false_ne_true (hReaches.symm.trans (reaches_of_along le_rfl zero_le_one hStart))
    have hHead : ¬ part.heads hull < 0 := by
      intro hLeaf
      obtain rfl := hTree.unique (.leaf hLeaf)
      cases hConvex
      exact hOut nofun
    obtain ⟨hit, hHit, hStartSolid, hAllSolid, hWater, hCaught⟩ :=
      hConvex.traceTree hTree hOut rotation finish hPose
    have hWalk : model.walkBrush rotation hull start finish brush = some
        (if hit.fraction < 1 then
          { Trace.miss finish with
            fraction := hit.fraction
            endPos := hit.endPos
            planeNormal := hit.planeNormal
            planeDist := hit.planeDist
            brushIndex := some brush }
        else Trace.miss finish) := by
      simp only [CollisionModel.walkBrush, hPart, if_neg hHead, hKind, hHit, Option.bind_eq_bind, Option.bind_some]
      rw [combine_miss hit brush hStartSolid hAllSolid hWater]
      split <;> rfl
    rw [hMiss, hWalk, Option.some_inj, or_iff_right Bool.false_ne_true, ← hCaught]
    split <;> rename_i hFraction
    · refine iff_of_false (fun hEq => ?_) (not_not.mpr hFraction)
      have hOne : (1 : K) = hit.fraction := congrArg Trace.fraction hEq
      exact hFraction.ne' hOne
    · exact iff_of_true rfl hFraction

/-! ### A wedge

It hangs from its broad side, 24 across, and its slanted sides meet below.
-/

def wedgeHalves : List (HalfSpace ℚ) :=
  [⟨⟨⟨0, 0, 1⟩, 0⟩, false⟩, ⟨⟨⟨(3 : Nat) / (5 : Nat), 0, -(4 : Nat) / (5 : Nat)⟩, (36 : Nat) / (5 : Nat)⟩, false⟩,
    ⟨⟨⟨-(3 : Nat) / (5 : Nat), 0, -(4 : Nat) / (5 : Nat)⟩, (36 : Nat) / (5 : Nat)⟩, false⟩,
    ⟨⟨⟨0, 1, 0⟩, (8 : Nat)⟩, false⟩, ⟨⟨⟨0, -1, 0⟩, (8 : Nat)⟩, false⟩]

def wedgeNodes : List HullNode := [⟨0, -1, 1⟩, ⟨1, -1, 2⟩, ⟨2, -1, 3⟩, ⟨3, -1, 4⟩, ⟨4, -1, -2⟩]

def wedgePart : BrushPart ℚ where
  heads
    | .point => 0
    | _ => -1
  origin := Vec3.zero
  pivot := Vec3.zero
  axis := Vec3.zero
  angleDeg := 0
  kind := .solid
  mins := ⟨-(12 : Nat), -(8 : Nat), -(9 : Nat)⟩
  maxs := ⟨(12 : Nat), (8 : Nat), 0⟩
  suspended := none

def wedgeModel : CollisionModel ℚ :=
  ⟨wedgeHalves.map HalfSpace.plane, wedgeNodes, [], Heads.bare, [wedgePart]⟩

def still : Rotation ℚ := ⟨fun _ _ v => v, fun _ _ v => v⟩

theorem wedge_unrolls : Unrolls wedgeModel.planes (wedgeModel.nodesOf .point) maxTraceDepth (wedgePart.heads .point)
    (.ofHalves wedgeHalves) :=
  .ofHalves_cons (by decide) rfl rfl rfl <| .ofHalves_cons (by decide) rfl rfl rfl <|
    .ofHalves_cons (by decide) rfl rfl rfl <| .ofHalves_cons (by decide) rfl rfl rfl <|
    .ofHalves_cons (by decide) rfl rfl rfl <| .leaf (by decide)

theorem wedge_bounds (point : Vec3 ℚ)
    (h : Contents.isSolid ((HullTree.ofHalves wedgeHalves).contents (point - wedgePart.origin)) = true) :
    wedgePart.reaches still .point point point = true := by
  rw [(HullTree.convex_ofHalves wedgeHalves).solid_iff, wedgeHalves] at h
  simp only [inAll_cons, inside_front, HullPlane.distance, Vec3.dot] at h
  obtain ⟨hTop, hRight, hLeft, hFront, hBack, -⟩ := h
  rw [reaches_iff]
  have hBox : wedgePart.broadBounds still .point = (⟨-12, -8, -9⟩, ⟨12, 8, 0⟩) := by decide +kernel
  have hMoved : point - wedgePart.origin = point := by
    ext <;> exact sub_zero _
  rw [hMoved] at hTop hRight hLeft hFront hBack
  rw [hBox]
  norm_num at hTop hRight hLeft hFront hBack ⊢
  refine ⟨?_, ?_, ?_, ?_, ?_, ?_⟩ <;> linarith

/-- A segment that passes beside the wedge, but crosses its broad side's plane less than the gap off its slanted one. -/
theorem broadPhase_cuts_wedge : wedgeModel.brushes[0]? = some wedgePart ∧ wedgePart.kind = .solid ∧
    wedgePart.hasRotation = false ∧
    Unrolls wedgeModel.planes (wedgeModel.nodesOf .point) maxTraceDepth (wedgePart.heads .point) (.ofHalves wedgeHalves) ∧
    (HullTree.ofHalves wedgeHalves).Convex wedgeHalves ∧
    (∀ point, Contents.isSolid ((HullTree.ofHalves wedgeHalves).contents (point - wedgePart.origin)) = true →
      wedgePart.reaches still .point point point = true) ∧
    wedgeModel.traceBrush still .point ⟨12 + 1 / 32, 0, 1⟩ ⟨12 + 1 / 32, 0, -1⟩ 0 ≠
      wedgeModel.walkBrush still .point ⟨12 + 1 / 32, 0, 1⟩ ⟨12 + 1 / 32, 0, -1⟩ 0 :=
  ⟨rfl, rfl, by decide +kernel, wedge_unrolls, HullTree.convex_ofHalves _, wedge_bounds, by decide +kernel⟩

theorem broadPhase_keeps_wedge : wedgeModel.traceBrush still .point ⟨0, 0, 1⟩ ⟨0, 0, -1⟩ 0 =
      wedgeModel.walkBrush still .point ⟨0, 0, 1⟩ ⟨0, 0, -1⟩ 0 ↔
    wedgePart.reaches still .point (Vec3.min ⟨0, 0, 1⟩ ⟨0, 0, -1⟩) (Vec3.max ⟨0, 0, 1⟩ ⟨0, 0, -1⟩) = true ∨
      ¬ Caught wedgeHalves (⟨0, 0, 1⟩ - wedgePart.origin) (⟨0, 0, -1⟩ - wedgePart.origin) :=
  traceBrush_eq_walkBrush_iff rfl rfl (by decide +kernel) wedge_unrolls (HullTree.convex_ofHalves _) wedge_bounds

/-! ### A margin -/

def HalfSpace.excess (half : HalfSpace K) (point : Vec3 K) : K :=
  if half.outer then -half.plane.distance point else half.plane.distance point

namespace HalfSpace

variable {half : HalfSpace K}

omit [LinearOrder K] [IsStrictOrderedRing K] in
theorem excess_straight (half : HalfSpace K) (p1 p2 : Vec3 K) : Straight fun t => half.excess (Vec3.along p1 p2 t) := by
  obtain ⟨base, rate, hAt⟩ := half.plane.straight p1 p2
  cases hOuter : half.outer with
  | false => exact ⟨base, rate, fun t => by simpa [excess, hOuter] using hAt t⟩
  | true =>
    refine ⟨-base, -rate, fun t => ?_⟩
    have hDistance : half.plane.distance (Vec3.along p1 p2 t) = base + rate * t := hAt t
    simp only [excess, hOuter, if_true, hDistance]
    ring

theorem Inside.excess_le (h : half.Inside point) : half.excess point ≤ 0 := by
  rw [Inside, behind] at h
  rw [excess]
  cases hOuter : half.outer with
  | false =>
    rw [hOuter, Bool.ne_false_iff, decide_eq_true_eq] at h
    simpa using h.le
  | true =>
    rw [hOuter, Ne, Bool.not_eq_true, decide_eq_false_iff_not, not_lt] at h
    simpa using neg_nonpos.mpr h

theorem excess_short_le (h : behind (half.plane.distance p1) ≠ behind (half.plane.distance p2)) :
    half.excess (half.short p1 p2) ≤ distEpsilon := by
  have hAt := (half.plane.straight p1 p2).at_fraction 0 1 (half.plane.midFraction p1 p2)
  simp only [zero_add, sub_zero, one_mul, Vec3.along_zero, Vec3.along_one] at hAt
  have hGap := (stopFraction_side distEpsilon_pos h).2
  rw [excess, short, hAt]
  obtain ⟨hLow, hHigh⟩ := abs_le.mp hGap
  split
  · exact neg_le.mp hLow
  · exact hHigh

end HalfSpace

omit [IsStrictOrderedRing K] in
theorem cross_of_inside {half : HalfSpace K} (h : half.Inside p1 ↔ ¬ half.Inside p2) :
    behind (half.plane.distance p1) ≠ behind (half.plane.distance p2) := by
  intro hSame
  rw [HalfSpace.Inside, HalfSpace.Inside, hSame] at h
  exact iff_not_self h

theorem Caught.excess_le (h : Caught halves p1 p2) :
    ∃ t, 0 ≤ t ∧ t ≤ 1 ∧ ∀ half ∈ halves, half.excess (Vec3.along p1 p2 t) ≤ distEpsilon := by
  have hGap : (0 : K) ≤ distEpsilon := distEpsilon_pos.le
  induction halves generalizing p1 p2 with
  | nil => exact h.elim
  | cons half halves ih =>
    have hMidLow : 0 ≤ half.plane.midFraction p1 p2 := half.plane.midFraction_nonneg p1 p2
    have hMidHigh : half.plane.midFraction p1 p2 ≤ 1 := half.plane.midFraction_le_one p1 p2
    have hChild {low high : K} (h0 : 0 ≤ low) (hLe : low ≤ high) (h1 : high ≤ 1)
        (hFirst : half.excess (Vec3.along p1 p2 low) ≤ distEpsilon)
        (hLast : half.excess (Vec3.along p1 p2 high) ≤ distEpsilon)
        (hCaught : Caught halves (Vec3.along p1 p2 low) (Vec3.along p1 p2 high)) :
        ∃ t, 0 ≤ t ∧ t ≤ 1 ∧ ∀ one ∈ half :: halves, one.excess (Vec3.along p1 p2 t) ≤ distEpsilon := by
      obtain ⟨t, ht0, ht1, hAll⟩ := ih hCaught
      obtain ⟨hLow, hHigh, -⟩ := between_unit h0 hLe h1 ht0 ht1
      rw [Vec3.along_along] at hAll
      refine ⟨low + (high - low) * t, h0.trans hLow, hHigh.trans h1, List.forall_mem_cons.mpr ⟨?_, hAll⟩⟩
      exact (half.excess_straight p1 p2).le_between hLow hHigh hFirst hLast
    have hStart (h1 : half.Inside p1) : half.excess (Vec3.along p1 p2 0) ≤ distEpsilon := by
      rw [Vec3.along_zero]
      exact h1.excess_le.trans hGap
    have hFinish (h2 : half.Inside p2) : half.excess (Vec3.along p1 p2 1) ≤ distEpsilon := by
      rw [Vec3.along_one]
      exact h2.excess_le.trans hGap
    rcases h with ⟨h1, h2, hCaught⟩ | ⟨h1, h2, hCaught⟩ | ⟨h1, h2, hEnters⟩
    · refine hChild le_rfl zero_le_one le_rfl (hStart h1) (hFinish h2) ?_
      rwa [Vec3.along_zero, Vec3.along_one]
    · refine hChild le_rfl hMidLow hMidHigh (hStart h1) (HalfSpace.excess_short_le (cross_of_inside (iff_of_true h1 h2))) ?_
      rwa [Vec3.along_zero]
    · have hShort : half.excess (half.short p1 p2) ≤ distEpsilon :=
        HalfSpace.excess_short_le (cross_of_inside (iff_of_false h1 (not_not.mpr h2)))
      rcases hEnters with hAll | hCaught
      · refine ⟨half.plane.midFraction p1 p2, hMidLow, hMidHigh, List.forall_mem_cons.mpr ⟨hShort, ?_⟩⟩
        exact fun later hLater => (hAll later hLater).excess_le.trans hGap
      · refine hChild hMidLow hMidHigh le_rfl hShort (hFinish h2) ?_
        rwa [Vec3.along_one]

def roomyPart : BrushPart ℚ :=
  { wedgePart with mins := ⟨-(13 : Nat), -(9 : Nat), -(10 : Nat)⟩, maxs := ⟨(13 : Nat), (9 : Nat), (1 : Nat)⟩ }

def roomyModel : CollisionModel ℚ := { wedgeModel with brushes := [roomyPart] }

theorem roomy_room (point : Vec3 ℚ) (h : ∀ half ∈ wedgeHalves, half.excess (point - roomyPart.origin) ≤ distEpsilon) :
    roomyPart.reaches still .point point point = true := by
  have hMoved : point - roomyPart.origin = point := by
    ext <;> exact sub_zero _
  rw [hMoved, wedgeHalves] at h
  simp only [List.forall_mem_cons, HalfSpace.excess, HullPlane.distance, Vec3.dot, distEpsilon] at h
  obtain ⟨hTop, hRight, hLeft, hFront, hBack, -⟩ := h
  rw [reaches_iff]
  have hBox : roomyPart.broadBounds still .point = (⟨-13, -9, -10⟩, ⟨13, 9, 1⟩) := by decide +kernel
  rw [hBox]
  norm_num at hTop hRight hLeft hFront hBack ⊢
  refine ⟨?_, ?_, ?_, ?_, ?_, ?_⟩ <;> linarith

end OpenHalfLife.Physics
