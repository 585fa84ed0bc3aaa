import OpenHalfLife.Physics.HullTree

/-! # What a sweep leaves

The first leaf of a sweep is the one around its first point. A sweep that starts in the open is
stopped by a plane that it crosses, at a point of the segment.
-/

namespace OpenHalfLife.Physics

set_option autoImplicit false

variable {K : Type} [Field K] [LinearOrder K]

namespace Vec3

variable (start finish : Vec3 K) (t : K)

omit [LinearOrder K]

@[simp]
theorem along_x : (along start finish t).x = start.x + (finish.x - start.x) * t := rfl

@[simp]
theorem along_y : (along start finish t).y = start.y + (finish.y - start.y) * t := rfl

@[simp]
theorem along_z : (along start finish t).z = start.z + (finish.z - start.z) * t := rfl

theorem along_zero : along start finish 0 = start := by
  ext <;> simp

theorem along_one : along start finish 1 = finish := by
  ext <;> simp

theorem along_along (low high fraction : K) :
    along (along start finish low) (along start finish high) fraction =
      along start finish (low + (high - low) * fraction) := by
  ext
  · simp only [along_x]
    ring
  · simp only [along_y]
    ring
  · simp only [along_z]
    ring

theorem along_sub (origin : Vec3 K) : along start finish t - origin = along (start - origin) (finish - origin) t := by
  ext
  · change start.x + (finish.x - start.x) * t - origin.x =
      start.x - origin.x + (finish.x - origin.x - (start.x - origin.x)) * t
    ring
  · change start.y + (finish.y - start.y) * t - origin.y =
      start.y - origin.y + (finish.y - origin.y - (start.y - origin.y)) * t
    ring
  · change start.z + (finish.z - start.z) * t - origin.z =
      start.z - origin.z + (finish.z - origin.z - (start.z - origin.z)) * t
    ring

end Vec3

omit [LinearOrder K] in
theorem HullPlane.straight (plane : HullPlane K) (start finish : Vec3 K) :
    Straight fun t => plane.distance (Vec3.along start finish t) := by
  refine ⟨plane.distance start, plane.normal.dot (finish - start), fun t => ?_⟩
  simp only [HullPlane.distance, Vec3.dot, Vec3.along_x, Vec3.along_y, Vec3.along_z]
  change _ = _ + (plane.normal.x * (finish.x - start.x) + plane.normal.y * (finish.y - start.y) +
    plane.normal.z * (finish.z - start.z)) * t
  ring

theorem remapLeaf_solid (link : Int) : remapLeaf link .solid = link := rfl

omit [Field K] [LinearOrder K] in
theorem Trace.passLeaf_startSolid (trace : Trace K) (mapped : Int) :
    (trace.passLeaf mapped).startSolid = (trace.startSolid || Contents.isSolid mapped) := by
  rw [Trace.passLeaf]
  split
  · rename_i hSolid
    rw [hSolid, Bool.or_true]
  · rename_i hOpen
    rw [Bool.eq_false_of_not_eq_true hOpen, Bool.or_false]
    split <;> rfl

omit [Field K] [LinearOrder K] in
theorem Trace.passLeaf_allSolid (trace : Trace K) (mapped : Int) :
    (trace.passLeaf mapped).allSolid = (trace.allSolid && Contents.isSolid mapped) := by
  rw [Trace.passLeaf]
  split
  · rename_i hSolid
    rw [hSolid, Bool.and_true]
  · rename_i hOpen
    rw [Bool.eq_false_of_not_eq_true hOpen, Bool.and_false]
    split <;> rfl

namespace Swept

variable {kind : BrushKind} {tree : HullTree K} {p1f p2f : K} {p1 p2 : Vec3 K} {trace out : Trace K} {through : Bool}

theorem startSolid (h : Swept .solid tree p1f p2f p1 p2 trace through out) :
    out.startSolid = (trace.startSolid || Contents.isSolid (tree.contents p1)) := by
  induction h with
  | leaf => exact Trace.passLeaf_startSolid _ _
  | exhausted => exact (Bool.or_true _).symm
  | same _ _ ih => exact ih
  | near _ _ ih => exact ih
  | far _ _ hOpen _ ihNear ihFar =>
    rw [remapLeaf_solid] at hOpen
    rw [ihFar, Bool.eq_false_of_not_eq_true hOpen, Bool.or_false]
    exact ihNear
  | inside _ _ _ _ ih => exact ih
  | stop _ _ _ _ _ ih => exact ih

theorem allSolid_of_false (h : Swept kind tree p1f p2f p1 p2 trace through out) (hFalse : trace.allSolid = false) :
    out.allSolid = false := by
  induction h with
  | leaf => rw [Trace.passLeaf_allSolid, hFalse, Bool.false_and]
  | exhausted => exact hFalse
  | same _ _ ih => exact ih hFalse
  | near _ _ ih => exact ih hFalse
  | far _ _ _ _ ihNear ihFar => exact ihFar (ihNear hFalse)
  | inside _ _ _ _ ih => exact ih hFalse
  | stop _ _ _ hInside => exact hInside

theorem allSolid_of_open (h : Swept .solid tree p1f p2f p1 p2 trace through out)
    (hOpen : ¬Contents.isSolid (tree.contents p1)) : out.allSolid = false := by
  induction h with
  | leaf =>
    rw [Trace.passLeaf_allSolid]
    exact Bool.and_eq_false_imp.mpr fun _ => Bool.eq_false_of_not_eq_true hOpen
  | exhausted => exact absurd rfl hOpen
  | same _ _ ih => exact ih hOpen
  | near _ _ ih => exact ih hOpen
  | far _ _ _ hFar ihNear => exact hFar.allSolid_of_false (ihNear hOpen)
  | inside _ _ _ _ ih => exact ih hOpen
  | stop _ _ _ hInside => exact hInside

theorem kept (h : Swept kind tree p1f p2f p1 p2 trace through out) (hThrough : through = true) :
    out.fraction = trace.fraction ∧ out.endPos = trace.endPos ∧ out.planeNormal = trace.planeNormal ∧
      out.planeDist = trace.planeDist := by
  induction h with
  | leaf =>
    rw [Trace.passLeaf]
    split
    · exact ⟨rfl, rfl, rfl, rfl⟩
    · split <;> exact ⟨rfl, rfl, rfl, rfl⟩
  | exhausted => cases hThrough
  | same _ _ ih => exact ih hThrough
  | near _ _ _ => cases hThrough
  | far _ _ _ _ ihNear ihFar =>
    obtain ⟨hFraction, hEnd, hNormal, hDist⟩ := ihNear rfl
    obtain ⟨hFraction', hEnd', hNormal', hDist'⟩ := ihFar hThrough
    exact ⟨hFraction'.trans hFraction, hEnd'.trans hEnd, hNormal'.trans hNormal, hDist'.trans hDist⟩
  | inside _ _ _ _ _ => cases hThrough
  | stop _ _ _ _ _ _ => cases hThrough

end Swept

variable [IsStrictOrderedRing K]

theorem between_unit {low high b : K} (hLow : 0 ≤ low) (hLe : low ≤ high) (hHigh : high ≤ 1) (hb : 0 ≤ b) (hb1 : b ≤ 1) :
    low ≤ low + (high - low) * b ∧ low + (high - low) * b ≤ high ∧ unitClamp (low + (high - low) * b) =
      low + (high - low) * b := by
  have hWidth := sub_nonneg.mpr hLe
  have hAbove := mul_nonneg hWidth hb
  have hBelow := mul_le_of_le_one_right hWidth hb1
  refine ⟨by linarith, by linarith, unitClamp_eq (by linarith) (by linarith)⟩

theorem distEpsilon_pos : (0 : K) < distEpsilon := by
  rw [distEpsilon]
  exact one_div_pos.mpr (by norm_num)

omit [IsStrictOrderedRing K] in
theorem HullPlane.midFraction_nonneg (plane : HullPlane K) (p1 p2 : Vec3 K) : 0 ≤ plane.midFraction p1 p2 :=
  stopFraction_nonneg _ _ _

theorem HullPlane.midFraction_le_one (plane : HullPlane K) (p1 p2 : Vec3 K) : plane.midFraction p1 p2 ≤ 1 :=
  stopFraction_le_one _ _ _

theorem backOff_between {contentsOf : Vec3 K → Option Int} {kind : BrushKind} {p1f p2f backoff : K} {p1 p2 : Vec3 K}
    {rounds : Nat} {stop : K × Vec3 K} (hLow : 0 ≤ p1f) (hLe : p1f ≤ p2f) (hHigh : p2f ≤ 1) (hBack : 0 ≤ backoff)
    (hBack1 : backoff ≤ 1)
    (h : backOff contentsOf kind p1f p2f p1 p2 rounds (p1f + (p2f - p1f) * backoff) (Vec3.along p1 p2 backoff) backoff =
      some stop) :
    ∃ b, 0 ≤ b ∧ b ≤ backoff ∧ stop = (p1f + (p2f - p1f) * b, Vec3.along p1 p2 b) := by
  have hStart : (p1f, p1) = (p1f + (p2f - p1f) * 0, Vec3.along p1 p2 0) := by
    rw [mul_zero, add_zero, Vec3.along_zero]
  induction rounds generalizing backoff with
  | zero =>
    cases h
    exact ⟨0, le_rfl, hBack, hStart⟩
  | succ rounds ih =>
    rw [backOff, Option.bind_eq_bind, Option.bind_eq_some_iff] at h
    obtain ⟨value, -, h⟩ := h
    split at h
    · split at h
      · cases h
        exact ⟨0, le_rfl, hBack, hStart⟩
      · rename_i hLeft
        obtain ⟨b, hb, hbBack, hStop⟩ := ih (not_lt.mp hLeft) (by linarith) h
        exact ⟨b, hb, by linarith, hStop⟩
    · cases h
      exact ⟨backoff, hBack, le_rfl, by rw [(between_unit hLow hLe hHigh hBack hBack1).2.2]⟩

/-- A move stopped by a plane with points of the segment on both sides. -/
structure Stopped (start finish : Vec3 K) (tree : HullTree K) (low high : K) (out : Trace K) : Prop where
  lowest : low ≤ out.fraction
  highest : out.fraction ≤ high
  endPos : out.endPos = Vec3.along start finish out.fraction
  plane : ∃ plane side s t, tree.HasPlane plane ∧
    out.planeNormal = (if side then -plane.normal else plane.normal) ∧
    out.planeDist = (if side then -plane.dist else plane.dist) ∧ low ≤ s ∧ s ≤ t ∧ t ≤ high ∧
    behind (plane.distance (Vec3.along start finish s)) = side ∧
    behind (plane.distance (Vec3.along start finish t)) = !side

variable {start finish : Vec3 K}

omit [IsStrictOrderedRing K] in
theorem Stopped.child {plane : HullPlane K} {children : Bool → HullTree K} {side : Bool} {low lowest high highest : K}
    {out : Trace K} (h : Stopped start finish (children side) low high out) (hLow : lowest ≤ low)
    (hHigh : high ≤ highest) : Stopped start finish (.split plane children) lowest highest out := by
  obtain ⟨found, near, s, t, hPlane, hNormal, hDist, hs, hLe, ht, hNear, hFar⟩ := h.plane
  exact ⟨hLow.trans h.lowest, h.highest.trans hHigh, h.endPos, found, near, s, t, .child side hPlane, hNormal, hDist,
    hLow.trans hs, hLe, ht.trans hHigh, hNear, hFar⟩

theorem Swept.stopped {tree : HullTree K} {p1f p2f : K} {p1 p2 : Vec3 K} {trace out : Trace K} {through : Bool}
    (h : Swept .solid tree p1f p2f p1 p2 trace through out) (hThrough : through = false)
    (hOpen : ¬Contents.isSolid (tree.contents p1)) (h1 : p1 = Vec3.along start finish p1f)
    (h2 : p2 = Vec3.along start finish p2f) (hLow : 0 ≤ p1f) (hLe : p1f ≤ p2f) (hHigh : p2f ≤ 1) :
    Stopped start finish tree p1f p2f out := by
  induction h with
  | leaf => cases hThrough
  | exhausted => exact absurd rfl hOpen
  | same _ _ ih => exact (ih hThrough hOpen h1 h2 hLow hLe hHigh).child le_rfl le_rfl
  | @near plane children p1f p2f p1 p2 trace out hCross _ ih =>
    obtain ⟨hMidLow, hMidHigh, -⟩ := between_unit hLow hLe hHigh
      (plane.midFraction_nonneg p1 p2) (plane.midFraction_le_one p1 p2)
    have hMid := (congrArg₂ (Vec3.along · · (plane.midFraction p1 p2)) h1 h2).trans (Vec3.along_along _ _ _ _ _)
    exact (ih rfl hOpen h1 hMid hLow hMidLow (hMidHigh.trans hHigh)).child le_rfl hMidHigh
  | @far plane children p1f p2f p1 p2 trace between out through hCross _ hFar _ _ ih =>
    obtain ⟨hMidLow, hMidHigh, -⟩ := between_unit hLow hLe hHigh
      (plane.midFraction_nonneg p1 p2) (plane.midFraction_le_one p1 p2)
    have hMid := (congrArg₂ (Vec3.along · · (plane.midFraction p1 p2)) h1 h2).trans (Vec3.along_along _ _ _ _ _)
    exact (ih hThrough hFar hMid h2 (hLow.trans hMidLow) hMidHigh hHigh).child hMidLow le_rfl
  | inside _ hNear _ hInside =>
    rw [hNear.allSolid_of_open hOpen] at hInside
    cases hInside
  | @stop plane children p1f p2f p1 p2 trace between stop hCross _ _ _ hStop _ =>
    obtain ⟨b, hb, hbMid, rfl⟩ := backOff_between hLow hLe hHigh (plane.midFraction_nonneg p1 p2)
      (plane.midFraction_le_one p1 p2) hStop
    obtain ⟨hbLow, hbHigh, -⟩ := between_unit hLow hLe hHigh hb (hbMid.trans (plane.midFraction_le_one p1 p2))
    refine ⟨hbLow, hbHigh, ?_, plane, behind (plane.distance p1), p1f, p2f, .here children, rfl, rfl, le_rfl, hLe, le_rfl,
      by rw [h1], ?_⟩
    · exact (congrArg₂ (Vec3.along · · b) h1 h2).trans (Vec3.along_along _ _ _ _ _)
    · rw [← h2]
      exact (Bool.eq_not.mpr hCross.symm)

end OpenHalfLife.Physics
