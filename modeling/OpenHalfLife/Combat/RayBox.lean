import Mathlib.Order.Fin.Basic
import OpenHalfLife.Lib.Slab
import OpenHalfLife.Physics.Hull

/-! # A segment against a box

The segment is cut down to what lies between the faces of one axis after the other. The axis whose face
it passed last on the way in gives the normal.
-/

namespace OpenHalfLife.Combat

set_option autoImplicit false

variable {K : Type} [Field K] [LinearOrder K]

def coord (v : Physics.Vec3 K) : Fin 3 → K
  | 0 => v.x
  | 1 => v.y
  | 2 => v.z

def onAxis (axis : Fin 3) (value : K) : Physics.Vec3 K :=
  match axis with
  | 0 => ⟨value, 0, 0⟩
  | 1 => ⟨0, value, 0⟩
  | 2 => ⟨0, 0, value⟩

def epsilon : K := 1 / (8388608 : Nat)

structure Span (K : Type) where
  near : K
  far : K
  axis : Fin 3
  sign : K

def clipAxis (start delta low high : Physics.Vec3 K) (span : Span K) (axis : Fin 3) : Option (Span K) :=
  let origin := coord start axis
  let direction := coord delta axis
  if max direction (-direction) < epsilon then
    if origin < coord low axis ∨ origin > coord high axis then none else some span
  else
    let inverse := 1 / direction
    let tLow := (coord low axis - origin) * inverse
    let tHigh := (coord high axis - origin) * inverse
    let (tLow, tHigh, entering) := if tLow > tHigh then (tHigh, tLow, 1) else (tLow, tHigh, -1)
    let span := if tLow > span.near then { span with near := tLow, axis, sign := entering } else span
    let span := { span with far := min span.far tHigh }
    if span.near > span.far then none else some span

def rayBox (start delta low high : Physics.Vec3 K) : Option (K × Physics.Vec3 K) := do
  let span ← [0, 1, 2].foldlM (clipAxis start delta low high) ⟨0, 1, 0, -1⟩
  if span.near > 1 then none else some (unitClamp span.near, onAxis span.axis span.sign)

/-! ### One axis -/

variable {start delta low high : Physics.Vec3 K} {axis : Fin 3} {axes before after : List (Fin 3)} {span out : Span K}

def Resolved (delta : Physics.Vec3 K) : Prop :=
  ∀ axis, coord delta axis = 0 ∨ epsilon ≤ max (coord delta axis) (-coord delta axis)

def slabOf (start delta low high : Physics.Vec3 K) (axis : Fin 3) : Slab K :=
  ⟨coord start axis, coord delta axis, coord low axis, coord high axis⟩

def entering (delta low high : Physics.Vec3 K) (axis : Fin 3) : K :=
  if coord delta axis < 0 ∧ coord low axis < coord high axis then 1 else -1

def Span.enter (span : Span K) (axis : Fin 3) (entry sign : K) : Span K :=
  if entry > span.near then { span with near := entry, axis, sign } else span

def Span.passed (span : Span K) (slab : Slab K) (axis : Fin 3) (sign : K) : Span K :=
  let span := span.enter axis slab.entry sign
  { span with far := min span.far slab.exit }

omit [Field K] in
theorem Span.enter_near (span : Span K) (axis : Fin 3) (entry sign : K) :
    (span.enter axis entry sign).near = max span.near entry := by
  rw [Span.enter]
  split <;> rename_i h
  · exact (max_eq_right h.le).symm
  · exact (max_eq_left (not_lt.mp h)).symm

omit [Field K] in
@[simp] theorem Span.enter_far (span : Span K) (axis : Fin 3) (entry sign : K) :
    (span.enter axis entry sign).far = span.far := by
  rw [Span.enter]
  split <;> rfl

theorem not_still (h : Resolved delta) (hMoves : coord delta axis ≠ 0) :
    ¬ max (coord delta axis) (-coord delta axis) < epsilon :=
  not_lt.mpr ((h axis).resolve_left hMoves)

variable [IsStrictOrderedRing K]

theorem epsilon_pos : (0 : K) < epsilon := by
  rw [epsilon]
  positivity

theorem clipAxis_still (h : coord delta axis = 0) : clipAxis start delta low high span axis =
    if coord start axis < coord low axis ∨ coord start axis > coord high axis then none else some span := by
  have hSmall : max (coord delta axis) (-coord delta axis) < epsilon := by simp [h, epsilon_pos]
  simp only [clipAxis, if_pos hSmall]

theorem clipAxis_moving (hResolved : Resolved delta) (hOrder : coord low axis ≤ coord high axis)
    (h : coord delta axis ≠ 0) : clipAxis start delta low high span axis =
      let out := span.passed (slabOf start delta low high axis) axis (entering delta low high axis)
      if out.near > out.far then none else some out := by
  have hTurned : (slabOf start delta low high axis).reach (coord high axis) < _ ↔ _ := Slab.reach_high_lt_iff hOrder h
  simp only [clipAxis, if_neg (not_still hResolved h)]
  simp only [slabOf, Slab.reach, entering] at hTurned ⊢
  by_cases hSwap : coord delta axis < 0 ∧ coord low axis < coord high axis
  · have hLt := hTurned.mpr hSwap
    simp only [gt_iff_lt, if_pos hLt, if_pos hSwap, min_eq_right hLt.le, max_eq_left hLt.le, Span.passed, Span.enter,
      Slab.entry, Slab.exit, Slab.reach]
  · have hLe := not_lt.mp fun hLt => hSwap (hTurned.mp hLt)
    simp only [gt_iff_lt, if_neg (not_lt.mpr hLe), if_neg hSwap, min_eq_left hLe, max_eq_right hLe, Span.passed,
      Span.enter, Slab.entry, Slab.exit, Slab.reach]

/-! ### One axis after the other -/

/-- The normal was kept, or it is of the axis whose entry the span now begins with. -/
inductive Entered (start delta low high : Physics.Vec3 K) (axes : List (Fin 3)) (span out : Span K) : Prop
  | kept : out.near = span.near → out.axis = span.axis → out.sign = span.sign →
    Entered start delta low high axes span out
  | moved (before after : List (Fin 3)) : span.near < out.near → axes = before ++ out.axis :: after →
    coord delta out.axis ≠ 0 → (slabOf start delta low high out.axis).entry = out.near →
    out.sign = entering delta low high out.axis →
    (∀ other ∈ before, coord delta other ≠ 0 → (slabOf start delta low high other).entry < out.near) →
    Entered start delta low high axes span out

def Span.Within (span : Span K) (t : K) : Prop := span.near ≤ t ∧ t ≤ span.far

def HeldBy (start delta low high : Physics.Vec3 K) (axes : List (Fin 3)) (t : K) : Prop :=
  ∀ axis ∈ axes, (slabOf start delta low high axis).Holds t

structure Clipped (start delta low high : Physics.Vec3 K) (axes : List (Fin 3)) (span out : Span K) : Prop where
  nonempty : out.near ≤ out.far
  within_iff : ∀ t, out.Within t ↔ span.Within t ∧ HeldBy start delta low high axes t
  entered : Entered start delta low high axes span out

theorem within_passed {slab : Slab K} (hOrder : slab.low ≤ slab.high) (h : slab.direction ≠ 0) (sign t : K) :
    (span.passed slab axis sign).Within t ↔ span.Within t ∧ slab.Holds t := by
  simp only [Span.Within, Span.passed, Span.enter_near, Span.enter_far, max_le_iff, le_min_iff, Slab.holds_iff hOrder h]
  tauto

theorem clipAxis_none (hResolved : Resolved delta) (hOrder : coord low axis ≤ coord high axis)
    (h : clipAxis start delta low high span axis = none) (t : K) :
    ¬ (span.Within t ∧ (slabOf start delta low high axis).Holds t) := by
  rintro ⟨hWithin, hHolds⟩
  by_cases hStill : coord delta axis = 0
  · obtain ⟨hLow, hHigh⟩ : coord low axis ≤ coord start axis ∧ coord start axis ≤ coord high axis :=
      (Slab.holds_of_still _ hStill t).mp hHolds
    have hIn : ¬ (coord start axis < coord low axis ∨ coord start axis > coord high axis) :=
      not_or.mpr ⟨not_lt.mpr hLow, not_lt.mpr hHigh⟩
    rw [clipAxis_still hStill, if_neg hIn] at h
    cases h
  · have hOut : (span.passed (slabOf start delta low high axis) axis (entering delta low high axis)).Within t :=
      (within_passed hOrder hStill _ t).mpr ⟨hWithin, hHolds⟩
    rw [clipAxis_moving hResolved hOrder hStill] at h
    simp only [gt_iff_lt, ite_eq_left_iff, not_lt, reduceCtorEq, imp_false, not_le] at h
    exact absurd (hOut.1.trans hOut.2) (not_le.mpr h)

theorem clipAxis_some (hResolved : Resolved delta) (hOrder : coord low axis ≤ coord high axis)
    (hSpan : span.near ≤ span.far) (h : clipAxis start delta low high span axis = some out) :
    Clipped start delta low high [axis] span out := by
  by_cases hStill : coord delta axis = 0
  · rw [clipAxis_still hStill] at h
    split at h <;> rename_i hOut
    · cases h
    · obtain rfl := Option.some.inj h
      refine ⟨hSpan, fun t => ?_, .kept rfl rfl rfl⟩
      have hHolds := (Slab.holds_of_still (slabOf start delta low high axis) hStill t).mpr
        ⟨not_lt.mp (not_or.mp hOut).1, not_lt.mp (not_or.mp hOut).2⟩
      simp [HeldBy, hHolds]
  · rw [clipAxis_moving hResolved hOrder hStill] at h
    dsimp only at h
    split at h <;> rename_i hLe
    · cases h
    · obtain rfl := Option.some.inj h
      refine ⟨not_lt.mp hLe, fun t => ?_, ?_⟩
      · simpa [HeldBy] using within_passed hOrder hStill (entering delta low high axis) t
      · by_cases hLater : (slabOf start delta low high axis).entry > span.near
        · have hEnter : span.passed (slabOf start delta low high axis) axis (entering delta low high axis) =
              ⟨(slabOf start delta low high axis).entry, min span.far (slabOf start delta low high axis).exit, axis,
                entering delta low high axis⟩ := by
            simp only [Span.passed, Span.enter, if_pos hLater]
          rw [hEnter]
          exact .moved [] [] hLater rfl hStill rfl rfl nofun
        · have hKeep : span.enter axis (slabOf start delta low high axis).entry (entering delta low high axis) = span :=
            if_neg hLater
          refine .kept ?_ ?_ ?_ <;> simp [Span.passed, hKeep]

namespace Clipped

variable {mid : Span K}

theorem entry_le (h : Clipped start delta low high axes span out) (hMem : axis ∈ axes)
    (hOrder : coord low axis ≤ coord high axis) (hMoves : coord delta axis ≠ 0) :
    (slabOf start delta low high axis).entry ≤ out.near := by
  have hHeld := ((h.within_iff out.near).mp ⟨le_rfl, h.nonempty⟩).2 axis hMem
  exact ((Slab.holds_iff hOrder hMoves out.near).mp hHeld).1

omit [IsStrictOrderedRing K] in
theorem near_le (h : Clipped start delta low high axes span out) : span.near ≤ out.near :=
  ((h.within_iff out.near).mp ⟨le_rfl, h.nonempty⟩).1.1

theorem cons (hOrder : coord low axis ≤ coord high axis) (hFirst : Clipped start delta low high [axis] span mid)
    (h : Clipped start delta low high axes mid out) : Clipped start delta low high (axis :: axes) span out := by
  refine ⟨h.nonempty, fun t => ?_, ?_⟩
  · rw [h.within_iff, hFirst.within_iff, and_assoc]
    simp [HeldBy]
  · cases h.entered with
    | kept hNear hAxis hSign =>
      cases hFirst.entered with
      | kept hNear' hAxis' hSign' => exact .kept (hNear.trans hNear') (hAxis.trans hAxis') (hSign.trans hSign')
      | moved before after hLt hSplit hMoves hEntry hSign' hBefore =>
        refine .moved before (after ++ axes) (hNear ▸ hLt) ?_ (hAxis ▸ hMoves)
          (by rw [hAxis, hEntry, hNear]) (by rw [hSign, hSign', hAxis]) (hNear ▸ hBefore)
        rw [hAxis, ← List.cons_append, ← List.append_assoc, ← hSplit]
        rfl
    | moved before after hLt hSplit hMoves hEntry hSign hBefore =>
      refine .moved (axis :: before) after (hFirst.near_le.trans_lt hLt) (by rw [hSplit]; rfl) hMoves
        hEntry hSign ?_
      intro other hMem hOther
      rcases List.mem_cons.mp hMem with rfl | hMem
      · exact (hFirst.entry_le List.mem_cons_self hOrder hOther).trans_lt hLt
      · exact hBefore other hMem hOther

end Clipped

theorem foldlM_clipAxis_none (hResolved : Resolved delta) (hOrder : ∀ axis, coord low axis ≤ coord high axis)
    (hSpan : span.near ≤ span.far) (h : axes.foldlM (clipAxis start delta low high) span = none) (t : K) :
    ¬ (span.Within t ∧ HeldBy start delta low high axes t) := by
  rintro ⟨hWithin, hHeld⟩
  induction axes generalizing span with
  | nil => cases h
  | cons axis axes ih =>
    obtain ⟨hHolds, hRest⟩ := List.forall_mem_cons.mp hHeld
    rw [List.foldlM_cons] at h
    cases hClip : clipAxis start delta low high span axis with
    | none => exact clipAxis_none hResolved (hOrder axis) hClip t ⟨hWithin, hHolds⟩
    | some mid =>
      have hMid := clipAxis_some hResolved (hOrder axis) hSpan hClip
      rw [hClip] at h
      exact ih hMid.nonempty h ((hMid.within_iff t).mpr ⟨hWithin, by simpa [HeldBy] using hHolds⟩) hRest

theorem foldlM_clipAxis_some (hResolved : Resolved delta) (hOrder : ∀ axis, coord low axis ≤ coord high axis)
    (hSpan : span.near ≤ span.far) (h : axes.foldlM (clipAxis start delta low high) span = some out) :
    Clipped start delta low high axes span out := by
  induction axes generalizing span with
  | nil =>
    obtain rfl := Option.some.inj h
    exact ⟨hSpan, fun t => by simp [HeldBy], .kept rfl rfl rfl⟩
  | cons axis axes ih =>
    rw [List.foldlM_cons] at h
    cases hClip : clipAxis start delta low high span axis with
    | none => rw [hClip] at h; cases h
    | some mid =>
      have hMid := clipAxis_some hResolved (hOrder axis) hSpan hClip
      rw [hClip] at h
      exact .cons (hOrder axis) hMid (ih hMid.nonempty h)

/-! ### The whole box -/

def InBox (low high point : Physics.Vec3 K) : Prop :=
  ∀ axis, coord low axis ≤ coord point axis ∧ coord point axis ≤ coord high axis

def Meets (start delta low high : Physics.Vec3 K) (t : K) : Prop :=
  0 ≤ t ∧ t ≤ 1 ∧ InBox low high (start + delta.scale t)

/-- The component along an axis comes between its bounds at a fraction, and is not between them before. -/
def EntersAt (start delta low high : Physics.Vec3 K) (axis : Fin 3) (t : K) : Prop :=
  coord delta axis ≠ 0 ∧ IsLeast {s | (slabOf start delta low high axis).Holds s} t

def FirstEnters (start delta low high : Physics.Vec3 K) (axis : Fin 3) (t : K) : Prop :=
  EntersAt start delta low high axis t ∧ ∀ other < axis, ¬ EntersAt start delta low high other t

inductive FaceAt (start delta low high : Physics.Vec3 K) (t : K) (normal : Physics.Vec3 K) : Prop
  | inside : t = 0 → normal = onAxis 0 (-1) → FaceAt start delta low high t normal
  | face (axis : Fin 3) : 0 < t → FirstEnters start delta low high axis t →
    normal = onAxis axis (entering delta low high axis) → FaceAt start delta low high t normal

omit [LinearOrder K] [IsStrictOrderedRing K] in
theorem coord_along (start delta : Physics.Vec3 K) (t : K) (axis : Fin 3) :
    coord (start + delta.scale t) axis = coord start axis + coord delta axis * t := by
  match axis with
  | 0 => rfl
  | 1 => rfl
  | 2 => rfl

theorem mem_axes (axis : Fin 3) : axis ∈ ([0, 1, 2] : List (Fin 3)) := by
  revert axis
  decide

omit [IsStrictOrderedRing K] in
theorem heldBy_iff_inBox (t : K) : HeldBy start delta low high [0, 1, 2] t ↔ InBox low high (start + delta.scale t) := by
  simp only [HeldBy, InBox, Slab.Holds, slabOf, coord_along]
  exact ⟨fun h axis => h axis (mem_axes axis), fun h axis _ => h axis⟩

omit [IsStrictOrderedRing K] in
theorem within_and_heldBy_iff (axis : Fin 3) (sign t : K) : (⟨0, 1, axis, sign⟩ : Span K).Within t ∧
    HeldBy start delta low high [0, 1, 2] t ↔ Meets start delta low high t := by
  rw [heldBy_iff_inBox, Meets, Span.Within, and_assoc]

theorem entersAt_iff (hOrder : coord low axis ≤ coord high axis) (t : K) : EntersAt start delta low high axis t ↔
    coord delta axis ≠ 0 ∧ (slabOf start delta low high axis).entry = t := by
  refine and_congr_right fun hMoves => ⟨fun h => ?_, ?_⟩
  · exact (Slab.isLeast_entry hOrder hMoves).unique h
  · rintro rfl
    exact Slab.isLeast_entry hOrder hMoves

theorem mem_of_lt_split {axis other : Fin 3} (h : [0, 1, 2] = before ++ axis :: after) (hLt : other < axis) :
    other ∈ before := by
  have hSorted : (before ++ axis :: after).Pairwise (· < ·) := h ▸ by decide
  have hMem : other ∈ before ++ axis :: after := h ▸ mem_axes other
  obtain ⟨_, hAfter, _⟩ := List.pairwise_append.mp hSorted
  rcases List.mem_append.mp hMem with hBefore | hRest
  · exact hBefore
  · rcases List.mem_cons.mp hRest with rfl | hLater
    · exact absurd hLt (lt_irrefl _)
    · exact absurd (List.rel_of_pairwise_cons hAfter hLater) hLt.not_gt

theorem rayBox_none (hResolved : Resolved delta) (hOrder : ∀ axis, coord low axis ≤ coord high axis)
    (h : rayBox start delta low high = none) (t : K) : ¬ Meets start delta low high t := by
  have hUnit : (⟨0, 1, 0, -1⟩ : Span K).near ≤ 1 := zero_le_one
  rw [rayBox] at h
  cases hFold : [0, 1, 2].foldlM (clipAxis start delta low high) ⟨0, 1, 0, -1⟩ with
  | none => exact fun hMeets => foldlM_clipAxis_none hResolved hOrder hUnit hFold t ((within_and_heldBy_iff _ _ t).mpr hMeets)
  | some span =>
    have hClipped := foldlM_clipAxis_some hResolved hOrder hUnit hFold
    have hOne : span.near ≤ 1 := ((hClipped.within_iff span.near).mp ⟨le_rfl, hClipped.nonempty⟩).1.2
    simp [hFold, not_lt.mpr hOne] at h

theorem rayBox_some (hResolved : Resolved delta) (hOrder : ∀ axis, coord low axis ≤ coord high axis) {t : K}
    {normal : Physics.Vec3 K} (h : rayBox start delta low high = some (t, normal)) :
    IsLeast {t | Meets start delta low high t} t ∧ FaceAt start delta low high t normal := by
  have hUnit : (⟨0, 1, 0, -1⟩ : Span K).near ≤ 1 := zero_le_one
  rw [rayBox] at h
  cases hFold : [0, 1, 2].foldlM (clipAxis start delta low high) ⟨0, 1, 0, -1⟩ with
  | none => simp [hFold] at h
  | some span =>
    have hClipped := foldlM_clipAxis_some hResolved hOrder hUnit hFold
    have hMeets (s : K) : span.Within s ↔ Meets start delta low high s :=
      (hClipped.within_iff s).trans (within_and_heldBy_iff _ _ s)
    obtain ⟨hZero, hOne, hIn⟩ := (hMeets span.near).mp ⟨le_rfl, hClipped.nonempty⟩
    simp only [hFold, Option.bind_eq_bind, Option.bind_some, gt_iff_lt, if_neg (not_lt.mpr hOne), unitClamp_eq hZero hOne,
      Option.some.injEq, Prod.mk.injEq] at h
    obtain ⟨rfl, rfl⟩ := h
    refine ⟨⟨⟨hZero, hOne, hIn⟩, fun s hs => ((hMeets s).mpr hs).1⟩, ?_⟩
    cases hClipped.entered with
    | kept hNear hAxis hSign => exact .inside hNear (by rw [hAxis, hSign])
    | moved before after hLt hSplit hMoves hEntry hSign hBefore =>
      refine .face _ hLt ⟨(entersAt_iff (hOrder _) _).mpr ⟨hMoves, hEntry⟩, fun other hOther hEnters => ?_⟩ (by rw [hSign])
      obtain ⟨hMoves', hEntry'⟩ := (entersAt_iff (hOrder other) _).mp hEnters
      exact (hBefore other (mem_of_lt_split hSplit hOther) hMoves').ne hEntry'

/-! ### The normal -/

/-- The face is one that a segment comes in through: from inside it is taken to be the lower one of the first axis, and
so it is for a box without thickness. -/
def FaceTurned (start delta low high : Physics.Vec3 K) (t : K) : Prop :=
  (t = 0 → 0 ≤ delta.x) ∧ (0 < t → ∀ axis, FirstEnters start delta low high axis t →
    ¬ (coord low axis = coord high axis ∧ coord delta axis < 0))

omit [LinearOrder K] [IsStrictOrderedRing K] in
theorem onAxis_dot (axis : Fin 3) (value : K) (v : Physics.Vec3 K) : (onAxis axis value).dot v = value * coord v axis := by
  match axis with
  | 0 => simp [onAxis, coord, Physics.Vec3.dot]
  | 1 => simp [onAxis, coord, Physics.Vec3.dot]
  | 2 => simp [onAxis, coord, Physics.Vec3.dot]

omit [IsStrictOrderedRing K] in
theorem FirstEnters.unique {other : Fin 3} {t : K} (h : FirstEnters start delta low high axis t)
    (hOther : FirstEnters start delta low high other t) : axis = other := by
  rcases lt_trichotomy axis other with hLt | hEq | hGt
  · exact absurd h.1 (hOther.2 axis hLt)
  · exact hEq
  · exact absurd hOther.1 (h.2 other hGt)

theorem entering_mul_nonpos_iff (hOrder : coord low axis ≤ coord high axis) :
    entering delta low high axis * coord delta axis ≤ 0 ↔ ¬ (coord low axis = coord high axis ∧ coord delta axis < 0) := by
  rw [entering]
  split <;> rename_i h
  · simp [h.1.le, h.2.ne]
  · rw [neg_one_mul, neg_nonpos, not_and, not_lt]
    constructor
    · exact fun hNonneg _ => hNonneg
    · intro hFlat
      by_contra hNeg
      have hEq : coord low axis = coord high axis :=
        hOrder.antisymm (not_lt.mp fun hLt => h ⟨not_le.mp hNeg, hLt⟩)
      exact hNeg (hFlat hEq)

theorem FaceAt.dot_nonpos_iff {t : K} {normal : Physics.Vec3 K} (h : FaceAt start delta low high t normal)
    (hOrder : ∀ axis, coord low axis ≤ coord high axis) :
    normal.dot delta ≤ 0 ↔ FaceTurned start delta low high t := by
  cases h with
  | inside hZero hNormal =>
    rw [hNormal, onAxis_dot, neg_one_mul, neg_nonpos]
    simp [FaceTurned, hZero, coord]
  | face axis hPos hFirst hNormal =>
    rw [hNormal, onAxis_dot, entering_mul_nonpos_iff (hOrder axis)]
    refine ⟨fun hFace => ⟨fun hZero => absurd hZero hPos.ne', fun _ other hOther => hFirst.unique hOther ▸ hFace⟩, ?_⟩
    exact fun hTurned => hTurned.2 hPos axis hFirst

end OpenHalfLife.Combat
