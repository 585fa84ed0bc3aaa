import Mathlib.Algebra.Order.Field.Basic
import Mathlib.Algebra.Order.Group.Unbundled.Abs
import Mathlib.Tactic.Linarith
import Mathlib.Tactic.Ring
import Mathlib.Tactic.FieldSimp

/-! # Crossing a plane along a straight course

The signed distance to a plane is affine along a straight course. A course that crosses the plane is
cut a fixed gap short of it, on the side it comes from.
-/

namespace OpenHalfLife

set_option autoImplicit false

variable {K : Type} [Field K] [LinearOrder K]

def behind (distance : K) : Bool := distance < 0

def unitClamp (value : K) : K := max 0 (min 1 value)

/-- How far from the first to the second of two distances the course stops, `gap` short of zero. -/
def stopFraction (gap first last : K) : K :=
  unitClamp ((if first < 0 then first + gap else first - gap) / (first - last))

def Straight (distance : K → K) : Prop :=
  ∃ base rate, ∀ t, distance t = base + rate * t

/-- Where a course from `start` to `finish` stops short of the zero of `distance`. -/
def stopShort (gap : K) (distance : K → K) (start finish : K) : K :=
  start + (finish - start) * stopFraction gap (distance start) (distance finish)

variable [IsStrictOrderedRing K] {gap first last : K}

omit [IsStrictOrderedRing K] in
theorem unitClamp_nonneg (value : K) : 0 ≤ unitClamp value := le_max_left _ _

theorem unitClamp_le_one (value : K) : unitClamp value ≤ 1 := max_le zero_le_one (min_le_left _ _)

omit [IsStrictOrderedRing K] in
theorem unitClamp_eq {value : K} (h : 0 ≤ value) (hOne : value ≤ 1) : unitClamp value = value := by
  rw [unitClamp, min_eq_right hOne, max_eq_right h]

omit [IsStrictOrderedRing K] in
theorem unitClamp_eq_zero {value : K} (h : value ≤ 0) : unitClamp value = 0 :=
  max_eq_left ((min_le_right _ _).trans h)

omit [IsStrictOrderedRing K] in
theorem stopFraction_nonneg (gap first last : K) : 0 ≤ stopFraction gap first last := unitClamp_nonneg _

theorem stopFraction_le_one (gap first last : K) : stopFraction gap first last ≤ 1 := unitClamp_le_one _

omit [IsStrictOrderedRing K] in
theorem behind_eq_iff {a b : K} : behind a = behind b ↔ (a < 0 ↔ b < 0) := by
  rw [behind, behind, decide_eq_decide]

theorem stopFraction_near (h : behind first ≠ behind last) (hNear : |first| ≤ gap) :
    stopFraction gap first last = 0 := by
  obtain ⟨hLow, hHigh⟩ := abs_le.mp hNear
  apply unitClamp_eq_zero
  by_cases hFirst : first < 0
  · have hLast : 0 ≤ last := not_lt.mp fun hNeg => h (behind_eq_iff.mpr (iff_of_true hFirst hNeg))
    rw [if_pos hFirst]
    exact div_nonpos_of_nonneg_of_nonpos (by linarith) (by linarith)
  · have hLast : last < 0 := not_le.mp fun hPos => h (behind_eq_iff.mpr (iff_of_false hFirst hPos.not_gt))
    rw [if_neg hFirst]
    exact div_nonpos_of_nonpos_of_nonneg (by linarith) (by linarith)

theorem stopFraction_far (hGap : 0 ≤ gap) (h : behind first ≠ behind last) (hFar : gap < |first|) :
    first + (last - first) * stopFraction gap first last = if first < 0 then -gap else gap := by
  by_cases hFirst : first < 0
  · have hLast : 0 ≤ last := not_lt.mp fun hNeg => h (behind_eq_iff.mpr (iff_of_true hFirst hNeg))
    have hStart : first + gap < 0 := by
      rw [abs_of_neg hFirst] at hFar
      linarith
    have hWidth : first - last < 0 := by linarith
    rw [stopFraction, if_pos hFirst, if_pos hFirst,
      unitClamp_eq (div_nonneg_of_nonpos hStart.le hWidth.le) ((div_le_one_of_neg hWidth).mpr (by linarith))]
    field_simp [hWidth.ne]
    ring
  · have hLast : last < 0 := not_le.mp fun hPos => h (behind_eq_iff.mpr (iff_of_false hFirst hPos.not_gt))
    have hStart : 0 < first - gap := by
      rw [abs_of_nonneg (not_lt.mp hFirst)] at hFar
      linarith
    have hWidth : 0 < first - last := by linarith [not_lt.mp hFirst]
    rw [stopFraction, if_neg hFirst, if_neg hFirst, unitClamp_eq (div_nonneg hStart.le hWidth.le)
      ((div_le_one hWidth).mpr (by linarith))]
    field_simp [hWidth.ne']
    ring

theorem stopFraction_side (hGap : 0 < gap) (h : behind first ≠ behind last) :
    behind (first + (last - first) * stopFraction gap first last) = behind first ∧
      |first + (last - first) * stopFraction gap first last| ≤ gap := by
  rcases le_or_gt |first| gap with hNear | hFar
  · rw [stopFraction_near h hNear, mul_zero, add_zero]
    exact ⟨rfl, hNear⟩
  · rw [stopFraction_far hGap.le h hFar]
    by_cases hFirst : first < 0
    · rw [if_pos hFirst, abs_neg, abs_of_pos hGap]
      exact ⟨behind_eq_iff.mpr (iff_of_true (neg_lt_zero.mpr hGap) hFirst), le_rfl⟩
    · rw [if_neg hFirst, abs_of_pos hGap]
      exact ⟨behind_eq_iff.mpr (iff_of_false hGap.not_gt hFirst), le_rfl⟩

theorem stopFraction_lt_one (hGap : 0 < gap) (h : behind first ≠ behind last) : stopFraction gap first last < 1 := by
  refine lt_of_le_of_ne (stopFraction_le_one _ _ _) fun hOne => h ?_
  have hSide := (stopFraction_side hGap h).1
  rwa [hOne, mul_one, add_sub_cancel, eq_comm] at hSide

namespace Straight

variable {distance : K → K} {start finish t : K}

omit [LinearOrder K] [IsStrictOrderedRing K] in
theorem at_fraction (h : Straight distance) (start finish fraction : K) :
    distance (start + (finish - start) * fraction) =
      distance start + (distance finish - distance start) * fraction := by
  obtain ⟨base, rate, hAt⟩ := h
  rw [hAt, hAt, hAt]
  ring

theorem le_between (h : Straight distance) (hStart : start ≤ t) (hFinish : t ≤ finish) {bound : K}
    (hFirst : distance start ≤ bound) (hLast : distance finish ≤ bound) : distance t ≤ bound := by
  obtain ⟨base, rate, hAt⟩ := h
  rw [hAt] at *
  rcases le_total 0 rate with hUp | hDown
  · have hHigh := mul_le_mul_of_nonneg_left hFinish hUp
    linarith
  · have hLow := mul_le_mul_of_nonpos_left hStart hDown
    linarith

theorem side_between (h : Straight distance) (hStart : start ≤ t) (hFinish : t ≤ finish)
    (hSame : behind (distance start) = behind (distance finish)) :
    behind (distance t) = behind (distance start) := by
  obtain ⟨base, rate, hAt⟩ := h
  rw [behind_eq_iff, hAt, hAt] at *
  rcases le_total 0 rate with hUp | hDown
  · have hLow := mul_le_mul_of_nonneg_left hStart hUp
    have hHigh := mul_le_mul_of_nonneg_left hFinish hUp
    constructor
    · intro hNeg
      linarith
    · intro hNeg
      have hEnd := hSame.mp hNeg
      linarith
  · have hLow := mul_le_mul_of_nonpos_left hStart hDown
    have hHigh := mul_le_mul_of_nonpos_left hFinish hDown
    constructor
    · intro hNeg
      exact hSame.mpr (by linarith)
    · intro hNeg
      linarith

theorem stopShort_mem (gap : K) (distance : K → K) (hLe : start ≤ finish) :
    start ≤ stopShort gap distance start finish ∧ stopShort gap distance start finish ≤ finish := by
  have hWidth := sub_nonneg.mpr hLe
  constructor
  · exact le_add_of_nonneg_right (mul_nonneg hWidth (stopFraction_nonneg _ _ _))
  · have hShare := mul_le_of_le_one_right hWidth (stopFraction_le_one gap (distance start)
      (distance finish))
    rw [stopShort]
    linarith

theorem stopShort_side (h : Straight distance) (hGap : 0 < gap)
    (hCross : behind (distance start) ≠ behind (distance finish)) :
    behind (distance (stopShort gap distance start finish)) = behind (distance start) ∧
      |distance (stopShort gap distance start finish)| ≤ gap := by
  rw [stopShort, h.at_fraction]
  exact stopFraction_side hGap hCross

theorem rate_of_cross (h : Straight distance) (hLe : start ≤ finish)
    (hCross : behind (distance start) ≠ behind (distance finish)) :
    ∃ base rate, (∀ t, distance t = base + rate * t) ∧ if distance start < 0 then 0 < rate else rate < 0 := by
  obtain ⟨base, rate, hAt⟩ := h
  refine ⟨base, rate, hAt, ?_⟩
  have hWidth := sub_nonneg.mpr hLe
  have hChange : distance finish - distance start = rate * (finish - start) := by
    rw [hAt, hAt]
    ring
  by_cases hStart : distance start < 0
  · have hFinish : 0 ≤ distance finish := not_lt.mp fun hNeg => hCross (behind_eq_iff.mpr (iff_of_true hStart hNeg))
    rw [if_pos hStart]
    by_contra hRate
    have hNone := mul_nonpos_of_nonpos_of_nonneg (not_lt.mp hRate) hWidth
    linarith
  · have hFinish : distance finish < 0 :=
      not_le.mp fun hPos => hCross (behind_eq_iff.mpr (iff_of_false hStart hPos.not_gt))
    rw [if_neg hStart]
    by_contra hRate
    have hNone := mul_nonneg (not_lt.mp hRate) hWidth
    linarith

theorem before_stop (h : Straight distance) (hGap : 0 < gap) (hLe : start ≤ finish)
    (hCross : behind (distance start) ≠ behind (distance finish)) (hStart : start ≤ t)
    (hStop : t < stopShort gap distance start finish) :
    behind (distance t) = behind (distance start) ∧ gap < |distance t| ∧
      stopShort gap distance t finish = stopShort gap distance start finish := by
  have hFar : gap < |distance start| := by
    by_contra hNear
    rw [stopShort, stopFraction_near hCross (not_lt.mp hNear), mul_zero, add_zero] at hStop
    exact hStop.not_ge hStart
  have hAtStop : distance (stopShort gap distance start finish) = if distance start < 0 then -gap else gap := by
    rw [stopShort, h.at_fraction]
    exact stopFraction_far hGap.le hCross hFar
  have hFinish := (stopShort_mem gap distance hLe).2
  obtain ⟨base, rate, hAt, hRate⟩ := h.rate_of_cross hLe hCross
  have hSide : behind (distance t) = behind (distance start) ∧ gap < |distance t| := by
    by_cases hBehind : distance start < 0
    · rw [if_pos hBehind] at hRate hAtStop
      have hMove := mul_lt_mul_of_pos_left hStop hRate
      have hBelow : distance t < -gap := by
        rw [← hAtStop, hAt, hAt]
        linarith
      have hNeg : distance t < 0 := hBelow.trans (neg_lt_zero.mpr hGap)
      exact ⟨behind_eq_iff.mpr (iff_of_true hNeg hBehind), by rw [abs_of_neg hNeg]; linarith⟩
    · rw [if_neg hBehind] at hRate hAtStop
      have hMove := mul_lt_mul_of_neg_left hStop hRate
      have hAbove : gap < distance t := by
        rw [← hAtStop, hAt, hAt]
        linarith
      have hPos : 0 < distance t := hGap.trans hAbove
      exact ⟨behind_eq_iff.mpr (iff_of_false hPos.not_gt hBehind), by rw [abs_of_pos hPos]; exact hAbove⟩
  refine ⟨hSide.1, hSide.2, ?_⟩
  have hCrossNow : behind (distance t) ≠ behind (distance finish) := hSide.1 ▸ hCross
  have hAtNow : distance (stopShort gap distance t finish) = if distance t < 0 then -gap else gap := by
    rw [stopShort, h.at_fraction]
    exact stopFraction_far hGap.le hCrossNow hSide.2
  have hSign : (distance t < 0) = (distance start < 0) := propext (behind_eq_iff.mp hSide.1)
  rw [if_congr (Iff.of_eq hSign) rfl rfl, ← hAtStop, hAt, hAt] at hAtNow
  have hMoving : rate ≠ 0 := by
    split at hRate
    · exact hRate.ne'
    · exact hRate.ne
  exact mul_left_cancel₀ hMoving (add_left_cancel hAtNow)

theorem after_stop (h : Straight distance) (hGap : 0 < gap) (hLe : start ≤ finish)
    (hCross : behind (distance start) ≠ behind (distance finish))
    (hStop : stopShort gap distance start finish ≤ t) (hSide : behind (distance t) = behind (distance start)) :
    |distance t| ≤ gap := by
  obtain ⟨hStopSide, hStopGap⟩ := h.stopShort_side hGap hCross
  obtain ⟨base, rate, hAt, hRate⟩ := h.rate_of_cross hLe hCross
  rw [behind_eq_iff] at hSide hStopSide
  obtain ⟨hLow, hHigh⟩ := abs_le.mp hStopGap
  by_cases hBehind : distance start < 0
  · rw [if_pos hBehind] at hRate
    have hMove := mul_le_mul_of_nonneg_left hStop hRate.le
    have hNeg := hSide.mpr hBehind
    have hBelow : distance (stopShort gap distance start finish) ≤ distance t := by
      rw [hAt, hAt t]
      linarith
    exact abs_le.mpr ⟨hLow.trans hBelow, hNeg.le.trans hGap.le⟩
  · rw [if_neg hBehind] at hRate
    have hMove := mul_le_mul_of_nonpos_left hStop hRate.le
    have hPos := not_lt.mp fun hNeg => hBehind (hSide.mp hNeg)
    have hBelow : distance t ≤ distance (stopShort gap distance start finish) := by
      rw [hAt t, hAt (stopShort gap distance start finish)]
      linarith
    exact abs_le.mpr ⟨(neg_nonpos.mpr hGap.le).trans hPos, hBelow.trans hHigh⟩

end Straight

end OpenHalfLife
