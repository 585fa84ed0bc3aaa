import Mathlib.Algebra.Order.Field.Basic
import Mathlib.Order.Bounds.Basic
import Mathlib.Tactic.FieldSimp
import Mathlib.Tactic.Linarith
import Mathlib.Tactic.Ring

/-! # A coordinate in a slab

A coordinate that changes at one rate is between two values during one stretch of time, which is empty
or everything when the rate is zero.
-/

namespace OpenHalfLife

set_option autoImplicit false

structure Slab (K : Type) where
  origin : K
  direction : K
  low : K
  high : K

namespace Slab

variable {K : Type} [Field K] [LinearOrder K] (slab : Slab K)

def Holds (t : K) : Prop := slab.low ≤ slab.origin + slab.direction * t ∧ slab.origin + slab.direction * t ≤ slab.high

def reach (value : K) : K := (value - slab.origin) * (1 / slab.direction)

def entry : K := min (slab.reach slab.low) (slab.reach slab.high)

def exit : K := max (slab.reach slab.low) (slab.reach slab.high)

theorem holds_of_still (h : slab.direction = 0) (t : K) :
    slab.Holds t ↔ slab.low ≤ slab.origin ∧ slab.origin ≤ slab.high := by
  simp [Holds, h]

variable [IsStrictOrderedRing K] {slab}

theorem reach_le_of_pos (h : 0 < slab.direction) (value t : K) :
    slab.reach value ≤ t ↔ value ≤ slab.origin + slab.direction * t := by
  rw [reach, mul_one_div, div_le_iff₀ h, sub_le_iff_le_add', mul_comm t]

theorem le_reach_of_pos (h : 0 < slab.direction) (value t : K) :
    t ≤ slab.reach value ↔ slab.origin + slab.direction * t ≤ value := by
  rw [reach, mul_one_div, le_div_iff₀ h, le_sub_iff_add_le', mul_comm t]

theorem reach_le_of_neg (h : slab.direction < 0) (value t : K) :
    slab.reach value ≤ t ↔ slab.origin + slab.direction * t ≤ value := by
  rw [reach, mul_one_div, div_le_iff_of_neg h, le_sub_iff_add_le', mul_comm t]

theorem le_reach_of_neg (h : slab.direction < 0) (value t : K) :
    t ≤ slab.reach value ↔ value ≤ slab.origin + slab.direction * t := by
  rw [reach, mul_one_div, le_div_iff_of_neg h, sub_le_iff_le_add', mul_comm t]

theorem reach_mono_of_pos (h : 0 < slab.direction) {a b : K} (hLe : a ≤ b) : slab.reach a ≤ slab.reach b :=
  (reach_le_of_pos h a _).mpr (hLe.trans ((reach_le_of_pos h b _).mp le_rfl))

theorem reach_anti_of_neg (h : slab.direction < 0) {a b : K} (hLe : a ≤ b) : slab.reach b ≤ slab.reach a :=
  (reach_le_of_neg h b _).mpr (((reach_le_of_neg h a _).mp le_rfl).trans hLe)

theorem reach_lt_iff_of_neg (h : slab.direction < 0) {a b : K} : slab.reach b < slab.reach a ↔ a < b := by
  rw [reach, reach, mul_one_div, mul_one_div, div_lt_div_right_of_neg h, sub_lt_sub_iff_right]

theorem holds_iff (hOrder : slab.low ≤ slab.high) (h : slab.direction ≠ 0) (t : K) :
    slab.Holds t ↔ slab.entry ≤ t ∧ t ≤ slab.exit := by
  rcases lt_or_gt_of_ne h with hNeg | hPos
  · rw [entry, exit, min_eq_right (reach_anti_of_neg hNeg hOrder), max_eq_left (reach_anti_of_neg hNeg hOrder),
      reach_le_of_neg hNeg, le_reach_of_neg hNeg, Holds, and_comm]
  · rw [entry, exit, min_eq_left (reach_mono_of_pos hPos hOrder), max_eq_right (reach_mono_of_pos hPos hOrder),
      reach_le_of_pos hPos, le_reach_of_pos hPos, Holds]

omit [IsStrictOrderedRing K] in
theorem entry_le_exit : slab.entry ≤ slab.exit := min_le_max

theorem isLeast_entry (hOrder : slab.low ≤ slab.high) (h : slab.direction ≠ 0) : IsLeast {t | slab.Holds t} slab.entry :=
  ⟨(holds_iff hOrder h _).mpr ⟨le_rfl, entry_le_exit⟩, fun t hHolds => ((holds_iff hOrder h t).mp hHolds).1⟩

theorem reach_high_lt_iff (hOrder : slab.low ≤ slab.high) (h : slab.direction ≠ 0) :
    slab.reach slab.high < slab.reach slab.low ↔ slab.direction < 0 ∧ slab.low < slab.high := by
  rcases lt_or_gt_of_ne h with hNeg | hPos
  · simp [reach_lt_iff_of_neg hNeg, hNeg]
  · simp [not_lt.mpr (reach_mono_of_pos hPos hOrder), not_lt.mpr hPos.le]

end Slab

end OpenHalfLife
