import OpenHalfLife.Physics.Hull
import OpenHalfLife.Physics.Trace
import Mathlib.Analysis.Real.Sqrt
import Mathlib.Tactic.Linarith
import Mathlib.Tactic.LinearCombination

/-! # Moves along segments

How long a move is, in space and over the ground. A tracer tells how far a
hull gets along a segment; all that is known of it is that it ends on the segment.
-/

namespace OpenHalfLife.Physics.Vec3

set_option autoImplicit false

variable {K : Type} [Field K] (v w : Vec3 K) (factor : K)

@[simp] theorem add_x : (v + w).x = v.x + w.x := rfl

@[simp] theorem add_y : (v + w).y = v.y + w.y := rfl

@[simp] theorem add_z : (v + w).z = v.z + w.z := rfl

@[simp] theorem sub_x : (v - w).x = v.x - w.x := rfl

@[simp] theorem sub_y : (v - w).y = v.y - w.y := rfl

@[simp] theorem sub_z : (v - w).z = v.z - w.z := rfl

@[simp] theorem neg_x : (-v).x = -v.x := rfl

@[simp] theorem neg_y : (-v).y = -v.y := rfl

@[simp] theorem neg_z : (-v).z = -v.z := rfl

@[simp] theorem scale_x : (v.scale factor).x = v.x * factor := rfl

@[simp] theorem scale_y : (v.scale factor).y = v.y * factor := rfl

@[simp] theorem scale_z : (v.scale factor).z = v.z * factor := rfl

end OpenHalfLife.Physics.Vec3

namespace OpenHalfLife.Physics

set_option autoImplicit false

def Trace.blocked (trace : Trace ℝ) : Prop := trace.fraction < 1 ∨ trace.startSolid = true ∨ trace.allSolid = true

def Hull.footOffset : Hull → ℝ
  | .point => 0
  | .standing => ((36 : Nat) : ℝ)
  | .large => ((32 : Nat) : ℝ)
  | .crouched => ((18 : Nat) : ℝ)

structure Tracer where
  trace : Hull → Vec3 ℝ → Vec3 ℝ → Trace ℝ
  onSegment : ∀ hull start finish, ∃ fraction, 0 ≤ fraction ∧ fraction ≤ 1 ∧
    (trace hull start finish).endPos = Vec3.along start finish fraction

namespace Vec3

noncomputable def length (v : Vec3 ℝ) : ℝ := √v.lengthSquared

def flat (v : Vec3 ℝ) : Vec3 ℝ := ⟨v.x, v.y, 0⟩

noncomputable def normalize (v : Vec3 ℝ) : Vec3 ℝ := v.scale v.length⁻¹

variable {v w : Vec3 ℝ}

theorem length_nonneg (v : Vec3 ℝ) : 0 ≤ v.length := Real.sqrt_nonneg _

theorem length_scale (v : Vec3 ℝ) (t : ℝ) : (v.scale t).length = |t| * v.length := by
  have hSquared : (v.scale t).lengthSquared = t ^ 2 * v.lengthSquared := by
    simp only [lengthSquared, dot, scale]
    ring
  rw [length, hSquared, Real.sqrt_mul (sq_nonneg t), Real.sqrt_sq_eq_abs, length]

theorem length_pos (h : 0 < v.lengthSquared) : 0 < v.length := Real.sqrt_pos.mpr h

theorem length_normalize (h : 0 < v.lengthSquared) : v.normalize.length = 1 := by
  rw [normalize, length_scale, abs_inv, abs_of_nonneg v.length_nonneg]
  exact inv_mul_cancel₀ (length_pos h).ne'

theorem add_sub_self (v w : Vec3 ℝ) : v + w - v = w := by
  ext <;> simp

theorem length_flat_le (v : Vec3 ℝ) : v.flat.length ≤ v.length := by
  refine Real.sqrt_le_sqrt ?_
  simp only [lengthSquared, dot, flat]
  nlinarith [mul_self_nonneg v.z]

end Vec3

noncomputable def Tracer.clear : Tracer where
  trace _ _ finish := .miss finish
  onSegment _ start finish := ⟨1, zero_le_one, le_rfl, by ext <;> simp [Vec3.along, Trace.miss]⟩

end OpenHalfLife.Physics
