import OpenHalfLife.Lib.Scalar
import Mathlib.Tactic.Linarith
import Mathlib.Tactic.Ring

/-! # Bounds and the view

A box is left out only when it is wholly behind a plane of the view, so nothing that can be seen is.
-/

namespace OpenHalfLife.World

set_option autoImplicit false

variable {K : Type}

inductive Aabb (K : Type)
  | empty
  | box (min max : Vec3 K)

structure FrustumPlane (K : Type) where
  normal : Vec3 K
  offset : K

structure Frustum (K : Type) where
  planes : Vector (FrustumPlane K) 6

section

variable [LinearOrder K]

def Aabb.extend (bounds : Aabb K) (point : Vec3 K) : Aabb K :=
  match bounds with
  | .empty => .box point point
  | .box low high => .box ⟨min low.x point.x, min low.y point.y, min low.z point.z⟩
      ⟨max high.x point.x, max high.y point.y, max high.z point.z⟩

def Aabb.isValid : Aabb K → Bool
  | .empty => false
  | .box low high => low.x ≤ high.x ∧ low.y ≤ high.y ∧ low.z ≤ high.z

def Aabb.around (points : List (Vec3 K)) : Aabb K := points.foldl Aabb.extend .empty

variable [Field K]

namespace FrustumPlane

variable (plane : FrustumPlane K)

def distance (point : Vec3 K) : K :=
  plane.normal.x * point.x + plane.normal.y * point.y + plane.normal.z * point.z + plane.offset

def support (low high : Vec3 K) : K :=
  plane.offset + plane.normal.x * (if plane.normal.x ≥ 0 then high.x else low.x) +
    plane.normal.y * (if plane.normal.y ≥ 0 then high.y else low.y) +
    plane.normal.z * (if plane.normal.z ≥ 0 then high.z else low.z)

end FrustumPlane

namespace Frustum

variable (frustum : Frustum K)

def intersects (bounds : Aabb K) : Bool :=
  match bounds with
  | .empty => false
  | .box low high =>
    if !(Aabb.box low high).isValid then false
    else frustum.planes.toList.all fun plane => !decide (plane.support low high < 0)

def containsPoint (point : Vec3 K) : Bool := frustum.planes.toList.all fun plane => decide (plane.distance point ≥ 0)

end Frustum

end

/-! ### What is in a box -/

section

variable [LinearOrder K]

def Aabb.Holds (bounds : Aabb K) (point : Vec3 K) : Prop :=
  match bounds with
  | .empty => False
  | .box low high => (low.x ≤ point.x ∧ point.x ≤ high.x) ∧ (low.y ≤ point.y ∧ point.y ≤ high.y) ∧
      (low.z ≤ point.z ∧ point.z ≤ high.z)

theorem Aabb.extend_holds (bounds : Aabb K) (point : Vec3 K) : (bounds.extend point).Holds point := by
  cases bounds <;> simp [extend, Holds]

theorem Aabb.Holds.extend {bounds : Aabb K} {point : Vec3 K} (h : bounds.Holds point) (other : Vec3 K) :
    (bounds.extend other).Holds point := by
  cases bounds with
  | empty => exact h.elim
  | box low high =>
    obtain ⟨hx, hy, hz⟩ := h
    simp [Aabb.extend, Holds, hx, hy, hz]

theorem Aabb.Holds.isValid {bounds : Aabb K} {point : Vec3 K} (h : bounds.Holds point) : bounds.isValid = true := by
  cases bounds with
  | empty => exact h.elim
  | box low high =>
    obtain ⟨hx, hy, hz⟩ := h
    simp [Aabb.isValid, hx.1.trans hx.2, hy.1.trans hy.2, hz.1.trans hz.2]

theorem Aabb.foldl_extend_holds (points : List (Vec3 K)) (bounds : Aabb K) {point : Vec3 K}
    (h : bounds.Holds point ∨ point ∈ points) : (points.foldl Aabb.extend bounds).Holds point := by
  induction points generalizing bounds with
  | nil => exact h.resolve_right List.not_mem_nil
  | cons first points ih =>
    refine ih _ ?_
    rcases h with hHeld | hMem
    · exact .inl (hHeld.extend first)
    · rcases List.mem_cons.mp hMem with rfl | hMem
      · exact .inl (bounds.extend_holds point)
      · exact .inr hMem

theorem Aabb.around_holds {points : List (Vec3 K)} {point : Vec3 K} (h : point ∈ points) :
    (Aabb.around points).Holds point :=
  foldl_extend_holds points .empty (.inr h)

variable [Field K]

inductive Spanned (corners : List (Vec3 K)) : Vec3 K → Prop
  | corner {point : Vec3 K} : point ∈ corners → Spanned corners point
  | between {a b : Vec3 K} {t : K} : Spanned corners a → Spanned corners b → 0 ≤ t → t ≤ 1 →
    Spanned corners ⟨a.x + (b.x - a.x) * t, a.y + (b.y - a.y) * t, a.z + (b.z - a.z) * t⟩

variable [IsStrictOrderedRing K] {a b t low high : K}

theorem between_le (ha : a ≤ high) (hb : b ≤ high) (hZero : 0 ≤ t) (hOne : t ≤ 1) : a + (b - a) * t ≤ high := by
  nlinarith

theorem le_between (ha : low ≤ a) (hb : low ≤ b) (hZero : 0 ≤ t) (hOne : t ≤ 1) : low ≤ a + (b - a) * t := by
  nlinarith

theorem Spanned.held {corners : List (Vec3 K)} {point : Vec3 K} (h : Spanned corners point) :
    (Aabb.around corners).Holds point := by
  induction h with
  | corner hMem => exact Aabb.around_holds hMem
  | between _ _ hZero hOne ha hb =>
    cases hBox : Aabb.around corners with
    | empty => exact (hBox ▸ ha).elim
    | box low high =>
      rw [hBox] at ha hb
      obtain ⟨hxa, hya, hza⟩ := ha
      obtain ⟨hxb, hyb, hzb⟩ := hb
      exact ⟨⟨le_between hxa.1 hxb.1 hZero hOne, between_le hxa.2 hxb.2 hZero hOne⟩,
        ⟨le_between hya.1 hyb.1 hZero hOne, between_le hya.2 hyb.2 hZero hOne⟩,
        ⟨le_between hza.1 hzb.1 hZero hOne, between_le hza.2 hzb.2 hZero hOne⟩⟩

/-! ### What is in view -/

theorem mul_le_support (coefficient value : K) (hLow : low ≤ value) (hHigh : value ≤ high) :
    coefficient * value ≤ coefficient * (if coefficient ≥ 0 then high else low) := by
  split <;> rename_i hSign
  · exact mul_le_mul_of_nonneg_left hHigh hSign
  · exact mul_le_mul_of_nonpos_left hLow (not_le.mp hSign).le

theorem FrustumPlane.distance_le_support (plane : FrustumPlane K) {low high point : Vec3 K}
    (h : (Aabb.box low high).Holds point) : plane.distance point ≤ plane.support low high := by
  obtain ⟨hx, hy, hz⟩ := h
  have hX := mul_le_support plane.normal.x point.x hx.1 hx.2
  have hY := mul_le_support plane.normal.y point.y hy.1 hy.2
  have hZ := mul_le_support plane.normal.z point.z hz.1 hz.2
  rw [distance, support]
  linarith

theorem Frustum.intersects_of_holds {frustum : Frustum K} {bounds : Aabb K} {point : Vec3 K}
    (hHolds : bounds.Holds point) (hInside : frustum.containsPoint point = true) : frustum.intersects bounds = true := by
  cases bounds with
  | empty => exact hHolds.elim
  | box low high =>
    rw [intersects, hHolds.isValid]
    refine List.all_eq_true.mpr fun plane hMem => ?_
    have hFront : plane.distance point ≥ 0 := of_decide_eq_true (List.all_eq_true.mp hInside plane hMem)
    simpa using hFront.trans (plane.distance_le_support hHolds)

end

end OpenHalfLife.World
