import OpenHalfLife.Game.TrackTrain

/-! # The shield of a Nihilanth

A reserve that takes the hits, refilled while a crystal stands. The head opens
once the reserve is spent with no crystal left, and only then do hits cost health.
-/

namespace OpenHalfLife.Monsters

open Game

set_option autoImplicit false

variable {K : Type} [Field K] [LinearOrder K]

def headOpenSeconds : K := ((6 : Nat) : K)

def rechargeSeconds : K := ((8 : Nat) : K)

def rechargeBelowFraction : K := 1 / ((4 : Nat) : K)

inductive ShieldVerdict
  | absorbed
  | blocked
  | applied

structure ShieldProgress (K : Type) where
  active : Bool
  reserve : Stored K
  rechargeLeft : Stored K
  openLeft : Option (Stored K)
  exposed : Bool

structure NihilanthShield (K : Type) where
  active : Bool
  sphereCount : Nat
  perSphere : K
  reserve : K
  crystals : Nat
  rechargeLeft : K
  openLeft : Option K
  exposed : Bool

namespace NihilanthShield

def new (sphereCount : Nat) (perSphere : Stored K) (crystals : Nat) : NihilanthShield K :=
  let perSphere := perSphere.finiteOr 0 fun points => if 0 < points then points else 0
  { active := false
    sphereCount
    perSphere
    reserve := perSphere * sphereCount
    crystals
    rechargeLeft := rechargeSeconds
    openLeft := none
    exposed := false }

def forHealth (health : Stored K) (sphereCount crystals : Nat) : NihilanthShield K :=
  let perSphere := health.finiteOr (0 : K) fun health => if sphereCount = 0 ∨ health ≤ 0 then 0 else health / sphereCount
  new sphereCount (.finite perSphere) crystals

def activate (shield : NihilanthShield K) : NihilanthShield K := { shield with active := true }

def reserveCapacity (shield : NihilanthShield K) : K := shield.perSphere * shield.sphereCount

def syncCrystals (shield : NihilanthShield K) (standing : Nat) : NihilanthShield K := { shield with crystals := standing }

def tick (shield : NihilanthShield K) (dt : Stored K) : Bool × NihilanthShield K :=
  let dt := dt.finiteOr 0 fun dt => if 0 < dt then dt else 0
  if shield.exposed then (false, shield)
  else if shield.crystals = 0 then
    if 0 < shield.reserve then (false, { shield with openLeft := none })
    else
      let left := shield.openLeft.getD headOpenSeconds - dt
      if left ≤ 0 then (true, { shield with openLeft := none, exposed := true })
      else (false, { shield with openLeft := some left })
  else
    let shut := { shield with openLeft := none }
    let capacity := shut.reserveCapacity
    if 0 < capacity ∧ shut.reserve < capacity * rechargeBelowFraction then
      let rechargeLeft := shut.rechargeLeft - dt
      if rechargeLeft ≤ 0 then (false, { shut with reserve := capacity, rechargeLeft := rechargeSeconds })
      else (false, { shut with rechargeLeft })
    else (false, { shut with rechargeLeft := rechargeSeconds })

def absorb (shield : NihilanthShield K) (amount : K) : ShieldVerdict × NihilanthShield K :=
  if ¬0 < amount then (.blocked, shield)
  else if shield.exposed then (.applied, shield)
  else if 0 < shield.reserve then (.absorbed, { shield with reserve := max (shield.reserve - amount) 0 })
  else (.blocked, shield)

def progress (shield : NihilanthShield K) : ShieldProgress K where
  active := shield.active
  reserve := .finite shield.reserve
  rechargeLeft := .finite shield.rechargeLeft
  openLeft := shield.openLeft.map .finite
  exposed := shield.exposed

def restoredTimer (value : Stored K) (full : K) : K :=
  value.finiteOr full fun value => if 0 ≤ value then min value full else full

def restore (shield : NihilanthShield K) (progress : ShieldProgress K) : NihilanthShield K :=
  { shield with
    active := progress.active
    reserve := progress.reserve.finiteOr 0 fun reserve => max 0 (min reserve shield.reserveCapacity)
    rechargeLeft := restoredTimer progress.rechargeLeft rechargeSeconds
    openLeft := progress.openLeft.map fun left => restoredTimer left headOpenSeconds
    exposed := progress.exposed }

/-! ## The reserve keeps its bounds -/

structure Charged (shield : NihilanthShield K) : Prop where
  perSphere_nonneg : 0 ≤ shield.perSphere
  reserve_nonneg : 0 ≤ shield.reserve
  reserve_le : shield.reserve ≤ shield.reserveCapacity

variable {shield : NihilanthShield K}

variable [IsStrictOrderedRing K]

theorem new_charged (sphereCount : Nat) (perSphere : Stored K) (crystals : Nat) :
    (new sphereCount perSphere crystals).Charged := by
  have hPoints : 0 ≤ perSphere.finiteOr (0 : K) fun points => if 0 < points then points else 0 := by
    cases perSphere with
    | finite points =>
      dsimp only [Stored.finiteOr]
      split_ifs with hPoints
      · exact hPoints.le
      · exact le_rfl
    | infinite negative => exact le_rfl
    | nan => exact le_rfl
  exact ⟨hPoints, mul_nonneg hPoints (Nat.cast_nonneg sphereCount), le_rfl⟩

theorem Charged.capacity_nonneg (h : shield.Charged) : 0 ≤ shield.reserveCapacity :=
  mul_nonneg h.perSphere_nonneg (Nat.cast_nonneg _)

theorem Charged.tick (h : shield.Charged) (dt : Stored K) : (shield.tick dt).2.Charged := by
  unfold NihilanthShield.tick
  dsimp only
  split_ifs
  case pos => exact h
  all_goals first
    | exact ⟨h.perSphere_nonneg, h.capacity_nonneg, le_rfl⟩
    | exact ⟨h.perSphere_nonneg, h.reserve_nonneg, h.reserve_le⟩

theorem absorb_shut (h : shield.Charged) (hShut : shield.exposed = false) {amount : K} (hAmount : 0 < amount) :
    (shield.absorb amount).2 = { shield with reserve := shield.reserve - min shield.reserve amount } ∧
      (shield.absorb amount).1 ≠ .applied := by
  rw [absorb, if_neg (not_not.mpr hAmount), if_neg (Bool.eq_false_iff.mp hShut)]
  by_cases hReserve : 0 < shield.reserve
  · rw [if_pos hReserve]
    refine ⟨?_, fun hSame => by cases hSame⟩
    rcases le_total shield.reserve amount with hLess | hMore
    · simp [hLess]
    · simp [hMore]
  · rw [if_neg hReserve]
    refine ⟨?_, fun hSame => by cases hSame⟩
    have hEmpty : shield.reserve = 0 := le_antisymm (not_lt.mp hReserve) h.reserve_nonneg
    rw [hEmpty, min_eq_left hAmount.le, sub_zero]
    exact congrArg (fun reserve => { shield with reserve := reserve }) hEmpty

theorem Charged.absorb (h : shield.Charged) (amount : K) : (shield.absorb amount).2.Charged := by
  unfold NihilanthShield.absorb
  split_ifs with hAmount hExposed hReserve
  · exact h
  · refine ⟨h.perSphere_nonneg, le_max_right _ _, max_le ?_ h.capacity_nonneg⟩
    exact (sub_le_self _ hAmount.le).trans h.reserve_le
  all_goals exact h

theorem Charged.restore (h : shield.Charged) (progress : ShieldProgress K) : (shield.restore progress).Charged := by
  refine ⟨h.perSphere_nonneg, ?_, ?_⟩
  · unfold NihilanthShield.restore Stored.finiteOr
    dsimp only
    split
    · exact le_max_left _ _
    · exact le_rfl
  · change (progress.reserve.finiteOr 0 fun reserve => max 0 (min reserve shield.reserveCapacity)) ≤ shield.reserveCapacity
    unfold Stored.finiteOr
    split
    · exact max_le h.capacity_nonneg (min_le_right _ _)
    · exact h.capacity_nonneg

omit [IsStrictOrderedRing K] in
theorem Charged.syncCrystals (h : shield.Charged) (standing : Nat) : (shield.syncCrystals standing).Charged :=
  ⟨h.perSphere_nonneg, h.reserve_nonneg, h.reserve_le⟩

omit [IsStrictOrderedRing K] in
theorem Charged.activate (h : shield.Charged) : shield.activate.Charged :=
  ⟨h.perSphere_nonneg, h.reserve_nonneg, h.reserve_le⟩

end NihilanthShield

end OpenHalfLife.Monsters
