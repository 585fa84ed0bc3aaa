import Mathlib.Order.Basic
import Mathlib.Algebra.Field.Basic

/-! # Weapons and ammunition -/

namespace OpenHalfLife.Combat

set_option autoImplicit false

inductive AmmoType
  | nineMillimeter
  | threeFiveSeven
  | buckshot
  | bolts
  | rockets
  | uranium
  | hornets
  | handGrenades
  | satchels
  | tripmines
  | snarks
  | mp5Grenades
  deriving DecidableEq, Repr

structure AmmoPool where
  kind : AmmoType
  current : Nat
  capacity : Nat
  current_le : current ≤ capacity
  deriving DecidableEq

namespace AmmoPool

def isEmpty (pool : AmmoPool) : Bool := pool.current == 0

def add (pool : AmmoPool) (amount : Nat) : AmmoPool :=
  { pool with
    current := pool.current + min amount (pool.capacity - pool.current)
    current_le := by
      have h := pool.current_le
      omega }

def takeUpTo (pool : AmmoPool) (amount : Nat) : Nat × AmmoPool :=
  let taken := min amount pool.current
  (taken, { pool with
    current := pool.current - taken
    current_le := Nat.le_trans (Nat.sub_le _ _) pool.current_le })

end AmmoPool

inductive WeaponId
  | crowbar
  | glock
  | python
  | mp5
  | shotgun
  | crossbow
  | rpg
  | gauss
  | egon
  | hornetGun
  | handGrenade
  | satchel
  | tripmine
  | snark
  deriving DecidableEq, Repr

inductive WeaponKind (K : Type*)
  | melee
  | hitscan (pellets : Nat) (spread : K)
  | projectile (speed : K)
  | beam
  | charge

structure SecondaryFire (K : Type*) where
  kind : WeaponKind K
  ammo : Option AmmoType
  cycleTime : K

structure WeaponSpec (K : Type*) where
  id : WeaponId
  kind : WeaponKind K
  clipSize : Option Nat
  ammo : Option AmmoType
  cycleTime : K
  reloadTime : K
  secondary : Option (SecondaryFire K)

structure WeaponInput where
  primary : Bool := false
  secondary : Bool := false
  reload : Bool := false
  select : Bool := false
  deriving DecidableEq, Repr

inductive Sequence
  | idle
  | fire
  | reload
  | draw
  | holster
  deriving DecidableEq, Repr

inductive SoundKind
  | fire
  | reload
  | draw
  | holster
  | dryFire
  | overcharge
  deriving DecidableEq, Repr

inductive WeaponAction (K : Type*)
  | hitscan (count : Nat) (spread : K)
  | melee
  | spawnProjectile (kind : WeaponId) (speed : K)
  | beamTick
  | playSequence (sequence : Sequence)
  | sound (kind : SoundKind)
  | empty
  deriving DecidableEq

end OpenHalfLife.Combat

namespace OpenHalfLife.Combat

set_option autoImplicit false

/-! ## The weapon table

One entry for each weapon, with what its firing asks for. Decimal fractions are
written as such.
-/

def WeaponId.all : List WeaponId :=
  [.crowbar, .glock, .python, .mp5, .shotgun, .crossbow, .rpg, .gauss, .egon, .hornetGun, .handGrenade, .satchel,
    .tripmine, .snark]

theorem WeaponId.mem_all (id : WeaponId) : id ∈ all := by cases id <;> decide

section Table

variable {K : Type*} [Field K]

def decimal (value scale : Nat) : K := value / scale

def spec (id : WeaponId) : WeaponSpec K :=
  match id with
  | .crowbar =>
    { id, kind := .melee, clipSize := none, ammo := none, cycleTime := decimal 3 10, reloadTime := 0,
      secondary := none }
  | .glock =>
    { id, kind := .hitscan 1 0, clipSize := some 17, ammo := some .nineMillimeter, cycleTime := decimal 3 10,
      reloadTime := decimal 15 10, secondary := none }
  | .python =>
    { id, kind := .hitscan 1 0, clipSize := some 6, ammo := some .threeFiveSeven, cycleTime := decimal 5 10,
      reloadTime := decimal 2 1, secondary := none }
  | .mp5 =>
    { id, kind := .hitscan 1 0, clipSize := some 50, ammo := some .nineMillimeter,
      cycleTime := 1 / decimal 600 60, reloadTime := decimal 25 10,
      secondary := some { kind := .projectile (decimal 600 1), ammo := some .mp5Grenades, cycleTime := 1 } }
  | .shotgun =>
    { id, kind := .hitscan 6 0, clipSize := some 8, ammo := some .buckshot, cycleTime := decimal 75 100,
      reloadTime := decimal 5 10,
      secondary := some { kind := .hitscan 12 0, ammo := none, cycleTime := decimal 15 10 } }
  | .crossbow =>
    { id, kind := .projectile (decimal 2000 1), clipSize := some 5, ammo := some .bolts, cycleTime := 1,
      reloadTime := decimal 2 1, secondary := none }
  | .rpg =>
    { id, kind := .projectile (decimal 600 1), clipSize := some 1, ammo := some .rockets,
      cycleTime := decimal 15 10, reloadTime := decimal 3 1, secondary := none }
  | .gauss =>
    { id, kind := .charge, clipSize := none, ammo := some .uranium, cycleTime := decimal 2 10,
      reloadTime := decimal 2 1, secondary := none }
  | .egon =>
    { id, kind := .beam, clipSize := none, ammo := some .uranium, cycleTime := decimal 1 10, reloadTime := 0,
      secondary := none }
  | .hornetGun =>
    { id, kind := .projectile (decimal 400 1), clipSize := some 8, ammo := some .hornets,
      cycleTime := 1 / decimal 240 60, reloadTime := 0,
      secondary := some { kind := .projectile (decimal 800 1), ammo := none, cycleTime := 1 / decimal 600 60 } }
  | .handGrenade =>
    { id, kind := .projectile (decimal 600 1), clipSize := some 1, ammo := some .handGrenades,
      cycleTime := decimal 5 10, reloadTime := 0, secondary := none }
  | .satchel =>
    { id, kind := .projectile (decimal 300 1), clipSize := some 1, ammo := some .satchels, cycleTime := 1,
      reloadTime := 0, secondary := none }
  | .tripmine =>
    { id, kind := .projectile 0, clipSize := some 1, ammo := some .tripmines, cycleTime := decimal 3 1,
      reloadTime := 0, secondary := none }
  | .snark =>
    { id, kind := .melee, clipSize := some 1, ammo := some .snarks, cycleTime := decimal 5 10, reloadTime := 0,
      secondary := none }

def WeaponSpec.UsesRounds (w : WeaponSpec K) : Prop := w.clipSize.isSome = true ∨ w.ammo.isSome = true

def WeaponKind.Shoots : WeaponKind K → Prop
  | .beam => False
  | .charge => False
  | _ => True

/-- Charges and beams are fed from the pool; an alternate shot is one, of a weapon with a clip. -/
structure WeaponSpec.Consistent (w : WeaponSpec K) : Prop where
  pooled : ¬w.kind.Shoots → w.clipSize = none ∧ w.ammo.isSome = true
  alternate : ∀ second ∈ w.secondary, second.kind.Shoots ∧ w.clipSize.isSome = true
  clip_ammo : w.clipSize.isSome = true → w.ammo.isSome = true

theorem consistent_spec (id : WeaponId) : (spec id : WeaponSpec K).Consistent := by
  cases id <;> exact ⟨by simp [spec, WeaponKind.Shoots], by simp [spec, WeaponKind.Shoots], by simp [spec]⟩

end Table

end OpenHalfLife.Combat
