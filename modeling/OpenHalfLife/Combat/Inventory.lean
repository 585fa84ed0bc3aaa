import OpenHalfLife.Combat.Weapons
import OpenHalfLife.Lib.Rotation
import Mathlib.Algebra.Order.Field.Rat
import Mathlib.Data.List.Nodup

/-! # The inventory

Which weapons are carried, what is in their clips, how much ammunition there is
and which weapon is drawn.
-/

namespace OpenHalfLife.Combat

set_option autoImplicit false

namespace AmmoType

def publishedMaxCarry : AmmoType → Option Nat
  | .nineMillimeter => some 250
  | .threeFiveSeven => some 36
  | .buckshot => some 125
  | .bolts => some 50
  | .rockets | .satchels | .tripmines => some 5
  | .uranium => some 100
  | .hornets => some 8
  | .handGrenades | .mp5Grenades => some 10
  | .snarks => none

def defaultCapacity (kind : AmmoType) : Nat := kind.publishedMaxCarry.getD 15

end AmmoType

def AmmoPool.new (kind : AmmoType) : AmmoPool := ⟨kind, 0, kind.defaultCapacity, Nat.zero_le _⟩

def weaponIndex : WeaponId → Nat
  | .crowbar => 0
  | .glock => 1
  | .python => 2
  | .mp5 => 3
  | .shotgun => 4
  | .crossbow => 5
  | .rpg => 6
  | .gauss => 7
  | .egon => 8
  | .hornetGun => 9
  | .handGrenade => 10
  | .satchel => 11
  | .tripmine => 12
  | .snark => 13

theorem weaponIndex_lt (id : WeaponId) : weaponIndex id < 16 := by cases id <;> decide

structure HudSlot where
  slot : Nat
  position : Nat
  deriving DecidableEq

def hudSlot : WeaponId → HudSlot
  | .crowbar => ⟨1, 1⟩
  | .glock => ⟨2, 1⟩
  | .python => ⟨2, 2⟩
  | .mp5 => ⟨3, 1⟩
  | .shotgun => ⟨3, 2⟩
  | .crossbow => ⟨4, 1⟩
  | .rpg => ⟨4, 2⟩
  | .gauss => ⟨4, 3⟩
  | .egon => ⟨4, 4⟩
  | .hornetGun => ⟨4, 5⟩
  | .handGrenade => ⟨5, 1⟩
  | .satchel => ⟨5, 2⟩
  | .tripmine => ⟨5, 3⟩
  | .snark => ⟨5, 4⟩

def HudSlot.before (a b : HudSlot) : Bool := a.slot < b.slot || (a.slot == b.slot && a.position ≤ b.position)

/-- The bits of `owned` are the weapons carried. -/
structure Inventory where
  owned : BitVec 16
  clips : WeaponId → Nat
  ammo : AmmoType → AmmoPool
  selected : Option WeaponId

namespace Inventory

def new : Inventory := ⟨0, fun _ => 0, AmmoPool.new, none⟩

def bit (id : WeaponId) : BitVec 16 := 1 <<< weaponIndex id

def hasWeapon (inventory : Inventory) (id : WeaponId) : Bool := inventory.owned &&& bit id != 0

def ownedWeapons (inventory : Inventory) : List WeaponId := WeaponId.all.filter inventory.hasWeapon

def giveWeapon (inventory : Inventory) (id : WeaponId) : Bool × Inventory :=
  (inventory.owned &&& bit id == 0, { inventory with owned := inventory.owned ||| bit id })

def drop (inventory : Inventory) (id : WeaponId) : Bool × Inventory :=
  (inventory.owned &&& bit id != 0,
    { inventory with
      owned := inventory.owned &&& ~~~bit id
      clips := Function.update inventory.clips id 0
      selected := if inventory.selected = some id then none else inventory.selected })

def stripWeapons (inventory : Inventory) : Inventory :=
  { inventory with owned := 0, clips := fun _ => 0, ammo := AmmoPool.new, selected := none }

def holster (inventory : Inventory) : Inventory := { inventory with selected := none }

def clipCap (id : WeaponId) : Nat := (spec id : WeaponSpec ℚ).clipSize.getD 0

def setClip (inventory : Inventory) (id : WeaponId) (rounds : Nat) : Inventory :=
  { inventory with clips := Function.update inventory.clips id (min rounds (clipCap id)) }

def giveAmmo (inventory : Inventory) (kind : AmmoType) (amount : Nat) : Inventory :=
  { inventory with ammo := Function.update inventory.ammo kind ((inventory.ammo kind).add amount) }

def ownedByHudOrder (inventory : Inventory) : List WeaponId :=
  inventory.ownedWeapons.mergeSort fun a b => (hudSlot a).before (hudSlot b)

def select (inventory : Inventory) (id : WeaponId) : Inventory :=
  if inventory.hasWeapon id then { inventory with selected := some id } else inventory

def selectNext (inventory : Inventory) : Inventory :=
  { inventory with selected := goNext inventory.ownedByHudOrder inventory.selected }

def selectPrev (inventory : Inventory) : Inventory :=
  { inventory with selected := goPrev inventory.ownedByHudOrder inventory.selected }

def selectSlot (inventory : Inventory) (slot : Nat) : Inventory :=
  let inSlot := (inventory.ownedByHudOrder.filter fun id => (hudSlot id).slot = slot).mergeSort fun a b =>
    (hudSlot a).position ≤ (hudSlot b).position
  if inSlot.isEmpty then inventory
  else
    { inventory with
      selected := goNext inSlot (inventory.selected.filter fun id => (hudSlot id).slot = slot) }

end Inventory

inductive InventoryCall
  | giveWeapon (id : WeaponId)
  | drop (id : WeaponId)
  | stripWeapons
  | holster
  | setClip (id : WeaponId) (rounds : Nat)
  | giveAmmo (kind : AmmoType) (amount : Nat)
  | select (id : WeaponId)
  | selectNext
  | selectPrev
  | selectSlot (slot : Nat)

namespace Inventory

def perform (inventory : Inventory) : InventoryCall → Inventory
  | .giveWeapon id => (inventory.giveWeapon id).2
  | .drop id => (inventory.drop id).2
  | .stripWeapons => inventory.stripWeapons
  | .holster => inventory.holster
  | .setClip id rounds => inventory.setClip id rounds
  | .giveAmmo kind amount => inventory.giveAmmo kind amount
  | .select id => inventory.select id
  | .selectNext => inventory.selectNext
  | .selectPrev => inventory.selectPrev
  | .selectSlot slot => inventory.selectSlot slot

def performAll (inventory : Inventory) (calls : List InventoryCall) : Inventory := calls.foldl perform inventory

end Inventory

end OpenHalfLife.Combat

namespace OpenHalfLife.Combat

set_option autoImplicit false

/-! ## What is carried

A clip written for a weapon that is not carried is the one thing that puts the
parts of an inventory at odds.
-/

namespace Inventory

variable {inventory : Inventory} {id other : WeaponId}

theorem hasWeapon_eq (inventory : Inventory) (id : WeaponId) :
    inventory.hasWeapon id = inventory.owned.getLsbD (weaponIndex id) := by
  have hBit : bit id = BitVec.twoPow 16 (weaponIndex id) := rfl
  rw [hasWeapon, hBit, BitVec.and_twoPow]
  cases inventory.owned.getLsbD (weaponIndex id) with
  | false => rfl
  | true =>
    cases id <;> decide

theorem getLsbD_bit (id other : WeaponId) : (bit id).getLsbD (weaponIndex other) = decide (other = id) := by
  cases id <;> cases other <;> decide

theorem hasWeapon_giveWeapon (inventory : Inventory) (id other : WeaponId) :
    (inventory.giveWeapon id).2.hasWeapon other = (inventory.hasWeapon other || decide (other = id)) := by
  rw [hasWeapon_eq, hasWeapon_eq, giveWeapon, BitVec.getLsbD_or, getLsbD_bit]

theorem hasWeapon_drop (inventory : Inventory) (id other : WeaponId) :
    (inventory.drop id).2.hasWeapon other = (inventory.hasWeapon other && decide (other ≠ id)) := by
  rw [hasWeapon_eq, hasWeapon_eq, drop, BitVec.getLsbD_and, BitVec.getLsbD_not, getLsbD_bit,
    decide_eq_true (weaponIndex_lt other), Bool.true_and, decide_not]

theorem ownedByHudOrder_eq (inventory : Inventory) : inventory.ownedByHudOrder = inventory.ownedWeapons :=
  List.mergeSort_of_pairwise ((by decide : WeaponId.all.Pairwise fun a b => (hudSlot a).before (hudSlot b)).filter _)

theorem nodup_owned (inventory : Inventory) : inventory.ownedByHudOrder.Nodup := by
  rw [ownedByHudOrder_eq]
  exact (by decide : WeaponId.all.Nodup).filter _

theorem mem_owned : id ∈ inventory.ownedByHudOrder ↔ inventory.hasWeapon id = true := by
  rw [ownedByHudOrder_eq, ownedWeapons, List.mem_filter]
  exact and_iff_right id.mem_all

/-! ## The invariant -/

structure Sound (inventory : Inventory) : Prop where
  selected : ∀ id ∈ inventory.selected, inventory.hasWeapon id = true
  clip_le : ∀ id, inventory.clips id ≤ clipCap id
  clip_zero : ∀ id, inventory.hasWeapon id = false → inventory.clips id = 0
  ammo : ∀ kind, (inventory.ammo kind).kind = kind ∧ (inventory.ammo kind).capacity = kind.defaultCapacity ∧
    (inventory.ammo kind).current ≤ (inventory.ammo kind).capacity

theorem sound_new : new.Sound where
  selected := nofun
  clip_le _ := Nat.zero_le _
  clip_zero _ _ := rfl
  ammo _ := ⟨rfl, rfl, Nat.zero_le _⟩

def Loads (inventory : Inventory) : InventoryCall → Prop
  | .setClip id rounds => inventory.hasWeapon id = true ∨ min rounds (clipCap id) = 0
  | _ => True

theorem Sound.reselected (h : inventory.Sound) {selected : Option WeaponId}
    (hSelected : ∀ id ∈ selected, inventory.hasWeapon id = true) : Sound { inventory with selected } :=
  ⟨hSelected, h.clip_le, h.clip_zero, h.ammo⟩

theorem Sound.selectSlot (h : inventory.Sound) (slot : Nat) : (inventory.selectSlot slot).Sound := by
  rw [Inventory.selectSlot]
  split
  · exact h
  · refine h.reselected fun id hId => ?_
    have hMem := mem_of_goNext hId
    rw [List.mem_mergeSort, List.mem_filter] at hMem
    exact mem_owned.mp hMem.1

theorem Sound.perform (h : inventory.Sound) {call : InventoryCall} (hLoads : inventory.Loads call) :
    (inventory.perform call).Sound := by
  cases call with
  | giveWeapon id =>
    refine ⟨fun other hOther => ?_, h.clip_le, fun other hOther => h.clip_zero other ?_, h.ammo⟩
    · rw [Inventory.perform, hasWeapon_giveWeapon, h.selected other hOther, Bool.true_or]
    · rw [Inventory.perform, hasWeapon_giveWeapon, Bool.or_eq_false_iff] at hOther
      exact hOther.1
  | drop id =>
    refine ⟨fun other hOther => ?_, fun other => ?_, fun other hOther => ?_, h.ammo⟩
    · simp only [Inventory.perform, drop, Option.mem_def, Option.ite_none_left_eq_some] at hOther
      rw [Inventory.perform, hasWeapon_drop, h.selected other hOther.2, Bool.true_and, decide_eq_true_iff]
      rintro rfl
      exact hOther.1 hOther.2
    · simp only [Inventory.perform, drop, Function.update_apply]
      split
      · exact Nat.zero_le _
      · exact h.clip_le other
    · rw [Inventory.perform, hasWeapon_drop, Bool.and_eq_false_iff] at hOther
      simp only [Inventory.perform, drop, Function.update_apply]
      split
      · rfl
      · rename_i hNe
        exact h.clip_zero other (hOther.resolve_right (by simp [hNe]))
  | stripWeapons => exact ⟨nofun, fun _ => Nat.zero_le _, fun _ _ => rfl, fun _ => ⟨rfl, rfl, Nat.zero_le _⟩⟩
  | holster => exact h.reselected nofun
  | setClip id rounds =>
    refine ⟨h.selected, fun other => ?_, fun other hOther => ?_, h.ammo⟩
    · simp only [Inventory.perform, setClip, Function.update_apply]
      split
      · rename_i hSame
        exact hSame ▸ Nat.min_le_right _ _
      · exact h.clip_le other
    · simp only [Inventory.perform, setClip, Function.update_apply]
      split
      · rename_i hSame
        subst hSame
        exact hLoads.resolve_left (Bool.eq_false_iff.mp hOther)
      · exact h.clip_zero other hOther
  | giveAmmo kind amount =>
    refine ⟨h.selected, h.clip_le, h.clip_zero, fun other => ?_⟩
    simp only [Inventory.perform, giveAmmo, Function.update_apply]
    split
    · rename_i hSame
      subst hSame
      exact ⟨(h.ammo other).1, (h.ammo other).2.1, AmmoPool.current_le _⟩
    · exact h.ammo other
  | select id =>
    rw [Inventory.perform, Inventory.select]
    split
    · rename_i hOwned
      refine h.reselected ?_
      rintro _ ⟨⟩
      exact hOwned
    · exact h
  | selectNext => exact h.reselected fun id hId => mem_owned.mp (mem_of_goNext hId)
  | selectPrev => exact h.reselected fun id hId => mem_owned.mp (mem_of_goPrev hId)
  | selectSlot slot => exact h.selectSlot slot

theorem Sound.performAll (h : inventory.Sound) {calls : List InventoryCall}
    (hLoads : ∀ done call later, calls = done ++ call :: later → (inventory.performAll done).Loads call) :
    (inventory.performAll calls).Sound := by
  induction calls generalizing inventory with
  | nil => exact h
  | cons call calls ih =>
    refine ih (h.perform (hLoads [] call calls rfl)) fun done other later hCalls => ?_
    exact hLoads (call :: done) other later (by rw [hCalls]; rfl)

/-! ## Going through the weapons -/

theorem iterate_selectNext (inventory : Inventory) (steps : Nat) :
    selectNext^[steps] inventory =
      { inventory with selected := (goNext inventory.ownedByHudOrder)^[steps] inventory.selected } := by
  induction steps generalizing inventory with
  | zero => rfl
  | succ steps ih => rw [Function.iterate_succ_apply, Function.iterate_succ_apply, ih]; rfl

/-- The parts agree, and next and previous go through all that is carried. -/
structure Orderly (inventory : Inventory) : Prop extends Sound inventory where
  visits : ((List.range inventory.ownedWeapons.length).map fun steps =>
    (selectNext^[steps + 1] inventory).selected).Perm (inventory.ownedWeapons.map some)
  undo : ∀ id, inventory.selected = some id → inventory.selectNext.selectPrev.selected = some id

theorem Sound.orderly (h : inventory.Sound) : inventory.Orderly where
  toSound := h
  visits := by
    simp only [iterate_selectNext, ← ownedByHudOrder_eq]
    exact visits_perm inventory.nodup_owned inventory.selected
  undo id hId := by
    have hOwned := mem_owned.mpr (h.selected id hId)
    have hBack := goPrev_goNext inventory.nodup_owned hOwned
    rw [← hId] at hBack
    exact hBack.trans hId

/-- Every state of a run is in order exactly if no clip is loaded of a weapon that is not carried. -/
theorem orderly_iff (calls : List InventoryCall) :
    (∀ done later, calls = done ++ later → (new.performAll done).Orderly) ↔
      ∀ done call later, calls = done ++ call :: later → (new.performAll done).Loads call := by
  constructor
  · intro h done call later hCalls
    cases call with
    | setClip id rounds =>
      by_contra hNot
      obtain ⟨hUnowned, hLoaded⟩ := not_or.mp hNot
      have hAfter := h (done ++ [.setClip id rounds]) later (by rw [hCalls, List.append_assoc]; rfl)
      rw [performAll, List.foldl_append] at hAfter
      have hZero := hAfter.clip_zero id (Bool.eq_false_iff.mpr hUnowned)
      exact hLoaded (by simpa [Inventory.perform, setClip] using hZero)
    | _ => trivial
  · intro h done later hCalls
    refine (sound_new.performAll fun before call after hDone => ?_).orderly
    exact h before call (after ++ later) (by rw [hCalls, hDone, List.append_assoc]; rfl)

/-- A reload written for a weapon after it was dropped. -/
theorem late_clip_not_orderly : ¬∀ done later,
    [InventoryCall.giveWeapon .glock, .drop .glock, .setClip .glock 17] = done ++ later →
      (new.performAll done).Orderly := by
  intro h
  have hZero := (h [.giveWeapon .glock, .drop .glock, .setClip .glock 17] [] rfl).clip_zero .glock (by decide)
  exact absurd hZero (by decide +kernel)

end Inventory

end OpenHalfLife.Combat
