import Mathlib.Algebra.Order.Ring.Rat
import Mathlib.Data.List.Sort
import Mathlib.Tactic.Linarith

/-! # The entity registry

The components the map logic reads, and the name index. What doors, tanks,
trains and the other devices keep is a type of its own. Times are rationals.
-/

namespace OpenHalfLife.Game

set_option autoImplicit false

abbrev Entity := Nat

abbrev Name := List UInt8

inductive TriggerUse
  | off
  | on
  | toggle
  deriving DecidableEq, Repr

structure MultiSource where
  delay : ℚ
  deriving DecidableEq

structure MultiManager where
  targets : List (Name × ℚ)
  multithreaded : Bool
  deriving DecidableEq

structure Trigger where
  once : Bool
  wait : ℚ
  delay : ℚ
  deriving DecidableEq

structure AutoTrigger where
  delay : ℚ
  removeOnFire : Bool
  fired : Bool
  deriving DecidableEq

structure Breakable where
  delay : ℚ
  broken : Bool
  deriving DecidableEq

structure Components where
  targetName : Option Name := none
  target : Option Name := none
  master : Option Name := none
  multiSource : Option MultiSource := none
  multiManager : Option MultiManager := none
  trigger : Option Trigger := none
  autoTrigger : Option AutoTrigger := none
  triggerUseType : Option TriggerUse := none
  breakable : Option Breakable := none
  teleportTrigger : Bool := false
  endSection : Bool := false

structure Registry (R : Type) where
  world : List (Entity × Components)
  nameIndex : Name → List Entity
  devices : R
  world_length : world.length ≤ 2 ^ 32

namespace Registry

variable {R : Type}

def components (registry : Registry R) (entity : Entity) : Components :=
  ((registry.world.find? fun row => row.1 = entity).map Prod.snd).getD {}

def contains (registry : Registry R) (entity : Entity) : Bool := registry.world.any fun row => row.1 = entity

def find (registry : Registry R) (name : Name) : List Entity := registry.nameIndex name

def despawn (registry : Registry R) (entity : Entity) : Registry R :=
  { registry with
    world := registry.world.filter fun row => row.1 ≠ entity
    world_length := (List.length_filter_le _ _).trans registry.world_length }

def modify (registry : Registry R) (entity : Entity) (change : Components → Components) : Registry R :=
  { registry with
    world := registry.world.map fun row => if row.1 = entity then (row.1, change row.2) else row
    world_length := by
      rw [List.length_map]
      exact registry.world_length }

/-- How many entities name `source`, by `target` or among the targets of a `multi_manager`; one at
the least. -/
def multisourceRequired (registry : Registry R) (source : Entity) : Nat :=
  match (registry.components source).targetName with
  | none => 1
  | some name =>
    let byTarget := registry.world.countP fun row => row.2.target = some name
    let byFanOut := registry.world.countP fun row =>
      row.2.multiManager.any fun manager => manager.targets.any fun target => target.1 = name
    max (byTarget + byFanOut) 1

/-- The use type an entity sends: its own `triggerstate`, or a plain toggle. -/
def useTypeOf (registry : Registry R) (entity : Entity) : TriggerUse :=
  (registry.components entity).triggerUseType.getD .toggle

end Registry

end OpenHalfLife.Game
