import OpenHalfLife.Game.Registry
import OpenHalfLife.Lib.Drain

/-! # The map logic simulation

The event queue and what an activation does to it. Arms of an activation that
only change the state of a device are given by `Devices`.
-/

namespace OpenHalfLife.Game

set_option autoImplicit false

def maxEventsPerTick : Nat := 4096

def maxPendingEvents : Nat := 4096

/-- `game_playerspawn`. -/
def gamePlayerSpawnTargetname : Name := "game_playerspawn".toByteArray.data.toList

/-- The last two are not in the source: the number of fires queued before it, and the entity
whose schedule or relay it belongs to. Nothing reads them. -/
structure Fire where
  target : Name
  useType : TriggerUse
  activator : Option Entity
  delay : ℚ
  serial : Nat
  sender : Option Entity
  deriving DecidableEq

inductive Happening
  | queued (fire : Fire)
  | dropped
  | accepted (manager : Entity)
  | passed (dt : ℚ)
  | dispatched (fire : Fire)
  | ended
  | ticked (dt : ℚ)
  deriving DecidableEq

structure TriggerState where
  used : Bool
  cooldown : ℚ
  deriving DecidableEq

/-- `serial` and `trace` are not in the source, and nothing reads them. -/
structure Simulation where
  pending : List Fire
  triggerState : Entity → TriggerState
  masterFires : Entity → Option Nat
  multiManagerBusy : Entity → Option ℚ
  playerSpawnFired : Bool
  effectPlayer : Option Entity
  serial : Nat
  trace : List Happening

namespace Simulation

def new : Simulation where
  pending := []
  triggerState := fun _ => ⟨false, 0⟩
  masterFires := fun _ => none
  multiManagerBusy := fun _ => none
  playerSpawnFired := false
  effectPlayer := none
  serial := 0
  trace := []

def note (simulation : Simulation) (happening : Happening) : Simulation :=
  { simulation with trace := simulation.trace ++ [happening] }

/-- `fire_typed`, on behalf of `sender`. -/
def fireFor (simulation : Simulation) (sender : Option Entity) (target : Name) (activator : Option Entity) (delay : ℚ)
    (useType : TriggerUse) : Simulation :=
  if simulation.pending.length ≥ maxPendingEvents then simulation.note .dropped
  else
    let fire : Fire := ⟨target, useType, activator, max delay 0, simulation.serial, sender⟩
    { simulation with
      pending := simulation.pending ++ [fire]
      serial := simulation.serial + 1
      trace := simulation.trace ++ [.queued fire] }

def fireTyped (simulation : Simulation) (target : Name) (activator : Option Entity) (delay : ℚ) (useType : TriggerUse) :
    Simulation := simulation.fireFor none target activator delay useType

def fire (simulation : Simulation) (target : Name) (activator : Option Entity) (delay : ℚ) : Simulation :=
  simulation.fireTyped target activator delay .toggle

end Simulation

structure Level (R : Type) where
  simulation : Simulation
  registry : Registry R

/-- What takes an activation before the brushes that break, before a `multi_manager` and before a
trigger volume, and what the devices fire as time passes. A device keeps to its own state. -/
structure Devices (R : Type) where
  /-- A teleport destination, an effect, a tank, a door or a button. -/
  beforeBreakable : Level R → Entity → Option Entity → TriggerUse → Option R
  /-- A pendulum, a platform, a train, a switch, a rotator or a camera. -/
  beforeManager : Level R → Entity → Option Entity → TriggerUse → Option R
  /-- A level change, a message, a sound, a script, a maker, a conveyor, a wall, a weapon strip, an
  end of section or a monster. -/
  beforeTrigger : Level R → Entity → Option Entity → TriggerUse → Option R
  /-- Buttons, trains and cameras fire in this order, without delay. -/
  advance : Registry R → ℚ → R × List (Name × Option Entity)

namespace Level

variable {R : Type}

def onSimulation (level : Level R) (change : Simulation → Simulation) : Level R :=
  { level with simulation := change level.simulation }

def withDevices (level : Level R) (devices : R) : Level R :=
  { level with registry := { level.registry with devices := devices } }

def masterIsActive (level : Level R) (entity : Entity) : Bool :=
  match (level.registry.components entity).master with
  | none => true
  | some name =>
    let sources := (level.registry.find name).filter fun source =>
      (level.registry.components source).multiSource.isSome
    sources.isEmpty || sources.any fun source =>
      (level.simulation.masterFires source).any fun fires => level.registry.multisourceRequired source ≤ fires

def endsectionPlayer (level : Level R) (activator : Option Entity) : Bool :=
  level.simulation.effectPlayer.any fun player => activator = some player ∧ level.registry.contains player

def activateTrigger (level : Level R) (entity : Entity) (activator : Option Entity) : Bool × Level R :=
  let components := level.registry.components entity
  if components.endSection ∧ ¬ level.endsectionPlayer activator then (false, level)
  else if ¬ level.masterIsActive entity then (false, level)
  else match components.trigger with
    | none => (false, level)
    | some trigger =>
      let state := level.simulation.triggerState entity
      if state.used ∨ state.cooldown > 0 then (false, level)
      else
        let level := level.onSimulation fun simulation => { simulation with
          triggerState := Function.update simulation.triggerState entity ⟨trigger.once, max trigger.wait 0⟩ }
        match components.target with
        | none => (true, level)
        | some target =>
          let activator := if components.teleportTrigger then some entity else activator
          let useType := level.registry.useTypeOf entity
          (true, level.onSimulation fun simulation => simulation.fireTyped target activator trigger.delay useType)

def breakEntity (level : Level R) (entity : Entity) (activator : Option Entity) : Level R :=
  let components := level.registry.components entity
  match components.breakable with
  | none => level
  | some breakable =>
    if breakable.broken then level
    else
      let level := { level with
        registry := level.registry.modify entity fun c => { c with breakable := some { breakable with broken := true } } }
      match components.target with
      | none => level
      | some target =>
        level.onSimulation fun simulation => simulation.fire target (activator.orElse fun _ => some entity) breakable.delay

/-- The gate is also a relay: it fans out on the fire that reaches the required count. -/
def activateSource (level : Level R) (entity : Entity) (source : MultiSource) (activator : Option Entity)
    (useType : TriggerUse) : Level R :=
  let now := min ((level.simulation.masterFires entity).getD 0 + 1) (2 ^ 64 - 1)
  let level := level.onSimulation fun simulation =>
    { simulation with masterFires := Function.update simulation.masterFires entity (some now) }
  if now = level.registry.multisourceRequired entity then
    match (level.registry.components entity).target with
    | none => level
    | some target => level.onSimulation fun simulation =>
      simulation.fireFor (some entity) target activator source.delay useType
  else level

def busyTime (manager : MultiManager) : ℚ := (manager.targets.map fun target => max target.2 0).foldl max 0

def activateManager (level : Level R) (entity : Entity) (manager : MultiManager) (activator : Option Entity) : Level R :=
  if ¬ manager.multithreaded ∧ (level.simulation.multiManagerBusy entity).isSome then level
  else level.onSimulation fun simulation =>
    let simulation := simulation.note (.accepted entity)
    let busy := busyTime manager
    let simulation := if busy > 0 then
        { simulation with multiManagerBusy := Function.update simulation.multiManagerBusy entity (some busy) }
      else simulation
    manager.targets.foldl
      (fun simulation target => simulation.fireFor (some entity) target.1 activator target.2 .toggle) simulation

variable (d : Devices R)

def activateWith (level : Level R) (entity : Entity) (activator : Option Entity) (useType : TriggerUse) : Level R :=
  let components := level.registry.components entity
  if ¬ level.masterIsActive entity then level
  else match components.multiSource with
    | some source => level.activateSource entity source activator useType
    | none => match d.beforeBreakable level entity activator useType with
      | some devices => level.withDevices devices
      | none => match components.breakable with
        | some _ => level.breakEntity entity activator
        | none => match d.beforeManager level entity activator useType with
          | some devices => level.withDevices devices
          | none => match components.multiManager with
            | some manager => level.activateManager entity manager activator
            | none => match d.beforeTrigger level entity activator useType with
              | some devices => level.withDevices devices
              | none => (level.activateTrigger entity activator).2

def activate (level : Level R) (entity : Entity) (activator : Option Entity) : Level R :=
  level.activateWith d entity activator .toggle

def sortById (entities : List Entity) : List Entity := entities.insertionSort (· ≤ ·)

def firePlayerSpawn (level : Level R) : Level R :=
  if level.simulation.playerSpawnFired then level
  else
    let level := level.onSimulation fun simulation => { simulation with playerSpawnFired := true }
    (sortById (level.registry.find gamePlayerSpawnTargetname)).foldl (fun level entity => level.activate d entity none) level

def readyTriggers (registry : Registry R) : List (Entity × Name × AutoTrigger × TriggerUse) :=
  (registry.world.filterMap fun row => match row.2.autoTrigger, row.2.target with
    | some auto, some target =>
      if auto.fired then none else some (row.1, target, auto, row.2.triggerUseType.getD .toggle)
    | _, _ => none).insertionSort fun a b => a.1 ≤ b.1

def fireAutoTrigger (level : Level R) (ready : Entity × Name × AutoTrigger × TriggerUse) : Level R :=
  let (entity, target, auto, useType) := ready
  let fired : Level R := { level with
    registry := level.registry.modify entity fun c =>
      { c with autoTrigger := c.autoTrigger.map fun auto => { auto with fired := true } }
    simulation := level.simulation.fireTyped target (some entity) (max auto.delay 0) useType }
  if auto.removeOnFire then { fired with registry := fired.registry.despawn entity } else fired

def fireAutoTriggers (level : Level R) : Level R := (readyTriggers level.registry).foldl fireAutoTrigger level

end Level

def Fire.due (fire : Fire) : Bool := fire.delay ≤ 0

def takeDue (pending : List Fire) : Option (Fire × List Fire) := takeFirst Fire.due pending

namespace Level

variable {R : Type} (d : Devices R)

def dispatch (level : Level R) (fire : Fire) : Level R :=
  (level.registry.find fire.target).foldl (fun level target => level.activateWith d target fire.activator fire.useType) level

def removePending (level : Level R) (fire : Fire) (rest : List Fire) : Level R :=
  level.onSimulation fun simulation => { simulation with
    pending := rest
    trace := simulation.trace ++ [.dispatched fire] }

def drainQueue : Nat → Level R → Level R
  | 0, level => level.onSimulation fun simulation => simulation.note .ended
  | budget + 1, level =>
    match takeDue level.simulation.pending with
    | none => level.onSimulation fun simulation => simulation.note .ended
    | some (fire, rest) => drainQueue budget ((level.removePending fire rest).dispatch d fire)

def passTime (level : Level R) (dt : ℚ) : Level R :=
  level.onSimulation fun simulation => { simulation with
    pending := simulation.pending.map fun fire => { fire with delay := fire.delay - dt }
    trace := simulation.trace ++ [.passed dt] }

def advanceQueue (level : Level R) (dt : ℚ) : Level R := drainQueue d maxEventsPerTick (level.passTime dt)

def advanceDevices (level : Level R) (dt : ℚ) : Level R :=
  let (devices, fires) := d.advance level.registry dt
  (level.withDevices devices).onSimulation fun simulation =>
    fires.foldl (fun simulation fire => simulation.fire fire.1 fire.2 0) simulation

def coolTriggers (level : Level R) (dt : ℚ) : Level R :=
  level.onSimulation fun simulation => { simulation with
    triggerState := fun entity =>
      { simulation.triggerState entity with cooldown := max ((simulation.triggerState entity).cooldown - dt) 0 } }

def restManagers (level : Level R) (dt : ℚ) : Level R :=
  level.onSimulation fun simulation => { simulation with
    multiManagerBusy := fun entity =>
      (simulation.multiManagerBusy entity).bind fun busy => if busy - dt > 0 then some (busy - dt) else none
    trace := simulation.trace ++ [.ticked dt] }

def tick (level : Level R) (dt : ℚ) : Level R :=
  let level := level.firePlayerSpawn d
  let level := level.fireAutoTriggers
  let level := level.advanceQueue d dt
  let level := level.advanceDevices d dt
  (level.coolTriggers dt).restManagers dt

end Level

inductive HostCall (R : Type)
  | fireTyped (target : Name) (activator : Option Entity) (delay : ℚ) (useType : TriggerUse)
  | useEntity (entity : Entity) (activator : Option Entity)
  | touchTrigger (entity : Entity) (activator : Option Entity)
  | breakEntity (entity : Entity) (activator : Option Entity)
  | despawn (entity : Entity)
  | setEffectPlayer (player : Option Entity)
  | setDevices (devices : R)
  | tick (dt : ℚ)

namespace Level

variable {R : Type} (d : Devices R)

def call (level : Level R) : HostCall R → Level R
  | .fireTyped target activator delay useType =>
    level.onSimulation fun simulation => simulation.fireTyped target activator delay useType
  | .useEntity entity activator => level.activate d entity activator
  | .touchTrigger entity activator => (level.activateTrigger entity activator).2
  | .breakEntity entity activator => level.breakEntity entity activator
  | .despawn entity => { level with registry := level.registry.despawn entity }
  | .setEffectPlayer player => level.onSimulation fun simulation => { simulation with effectPlayer := player }
  | .setDevices devices => level.withDevices devices
  | .tick dt => level.tick d dt

def run (level : Level R) (calls : List (HostCall R)) : Level R := calls.foldl (call d) level

end Level

end OpenHalfLife.Game
