import OpenHalfLife.Game.Movers

/-! # Entity snapshots

The components of an entity that a level change reads or writes, what it carries of them, and how
that is put onto an entity of the next map. Components it hands over unread are types of their own.
-/

namespace OpenHalfLife.Engine

open OpenHalfLife.Game

set_option autoImplicit false

structure Parts where
  Render : Type
  Light : Type
  Trigger : Type
  Message : Type

structure Transform (K : Type) where
  origin : Vec3 K
  angles : Vec3 K

structure Button (K : Type) where
  delay : K
  motion : Motion K

structure Rotator (K : Type) where
  speed : K
  spinning : Bool
  angleDeg : K

structure Body (K : Type) (parts : Parts) where
  className : Name
  transform : Option (Transform K)
  spawnFlags : Option Nat
  targetName : Option Name
  target : Option Name
  globalName : Option Name
  landmark : Bool
  render : Option parts.Render
  door : Option (Door K)
  button : Option (Button K)
  platform : Option (Platform K)
  rotator : Option (Rotator K)
  light : Option parts.Light
  trigger : Option parts.Trigger
  message : Option parts.Message
  platrot : Option (PlatRot K)
  path : Option (Path K)
  pathBranch : Option Name
  fireOnPass : Option Name
  fireOnDeadEnd : Option Name
  trackTrain : Option (TrackTrain K)
  trackTrainState : Option (TrackTrainState K)

structure EntitySnapshot (K : Type) (parts : Parts) where
  spawnflags : Option Nat
  render : Option parts.Render
  transform : Option (Transform K)
  door : Option (Door K)
  button : Option (Button K)
  platform : Option (Platform K)
  rotator : Option (Rotator K)
  light : Option parts.Light
  trigger : Option parts.Trigger
  message : Option parts.Message

structure TrackTrainCarry (K : Type) where
  node : Name
  t : Stored K
  direction : Stored K
  speed : Stored K
  moving : Bool
  waitTimer : Stored K
  yaw : Option (Stored K)

variable {K : Type} [Field K] [LinearOrder K] {parts : Parts}

def Body.pathComponents (body : Body K parts) : PathComponents K where
  targetName := body.targetName
  target := body.target
  origin := body.transform.map Transform.origin
  path := body.path
  pathBranch := body.pathBranch
  fireOnPass := body.fireOnPass
  fireOnDeadEnd := body.fireOnDeadEnd

namespace EntitySnapshot

def apply (snapshot : EntitySnapshot K parts) (body : Body K parts) : Body K parts :=
  { body with
    spawnFlags := snapshot.spawnflags.or body.spawnFlags
    render := snapshot.render.or body.render
    transform := snapshot.transform.or body.transform
    door := snapshot.door.or body.door
    button := snapshot.button.or body.button
    platform := snapshot.platform.or body.platform
    rotator := snapshot.rotator.or body.rotator
    light := snapshot.light.or body.light
    trigger := snapshot.trigger.or body.trigger
    message := snapshot.message.or body.message }

def turnedAxis (carried own : Option (Vec3 K)) : Option (Vec3 K) :=
  match carried, own with
  | some carriedAxis, some ownAxis =>
    let sign := carriedAxis.x * ownAxis.x + carriedAxis.y * ownAxis.y + carriedAxis.z * ownAxis.z
    if sign < 0 then some ⟨-ownAxis.x, -ownAxis.y, -ownAxis.z⟩ else some ownAxis
  | _, own => own

/-- Onto an entity the map has of its own: only what a mover is doing travels, not where it was made. -/
def applyOntoExisting (snapshot : EntitySnapshot K parts) (body : Body K parts) : Body K parts :=
  { body with
    spawnFlags := snapshot.spawnflags.or body.spawnFlags
    render := snapshot.render.or body.render
    door := body.door.map fun door =>
      match snapshot.door with
      | none => door
      | some carried =>
        { door with motion := carried.motion, rotationAxis := turnedAxis carried.rotationAxis door.rotationAxis }
    button := body.button.map fun button =>
      match snapshot.button with
      | none => button
      | some carried => { button with motion := carried.motion }
    platform := body.platform.map fun platform =>
      match snapshot.platform with
      | none => platform
      | some carried => { platform with motion := carried.motion }
    rotator := body.rotator.map fun rotator =>
      match snapshot.rotator with
      | none => rotator
      | some carried => { rotator with spinning := carried.spinning, angleDeg := carried.angleDeg }
    light := snapshot.light.or body.light
    message := snapshot.message.or body.message }

end EntitySnapshot

def restorePlatrot (carried : Option (PlatRot K)) (body : Body K parts) : Body K parts :=
  match carried with
  | none => body
  | some carried => { body with platrot := body.platrot.map fun platrot => { platrot with motion := carried.motion } }

def Stored.toFinite : Stored K → Option K
  | .finite value => some value
  | _ => none

/-- Puts the entity's own train where the carried one was along the track, by the name of its node. -/
def restoreTrackTrain (rails : Rails K) (carry : TrackTrainCarry K) (body : Body K parts) : Body K parts :=
  match body.trackTrain with
  | none => body
  | some train =>
    let seated := body.trackTrainState.bind fun state =>
      (state.chain.nodes.findIdx? fun node => (rails.components node.entity).targetName = some carry.node).map
        fun index => (state, index, carry.t)
    let placed :=
      match seated with
      | some seated => some seated
      | none =>
        match rails.build train.height carry.node with
        | some chain => some (TrackTrainState.spawn train chain, 0, carry.t)
        | none => body.trackTrainState.map fun state => (state, state.nodeIndex, .finite state.t)
    match placed with
    | none => body
    | some (state, index, t) =>
      let restored := state.restoreDynamicState index t carry.direction carry.speed carry.moving carry.waitTimer
      { body with
        trackTrainState := some { restored with handoverYaw := carry.yaw.bind Stored.toFinite } }

end OpenHalfLife.Engine
