import OpenHalfLife.Engine.Keyvalues
import OpenHalfLife.Engine.Snapshot

/-! # Level transitions

What a level change carries into the next map, and how it is put there.
-/

namespace OpenHalfLife.Engine

open OpenHalfLife.Game

set_option autoImplicit false

def maxEntitiesPerName : Nat := 64

structure World (K : Type) (parts : Parts) where
  rows : List (Entity × Body K parts)
  next : Entity
  ascending : (rows.map Prod.fst).Pairwise (· < ·)
  below : ∀ row ∈ rows, row.1 < next

namespace World

variable {K : Type} {parts : Parts} (world : World K parts)

def get (entity : Entity) : Option (Body K parts) :=
  (world.rows.find? fun row => row.1 = entity).map Prod.snd

def spawn (body : Body K parts) : Entity × World K parts :=
  (world.next,
    { rows := world.rows ++ [(world.next, body)]
      next := world.next + 1
      ascending := by
        rw [List.map_append, List.pairwise_append]
        refine ⟨world.ascending, List.pairwise_singleton _ _, ?_⟩
        intro a ha b hb
        obtain ⟨row, hRow, rfl⟩ := List.mem_map.mp ha
        cases List.mem_singleton.mp hb
        exact world.below row hRow
      below := by
        intro row hRow
        rcases List.mem_append.mp hRow with hOld | hNew
        · exact Nat.lt_succ_of_lt (world.below row hOld)
        · cases List.mem_singleton.mp hNew
          exact Nat.lt_succ_self _ })

def modify (entity : Entity) (change : Body K parts → Body K parts) : World K parts where
  rows := world.rows.map fun row => if row.1 = entity then (row.1, change row.2) else row
  next := world.next
  ascending := by
    have hSame : (Prod.fst ∘ fun row : Entity × Body K parts => if row.1 = entity then (row.1, change row.2) else row) =
        Prod.fst := by
      funext row
      simp only [Function.comp_apply]
      split <;> rfl
    rw [List.map_map, hSame]
    exact world.ascending
  below := by
    intro row hRow
    obtain ⟨old, hOld, rfl⟩ := List.mem_map.mp hRow
    split
    · exact world.below old hOld
    · exact world.below old hOld

def despawn (entity : Entity) : World K parts where
  rows := world.rows.filter fun row => row.1 ≠ entity
  next := world.next
  ascending := world.ascending.sublist (List.filter_sublist.map Prod.fst)
  below row hRow := world.below row (List.mem_of_mem_filter hRow)

/-- The entities with a `globalname`, by name. -/
def withGlobalName (name : Name) : List Entity :=
  (world.rows.filter fun row => row.2.globalName = some name).map Prod.fst

end World

structure Registry (K : Type) (parts : Parts) where
  world : World K parts
  nameIndex : Name → List Entity
  newunit : Option Bool
  entities : List Entity

namespace Registry

variable {K : Type} {parts : Parts} (registry : Registry K parts)

def find (name : Name) : List Entity := registry.nameIndex name

def index (entity : Entity) (name : Option Name) : Registry K parts :=
  match name.filter fun name => !name.isEmpty with
  | none => registry
  | some name =>
    { registry with
      nameIndex := fun other =>
        if other = name ∧ (registry.nameIndex name).length < maxEntitiesPerName then registry.nameIndex name ++ [entity]
        else registry.nameIndex other }

def modify (entity : Entity) (change : Body K parts → Body K parts) : Registry K parts :=
  { registry with world := registry.world.modify entity change }

def rails [Field K] [LinearOrder K] : Rails K where
  world := registry.world.rows.map fun row => (row.1, row.2.pathComponents)
  nameIndex := registry.nameIndex

end Registry

structure Level (K : Type) (parts : Parts) where
  defs : List (EntityDef K)
  registry : Registry K parts

def Level.landmarkOrigin {K : Type} {parts : Parts} (level : Level K parts) (landmark : Name) : Option (Vec3 K) :=
  (level.registry.world.rows.findSome? fun row =>
    if row.2.landmark ∧ row.2.targetName = some landmark then row.2.transform else none).map Transform.origin

inductive GlobalStateValue
  | off
  | on
  | dead
  deriving DecidableEq, Repr

structure CarriedEntity (K : Type) (parts : Parts) where
  classname : Name
  targetname : Option Name
  globalname : Option Name
  target : Option Name
  offset : Option (Vec3 K)
  snapshot : EntitySnapshot K parts
  trackTrain : Option (TrackTrainCarry K)
  platrot : Option (PlatRot K)
  keyvalues : List (Name × Name)

structure MoverSnapshot (K : Type) (parts : Parts) where
  targetname : Name
  snapshot : EntitySnapshot K parts
  platrot : Option (PlatRot K)

structure RiderSeat (K : Type) where
  globalname : Option Name
  targetname : Option Name
  yaw : Option (Stored K)

structure TransitionState (K : Type) (parts : Parts) where
  landmark : Name
  playerOffset : Option (Vec3 K)
  entities : List (CarriedEntity K parts)
  globals : List (Name × GlobalStateValue)
  movers : List (MoverSnapshot K parts)
  rider : Option (RiderSeat K)

variable {K : Type} [Field K] [LinearOrder K] {parts : Parts}

def isDead (globals : List (Name × GlobalStateValue)) (name : Name) : Bool :=
  (lookup name globals).getD .off = .dead

namespace CarriedEntity

/-- The `model` keyvalue names a brush of the map it was compiled for. -/
def isBrush (carried : CarriedEntity K parts) : Bool :=
  carried.keyvalues.any fun pair => pair.1 = modelKey ∧ pair.2.head? = some 42

def setName (key : Name) (value : Option Name) (pairs : List (Name × Value K)) : List (Name × Value K) :=
  match value with
  | some bytes => insert key (.text bytes) pairs
  | none => remove key pairs

def pairs (carried : CarriedEntity K parts) (position angles : Vec3 K) : List (Name × Value K) :=
  let own : List (Name × Value K) :=
    carried.keyvalues.foldl (fun pairs pair => insert pair.1 (.text pair.2) pairs) []
  let placed := remove angleKey (insert anglesKey (.vector angles)
    (insert originKey (.vector position) (insert classnameKey (.text carried.classname) own)))
  let modelled :=
    if ((lookup modelKey placed).bind Value.bytes).any fun model => model.head? = some 42 then remove modelKey placed
    else placed
  setName globalnameKey carried.globalname
    (setName targetKey carried.target (setName targetnameKey carried.targetname modelled))

end CarriedEntity

def carriedDef (reading : Reading K) (carried : CarriedEntity K parts) (position angles : Vec3 K) : EntityDef K :=
  parseEntity reading (carried.pairs position angles) Limits.default

def bodyOf (definition : EntityDef K) : Body K parts where
  className := definition.classname
  transform := some ⟨definition.origin, definition.angles⟩
  spawnFlags := some definition.spawnflags
  targetName := definition.targetname
  target := definition.target
  globalName := definition.globalname
  landmark := false
  render := none
  door := none
  button := none
  platform := none
  rotator := none
  light := none
  trigger := none
  message := none
  platrot := none
  path := none
  pathBranch := none
  fireOnPass := none
  fireOnDeadEnd := none
  trackTrain := none
  trackTrainState := none

def materialiseCarried (level : Level K parts) (definition : EntityDef K) : Option Entity × Level K parts :=
  if level.defs.length ≠ level.registry.entities.length then (none, level)
  else
    let (entity, world) := level.registry.world.spawn (bodyOf definition)
    let registry : Registry K parts :=
      { level.registry with world, entities := level.registry.entities ++ [entity] }
    (some entity, { defs := level.defs ++ [definition], registry := registry.index entity definition.targetname })

/-- Adds the next entity of a map; `dress` gives it what its classname asks for. -/
def Level.addEntity (dress : EntityDef K → Body K parts → Body K parts) (level : Level K parts)
    (definition : EntityDef K) : Level K parts :=
  let (entity, world) := level.registry.world.spawn (dress definition (bodyOf definition))
  let registry : Registry K parts := { level.registry with world, entities := level.registry.entities ++ [entity] }
  { defs := level.defs ++ [definition], registry := registry.index entity definition.targetname }

def Level.empty (newunit : Option Bool) : Level K parts :=
  ⟨[], ⟨⟨[], 0, .nil, fun _ h => absurd h List.not_mem_nil⟩, fun _ => [], newunit, []⟩⟩

def Level.build (dress : EntityDef K → Body K parts → Body K parts) (newunit : Option Bool)
    (defs : List (EntityDef K)) : Level K parts :=
  defs.foldl (Level.addEntity dress) (Level.empty newunit)

namespace TransitionState

/-- Onto an entity found by its `globalname`. -/
def mergeGlobal (carried : CarriedEntity K parts) (level : Level K parts) (entity : Entity) : Level K parts :=
  { level with
    registry := level.registry.modify entity fun body =>
      let body := carried.snapshot.applyOntoExisting body
      let body :=
        match carried.trackTrain with
        | some carry => restoreTrackTrain level.registry.rails carry body
        | none => body
      restorePlatrot carried.platrot body }

/-- Onto an entity found by its `targetname`. -/
def mergeNamed (snapshot : EntitySnapshot K parts) (platrot : Option (PlatRot K)) (level : Level K parts)
    (entity : Entity) : Level K parts :=
  { level with
    registry := level.registry.modify entity fun body => restorePlatrot platrot (snapshot.applyOntoExisting body) }

def create (reading : Reading K) (origin : Option (Vec3 K)) (carried : CarriedEntity K parts)
    (level : Level K parts) : Level K parts :=
  match origin, carried.offset with
  | some origin, some offset =>
    let position : Vec3 K := ⟨origin.x + offset.x, origin.y + offset.y, origin.z + offset.z⟩
    let angles := (carried.snapshot.transform.map Transform.angles).getD ⟨0, 0, 0⟩
    match materialiseCarried level (carriedDef reading carried position angles) with
    | (none, level) => level
    | (some entity, level) =>
      { level with
        registry := level.registry.modify entity { carried.snapshot with transform := none }.apply }
  | _, _ => level

/-- The entities of `level` that a carried entity is the same as: those of its `globalname`, and for
want of them those of its `targetname`. -/
inductive Counterparts
  | global (entities : List Entity)
  | named (entities : List Entity)
  | none
  deriving DecidableEq

def counterparts (level : Level K parts) (carried : CarriedEntity K parts) : Counterparts :=
  match (carried.globalname.map level.registry.world.withGlobalName).getD [] with
  | entity :: rest => .global (entity :: rest)
  | [] =>
    match (carried.targetname.map level.registry.find).getD [] with
    | entity :: rest => .named (entity :: rest)
    | [] => .none

def placeAt (reading : Reading K) (origin : Option (Vec3 K)) (carried : CarriedEntity K parts) (level : Level K parts) :
    Counterparts → Level K parts
  | .global entities => entities.foldl (mergeGlobal carried) level
  | .named entities => entities.foldl (mergeNamed carried.snapshot carried.platrot) level
  | .none => if carried.isBrush then level else create reading origin carried level

def place (reading : Reading K) (origin : Option (Vec3 K)) (level : Level K parts) (carried : CarriedEntity K parts) :
    Level K parts :=
  placeAt reading origin carried level (counterparts level carried)

def applyMover (level : Level K parts) (mover : MoverSnapshot K parts) : Level K parts :=
  (level.registry.find mover.targetname).foldl (mergeNamed mover.snapshot mover.platrot) level

/-- Removes every entity whose `globalname` the table has retired. -/
def removeDead (globals : List (Name × GlobalStateValue)) (level : Level K parts) : Level K parts :=
  let dead := (level.registry.world.rows.filter fun row => row.2.globalName.any (isDead globals)).map Prod.fst
  { level with
    registry := { level.registry with world := dead.foldl World.despawn level.registry.world } }

/-- The ride the player arrives on, by `globalname` when it had one. -/
def riddenEntity (registry : Registry K parts) (rider : RiderSeat K) : Option Entity :=
  match rider.globalname with
  | some name => (registry.world.withGlobalName name).head?
  | none => rider.targetname.bind fun name => (registry.find name).head?

/-- What finding the player's seat leaves behind: a ride with no yaw of its own faces as it did. -/
def seatRider (state : TransitionState K parts) (origin : Option (Vec3 K)) (level : Level K parts) : Level K parts :=
  if origin.isNone ∨ state.playerOffset.isNone then level
  else
    match state.rider with
    | none => level
    | some rider =>
      match riddenEntity level.registry rider with
      | none => level
      | some entity =>
        { level with
          registry := level.registry.modify entity fun body =>
            match body.trackTrainState, body.trackTrain with
            | some train, some ride =>
              if train.hasYaw ride then body
              else { body with trackTrainState := some { train with handoverYaw := rider.yaw.bind Stored.toFinite } }
            | _, _ => body }

/-- The level after a level change into it. Where the player ends up is not part of it. -/
def apply (reading : Reading K) (state : TransitionState K parts) (level : Level K parts) : Level K parts :=
  let origin := level.landmarkOrigin state.landmark
  if level.registry.newunit = some true then level
  else
    let moved := state.movers.foldl applyMover level
    let placed := state.entities.foldl (place reading origin) moved
    state.seatRider origin (removeDead state.globals placed)

end TransitionState

end OpenHalfLife.Engine
