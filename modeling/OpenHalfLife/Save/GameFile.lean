import OpenHalfLife.Save.GameSave

/-! # Writing and reading the engine's save -/

namespace OpenHalfLife.Save

set_option autoImplicit false

inductive Single
  | engineHeader
  | playerCarry
  | entityRegistry
  | simulation
  | globalState
  | lightStyleTime
  | view
  | inventory
  | entityCombat
  | ai
  | projectiles
  | mapEffects
  | tanks
  | chargerReservoirs
  | projectileRuntime
  | rng
  | rotatingMovers
  | teleportState
  deriving DecidableEq

inductive Section
  | single (single : Single)
  | sequence (sequence : Sequence)
  deriving DecidableEq

def Section.tag : Section → UInt32
  | .single .engineHeader => 16
  | .single .playerCarry => 17
  | .single .entityRegistry => 18
  | .single .simulation => 19
  | .single .globalState => 20
  | .single .lightStyleTime => 21
  | .single .view => 22
  | .single .inventory => 23
  | .single .entityCombat => 24
  | .single .ai => 25
  | .single .projectiles => 26
  | .single .rng => 27
  | .sequence .moverState => 28
  | .sequence .makerChildren => 29
  | .single .rotatingMovers => 30
  | .sequence .momentaryDoors => 31
  | .sequence .breakables => 33
  | .single .teleportState => 34
  | .sequence .trainHandoverYaw => 35
  | .sequence .carriedEntities => 36
  | .sequence .platrots => 37
  | .sequence .ambients => 38
  | .sequence .switches => 39
  | .sequence .pathStates => 40
  | .sequence .bosses => 41
  | .single .projectileRuntime => 42
  | .single .mapEffects => 43
  | .single .tanks => 44
  | .single .chargerReservoirs => 45

def Section.order : List Section :=
  [.single .engineHeader, .single .playerCarry, .single .entityRegistry, .single .simulation, .single .globalState,
    .single .lightStyleTime, .single .view, .single .inventory, .single .entityCombat, .single .ai,
    .single .projectiles, .single .mapEffects, .single .tanks, .single .chargerReservoirs,
    .single .projectileRuntime, .single .rng, .sequence .moverState, .sequence .makerChildren,
    .single .rotatingMovers, .sequence .momentaryDoors, .sequence .breakables, .single .teleportState,
    .sequence .trainHandoverYaw, .sequence .platrots, .sequence .ambients, .sequence .switches,
    .sequence .pathStates, .sequence .bosses, .sequence .carriedEntities]

def Sequence.cap : Sequence → Nat
  | .carriedEntities => maxSnapshotCarriedDefs
  | .moverState | .makerChildren | .momentaryDoors | .breakables | .trainHandoverYaw | .platrots | .ambients | .switches
  | .pathStates | .bosses => maxSnapshotEntities

variable (P : Parts)

def Element : Sequence → Type
  | .carriedEntities => P.Value (.element .carriedEntities)
  | .moverState => Option (P.Value (.element .moverState))
  | .makerChildren => Option (P.Value (.element .makerChildren))
  | .momentaryDoors => Option (P.Value (.element .momentaryDoors))
  | .breakables => Option (P.Value (.element .breakables))
  | .trainHandoverYaw => Option (P.Value (.element .trainHandoverYaw))
  | .platrots => Option (P.Value (.element .platrots))
  | .ambients => Option (P.Value (.element .ambients))
  | .switches => Option (P.Value (.element .switches))
  | .pathStates => Option (P.Value (.element .pathStates))
  | .bosses => Option (P.Value (.element .bosses))

def Content : Section → Type
  | .single .engineHeader => EngineHeader P
  | .single .playerCarry => P.Value .player
  | .single .entityRegistry => P.Value .entities
  | .single .simulation => P.Value .simulation
  | .single .globalState => P.Value .globals
  | .single .lightStyleTime => P.Value .seconds
  | .single .view => P.Value .view
  | .single .inventory => P.Value .inventory
  | .single .entityCombat => P.Value .entityCombat
  | .single .ai => P.Value .ai
  | .single .projectiles => P.Value .projectiles
  | .single .mapEffects => MapEffectsSnapshot P
  | .single .tanks => TanksSnapshot P
  | .single .chargerReservoirs => ChargerReservoirsSnapshot P
  | .single .projectileRuntime => ProjectileRuntimeSnapshot P
  | .single .rng => P.Value .rng
  | .single .rotatingMovers => P.Value .rotatingMovers
  | .single .teleportState => P.Value .teleportState
  | .sequence sequence => List (Element P sequence)

structure GameSave where
  createdAtUnixSecs : UInt64
  header : EngineHeader P
  view : P.Value .view
  player : P.Value .player
  entities : P.Value .entities
  simulation : P.Value .simulation
  globals : P.Value .globals
  lightStyleTime : P.Value .seconds
  inventory : Option (P.Value .inventory)
  entityCombat : Option (P.Value .entityCombat)
  ai : Option (P.Value .ai)
  projectiles : Option (P.Value .projectiles)
  projectileRuntime : Option (ProjectileRuntimeSnapshot P)
  rng : Option (P.Value .rng)
  moverState : Option (List (Element P .moverState))
  makerChildren : Option (List (Element P .makerChildren))
  rotatingMovers : Option (P.Value .rotatingMovers)
  momentaryDoors : Option (List (Element P .momentaryDoors))
  breakables : Option (List (Element P .breakables))
  teleportState : Option (P.Value .teleportState)
  trainHandoverYaw : Option (List (Element P .trainHandoverYaw))
  platrots : Option (List (Element P .platrots))
  ambients : Option (List (Element P .ambients))
  switches : Option (List (Element P .switches))
  pathStates : Option (List (Element P .pathStates))
  bosses : Option (List (Element P .bosses))
  mapEffects : Option (MapEffectsSnapshot P)
  tanks : Option (TanksSnapshot P)
  chargerReservoirs : Option (ChargerReservoirsSnapshot P)
  carriedEntities : Option (List (Element P .carriedEntities))

def elementCodec : (sequence : Sequence) → Codec (Element P sequence)
  | .carriedEntities => Postcard.part P (.element .carriedEntities)
  | .moverState => (Postcard.part P (.element .moverState)).option
  | .makerChildren => (Postcard.part P (.element .makerChildren)).option
  | .momentaryDoors => (Postcard.part P (.element .momentaryDoors)).option
  | .breakables => (Postcard.part P (.element .breakables)).option
  | .trainHandoverYaw => (Postcard.part P (.element .trainHandoverYaw)).option
  | .platrots => (Postcard.part P (.element .platrots)).option
  | .ambients => (Postcard.part P (.element .ambients)).option
  | .switches => (Postcard.part P (.element .switches)).option
  | .pathStates => (Postcard.part P (.element .pathStates)).option
  | .bosses => (Postcard.part P (.element .bosses)).option

def singleCodec : (single : Single) → Codec (Content P (.single single))
  | .engineHeader => Postcard.engineHeader P
  | .playerCarry => Postcard.part P .player
  | .entityRegistry => Postcard.part P .entities
  | .simulation => Postcard.part P .simulation
  | .globalState => Postcard.part P .globals
  | .lightStyleTime => Postcard.part P .seconds
  | .view => Postcard.part P .view
  | .inventory => Postcard.part P .inventory
  | .entityCombat => Postcard.part P .entityCombat
  | .ai => Postcard.part P .ai
  | .projectiles => Postcard.part P .projectiles
  | .mapEffects => Postcard.mapEffects P
  | .tanks => Postcard.tanks P
  | .chargerReservoirs => Postcard.chargerReservoirs P
  | .projectileRuntime => Postcard.projectileRuntime P
  | .rng => Postcard.part P .rng
  | .rotatingMovers => Postcard.part P .rotatingMovers
  | .teleportState => Postcard.part P .teleportState

/-- The bytes of `postcard::to_allocvec`. -/
def encodeContent : (s : Section) → Content P s → List UInt8
  | .single single => (singleCodec P single).encode
  | .sequence sequence => (elementCodec P sequence).encodeAll

def writable : (s : Section) → Content P s → Bool
  | .single .mapEffects => MapEffectsSnapshot.withinLimits
  | .single .tanks => TanksSnapshot.withinLimits
  | .single .chargerReservoirs => ChargerReservoirsSnapshot.withinLimits
  | .single .projectileRuntime => ProjectileRuntimeSnapshot.withinLimits
  | _ => fun _ => true

variable {P}

def GameSave.stored (save : GameSave P) : (s : Section) → Option (Content P s)
  | .single .engineHeader => some save.header
  | .single .playerCarry => some save.player
  | .single .entityRegistry => some save.entities
  | .single .simulation => some save.simulation
  | .single .globalState => some save.globals
  | .single .lightStyleTime => some save.lightStyleTime
  | .single .view => some save.view
  | .single .inventory => save.inventory
  | .single .entityCombat => save.entityCombat
  | .single .ai => save.ai
  | .single .projectiles => save.projectiles
  | .single .mapEffects => save.mapEffects
  | .single .tanks => save.tanks
  | .single .chargerReservoirs => save.chargerReservoirs
  | .single .projectileRuntime => save.projectileRuntime
  | .single .rng => save.rng
  | .single .rotatingMovers => save.rotatingMovers
  | .single .teleportState => save.teleportState
  | .sequence .moverState => save.moverState
  | .sequence .makerChildren => save.makerChildren
  | .sequence .momentaryDoors => save.momentaryDoors
  | .sequence .breakables => save.breakables
  | .sequence .trainHandoverYaw => save.trainHandoverYaw
  | .sequence .carriedEntities => save.carriedEntities
  | .sequence .platrots => save.platrots
  | .sequence .ambients => save.ambients
  | .sequence .switches => save.switches
  | .sequence .pathStates => save.pathStates
  | .sequence .bosses => save.bosses

def GameSave.writeSection (save : GameSave P) (writer : SaveWriter) (s : Section) : Except SaveError SaveWriter :=
  match save.stored s with
  | none => .ok writer
  | some content =>
    if writable P s content then
      match (SaveWriter.addSection s.tag (encodeContent P s content)).exec writer with
      | (.ok _, writer) => .ok writer
      | (.error error, _) => .error error
    else .error .limitExceeded

section File

variable (digest : List UInt8 → Digest) (version : String)

def GameSave.containerHeader (save : GameSave P) : Header where
  gameVersion := version
  createdAtUnixSecs := save.createdAtUnixSecs
  mapIdentity := save.header.map
  title := save.header.chapterTitle.getD save.header.map
  thumbnail := []

def GameSave.toBytes (save : GameSave P) : Except EngineError (List UInt8) :=
  match Section.order.foldlM save.writeSection (SaveWriter.start (save.containerHeader version)) with
  | .error _ => .error .saveUnwritable
  | .ok writer =>
    match writer.finish digest defaultLimits with
    | .error _ => .error .saveUnwritable
    | .ok bytes => .ok bytes

/-- `section`. -/
def requiredSection (reader : SaveReader) (single : Single) : Except EngineError (Content P (.single single)) :=
  match reader.readSection (Section.single single).tag with
  | .error _ => .error .saveUnreadable
  | .ok bytes =>
    match (singleCodec P single).decode bytes with
    | some (content, []) => .ok content
    | _ => .error .saveUnreadable

def optionalSection (reader : SaveReader) (single : Single) :
    Except EngineError (Option (Content P (.single single))) :=
  match reader.readSection (Section.single single).tag with
  | .ok bytes =>
    match (singleCodec P single).decode bytes with
    | some (content, []) => .ok (some content)
    | _ => .error .saveUnreadable
  | .error .sectionNotFound => .ok none
  | .error _ => .error .saveUnreadable

def deserializeBoundedVec {α : Type} (element : Codec α) (bytes : List UInt8) (maxLen : Nat) : Option (List α) := do
  let (count, rest) ← Codec.varint.decode bytes
  match ← Codec.elements element maxLen count [] rest with
  | (values, []) => some values
  | _ => none

def optionalBoundedSeqSection (reader : SaveReader) (sequence : Sequence) :
    Except EngineError (Option (List (Element P sequence))) :=
  match reader.readSection (Section.sequence sequence).tag with
  | .ok bytes =>
    match deserializeBoundedVec (elementCodec P sequence) bytes sequence.cap with
    | some values => .ok (some values)
    | none => .error .saveUnreadable
  | .error .sectionNotFound => .ok none
  | .error _ => .error .saveUnreadable

def GameSave.assemble (reader : SaveReader) (chargerReservoirs : Option (ChargerReservoirsSnapshot P)) :
    Except EngineError (GameSave P) := do
  let header ← requiredSection reader .engineHeader
  let view ← requiredSection reader .view
  let player ← requiredSection reader .playerCarry
  let entities ← requiredSection reader .entityRegistry
  let simulation ← requiredSection reader .simulation
  let globals ← requiredSection reader .globalState
  let lightStyleTime ← requiredSection reader .lightStyleTime
  let inventory ← optionalSection reader .inventory
  let entityCombat ← optionalSection reader .entityCombat
  let ai ← optionalSection reader .ai
  let projectiles ← optionalSection reader .projectiles
  let projectileRuntime ← optionalSection reader .projectileRuntime
  let mapEffects ← optionalSection reader .mapEffects
  let tanks ← optionalSection reader .tanks
  let rng ← optionalSection reader .rng
  let moverState ← optionalBoundedSeqSection reader .moverState
  let makerChildren ← optionalBoundedSeqSection reader .makerChildren
  let rotatingMovers ← optionalSection reader .rotatingMovers
  let momentaryDoors ← optionalBoundedSeqSection reader .momentaryDoors
  let breakables ← optionalBoundedSeqSection reader .breakables
  let teleportState ← optionalSection reader .teleportState
  let trainHandoverYaw ← optionalBoundedSeqSection reader .trainHandoverYaw
  let carriedEntities ← optionalBoundedSeqSection reader .carriedEntities
  let platrots ← optionalBoundedSeqSection reader .platrots
  let ambients ← optionalBoundedSeqSection reader .ambients
  let switches ← optionalBoundedSeqSection reader .switches
  let pathStates ← optionalBoundedSeqSection reader .pathStates
  let bosses ← optionalBoundedSeqSection reader .bosses
  return {
    createdAtUnixSecs := reader.header.createdAtUnixSecs
    header, view, player, entities, simulation, globals, lightStyleTime, inventory, entityCombat, ai, projectiles,
    projectileRuntime, mapEffects, tanks, chargerReservoirs, rng, moverState, makerChildren, rotatingMovers,
    momentaryDoors, breakables, teleportState, trainHandoverYaw, carriedEntities, platrots, ambients, switches,
    pathStates, bosses }

def GameSave.fromBytes (bytes : List UInt8) : Except EngineError (GameSave P) :=
  match SaveReader.openFile digest bytes defaultLimits with
  | .error _ => .error .saveUnreadable
  | .ok reader => do
    let chargerReservoirs ← optionalSection reader .chargerReservoirs
    if chargerReservoirs.any fun chargers => !ChargerReservoirsSnapshot.withinLimits chargers then
      .error .saveUnreadable
    else GameSave.assemble reader chargerReservoirs

end File

end OpenHalfLife.Save
