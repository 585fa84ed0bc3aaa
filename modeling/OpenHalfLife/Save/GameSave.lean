import OpenHalfLife.Lib.Postcard
import OpenHalfLife.Save.RoundTrip

/-! # The engine's save

What goes into the sections of a container. The types that the engine only
passes on are parameters, each with its codec and its own check of its numbers.
-/

namespace OpenHalfLife.Save

set_option autoImplicit false

inductive EngineError
  | saveUnwritable
  | saveUnreadable
  deriving DecidableEq

inductive Sequence
  | moverState
  | makerChildren
  | momentaryDoors
  | breakables
  | trainHandoverYaw
  | carriedEntities
  | platrots
  | ambients
  | switches
  | pathStates
  | bosses
  deriving DecidableEq

inductive Part
  | settings
  | player
  | entities
  | simulation
  | globals
  | seconds
  | view
  | inventory
  | entityCombat
  | ai
  | projectiles
  | rng
  | rotatingMovers
  | teleportState
  | attack
  | deployableOwner
  | secondaryCooldown
  | playerControls
  | commandHead
  | explosion
  | shake
  | fade
  | breakHead
  | debrisBody
  | debrisCounters
  | consumedExplosion
  | renderFx
  | activeOverride
  | pendingUse
  | buttonActivator
  | tankState
  | mountedTank
  | tankIntent
  | tankProjectile
  | reservoir
  | element (sequence : Sequence)

structure Parts where
  Value : Part → Type
  codec : (part : Part) → Codec.Exact (Value part)
  valid : (part : Part) → Value part → Bool

def maxSnapshotEntities : Nat := 65536

def maxSnapshotProjectiles : Nat := 128

def maxSnapshotDeployables : Nat := 5

def maxSnapshotCarriedDefs : Nat := 256

def maxPendingEffects : Nat := 4096

def maxDebris : Nat := 128

def maxRegistryOverrides : Nat := 8192

def maxTanks : Nat := 256

def maxSnapshotChargers : Nat := 256

def chargerReservoirsVersion : UInt8 := 1

/-! ## Model references -/

def isControl (c : Char) : Bool := c.toNat < 0x20 || (0x7f ≤ c.toNat && c.toNat < 0xa0)

def isWhitespace (c : Char) : Bool :=
  (9 ≤ c.toNat && c.toNat ≤ 13) || (0x2000 ≤ c.toNat && c.toNat ≤ 0x200a) ||
    [0x20, 0x85, 0xa0, 0x1680, 0x2028, 0x2029, 0x202f, 0x205f, 0x3000].contains c.toNat

def trim (text : List Char) : List Char :=
  ((text.dropWhile isWhitespace).reverse.dropWhile isWhitespace).reverse

def relative (text : List Char) : Bool :=
  !text.isEmpty && (utf8 (String.ofList text)).length ≤ 260 && !text.contains ':' && !text.any isControl &&
    (text.splitOn '/').all fun part => !part.isEmpty && part != ['.'] && part != ['.', '.']

def validModel (model : String) : Bool := relative model.toList && !model.toList.contains '\\'

def sanitizedModel (value : String) : Option String :=
  let text := (trim value.toList).map fun c => if c = '\\' then '/' else c
  if relative text then some (String.ofList text) else none

namespace Postcard

def string : Codec String where
  encode value := Codec.blob.encode (utf8 value)
  decode bytes := do
    let (text, rest) ← Codec.blob.decode bytes
    let value ← fromUtf8 text
    return (value, rest)

end Postcard

variable (P : Parts)

/-! ## The sections with checks of their own -/

/-- `settings` are the difficulty and the time. -/
structure EngineHeader where
  map : String
  chapterTitle : Option String
  settings : P.Value .settings

structure ProjectileRuntimeSnapshot where
  attacks : List (P.Value .attack)
  deployableOwners : List (P.Value .deployableOwner)
  secondaryCooldowns : List (P.Value .secondaryCooldown)
  playerControls : P.Value .playerControls

inductive MapEffect
  | explosion (definition : P.Value .explosion)
  | shake (definition : P.Value .shake)
  | fade (definition : P.Value .fade)
  | breaking (command : P.Value .breakHead) (gibModel : Option String)

structure MapEffectCommand where
  head : P.Value .commandHead
  effect : MapEffect P

structure DebrisRecord where
  body : P.Value .debrisBody
  gibModel : Option String

structure MapEffectsSnapshot where
  pending : List (MapEffectCommand P)
  debris : List (DebrisRecord P)
  counters : P.Value .debrisCounters
  consumedExplosions : List (P.Value .consumedExplosion)
  renderFx : List (P.Value .renderFx)
  activeOverrides : List (P.Value .activeOverride)
  pendingUses : List (P.Value .pendingUse)
  buttonActivators : List (P.Value .buttonActivator)

structure TanksSnapshot where
  states : List (P.Value .tankState)
  mounted : Option (P.Value .mountedTank)
  pendingRemote : Option (P.Value .tankIntent)
  pendingUse : Option (P.Value .tankIntent)
  projectiles : List (P.Value .tankProjectile)

structure ChargerReservoirEntry where
  registryIndex : UInt32
  reservoir : P.Value .reservoir

structure ChargerReservoirsSnapshot where
  version : UInt8
  entries : List (ChargerReservoirEntry P)

variable {P}

def ProjectileRuntimeSnapshot.withinLimits (runtime : ProjectileRuntimeSnapshot P) : Bool :=
  runtime.attacks.length ≤ maxSnapshotProjectiles && runtime.deployableOwners.length ≤ maxSnapshotDeployables * 2 &&
    runtime.secondaryCooldowns.length ≤ maxSnapshotEntities

def MapEffectCommand.isValid (command : MapEffectCommand P) : Bool :=
  P.valid .commandHead command.head &&
    match command.effect with
    | .explosion definition => P.valid .explosion definition
    | .shake definition => P.valid .shake definition
    | .fade definition => P.valid .fade definition
    | .breaking command gibModel =>
      P.valid .breakHead command && gibModel.all fun model => sanitizedModel model == some model

def DebrisRecord.isValid (record : DebrisRecord P) : Bool :=
  P.valid .debrisBody record.body && record.gibModel.all validModel

def MapEffectsSnapshot.withinLimits (effects : MapEffectsSnapshot P) : Bool :=
  effects.pending.length ≤ maxPendingEffects && effects.debris.length ≤ maxDebris &&
    effects.consumedExplosions.length ≤ maxRegistryOverrides && effects.renderFx.length ≤ maxRegistryOverrides &&
    effects.activeOverrides.length ≤ maxRegistryOverrides && effects.pendingUses.length ≤ maxPendingEffects &&
    effects.buttonActivators.length ≤ maxPendingEffects && effects.pending.all MapEffectCommand.isValid &&
    effects.debris.all DebrisRecord.isValid

def TanksSnapshot.withinLimits (tanks : TanksSnapshot P) : Bool :=
  tanks.states.length ≤ maxTanks && tanks.projectiles.length ≤ maxSnapshotProjectiles &&
    tanks.states.all (P.valid .tankState) && tanks.mounted.all (P.valid .mountedTank)

def ChargerReservoirsSnapshot.withinLimits (chargers : ChargerReservoirsSnapshot P) : Bool :=
  chargers.version == chargerReservoirsVersion && chargers.entries.length ≤ maxSnapshotChargers &&
    (chargers.entries.zip chargers.entries.tail).all (fun pair => pair.1.registryIndex < pair.2.registryIndex) &&
    chargers.entries.all fun entry =>
      entry.registryIndex.toNat < maxSnapshotEntities && P.valid .reservoir entry.reservoir

/-! ## Their codecs -/

namespace Postcard

variable (P)

def part (part : Part) : Codec (P.Value part) := (P.codec part).toCodec

def word32 : Codec UInt32 :=
  (Codec.varint.guarded fun value => value < 2 ^ 32).view UInt32.ofNat UInt32.toNat

def engineHeader : Codec (EngineHeader P) :=
  (string.pair (string.option.pair (part P .settings))).view
    (fun (map, chapterTitle, settings) => ⟨map, chapterTitle, settings⟩)
    fun header => (header.map, header.chapterTitle, header.settings)

def projectileRuntime : Codec (ProjectileRuntimeSnapshot P) :=
  (((part P .attack).bounded maxSnapshotProjectiles).pair
    (((part P .deployableOwner).bounded (maxSnapshotDeployables * 2)).pair
      (((part P .secondaryCooldown).bounded maxSnapshotEntities).pair (part P .playerControls)))).view
    (fun (attacks, owners, cooldowns, controls) => ⟨attacks, owners, cooldowns, controls⟩)
    fun runtime =>
      (runtime.attacks, runtime.deployableOwners, runtime.secondaryCooldowns, runtime.playerControls)

/-- `bounded_gib_model`. -/
def gibModel : Codec (Option String) :=
  (string.guarded fun model => (utf8 model).length ≤ 260 && sanitizedModel model == some model).option

/-- `bounded_model`. -/
def model : Codec (Option String) := (string.guarded validModel).option

def mapEffect : Codec (MapEffect P) where
  encode
    | .explosion definition => Codec.varint.encode 0 ++ (part P .explosion).encode definition
    | .shake definition => Codec.varint.encode 1 ++ (part P .shake).encode definition
    | .fade definition => Codec.varint.encode 2 ++ (part P .fade).encode definition
    | .breaking command model =>
      Codec.varint.encode 3 ++ ((part P .breakHead).pair gibModel).encode (command, model)
  decode bytes := do
    match ← Codec.varint.decode bytes with
    | (0, rest) => ((part P .explosion).decode rest).map fun (value, rest) => (.explosion value, rest)
    | (1, rest) => ((part P .shake).decode rest).map fun (value, rest) => (.shake value, rest)
    | (2, rest) => ((part P .fade).decode rest).map fun (value, rest) => (.fade value, rest)
    | (3, rest) =>
      (((part P .breakHead).pair gibModel).decode rest).map fun ((command, model), rest) =>
        (.breaking command model, rest)
    | _ => none

def mapEffectCommand : Codec (MapEffectCommand P) :=
  ((part P .commandHead).pair (mapEffect P)).view (fun (head, effect) => ⟨head, effect⟩)
    fun command => (command.head, command.effect)

def debrisRecord : Codec (DebrisRecord P) :=
  ((part P .debrisBody).pair model).view (fun (body, model) => ⟨body, model⟩)
    fun record => (record.body, record.gibModel)

def mapEffects : Codec (MapEffectsSnapshot P) :=
  (((mapEffectCommand P).bounded maxPendingEffects).pair
    (((debrisRecord P).bounded maxDebris).pair
      ((part P .debrisCounters).pair
        (((part P .consumedExplosion).bounded maxRegistryOverrides).pair
          (((part P .renderFx).bounded maxRegistryOverrides).pair
            (((part P .activeOverride).bounded maxRegistryOverrides).pair
              (((part P .pendingUse).bounded maxPendingEffects).pair
                ((part P .buttonActivator).bounded maxPendingEffects)))))))).view
    (fun (pending, debris, counters, consumed, fx, active, uses, activators) =>
      ⟨pending, debris, counters, consumed, fx, active, uses, activators⟩)
    fun effects =>
      (effects.pending, effects.debris, effects.counters, effects.consumedExplosions, effects.renderFx,
        effects.activeOverrides, effects.pendingUses, effects.buttonActivators)

def tanks : Codec (TanksSnapshot P) :=
  (((part P .tankState).bounded maxTanks).pair
    ((part P .mountedTank).option.pair
      ((part P .tankIntent).option.pair
        ((part P .tankIntent).option.pair ((part P .tankProjectile).bounded maxSnapshotProjectiles))))).view
    (fun (states, mounted, remote, use, projectiles) => ⟨states, mounted, remote, use, projectiles⟩)
    fun tanks => (tanks.states, tanks.mounted, tanks.pendingRemote, tanks.pendingUse, tanks.projectiles)

def chargerReservoirEntry : Codec (ChargerReservoirEntry P) :=
  (word32.pair (part P .reservoir)).view (fun (index, reservoir) => ⟨index, reservoir⟩)
    fun entry => (entry.registryIndex, entry.reservoir)

def chargerReservoirs : Codec (ChargerReservoirsSnapshot P) :=
  (Codec.byte.pair ((chargerReservoirEntry P).bounded maxSnapshotChargers)).view
    (fun (version, entries) => ⟨version, entries⟩) fun chargers => (chargers.version, chargers.entries)

end Postcard

end OpenHalfLife.Save
