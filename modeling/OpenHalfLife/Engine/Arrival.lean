import Mathlib.Data.List.Induction
import OpenHalfLife.Engine.Carried

/-! # What a level change leaves

The carried entities the destination declares go onto the entities it declares; the others are added
one by one, each with its own state; entities with a retired name are gone.
-/

namespace OpenHalfLife.Engine

open OpenHalfLife.Game

set_option autoImplicit false

variable {K : Type} {parts : Parts}

namespace World

variable (world : World K parts) {entity : Entity} {body : Body K parts}

theorem get_eq_some_iff : world.get entity = some body ↔ (entity, body) ∈ world.rows := by
  constructor
  · intro h
    obtain ⟨row, hRow, rfl⟩ := Option.map_eq_some_iff.mp h
    have hEntity : row.1 = entity := by simpa using List.find?_some hRow
    rw [← hEntity]
    exact List.mem_of_find?_eq_some hRow
  · intro h
    have hDistinct : (world.rows.map Prod.fst).Nodup := world.ascending.imp fun hLt => hLt.ne
    obtain ⟨row, hRow⟩ : ∃ row, world.rows.find? (fun row => row.1 = entity) = some row := by
      rw [← Option.isSome_iff_exists, List.find?_isSome]
      exact ⟨_, h, by simp⟩
    have hEntity : row.1 = entity := by simpa using List.find?_some hRow
    have hSame := List.inj_on_of_nodup_map hDistinct (List.mem_of_find?_eq_some hRow) h hEntity
    rw [get, hRow, hSame]
    rfl

theorem mem_namings_iff {naming : Naming} :
    (entity, naming) ∈ world.namings ↔ ∃ body, world.get entity = some body ∧ body.naming = naming := by
  rw [namings, List.mem_map]
  constructor
  · rintro ⟨⟨other, body⟩, hRow, hSame⟩
    cases hSame
    exact ⟨body, world.get_eq_some_iff.mpr hRow, rfl⟩
  · rintro ⟨body, hGet, rfl⟩
    exact ⟨(entity, body), world.get_eq_some_iff.mp hGet, rfl⟩

theorem get_despawnAll (entities : List Entity) (world : World K parts) :
    (entities.foldl World.despawn world).get entity = if entity ∈ entities then none else world.get entity := by
  induction entities generalizing world with
  | nil => rfl
  | cons first rest ih =>
    rw [List.foldl_cons, ih]
    by_cases hRest : entity ∈ rest
    · rw [if_pos hRest, if_pos (List.mem_cons_of_mem _ hRest)]
    · rw [if_neg hRest]
      by_cases hFirst : entity = first
      · rw [hFirst, get_despawn_self, if_pos List.mem_cons_self]
      · rw [get_despawn _ hFirst, if_neg (by simp [hFirst, hRest])]

end World

variable [Field K] [LinearOrder K]

namespace TransitionState

/-- The table has retired the entity's `globalname`. -/
def isRetired (globals : List (Name × GlobalStateValue)) (body : Body K parts) : Bool :=
  body.globalName.any (isDead globals)

omit [Field K] [LinearOrder K] in
theorem get_removeDead (globals : List (Name × GlobalStateValue)) (level : Level K parts) (entity : Entity) :
    (removeDead globals level).registry.world.get entity =
      (level.registry.world.get entity).filter fun body => !isRetired globals body := by
  rw [removeDead]
  dsimp only
  rw [World.get_despawnAll]
  cases hGet : level.registry.world.get entity with
  | none =>
    rw [ite_self]
    rfl
  | some body =>
    have hMem : entity ∈ (level.registry.world.rows.filter fun row => row.2.globalName.any (isDead globals)).map Prod.fst ↔
        isRetired globals body := by
      rw [List.mem_map]
      constructor
      · rintro ⟨⟨other, found⟩, hFound, rfl⟩
        obtain ⟨hRow, hDead⟩ := List.mem_filter.mp hFound
        have hSame := hGet.symm.trans (level.registry.world.get_eq_some_iff.mpr hRow)
        cases hSame
        exact hDead
      · intro hDead
        exact ⟨(entity, body), List.mem_filter.mpr ⟨level.registry.world.get_eq_some_iff.mp hGet, hDead⟩, rfl⟩
    by_cases hDead : isRetired globals body
    · rw [if_pos (hMem.mpr hDead)]
      exact (Option.filter_some_neg (by simpa using hDead)).symm
    · rw [if_neg (hMem.not.mpr hDead)]
      exact (Option.filter_some_pos (by simpa using hDead)).symm

theorem seatRider_get (state : TransitionState K parts) (origin : Option (Vec3 K)) (level : Level K parts) :
    (state.seatRider origin level).defs = level.defs ∧
      (state.seatRider origin level).registry.entities = level.registry.entities ∧
      ∃ change : Entity → Body K parts → Body K parts,
        (∀ entity, (state.seatRider origin level).registry.world.get entity =
          (level.registry.world.get entity).map (change entity)) ∧
        ∀ entity body, (change entity body).naming = body.naming ∧
          (body.trackTrainState = none → change entity body = body) := by
  have hStill : ∃ change : Entity → Body K parts → Body K parts,
      (∀ entity, level.registry.world.get entity = (level.registry.world.get entity).map (change entity)) ∧
      ∀ entity body, (change entity body).naming = body.naming ∧
        (body.trackTrainState = none → change entity body = body) :=
    ⟨fun _ body => body, fun _ => Option.map_id'.symm, fun _ _ => ⟨rfl, fun _ => rfl⟩⟩
  rw [seatRider]
  split
  · exact ⟨rfl, rfl, hStill⟩
  · split
    · exact ⟨rfl, rfl, hStill⟩
    · split
      · exact ⟨rfl, rfl, hStill⟩
      · rename_i rider _ _ entity _
        obtain ⟨change, hGet, hEither⟩ := level.registry.world.get_modify entity _
        refine ⟨rfl, rfl, change, hGet, fun other body => ?_⟩
        rcases hEither other body with hSame | hSame
        · rw [hSame]
          exact ⟨rfl, fun _ => rfl⟩
        · rw [hSame]
          constructor
          · split
            · split <;> rfl
            · rfl
          · intro hNone
            simp only [hNone]

structure Loaded (level : Level K parts) : Prop where
  aligned : level.defs.length = level.registry.entities.length
  given : ∀ entity ∈ level.registry.entities, entity < level.registry.world.next
  described : ∀ (i : Nat) definition entity body, level.defs[i]? = some definition →
    level.registry.entities[i]? = some entity → level.registry.world.get entity = some body →
      body.naming = definition.naming
  indexed : Indexed level

theorem movers_same (level : Level K parts) (movers : List (MoverSnapshot K parts)) :
    SameNames level (movers.foldl applyMover level) := by
  induction movers generalizing level with
  | nil => exact SameNames.refl level
  | cons mover movers ih =>
    have hFirst := foldl_touches (mergeNamed_touches mover.snapshot mover.platrot) level
      (level.registry.find mover.targetname)
    exact hFirst.toSameNames.trans (ih (applyMover level mover))

omit [Field K] [LinearOrder K] in
theorem SameNames.indexed {level current : Level K parts} (h : SameNames level current) (hIndexed : Indexed level) :
    Indexed current := by
  intro name
  rw [Registry.find, h.nameIndex, h.namings]
  exact hIndexed name

/-- The carried entities the destination declares nothing for, and that can be made anew. -/
def created (state : TransitionState K parts) (level : Level K parts) : List (CarriedEntity K parts) :=
  state.entities.filter (isCreated level)

structure Arrives (reading : Reading K) (origin : Vec3 K) (state : TransitionState K parts)
    (level after : Level K parts) : Prop where
  /-- Every carried entity goes where the destination as it was loaded says. -/
  settled : after = state.seatRider (some origin) (removeDead state.globals
    (state.entities.foldl (settle reading origin level) (state.movers.foldl applyMover level)))
  added : after.registry.entities =
    level.registry.entities ++ List.range' level.registry.world.next (state.created level).length
  aligned : after.defs.length = after.registry.entities.length
  described : ∀ (i : Nat) definition entity body, after.defs[i]? = some definition →
    after.registry.entities[i]? = some entity → after.registry.world.get entity = some body →
      body.naming = definition.naming
  made : ∀ (i : Nat) carried, (state.created level)[i]? = some carried →
    after.registry.world.get (level.registry.world.next + i) =
      (some (madeBody reading origin carried)).filter fun body => !isRetired state.globals body
  placed : ∀ carried ∈ state.created level,
    (madeBody reading origin carried).className = carried.classname ∧
      (madeBody reading origin carried).transform.map Transform.origin = some (landing origin carried)
  /-- No other entity appears, and none is gone but for a retired name. -/
  others : ∀ entity < level.registry.world.next, (after.registry.world.get entity).isSome ↔
    ∃ body, level.registry.world.get entity = some body ∧ !isRetired state.globals body
  noMore : ∀ entity, level.registry.world.next + (state.created level).length ≤ entity →
    after.registry.world.get entity = none

omit [Field K] [LinearOrder K] in
theorem isRetired_congr {globals : List (Name × GlobalStateValue)} {body other : Body K parts}
    (h : body.naming = other.naming) : isRetired globals body = isRetired globals other := by
  have hName : body.globalName = other.globalName := congrArg Naming.globalName h
  rw [isRetired, isRetired, hName]

theorem Grown.naming_old {reading : Reading K} {origin : Vec3 K} {level current : Level K parts}
    {made : List (CarriedEntity K parts)} (h : Grown reading origin level made current) {entity : Entity}
    (hOld : entity < level.registry.world.next) (naming : Naming) :
    (∃ body, current.registry.world.get entity = some body ∧ body.naming = naming) ↔
      ∃ body, level.registry.world.get entity = some body ∧ body.naming = naming := by
  rw [← World.mem_namings_iff, ← World.mem_namings_iff, h.namings, List.mem_append]
  refine or_iff_left fun hNew => ?_
  have hIndex := (List.mem_range'_1.mp (List.of_mem_zip hNew).1).1
  exact hOld.not_ge hIndex

theorem Grown.get_beyond {reading : Reading K} {origin : Vec3 K} {level current : Level K parts}
    {made : List (CarriedEntity K parts)} (h : Grown reading origin level made current) {entity : Entity}
    (hNew : level.registry.world.next + made.length ≤ entity) : current.registry.world.get entity = none := by
  cases hGet : current.registry.world.get entity with
  | none => rfl
  | some body =>
    have hBelow := current.registry.world.below _ (current.registry.world.get_eq_some_iff.mp hGet)
    rw [h.next] at hBelow
    exact absurd hNew hBelow.not_ge

theorem Grown.of_same {reading : Reading K} {origin : Vec3 K} {level moved current : Level K parts}
    {made : List (CarriedEntity K parts)} (hSame : SameNames level moved) (h : Grown reading origin moved made current) :
    Grown reading origin level made current := by
  obtain ⟨hDefs, hEntities, hNext, hNamings, hIndex, hBodies⟩ := h
  rw [hSame.defs] at hDefs
  rw [hSame.entities, hSame.next] at hEntities
  rw [hSame.next] at hNext hBodies
  rw [hSame.namings, hSame.next] at hNamings
  refine ⟨hDefs, hEntities, hNext, hNamings, fun name hName => ?_, hBodies⟩
  rw [hIndex name hName, Registry.find, hSame.nameIndex]
  rfl

theorem madeBody_naming (reading : Reading K) (origin : Vec3 K) (carried : CarriedEntity K parts) :
    (madeBody reading origin carried).naming = (definitionOf reading origin carried).naming := rfl

/-- Removing the retired and seating the rider leave the rest as it was, but for a heading. -/
structure Finished (globals : List (Name × GlobalStateValue)) (current after : Level K parts) : Prop where
  defs : after.defs = current.defs
  entities : after.registry.entities = current.registry.entities
  alive : ∀ entity, (after.registry.world.get entity).isSome ↔
    ∃ body, current.registry.world.get entity = some body ∧ !isRetired globals body
  naming : ∀ entity body, after.registry.world.get entity = some body →
    ∃ was, current.registry.world.get entity = some was ∧ body.naming = was.naming
  still : ∀ entity body, current.registry.world.get entity = some body → body.trackTrainState = none →
    after.registry.world.get entity = (some body).filter fun body => !isRetired globals body

theorem finished (state : TransitionState K parts) (origin : Option (Vec3 K)) (current : Level K parts) :
    Finished state.globals current (state.seatRider origin (removeDead state.globals current)) := by
  obtain ⟨hDefs, hEntities, change, hGet, hChange⟩ := state.seatRider_get origin (removeDead state.globals current)
  simp only [get_removeDead] at hGet
  refine ⟨hDefs, hEntities, fun entity => ?_, fun entity body hBody => ?_, fun entity body hBody hStill => ?_⟩
  · rw [hGet, Option.isSome_map, Option.isSome_iff_exists]
    exact exists_congr fun body => Option.filter_eq_some_iff
  · rw [hGet, Option.map_eq_some_iff] at hBody
    obtain ⟨was, hWas, rfl⟩ := hBody
    exact ⟨was, (Option.filter_eq_some_iff.mp hWas).1, (hChange entity was).1⟩
  · rw [hGet, hBody]
    cases hRetired : isRetired state.globals body with
    | true =>
      rw [Option.filter_some_neg (by rw [hRetired]; rfl)]
      rfl
    | false =>
      rw [Option.filter_some_pos (by rw [hRetired]; rfl), Option.map_some, (hChange entity body).2 hStill]

end TransitionState

open TransitionState

def plainParts : Parts := ⟨Unit, Unit, Unit, Unit⟩

def noReading : Reading ℚ := ⟨fun _ => none, fun _ => none⟩

def blankDef (classname : Name) (targetname : Option Name) (origin : Vec3 ℚ) : EntityDef ℚ :=
  ⟨classname, [], origin, ⟨0, 0, 0⟩, targetname, none, 0⟩

def blankSnapshot : EntitySnapshot ℚ plainParts := ⟨none, none, none, none, none, none, none, none, none, none⟩

def landmarkDef : EntityDef ℚ := blankDef [76] (some [109]) ⟨100, 0, 0⟩

def guardDef : EntityDef ℚ := blankDef [71] (some [103]) ⟨0, 50, 0⟩

def destinationWorld : World ℚ plainParts where
  rows := [(0, { bodyOf landmarkDef with landmark := true }), (1, bodyOf guardDef)]
  next := 2
  ascending := by decide
  below := by decide

def destination : Level ℚ plainParts where
  defs := [landmarkDef, guardDef]
  registry :=
    { world := destinationWorld
      nameIndex := fun name =>
        ((destinationWorld.namings.filter fun row => row.2.targetName = some name).map Prod.fst).take maxEntitiesPerName
      newunit := none
      entities := [0, 1] }

def traveller (targetname globalname : Option Name) : CarriedEntity ℚ plainParts :=
  ⟨[77], targetname, globalname, none, some ⟨5, 0, 0⟩, blankSnapshot, none, none, []⟩

def guardAndScout : TransitionState ℚ plainParts :=
  ⟨[109], none, [traveller (some [103]) none, traveller (some [115]) none], [], [], none⟩

theorem destination_loaded : Loaded destination := by
  refine ⟨rfl, by decide, ?_, fun _ => rfl⟩
  intro i definition entity body hDefinition hEntity hBody
  rcases i with _ | _ | i
  · cases hDefinition
    cases hEntity
    cases hBody
    rfl
  · cases hDefinition
    cases hEntity
    cases hBody
    rfl
  · cases hDefinition

theorem traveller_fits (targetname : Option Name) (hName : targetname = some [103] ∨ targetname = some [115]) :
    (traveller targetname none).Fits (landing ⟨100, 0, 0⟩ (traveller targetname none))
      (facing (traveller targetname none)) := by
  rcases hName with rfl | rfl
  · refine ⟨by decide +kernel, by decide +kernel, ?_, nofun, by decide +kernel⟩
    rintro _ ⟨⟩
    decide
  · refine ⟨by decide +kernel, by decide +kernel, ?_, nofun, by decide +kernel⟩
    rintro _ ⟨⟩
    decide

def retiring : TransitionState ℚ plainParts :=
  ⟨[109], none, [traveller none (some [120])], [([120], .dead)], [], none⟩

end OpenHalfLife.Engine
