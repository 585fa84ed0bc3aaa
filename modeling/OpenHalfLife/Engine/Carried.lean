import OpenHalfLife.Engine.Transition

/-! # Carried entities

The counterparts of a carried entity are looked up in a registry that grows as others are created.
As long as none shares a name with one created before it, the lookups say what they would have said
of the map as it was loaded.
-/

namespace OpenHalfLife.Engine

open OpenHalfLife.Game

set_option autoImplicit false

section Pairs

variable {V : Type} {key other : Name} (value : V) (pairs : List (Name × V))

theorem lookup_cons (pair : Name × V) :
    lookup key (pair :: pairs) = if pair.1 = key then some pair.2 else lookup key pairs := by
  rw [lookup, List.find?_cons]
  by_cases h : pair.1 = key
  · simp [h]
  · simp [h, lookup]

theorem lookup_insert_same : lookup key (insert key value pairs) = some value := by
  induction pairs with
  | nil => rw [insert, lookup_cons, if_pos rfl]
  | cons pair rest ih =>
    rw [insert]
    split
    · rw [lookup_cons, if_pos rfl]
    · rename_i hOther
      split
      · rw [lookup_cons, if_pos rfl]
      · rw [lookup_cons, if_neg hOther, ih]

theorem lookup_insert_other (h : other ≠ key) : lookup other (insert key value pairs) = lookup other pairs := by
  induction pairs with
  | nil => rw [insert, lookup_cons, if_neg h.symm]
  | cons pair rest ih =>
    rw [insert]
    split
    · rename_i hKey
      rw [lookup_cons, lookup_cons, if_neg h.symm, if_neg fun hSame => h (hSame.symm.trans hKey)]
    · split
      · rw [lookup_cons, if_neg h.symm]
      · rw [lookup_cons, lookup_cons, ih]

theorem lookup_remove_other (h : other ≠ key) : lookup other (remove key pairs) = lookup other pairs := by
  induction pairs with
  | nil => rfl
  | cons pair rest ih =>
    rw [remove] at ih ⊢
    by_cases hKey : pair.1 = key
    · rw [List.filter_cons_of_neg (by simpa using hKey), lookup_cons, ih,
        if_neg fun hSame => h (hSame.symm.trans hKey)]
    · rw [List.filter_cons_of_pos (by simpa using hKey), lookup_cons, lookup_cons, ih]

theorem lookup_remove_same : lookup key (remove key pairs) = none := by
  rw [lookup, Option.map_eq_none_iff, List.find?_eq_none]
  intro pair hPair
  have hKept := (List.mem_filter.mp hPair).2
  simpa using hKept

theorem lookup_kept {W : Type} (keeps : Name → Bool) (change : V → W) (h : keeps key = true) :
    lookup key ((pairs.filter fun pair => keeps pair.1).map fun pair => (pair.1, change pair.2)) =
      (lookup key pairs).map change := by
  induction pairs with
  | nil => rfl
  | cons pair rest ih =>
    rw [lookup_cons, List.filter_cons]
    by_cases hKey : pair.1 = key
    · rw [hKey, if_pos h, if_pos rfl, List.map_cons, lookup_cons, if_pos hKey]
      rfl
    · rw [if_neg hKey]
      split
      · rw [List.map_cons, lookup_cons, if_neg hKey, ih]
      · exact ih

end Pairs

namespace CarriedEntity

variable {K : Type} {key other : Name}

theorem lookup_setName_same (value : Option Name) (pairs : List (Name × Value K)) :
    lookup key (setName key value pairs) = value.map Value.text := by
  cases value with
  | none => exact lookup_remove_same pairs
  | some bytes => exact lookup_insert_same _ pairs

theorem lookup_setName_other (value : Option Name) (pairs : List (Name × Value K)) (h : other ≠ key) :
    lookup other (setName key value pairs) = lookup other pairs := by
  cases value with
  | none => exact lookup_remove_other pairs h
  | some bytes => exact lookup_insert_other _ pairs h

variable [Field K] [LinearOrder K] {parts : Parts} (carried : CarriedEntity K parts) (position angles : Vec3 K)

omit [Field K] [LinearOrder K] in
theorem lookup_pairs (hModel : other ≠ modelKey) (hAngle : other ≠ angleKey) (hTargetname : other ≠ targetnameKey)
    (hTarget : other ≠ targetKey) (hGlobalname : other ≠ globalnameKey) :
    lookup other (carried.pairs position angles) =
      lookup other (insert anglesKey (.vector angles) (insert originKey (.vector position)
        (insert classnameKey (.text carried.classname)
          (carried.keyvalues.foldl (fun pairs pair => insert pair.1 (Value.text pair.2) pairs) [])))) := by
  rw [pairs, lookup_setName_other _ _ hGlobalname, lookup_setName_other _ _ hTarget,
    lookup_setName_other _ _ hTargetname]
  split
  · rw [lookup_remove_other _ hModel, lookup_remove_other _ hAngle]
  · rw [lookup_remove_other _ hAngle]

theorem classnameKey_apart : classnameKey ≠ modelKey ∧ classnameKey ≠ angleKey ∧ classnameKey ≠ targetnameKey ∧
    classnameKey ≠ targetKey ∧ classnameKey ≠ globalnameKey ∧ classnameKey ≠ anglesKey ∧ classnameKey ≠ originKey := by
  decide +kernel

theorem originKey_apart : originKey ≠ modelKey ∧ originKey ≠ angleKey ∧ originKey ≠ targetnameKey ∧
    originKey ≠ targetKey ∧ originKey ≠ globalnameKey ∧ originKey ≠ anglesKey := by
  decide +kernel

theorem nameKeys_apart : targetnameKey ≠ globalnameKey ∧ targetnameKey ≠ targetKey ∧ targetKey ≠ globalnameKey := by
  decide +kernel

theorem entityKeys_short : ∀ key ∈ [classnameKey, originKey, targetnameKey, globalnameKey],
    key ≠ [] ∧ key.length ≤ 64 := by
  decide +kernel

omit [Field K] [LinearOrder K] in
theorem lookup_classname : lookup classnameKey (carried.pairs position angles) = some (.text carried.classname) := by
  obtain ⟨hModel, hAngle, hTargetname, hTarget, hGlobalname, hAngles, hOrigin⟩ := classnameKey_apart
  rw [lookup_pairs carried position angles hModel hAngle hTargetname hTarget hGlobalname,
    lookup_insert_other _ _ hAngles, lookup_insert_other _ _ hOrigin, lookup_insert_same]

omit [Field K] [LinearOrder K] in
theorem lookup_origin : lookup originKey (carried.pairs position angles) = some (.vector position) := by
  obtain ⟨hModel, hAngle, hTargetname, hTarget, hGlobalname, hAngles⟩ := originKey_apart
  rw [lookup_pairs carried position angles hModel hAngle hTargetname hTarget hGlobalname,
    lookup_insert_other _ _ hAngles, lookup_insert_same]

omit [Field K] [LinearOrder K] in
theorem lookup_targetname :
    lookup targetnameKey (carried.pairs position angles) = carried.targetname.map Value.text := by
  obtain ⟨hGlobalname, hTarget, -⟩ := nameKeys_apart
  rw [pairs, lookup_setName_other _ _ hGlobalname, lookup_setName_other _ _ hTarget, lookup_setName_same]

omit [Field K] [LinearOrder K] in
theorem lookup_globalname :
    lookup globalnameKey (carried.pairs position angles) = carried.globalname.map Value.text := by
  rw [pairs, lookup_setName_same]

structure Fits : Prop where
  keys : (carried.pairs position angles).length ≤ 64
  classname : carried.classname.length ≤ 512
  targetname : ∀ name ∈ carried.targetname, name.length ≤ 512
  globalname : ∀ name ∈ carried.globalname, name.length ≤ 512
  finite : isFinite position.x ∧ isFinite position.y ∧ isFinite position.z

variable {carried position angles} (reading : Reading K)

theorem truncateBounded_eq {value : Name} {maxBytes : Nat} (h : value.length ≤ maxBytes) :
    truncateBounded value maxBytes = value := by
  rw [truncateBounded, if_pos h]

theorem Fits.lookup_keyvalues (h : carried.Fits position angles) (key : Name) (hSome : key ≠ [])
    (hShort : key.length ≤ 64) :
    lookup key (carriedDef reading carried position angles).keyvalues =
      (lookup key (carried.pairs position angles)).map fun value => value.truncated 512 := by
  have hTake : (carried.pairs position angles).take 64 = carried.pairs position angles := List.take_of_length_le h.keys
  have hKeeps : (!key.isEmpty && decide (key.length ≤ 64)) = true := by
    simp only [Bool.and_eq_true, Bool.not_eq_true', List.isEmpty_eq_false_iff, decide_eq_true_eq]
    exact ⟨hSome, hShort⟩
  simp only [carriedDef, parseEntity, Limits.default, hTake]
  exact lookup_kept _ (fun name => !name.isEmpty && decide (name.length ≤ 64)) _ hKeeps

theorem Fits.def_classname (h : carried.Fits position angles) :
    (carriedDef reading carried position angles).classname = carried.classname := by
  obtain ⟨hSome, hShort⟩ := entityKeys_short classnameKey (by simp)
  have hLookup := h.lookup_keyvalues reading classnameKey hSome hShort
  rw [lookup_classname] at hLookup
  change (EntityDef.text (carriedDef reading carried position angles).keyvalues classnameKey).getD [] = _
  rw [EntityDef.text, hLookup]
  exact truncateBounded_eq h.classname

theorem Fits.def_origin (h : carried.Fits position angles) :
    (carriedDef reading carried position angles).origin = position := by
  obtain ⟨hSome, hShort⟩ := entityKeys_short originKey (by simp)
  have hLookup := h.lookup_keyvalues reading originKey hSome hShort
  rw [lookup_origin] at hLookup
  change ((lookup originKey (carriedDef reading carried position angles).keyvalues).bind (parseVec3 reading)).getD _ = _
  rw [hLookup]
  simp only [Option.map_some, Option.bind_some, Value.truncated, parseVec3, h.finite.1, h.finite.2.1, h.finite.2.2,
    Bool.and_self, if_true, Option.getD_some]

omit [Field K] [LinearOrder K] in
theorem name_eq {keyvalues : List (Name × Value K)} {given : Option Name}
    (hLookup : lookup key keyvalues = (given.map Value.text).map fun value => value.truncated 512)
    (hShort : ∀ name ∈ given, name.length ≤ 512) :
    EntityDef.name keyvalues key = given.filter fun name => !name.isEmpty := by
  rw [EntityDef.name, EntityDef.text, hLookup]
  cases given with
  | none => rfl
  | some name =>
    simp only [Option.map_some, Value.truncated]
    rw [truncateBounded_eq (hShort name rfl)]

theorem Fits.def_targetname (h : carried.Fits position angles) :
    (carriedDef reading carried position angles).targetname = carried.targetname.filter fun name => !name.isEmpty := by
  obtain ⟨hSome, hShort⟩ := entityKeys_short targetnameKey (by simp)
  have hLookup := h.lookup_keyvalues reading targetnameKey hSome hShort
  rw [lookup_targetname] at hLookup
  exact name_eq hLookup h.targetname

theorem Fits.def_globalname (h : carried.Fits position angles) :
    (carriedDef reading carried position angles).globalname = carried.globalname.filter fun name => !name.isEmpty := by
  obtain ⟨hSome, hShort⟩ := entityKeys_short globalnameKey (by simp)
  have hLookup := h.lookup_keyvalues reading globalnameKey hSome hShort
  rw [lookup_globalname] at hLookup
  exact name_eq hLookup h.globalname

end CarriedEntity

section Naming

variable {K : Type} {parts : Parts}

structure Naming where
  className : Name
  targetName : Option Name
  target : Option Name
  globalName : Option Name

def Body.naming (body : Body K parts) : Naming :=
  ⟨body.className, body.targetName, body.target, body.globalName⟩

def EntityDef.naming (definition : EntityDef K) : Naming :=
  ⟨definition.classname, definition.targetname, definition.target, definition.globalname⟩

def World.namings (world : World K parts) : List (Entity × Naming) :=
  world.rows.map fun row => (row.1, row.2.naming)

namespace World

variable (world : World K parts) {entity other : Entity} {change : Body K parts → Body K parts}

theorem find_eq (rows : List (Entity × Body K parts)) :
    ((rows.map fun row => if row.1 = entity then (row.1, change row.2) else row).find? fun row => row.1 = other) =
      (rows.find? fun row => row.1 = other).map fun row => if row.1 = entity then (row.1, change row.2) else row := by
  induction rows with
  | nil => rfl
  | cons row rest ih =>
    have hFst : (if row.1 = entity then (row.1, change row.2) else row).1 = row.1 := by split <;> rfl
    rw [List.map_cons, List.find?_cons, List.find?_cons, hFst]
    split
    · rfl
    · exact ih

theorem get_modify_ne (h : other ≠ entity) : (world.modify entity change).get other = world.get other := by
  rw [get, get, modify, find_eq, Option.map_map]
  cases hRow : world.rows.find? fun row => row.1 = other with
  | none => rfl
  | some row =>
    have hOther : row.1 = other := by simpa using List.find?_some hRow
    simp [hOther, h]

theorem get_modify_same : (world.modify entity change).get entity = (world.get entity).map change := by
  rw [get, get, modify, find_eq, Option.map_map, Option.map_map]
  cases hRow : world.rows.find? fun row => row.1 = entity with
  | none => rfl
  | some row =>
    have hOther : row.1 = entity := by simpa using List.find?_some hRow
    simp [hOther]

theorem get_modify (entity : Entity) (change : Body K parts → Body K parts) :
    ∃ changed : Entity → Body K parts → Body K parts,
      (∀ other, (world.modify entity change).get other = (world.get other).map (changed other)) ∧
        ∀ other body, changed other body = body ∨ changed other body = change body := by
  refine ⟨fun other => if other = entity then change else id, fun other => ?_, fun other body => ?_⟩
  · dsimp only
    by_cases hOther : other = entity
    · subst hOther
      rw [if_pos rfl]
      exact world.get_modify_same
    · rw [if_neg hOther, Option.map_id]
      exact world.get_modify_ne hOther
  · by_cases hOther : other = entity
    · exact .inr (congrFun (if_pos hOther) body)
    · exact .inl (congrFun (if_neg hOther) body)

theorem get_spawn_new (body : Body K parts) : (world.spawn body).2.get world.next = some body := by
  have hNone : (world.rows.find? fun row => row.1 = world.next) = none := by
    rw [List.find?_eq_none]
    intro row hRow
    simpa using (world.below row hRow).ne
  simp [spawn, get, List.find?_append, hNone]

theorem get_spawn_old (body : Body K parts) (h : other ≠ world.next) :
    (world.spawn body).2.get other = world.get other := by
  simp [spawn, get, List.find?_append, Ne.symm h]

theorem get_despawn (h : other ≠ entity) : (world.despawn entity).get other = world.get other := by
  rw [get, get, despawn, List.find?_filter]
  congr 2
  funext row
  by_cases hRow : row.1 = other
  · simp [hRow, h]
  · simp [hRow]

theorem get_despawn_self : (world.despawn entity).get entity = none := by
  rw [get, despawn, Option.map_eq_none_iff, List.find?_eq_none]
  intro row hRow
  simpa using (List.mem_filter.mp hRow).2

theorem namings_modify (h : ∀ body, (change body).naming = body.naming) :
    (world.modify entity change).namings = world.namings := by
  simp only [namings, modify, List.map_map]
  refine List.map_congr_left fun row _ => ?_
  simp only [Function.comp_apply]
  split
  · rw [h]
  · rfl

theorem withGlobalName_eq (name : Name) :
    world.withGlobalName name = (world.namings.filter fun row => row.2.globalName = some name).map Prod.fst := by
  simp only [withGlobalName, namings, List.filter_map, List.map_map]
  rfl

end World

end Naming

variable {K : Type} [Field K] [LinearOrder K] {parts : Parts}

namespace TransitionState

omit [Field K] [LinearOrder K] in
theorem naming_restorePlatrot (carried : Option (PlatRot K)) (body : Body K parts) :
    (restorePlatrot carried body).naming = body.naming := by
  cases carried with
  | none => rfl
  | some carried => rfl

theorem naming_restoreTrackTrain (rails : Rails K) (carry : TrackTrainCarry K) (body : Body K parts) :
    (restoreTrackTrain rails carry body).naming = body.naming := by
  rw [restoreTrackTrain]
  split
  · rfl
  · dsimp only
    split
    · rfl
    · rfl

structure SameNames (level current : Level K parts) : Prop where
  defs : current.defs = level.defs
  namings : current.registry.world.namings = level.registry.world.namings
  nameIndex : current.registry.nameIndex = level.registry.nameIndex
  entities : current.registry.entities = level.registry.entities
  next : current.registry.world.next = level.registry.world.next

omit [Field K] [LinearOrder K] in
theorem SameNames.refl (level : Level K parts) : SameNames level level := ⟨rfl, rfl, rfl, rfl, rfl⟩

omit [Field K] [LinearOrder K] in
theorem SameNames.trans {level middle current : Level K parts} (h : SameNames level middle)
    (h' : SameNames middle current) : SameNames level current :=
  ⟨h'.defs.trans h.defs, h'.namings.trans h.namings, h'.nameIndex.trans h.nameIndex, h'.entities.trans h.entities,
    h'.next.trans h.next⟩

omit [Field K] [LinearOrder K] in
theorem SameNames.counterparts {level current : Level K parts} (h : SameNames level current)
    (carried : CarriedEntity K parts) : counterparts current carried = counterparts level carried := by
  have hGlobal : current.registry.world.withGlobalName = level.registry.world.withGlobalName := by
    funext name
    rw [World.withGlobalName_eq, World.withGlobalName_eq, h.namings]
  have hFind : current.registry.find = level.registry.find := h.nameIndex
  rw [TransitionState.counterparts, TransitionState.counterparts, hGlobal, hFind]

/-- A step that changes only what the listed entities carry. -/
structure Touches (level current : Level K parts) (touched : List Entity) : Prop extends SameNames level current where
  others : ∀ entity, entity ∉ touched → current.registry.world.get entity = level.registry.world.get entity

theorem mergeGlobal_touches (carried : CarriedEntity K parts) (level : Level K parts) (entity : Entity) :
    Touches level (mergeGlobal carried level entity) [entity] := by
  refine ⟨⟨rfl, ?_, rfl, rfl, rfl⟩, fun other hOther => ?_⟩
  · refine World.namings_modify _ fun body => ?_
    dsimp only
    rw [naming_restorePlatrot]
    split
    · rw [naming_restoreTrackTrain]
      rfl
    · rfl
  · exact World.get_modify_ne _ (by simpa using hOther)

theorem mergeNamed_touches (snapshot : EntitySnapshot K parts) (platrot : Option (PlatRot K)) (level : Level K parts)
    (entity : Entity) : Touches level (mergeNamed snapshot platrot level entity) [entity] := by
  refine ⟨⟨rfl, ?_, rfl, rfl, rfl⟩, fun other hOther => ?_⟩
  · refine World.namings_modify _ fun body => ?_
    rw [naming_restorePlatrot]
    rfl
  · exact World.get_modify_ne _ (by simpa using hOther)

omit [Field K] [LinearOrder K] in
theorem foldl_touches {merge : Level K parts → Entity → Level K parts}
    (h : ∀ level entity, Touches level (merge level entity) [entity]) (level : Level K parts) (entities : List Entity) :
    Touches level (entities.foldl merge level) entities := by
  induction entities generalizing level with
  | nil => exact ⟨SameNames.refl level, fun _ _ => rfl⟩
  | cons entity entities ih =>
    have hFirst := h level entity
    have hRest := ih (merge level entity)
    refine ⟨hFirst.toSameNames.trans hRest.toSameNames, fun other hOther => ?_⟩
    obtain ⟨hHead, hTail⟩ := not_or.mp (List.mem_cons.not.mp hOther)
    exact (hRest.others other hTail).trans (hFirst.others other (by simpa using hHead))

/-- The index lists the entities of each name, oldest first, as far as there is room. -/
def Indexed (level : Level K parts) : Prop :=
  ∀ name, level.registry.find name =
    ((level.registry.world.namings.filter fun row => row.2.targetName = some name).map Prod.fst).take maxEntitiesPerName

omit [Field K] [LinearOrder K] in
theorem lt_next_of_mem {level : Level K parts} {row : Entity × Naming} (h : row ∈ level.registry.world.namings) :
    row.1 < level.registry.world.next := by
  obtain ⟨old, hOld, rfl⟩ := List.mem_map.mp h
  exact level.registry.world.below old hOld

omit [Field K] [LinearOrder K] in
theorem withGlobalName_lt {level : Level K parts} {name : Name} {entity : Entity}
    (h : entity ∈ level.registry.world.withGlobalName name) : entity < level.registry.world.next := by
  rw [World.withGlobalName_eq] at h
  obtain ⟨row, hRow, rfl⟩ := List.mem_map.mp h
  exact lt_next_of_mem (List.mem_of_mem_filter hRow)

omit [Field K] [LinearOrder K] in
theorem find_lt {level : Level K parts} (hIndexed : Indexed level) {name : Name} {entity : Entity}
    (h : entity ∈ level.registry.find name) : entity < level.registry.world.next := by
  rw [hIndexed name] at h
  obtain ⟨row, hRow, rfl⟩ := List.mem_map.mp (List.mem_of_mem_take h)
  exact lt_next_of_mem (List.mem_of_mem_filter hRow)

def Counterparts.entities : Counterparts → List Entity
  | .global entities => entities
  | .named entities => entities
  | .none => []

omit [Field K] [LinearOrder K] in
theorem counterparts_lt {level : Level K parts} (hIndexed : Indexed level) (carried : CarriedEntity K parts)
    {entity : Entity} (h : entity ∈ (counterparts level carried).entities) : entity < level.registry.world.next := by
  rw [counterparts] at h
  split at h
  · rename_i first rest hGlobal
    change entity ∈ first :: rest at h
    rw [← hGlobal] at h
    cases hName : carried.globalname with
    | none =>
      rw [hName] at h
      cases h
    | some name =>
      rw [hName] at h
      exact withGlobalName_lt h
  · split at h
    · rename_i first rest hNamed
      change entity ∈ first :: rest at h
      rw [← hNamed] at h
      cases hName : carried.targetname with
      | none =>
        rw [hName] at h
        cases h
      | some name =>
        rw [hName] at h
        exact find_lt hIndexed h
    · cases h

def landing (origin : Vec3 K) (carried : CarriedEntity K parts) : Vec3 K :=
  let offset := carried.offset.getD ⟨0, 0, 0⟩
  ⟨origin.x + offset.x, origin.y + offset.y, origin.z + offset.z⟩

def facing (carried : CarriedEntity K parts) : Vec3 K :=
  (carried.snapshot.transform.map Transform.angles).getD ⟨0, 0, 0⟩

def definitionOf (reading : Reading K) (origin : Vec3 K) (carried : CarriedEntity K parts) : EntityDef K :=
  carriedDef reading carried (landing origin carried) (facing carried)

def madeBody (reading : Reading K) (origin : Vec3 K) (carried : CarriedEntity K parts) : Body K parts :=
  { carried.snapshot with transform := none }.apply (bodyOf (definitionOf reading origin carried))

def isCreated (level : Level K parts) (carried : CarriedEntity K parts) : Bool :=
  counterparts level carried = .none ∧ !carried.isBrush ∧ carried.offset.isSome

def NamesApart (earlier later : CarriedEntity K parts) : Prop :=
  (∀ name, earlier.globalname = some name → later.globalname ≠ some name) ∧
    ∀ name, earlier.targetname = some name → later.targetname ≠ some name

structure Grown (reading : Reading K) (origin : Vec3 K) (level : Level K parts) (created : List (CarriedEntity K parts))
    (current : Level K parts) : Prop where
  defs : current.defs = level.defs ++ created.map (definitionOf reading origin)
  entities : current.registry.entities =
    level.registry.entities ++ List.range' level.registry.world.next created.length
  next : current.registry.world.next = level.registry.world.next + created.length
  namings : current.registry.world.namings = level.registry.world.namings ++
    (List.range' level.registry.world.next created.length).zip
      (created.map fun carried => (definitionOf reading origin carried).naming)
  index : ∀ name, (∀ carried ∈ created, (definitionOf reading origin carried).targetname ≠ some name) →
    current.registry.find name = level.registry.find name
  bodies : ∀ (i : Nat) carried, created[i]? = some carried →
    current.registry.world.get (level.registry.world.next + i) = some (madeBody reading origin carried)

section Grown

variable {reading : Reading K} {origin : Vec3 K} {level current : Level K parts}
  {created : List (CarriedEntity K parts)} {carried : CarriedEntity K parts}

theorem grown_start (level : Level K parts) (reading : Reading K) (origin : Vec3 K) :
    Grown reading origin level [] level :=
  ⟨(List.append_nil _).symm, (List.append_nil _).symm, rfl, (List.append_nil _).symm, fun _ _ => rfl, by simp⟩

theorem Grown.touched {next : Level K parts} {touched : List Entity} (h : Grown reading origin level created current)
    (hTouches : Touches current next touched) (hOld : ∀ entity ∈ touched, entity < level.registry.world.next) :
    Grown reading origin level created next := by
  refine ⟨hTouches.defs.trans h.defs, hTouches.entities.trans h.entities, hTouches.next.trans h.next,
    hTouches.namings.trans h.namings, fun name hName => ?_, fun i carried hCarried => ?_⟩
  · rw [Registry.find, hTouches.nameIndex]
    exact h.index name hName
  · have hNew : level.registry.world.next + i ∉ touched := fun hIn => (hOld _ hIn).not_ge (Nat.le_add_right _ _)
    rw [hTouches.others _ hNew, h.bodies i carried hCarried]

omit [Field K] [LinearOrder K] in
theorem index_world (registry : Registry K parts) (entity : Entity) (name : Option Name) :
    (registry.index entity name).world = registry.world ∧ (registry.index entity name).entities = registry.entities := by
  rw [Registry.index]
  split
  · exact ⟨rfl, rfl⟩
  · exact ⟨rfl, rfl⟩

omit [Field K] [LinearOrder K] in
theorem find_index_ne (registry : Registry K parts) (entity : Entity) {name : Option Name} {other : Name}
    (h : name ≠ some other) : (registry.index entity name).find other = registry.find other := by
  rw [Registry.index]
  split
  · rfl
  · rename_i kept hKept
    have hName := (Option.filter_eq_some_iff.mp hKept).1
    have hOther : other ≠ kept := fun hSame => h (hSame ▸ hName)
    simp only [Registry.find, hOther, false_and, if_false]

omit [LinearOrder K] in
omit [Field K] in
theorem materialiseCarried_exec {current : Level K parts} (h : current.defs.length = current.registry.entities.length)
    (definition : EntityDef K) :
    ∃ made, materialiseCarried current definition = (some current.registry.world.next, made) ∧
      made.defs = current.defs ++ [definition] ∧
      made.registry.entities = current.registry.entities ++ [current.registry.world.next] ∧
      made.registry.world = (current.registry.world.spawn (bodyOf definition)).2 ∧
      ∀ name, definition.targetname ≠ some name → made.registry.find name = current.registry.find name := by
  refine ⟨_, by rw [materialiseCarried, if_neg (not_not.mpr h)]; rfl, rfl, ?_, ?_, ?_⟩
  · exact (index_world _ _ _).2
  · exact (index_world _ _ _).1
  · exact fun name hName => find_index_ne _ _ hName

theorem Grown.aligned (h : Grown reading origin level created current)
    (hAligned : level.defs.length = level.registry.entities.length) :
    current.defs.length = current.registry.entities.length := by
  rw [h.defs, h.entities, List.length_append, List.length_append, List.length_map, List.length_range', hAligned]

theorem Grown.create (h : Grown reading origin level created current)
    (hAligned : level.defs.length = level.registry.entities.length) (hOffset : carried.offset.isSome) :
    Grown reading origin level (created ++ [carried])
      (TransitionState.create reading (some origin) carried current) := by
  obtain ⟨offset, hOffset⟩ := Option.isSome_iff_exists.mp hOffset
  have hLanding : (⟨origin.x + offset.x, origin.y + offset.y, origin.z + offset.z⟩ : Vec3 K) = landing origin carried := by
    rw [landing, hOffset]
    rfl
  obtain ⟨made, hExec, hDefs, hEntities, hWorld, hFind⟩ :=
    materialiseCarried_exec (h.aligned hAligned) (definitionOf reading origin carried)
  have hCreate : TransitionState.create reading (some origin) carried current =
      { made with
        registry := made.registry.modify current.registry.world.next { carried.snapshot with transform := none }.apply } := by
    have hMade : materialiseCarried current (carriedDef reading carried (landing origin carried)
        ((carried.snapshot.transform.map Transform.angles).getD ⟨0, 0, 0⟩)) = (some current.registry.world.next, made) :=
      hExec
    simp only [TransitionState.create, hOffset, hLanding, hMade]
  rw [hCreate]
  refine ⟨?_, ?_, ?_, ?_, ?_, ?_⟩
  · change made.defs = _
    rw [hDefs, h.defs, List.map_append, List.append_assoc]
    rfl
  · change made.registry.entities = _
    rw [hEntities, List.length_append, List.length_singleton, List.range'_concat, Nat.one_mul, h.entities, h.next,
      List.append_assoc]
  · change made.registry.world.next = _
    rw [hWorld, List.length_append, List.length_singleton]
    change current.registry.world.next + 1 = _
    rw [h.next, Nat.add_assoc]
  · change (made.registry.world.modify _ _).namings = _
    rw [hWorld, World.namings_modify _ fun body => by rfl]
    change (current.registry.world.rows ++ [_]).map _ = _
    rw [List.map_append, List.length_append, List.length_singleton, List.range'_concat, Nat.one_mul, List.map_append,
      List.zip_append (by rw [List.length_range', List.length_map]), ← List.append_assoc, ← h.namings, h.next]
    rfl
  · intro name hName
    have hOld : ∀ carried ∈ created, (definitionOf reading origin carried).targetname ≠ some name :=
      fun earlier hEarlier => hName earlier (List.mem_append_left _ hEarlier)
    exact (hFind name (hName carried (List.mem_append_right _ (List.mem_singleton_self _)))).trans (h.index name hOld)
  · intro i earlier hEarlier
    change (made.registry.world.modify _ _).get _ = _
    rw [hWorld]
    rcases Nat.lt_trichotomy i created.length with hLt | rfl | hGt
    · rw [List.getElem?_append_left hLt] at hEarlier
      have hOther : level.registry.world.next + i ≠ current.registry.world.next := by
        rw [h.next]
        exact fun hSame => hLt.ne (Nat.add_left_cancel hSame)
      rw [World.get_modify_ne _ hOther, World.get_spawn_old _ _ hOther]
      exact h.bodies i earlier hEarlier
    · rw [List.getElem?_append_right le_rfl, Nat.sub_self] at hEarlier
      cases hEarlier
      rw [← h.next, World.get_modify_same, World.get_spawn_new]
      rfl
    · rw [List.getElem?_eq_none (by rw [List.length_append, List.length_singleton]; omega)] at hEarlier
      cases hEarlier

theorem Grown.withGlobalName (h : Grown reading origin level created current) {name : Name}
    (hName : ∀ earlier ∈ created, (definitionOf reading origin earlier).globalname ≠ some name) :
    current.registry.world.withGlobalName name = level.registry.world.withGlobalName name := by
  rw [World.withGlobalName_eq, World.withGlobalName_eq, h.namings, List.filter_append, List.map_append]
  have hNone : ((List.range' level.registry.world.next created.length).zip
      (created.map fun carried => (definitionOf reading origin carried).naming)).filter
        (fun row => row.2.globalName = some name) = [] := by
    rw [List.filter_eq_nil_iff]
    intro row hRow
    obtain ⟨earlier, hEarlier, hNaming⟩ := List.mem_map.mp (List.of_mem_zip hRow).2
    rw [← hNaming]
    exact fun hSame => hName earlier hEarlier (of_decide_eq_true hSame)
  rw [hNone, List.map_nil, List.append_nil]

theorem Grown.counterparts (h : Grown reading origin level created current)
    (hFits : ∀ earlier ∈ created, earlier.Fits (landing origin earlier) (facing earlier))
    (hApart : ∀ earlier ∈ created, NamesApart earlier carried) :
    counterparts current carried = counterparts level carried := by
  have hGlobal : carried.globalname.map current.registry.world.withGlobalName =
      carried.globalname.map level.registry.world.withGlobalName := by
    cases hName : carried.globalname with
    | none => rfl
    | some name =>
      refine congrArg some (h.withGlobalName fun earlier hEarlier hSame => ?_)
      rw [definitionOf, (hFits earlier hEarlier).def_globalname] at hSame
      exact (hApart earlier hEarlier).1 name (Option.filter_eq_some_iff.mp hSame).1 hName
  have hNamed : carried.targetname.map current.registry.find = carried.targetname.map level.registry.find := by
    cases hName : carried.targetname with
    | none => rfl
    | some name =>
      refine congrArg some (h.index name fun earlier hEarlier hSame => ?_)
      rw [definitionOf, (hFits earlier hEarlier).def_targetname] at hSame
      exact (hApart earlier hEarlier).2 name (Option.filter_eq_some_iff.mp hSame).1 hName
  rw [TransitionState.counterparts, TransitionState.counterparts, hGlobal, hNamed]

def settle (reading : Reading K) (origin : Vec3 K) (level current : Level K parts) (carried : CarriedEntity K parts) :
    Level K parts :=
  placeAt reading (some origin) carried current (TransitionState.counterparts level carried)

theorem Grown.settle (h : Grown reading origin level created current) (carried : CarriedEntity K parts)
    (hIndexed : Indexed level)
    (hAligned : level.defs.length = level.registry.entities.length) :
    Grown reading origin level (created ++ [carried].filter (isCreated level))
      (TransitionState.settle reading origin level current carried) := by
  have hOld : ∀ entity ∈ (TransitionState.counterparts level carried).entities, entity < level.registry.world.next :=
    fun _ hEntity => counterparts_lt hIndexed carried hEntity
  rw [TransitionState.settle]
  cases hCounterparts : TransitionState.counterparts level carried with
  | global entities =>
    rw [hCounterparts] at hOld
    rw [List.filter_cons_of_neg (by simp [isCreated, hCounterparts]), List.filter_nil, List.append_nil]
    exact h.touched (foldl_touches (mergeGlobal_touches carried) current entities) hOld
  | named entities =>
    rw [hCounterparts] at hOld
    rw [List.filter_cons_of_neg (by simp [isCreated, hCounterparts]), List.filter_nil, List.append_nil]
    exact h.touched (foldl_touches (mergeNamed_touches carried.snapshot carried.platrot) current entities) hOld
  | none =>
    rw [placeAt]
    by_cases hBrush : carried.isBrush
    · rw [if_pos hBrush, List.filter_cons_of_neg (by simp [isCreated, hBrush]), List.filter_nil, List.append_nil]
      exact h
    · rw [if_neg hBrush]
      cases hOffset : carried.offset with
      | none =>
        have hNothing : TransitionState.create reading (some origin) carried current = current := by
          simp only [TransitionState.create, hOffset]
        rw [hNothing, List.filter_cons_of_neg (by simp [isCreated, hOffset]), List.filter_nil, List.append_nil]
        exact h
      | some offset =>
        rw [List.filter_cons_of_pos (by simp [isCreated, hCounterparts, hBrush, hOffset]), List.filter_nil]
        exact h.create hAligned (by rw [hOffset]; rfl)

theorem Grown.run (h : Grown reading origin level created current) (remaining : List (CarriedEntity K parts))
    (hIndexed : Indexed level) (hAligned : level.defs.length = level.registry.entities.length)
    (hFits : ∀ earlier ∈ created, earlier.Fits (landing origin earlier) (facing earlier))
    (hRest : ∀ carried ∈ remaining, isCreated level carried → carried.Fits (landing origin carried) (facing carried))
    (hApart : ∀ earlier ∈ created, ∀ later ∈ remaining, NamesApart earlier later)
    (hPairs : remaining.Pairwise fun earlier later => isCreated level earlier → NamesApart earlier later) :
    remaining.foldl (place reading (some origin)) current =
        remaining.foldl (TransitionState.settle reading origin level) current ∧
      Grown reading origin level (created ++ remaining.filter (isCreated level))
        (remaining.foldl (TransitionState.settle reading origin level) current) := by
  induction remaining generalizing created current with
  | nil => exact ⟨rfl, by rwa [List.filter_nil, List.append_nil]⟩
  | cons carried remaining ih =>
    obtain ⟨hHead, hTail⟩ := List.pairwise_cons.mp hPairs
    have hPlace : place reading (some origin) current carried =
        TransitionState.settle reading origin level current carried := by
      rw [place, TransitionState.settle,
        h.counterparts hFits fun earlier hEarlier => hApart earlier hEarlier carried List.mem_cons_self]
    have hNew : ∀ earlier ∈ [carried].filter (isCreated level), earlier = carried ∧ isCreated level carried := by
      intro earlier hEarlier
      obtain ⟨hOne, hCreated⟩ := List.mem_filter.mp hEarlier
      cases List.mem_singleton.mp hOne
      exact ⟨rfl, hCreated⟩
    have hStep := ih (h.settle carried hIndexed hAligned)
      (fun earlier hEarlier => by
        rcases List.mem_append.mp hEarlier with hOld | hOne
        · exact hFits earlier hOld
        · obtain ⟨rfl, hCreated⟩ := hNew earlier hOne
          exact hRest earlier List.mem_cons_self hCreated)
      (fun other hOther => hRest other (List.mem_cons_of_mem _ hOther))
      (fun earlier hEarlier later hLater => by
        rcases List.mem_append.mp hEarlier with hOld | hOne
        · exact hApart earlier hOld later (List.mem_cons_of_mem _ hLater)
        · obtain ⟨rfl, hCreated⟩ := hNew earlier hOne
          exact hHead later hLater hCreated)
      hTail
    rw [List.append_assoc, ← List.filter_append, List.singleton_append] at hStep
    rw [List.foldl_cons, List.foldl_cons, hPlace]
    exact hStep

end Grown

end TransitionState

end OpenHalfLife.Engine
