import OpenHalfLife.Lib.First
import OpenHalfLife.Lib.Scalar
import Mathlib.Algebra.Order.Ring.Nat
import Mathlib.Data.List.Induction

/-! # Placed explosives

Satchel charges and tripmines, and the handles they are known by.
-/

namespace OpenHalfLife.Combat

set_option autoImplicit false

abbrev EntityId := UInt64

inductive DeployableKind
  | satchel
  | tripmine

structure DeployableId where
  value : UInt32
  deriving DecidableEq

def DeployableId.next (id : DeployableId) : DeployableId := ⟨id.value + 1⟩

def maxSatchels : Nat := 5

def maxTripmines : Nat := 5

structure DeployableTuning (K : Type) where
  beamOffset : K
  satchelRadius : K
  tripmineRadius : K
  placeRange : K

structure Satchel (K : Type) where
  id : DeployableId
  owner : Option EntityId
  position : Vec3 K
  age : K

structure Tripmine (K : Type) where
  selfId : Option EntityId
  id : DeployableId
  owner : Option EntityId
  position : Vec3 K
  normal : Vec3 K
  age : K
  armed : Bool

inductive DeployableEvent (K : Type)
  | placed (id : DeployableId) (kind : DeployableKind) (position : Vec3 K)
  | detonated (id : DeployableId) (kind : DeployableKind) (position : Vec3 K) (owner : Option EntityId) (radius : K)

structure DeployableSet (K : Type) where
  satchels : List (Satchel K)
  tripmines : List (Tripmine K)
  nextId : DeployableId

structure Placement (K : Type) where
  fraction : K
  startSolid : Bool
  planeNormal : Vec3 K
  endPos : Vec3 K

section

variable {K : Type} [Scalar K]

/-- `none` for what has no direction. -/
def normalizeOrZero (v : Vec3 K) : Option (Vec3 K) :=
  let recip := 1 / v.length
  let unit := v.scale recip
  let isZero := (unit.x ≤ 0 ∧ 0 ≤ unit.x) ∧ (unit.y ≤ 0 ∧ 0 ≤ unit.y) ∧ (unit.z ≤ 0 ∧ 0 ≤ unit.z)
  if Scalar.isFinite recip ∧ 0 < recip ∧ ¬isZero then some unit else none

def Tripmine.beamStart (mine : Tripmine K) (tuning : DeployableTuning K) : Vec3 K :=
  mine.position.add (mine.normal.scale (Scalar.maximum tuning.beamOffset 0))

def Satchel.detonated (satchel : Satchel K) (tuning : DeployableTuning K) : DeployableEvent K :=
  .detonated satchel.id .satchel satchel.position satchel.owner (Scalar.maximum tuning.satchelRadius 0)

def Tripmine.detonated (mine : Tripmine K) (tuning : DeployableTuning K) : DeployableEvent K :=
  .detonated mine.id .tripmine (mine.beamStart tuning) mine.owner (Scalar.maximum tuning.tripmineRadius 0)

end

namespace DeployableSet

variable {K : Type}

def new : DeployableSet K := ⟨[], [], ⟨0⟩⟩

def clear (set : DeployableSet K) : DeployableSet K := { set with satchels := [], tripmines := [] }

def restoreFromParts (satchels : List (Satchel K)) (tripmines : List (Tripmine K)) (nextId : DeployableId) :
    DeployableSet K :=
  ⟨satchels.take maxSatchels, tripmines.take maxTripmines, nextId⟩

def ids (set : DeployableSet K) : List DeployableId := set.satchels.map (·.id) ++ set.tripmines.map (·.id)

/-- The handle, and the counter after it; `none` if the search goes past more handles than are in use. -/
def allocate (set : DeployableSet K) : Option (DeployableId × DeployableSet K) :=
  (firstFree DeployableId.next set.ids (set.ids.length + 1) set.nextId).map fun id => (id, { set with nextId := id.next })

variable [Scalar K]

/-- `none` if no handle is found. -/
def placeSatchel (set : DeployableSet K) (owner : Option EntityId) (position : Vec3 K) :
    Option (Option DeployableId × DeployableSet K × List (DeployableEvent K)) :=
  if set.satchels.length ≥ maxSatchels ∨ ¬position.isFinite then some (none, set, [])
  else
    set.allocate.map fun (id, set) =>
      (some id, { set with satchels := set.satchels ++ [⟨id, owner, position, 0⟩] }, [.placed id .satchel position])

def surface (world : Vec3 K → Vec3 K → Placement K) (start direction : Vec3 K) (tuning : DeployableTuning K) :
    Option (Vec3 K × Vec3 K) := do
  let direction ← normalizeOrZero direction
  let trace := world start (start.add (direction.scale (Scalar.maximum tuning.placeRange 0)))
  if trace.fraction ≥ 1 ∨ trace.startSolid then none
  else
    let normal ← normalizeOrZero trace.planeNormal
    some (trace.endPos, normal)

def placeTripmine (set : DeployableSet K) (owner : Option EntityId) (start direction : Vec3 K)
    (world : Vec3 K → Vec3 K → Placement K) (tuning : DeployableTuning K) :
    Option (Option DeployableId × DeployableSet K × List (DeployableEvent K)) :=
  if set.tripmines.length ≥ maxTripmines ∨ ¬start.isFinite then some (none, set, [])
  else
    match surface world start direction tuning with
    | none => some (none, set, [])
    | some (position, normal) =>
      set.allocate.map fun (id, set) =>
        (some id, { set with tripmines := set.tripmines ++ [⟨none, id, owner, position, normal, 0, false⟩] },
          [.placed id .tripmine position])

def detonateAllSatchels (set : DeployableSet K) (tuning : DeployableTuning K) :
    Nat × DeployableSet K × List (DeployableEvent K) :=
  (set.satchels.length, { set with satchels := [] }, set.satchels.map (·.detonated tuning))

def detonate (set : DeployableSet K) (id : DeployableId) (tuning : DeployableTuning K) :
    Bool × DeployableSet K × List (DeployableEvent K) :=
  match set.satchels.find? (·.id = id) with
  | some satchel =>
    (true, { set with satchels := set.satchels.eraseP (·.id = id) }, [{ satchel with id }.detonated tuning])
  | none =>
    match set.tripmines.find? (·.id = id) with
    | some mine =>
      (true, { set with tripmines := set.tripmines.eraseP (·.id = id) }, [{ mine with id }.detonated tuning])
    | none => (false, set, [])

def detonateEach (set : DeployableSet K) (tuning : DeployableTuning K) :
    List DeployableId → DeployableSet K × List (DeployableEvent K)
  | [] => (set, [])
  | id :: ids =>
    let (_, set, events) := set.detonate id tuning
    let (set, later) := set.detonateEach tuning ids
    (set, events ++ later)

def detonateSatchelsFor (set : DeployableSet K) (owner : Option EntityId) (tuning : DeployableTuning K) :
    Nat × DeployableSet K × List (DeployableEvent K) :=
  let ids := (set.satchels.filter (·.owner = owner)).map (·.id)
  (ids.length, set.detonateEach tuning ids)

end DeployableSet

inductive DeployableCall (K : Type)
  | placeSatchel (owner : Option EntityId) (position : Vec3 K)
  | placeTripmine (owner : Option EntityId) (start direction : Vec3 K) (world : Vec3 K → Vec3 K → Placement K)
      (tuning : DeployableTuning K)
  | detonate (id : DeployableId) (tuning : DeployableTuning K)
  | detonateSatchelsFor (owner : Option EntityId) (tuning : DeployableTuning K)
  | detonateAllSatchels (tuning : DeployableTuning K)
  | clear
  | restoreFromParts (satchels : List (Satchel K)) (tripmines : List (Tripmine K)) (nextId : DeployableId)

namespace DeployableSet

variable {K : Type} [Scalar K]

def perform (set : DeployableSet K) : DeployableCall K → Option (DeployableSet K)
  | .placeSatchel owner position => (set.placeSatchel owner position).map (·.2.1)
  | .placeTripmine owner start direction world tuning =>
    (set.placeTripmine owner start direction world tuning).map (·.2.1)
  | .detonate id tuning => some (set.detonate id tuning).2.1
  | .detonateSatchelsFor owner tuning => some (set.detonateSatchelsFor owner tuning).2.1
  | .detonateAllSatchels tuning => some (set.detonateAllSatchels tuning).2.1
  | .clear => some set.clear
  | .restoreFromParts satchels tripmines nextId => some (restoreFromParts satchels tripmines nextId)

def performAll (set : DeployableSet K) (calls : List (DeployableCall K)) : Option (DeployableSet K) :=
  calls.foldlM perform set

end DeployableSet

end OpenHalfLife.Combat

namespace OpenHalfLife.Combat

set_option autoImplicit false

/-! ## Handles stay unique

As long as no set is restored from parts that share a handle, a handle is one
charge, and the charges of an owner are found by their handles.
-/

/-! ## Lists by a key -/

section Keys

variable {α β : Type*} [DecidableEq β] {key : α → β} {entries : List α} {entry : α}

theorem find?_key (h : (entries.map key).Nodup) (hMem : entry ∈ entries) :
    entries.find? (key · = key entry) = some entry := by
  cases hFind : entries.find? (key · = key entry) with
  | none => simpa using List.find?_eq_none.mp hFind entry hMem
  | some found =>
    have hKey : key found = key entry := by simpa using List.find?_some hFind
    rw [List.inj_on_of_nodup_map h (List.mem_of_find?_eq_some hFind) hMem hKey]

theorem eraseP_key (h : (entries.map key).Nodup) (value : β) :
    entries.eraseP (key · = value) = entries.filter (key · ≠ value) := by
  induction entries with
  | nil => rfl
  | cons entry entries ih =>
    obtain ⟨hFresh, hRest⟩ := List.nodup_cons.mp h
    by_cases hKey : key entry = value
    · have hAll : entries.filter (key · ≠ value) = entries := by
        refine List.filter_eq_self.mpr fun other hOther => decide_eq_true ?_
        rintro rfl
        exact hFresh (hKey ▸ List.mem_map_of_mem hOther)
      rw [List.eraseP_cons, List.filter_cons, decide_eq_true hKey, cond_true, if_neg (by simp [hKey]), hAll]
    · rw [List.eraseP_cons, List.filter_cons, decide_eq_false hKey, cond_false, if_pos (by simp [hKey]), ih hRest]

end Keys

/-! ## The counter -/

theorem DeployableId.iterate_next (id : DeployableId) (steps : Nat) :
    DeployableId.next^[steps] id = ⟨id.value + UInt32.ofNat steps⟩ := by
  induction steps generalizing id with
  | zero => simp
  | succ steps ih =>
    rw [Function.iterate_succ_apply, ih, DeployableId.next, UInt32.ofNat_add, UInt32.add_assoc,
      UInt32.add_comm 1]
    rfl

theorem DeployableId.iterate_next_inj {id : DeployableId} {i j : Nat} (hI : i < 2 ^ 32) (hJ : j < 2 ^ 32)
    (h : DeployableId.next^[i] id = DeployableId.next^[j] id) : i = j := by
  rw [iterate_next, iterate_next, DeployableId.mk.injEq, UInt32.add_right_inj] at h
  have hNat := congrArg UInt32.toNat h
  rwa [UInt32.toNat_ofNat_of_lt' hI, UInt32.toNat_ofNat_of_lt' hJ] at hNat

namespace DeployableSet

variable {K : Type} {set after : DeployableSet K}

structure Sound (set : DeployableSet K) : Prop where
  nodup : set.ids.Nodup
  satchels_le : set.satchels.length ≤ maxSatchels
  tripmines_le : set.tripmines.length ≤ maxTripmines

theorem sound_new : (new : DeployableSet K).Sound := ⟨List.nodup_nil, Nat.zero_le _, Nat.zero_le _⟩

theorem Sound.length_ids_le (h : set.Sound) : set.ids.length ≤ 10 := by
  rw [ids, List.length_append, List.length_map, List.length_map]
  exact Nat.add_le_add h.satchels_le h.tripmines_le

theorem Sound.exists_allocate (h : set.Sound) :
    ∃ id, set.allocate = some (id, { set with nextId := id.next }) ∧ id ∉ set.ids := by
  have hFew := h.length_ids_le
  have hDistinct : ∀ i < set.ids.length + 1, ∀ j < set.ids.length + 1,
      DeployableId.next^[i] set.nextId = DeployableId.next^[j] set.nextId → i = j := fun i hI j hJ hSame =>
    DeployableId.iterate_next_inj (by omega) (by omega) hSame
  obtain ⟨id, hId⟩ := exists_firstFree (Nat.lt_succ_self set.ids.length) hDistinct
  exact ⟨id, by rw [allocate, hId]; rfl, firstFree_notMem hId⟩

theorem Sound.sublist (h : set.Sound) (hSatchels : after.satchels.Sublist set.satchels)
    (hTripmines : after.tripmines.Sublist set.tripmines) : after.Sound where
  nodup := h.nodup.sublist ((hSatchels.map _).append (hTripmines.map _))
  satchels_le := hSatchels.length_le.trans h.satchels_le
  tripmines_le := hTripmines.length_le.trans h.tripmines_le

/-! ## Setting off -/

variable [Scalar K] {tuning : DeployableTuning K}

theorem Sound.detonate (h : set.Sound) (id : DeployableId) (tuning : DeployableTuning K) :
    (set.detonate id tuning).2.1.Sound := by
  unfold DeployableSet.detonate
  split
  · exact h.sublist List.eraseP_sublist (List.Sublist.refl _)
  · split
    · exact h.sublist (List.Sublist.refl _) List.eraseP_sublist
    · exact h

theorem Sound.detonateEach (h : set.Sound) (tuning : DeployableTuning K) (ids : List DeployableId) :
    (set.detonateEach tuning ids).1.Sound := by
  induction ids generalizing set with
  | nil => exact h
  | cons id ids ih => exact ih (h.detonate id tuning)

theorem Sound.detonate_satchel (h : set.Sound) {satchel : Satchel K} (hMem : satchel ∈ set.satchels) :
    set.detonate satchel.id tuning =
      (true, { set with satchels := set.satchels.filter (·.id ≠ satchel.id) }, [satchel.detonated tuning]) := by
  have hNodup := (List.nodup_append.mp h.nodup).1
  have hFind : set.satchels.find? (·.id = satchel.id) = some satchel := find?_key hNodup hMem
  have hErase : set.satchels.eraseP (·.id = satchel.id) = set.satchels.filter (·.id ≠ satchel.id) :=
    eraseP_key hNodup satchel.id
  rw [DeployableSet.detonate, hFind, hErase]

theorem Sound.detonateEach_satchels (h : set.Sound) {chosen : List (Satchel K)}
    (hChosen : chosen.Sublist set.satchels) :
    set.detonateEach tuning (chosen.map (·.id)) =
      ({ set with satchels := set.satchels.filter (·.id ∉ chosen.map (·.id)) }, chosen.map (·.detonated tuning)) := by
  induction chosen generalizing set with
  | nil => simp [DeployableSet.detonateEach]
  | cons satchel chosen ih =>
    have hMem := hChosen.subset List.mem_cons_self
    have hFresh := (List.nodup_cons.mp ((List.nodup_append.mp h.nodup).1.sublist (hChosen.map (·.id)))).1
    have hLeft : chosen.Sublist (set.satchels.filter (·.id ≠ satchel.id)) := by
      have hAll : chosen.filter (·.id ≠ satchel.id) = chosen := by
        refine List.filter_eq_self.mpr fun other hOther => decide_eq_true ?_
        intro hSame
        exact hFresh (List.mem_map.mpr ⟨other, hOther, hSame⟩)
      exact hAll ▸ (List.sublist_of_cons_sublist hChosen).filter _
    have hSound : Sound { set with satchels := set.satchels.filter (·.id ≠ satchel.id) } :=
      h.sublist List.filter_sublist (List.Sublist.refl _)
    have hBoth : (set.satchels.filter (·.id ≠ satchel.id)).filter (·.id ∉ chosen.map (·.id)) =
        set.satchels.filter (·.id ∉ (satchel :: chosen).map (·.id)) := by
      rw [List.filter_filter]
      refine List.filter_congr fun other _ => ?_
      rw [List.map_cons, ← Bool.decide_and, decide_eq_decide, List.mem_cons, not_or, and_comm]
    rw [List.map_cons, DeployableSet.detonateEach, h.detonate_satchel hMem]
    dsimp only
    rw [ih hSound hLeft, hBoth]
    rfl

theorem Sound.detonateSatchelsFor_eq (h : set.Sound) (owner : Option EntityId) (tuning : DeployableTuning K) :
    set.detonateSatchelsFor owner tuning =
      ((set.satchels.filter (·.owner = owner)).length,
        { set with satchels := set.satchels.filter (·.owner ≠ owner) },
        (set.satchels.filter (·.owner = owner)).map (·.detonated tuning)) := by
  have hNodup := (List.nodup_append.mp h.nodup).1
  have hKept : set.satchels.filter (·.id ∉ (set.satchels.filter (·.owner = owner)).map (·.id)) =
      set.satchels.filter (·.owner ≠ owner) := by
    refine List.filter_congr fun satchel hMem => decide_eq_decide.mpr (not_congr ?_)
    constructor
    · intro hId
      obtain ⟨other, hOther, hSame⟩ := List.mem_map.mp hId
      rw [List.mem_filter, decide_eq_true_iff] at hOther
      rw [← List.inj_on_of_nodup_map hNodup hOther.1 hMem hSame]
      exact hOther.2
    · intro hOwner
      exact List.mem_map_of_mem (List.mem_filter.mpr ⟨hMem, decide_eq_true hOwner⟩)
  rw [detonateSatchelsFor, h.detonateEach_satchels List.filter_sublist, hKept, List.length_map]

/-! ## Runs -/

def Distinct : DeployableCall K → Prop
  | .restoreFromParts satchels tripmines _ =>
    ((satchels.take maxSatchels).map (·.id) ++ (tripmines.take maxTripmines).map (·.id)).Nodup
  | _ => True

theorem Sound.placeSatchel (h : set.Sound) (owner : Option EntityId) (position : Vec3 K) :
    ∃ id after events, set.placeSatchel owner position = some (id, after, events) ∧ after.Sound := by
  unfold DeployableSet.placeSatchel
  split <;> rename_i hRoom
  · exact ⟨_, _, _, rfl, h⟩
  · obtain ⟨id, hId, hFresh⟩ := h.exists_allocate
    rw [hId]
    refine ⟨_, _, _, rfl, ?_, ?_, h.tripmines_le⟩
    · have hPerm : (set.satchels.map (·.id) ++ [id] ++ set.tripmines.map (·.id)).Perm (id :: set.ids) :=
        (List.perm_append_singleton id (set.satchels.map (·.id))).append_right _
      have hNodup := hPerm.nodup_iff.mpr (List.nodup_cons.mpr ⟨hFresh, h.nodup⟩)
      simpa [ids] using hNodup
    · rw [List.length_append]
      exact Nat.lt_of_not_le fun hFull => hRoom (Or.inl hFull)

theorem Sound.placeTripmine (h : set.Sound) (owner : Option EntityId) (start direction : Vec3 K)
    (world : Vec3 K → Vec3 K → Placement K) (tuning : DeployableTuning K) :
    ∃ id after events, set.placeTripmine owner start direction world tuning = some (id, after, events) ∧
      after.Sound := by
  unfold DeployableSet.placeTripmine
  split <;> rename_i hRoom
  · exact ⟨_, _, _, rfl, h⟩
  · split <;> rename_i hSurface
    · exact ⟨_, _, _, rfl, h⟩
    · obtain ⟨id, hId, hFresh⟩ := h.exists_allocate
      rw [hId]
      refine ⟨_, _, _, rfl, ?_, h.satchels_le, ?_⟩
      · have hPerm : (set.ids ++ [id]).Perm (id :: set.ids) := List.perm_append_singleton id set.ids
        have hNodup := hPerm.nodup_iff.mpr (List.nodup_cons.mpr ⟨hFresh, h.nodup⟩)
        simpa [ids] using hNodup
      · rw [List.length_append]
        exact Nat.lt_of_not_le fun hFull => hRoom (Or.inl hFull)

theorem Sound.perform (h : set.Sound) {call : DeployableCall K} (hDistinct : Distinct call) :
    ∃ after, set.perform call = some after ∧ after.Sound := by
  cases call with
  | placeSatchel owner position =>
    obtain ⟨id, after, events, hPlaced, hAfter⟩ := h.placeSatchel owner position
    exact ⟨after, by rw [DeployableSet.perform, hPlaced]; rfl, hAfter⟩
  | placeTripmine owner start direction world tuning =>
    obtain ⟨id, after, events, hPlaced, hAfter⟩ := h.placeTripmine owner start direction world tuning
    exact ⟨after, by rw [DeployableSet.perform, hPlaced]; rfl, hAfter⟩
  | detonate id tuning => exact ⟨_, rfl, h.detonate id tuning⟩
  | detonateSatchelsFor owner tuning => exact ⟨_, rfl, h.detonateEach tuning _⟩
  | detonateAllSatchels tuning => exact ⟨_, rfl, h.sublist (List.nil_sublist _) (List.Sublist.refl _)⟩
  | clear => exact ⟨_, rfl, h.sublist (List.nil_sublist _) (List.nil_sublist _)⟩
  | restoreFromParts satchels tripmines nextId =>
    exact ⟨_, rfl, hDistinct, List.length_take_le _ _, List.length_take_le _ _⟩

theorem Sound.performAll (h : set.Sound) {calls : List (DeployableCall K)} (hDistinct : ∀ call ∈ calls, Distinct call) :
    ∃ after, set.performAll calls = some after ∧ after.Sound := by
  induction calls generalizing set with
  | nil => exact ⟨set, rfl, h⟩
  | cons call calls ih =>
    obtain ⟨next, hNext, hSound⟩ := h.perform (hDistinct call List.mem_cons_self)
    obtain ⟨after, hAfter, hEnd⟩ := ih hSound fun other hOther => hDistinct other (List.mem_cons_of_mem call hOther)
    refine ⟨after, ?_, hEnd⟩
    rw [DeployableSet.performAll, List.foldlM_cons, hNext]
    exact hAfter

/-- Handles tell charges apart, there is always another, and an owner sets off their own charges. -/
structure Orderly (set : DeployableSet K) : Prop where
  nodup : set.ids.Nodup
  allocates : ∃ id, set.allocate = some (id, { set with nextId := id.next }) ∧ id ∉ set.ids
  owners : ∀ owner tuning, set.detonateSatchelsFor owner tuning =
    ((set.satchels.filter (·.owner = owner)).length,
      { set with satchels := set.satchels.filter (·.owner ≠ owner) },
      (set.satchels.filter (·.owner = owner)).map (·.detonated tuning))

/-- Every state of a run is in order exactly if no set is restored from parts that share a handle. -/
theorem handles_orderly_iff (calls : List (DeployableCall K)) :
    (∀ done later, calls = done ++ later → ∃ set, performAll new done = some set ∧ Orderly set) ↔
      ∀ call ∈ calls, Distinct call := by
  constructor
  · intro h call hCall
    obtain ⟨done, later, hCalls⟩ := List.append_of_mem hCall
    obtain ⟨set, hSet, hOrderly⟩ := h (done ++ [call]) later (by rw [hCalls, List.append_assoc]; rfl)
    rw [performAll, List.foldlM_append] at hSet
    obtain ⟨before, -, hLast⟩ := Option.bind_eq_some_iff.mp hSet
    cases call with
    | restoreFromParts satchels tripmines nextId =>
      obtain rfl := Option.some.inj hLast
      exact hOrderly.nodup
    | _ => trivial
  · intro h done later hCalls
    obtain ⟨set, hSet, hSound⟩ := sound_new.performAll fun call hCall =>
      h call (hCalls ▸ List.mem_append_left later hCall)
    exact ⟨set, hSet, hSound.nodup, hSound.exists_allocate, hSound.detonateSatchelsFor_eq⟩

/-- Two charges that were saved under one handle. -/
theorem shared_handle_not_orderly : ¬∀ done later,
    [DeployableCall.restoreFromParts (K := Rat) [⟨⟨0⟩, none, Vec3.zero, 0⟩, ⟨⟨0⟩, some 1, Vec3.zero, 0⟩] [] ⟨1⟩] =
      done ++ later → ∃ set, performAll new done = some set ∧ Orderly set := by
  intro h
  obtain ⟨set, hSet, hOrderly⟩ := h _ [] (List.append_nil _).symm
  obtain rfl := Option.some.inj hSet
  exact absurd hOrderly.nodup (by decide)

end DeployableSet

end OpenHalfLife.Combat
