import OpenHalfLife.Game.Queue
import OpenHalfLife.Game.Foreign

/-! # Gate and relay of a multisource

The gate compares the fires counted with the entities that name the
`multisource` now; the relay goes out on the fire that meets their number.
-/

namespace OpenHalfLife.Game

set_option autoImplicit false

open Relation

namespace Registry

variable {R : Type}

structure Fewer (registry registry' : Registry R) : Prop where
  byTarget : ∀ name : Name, registry'.world.countP (fun row => row.2.target = some name) ≤
    registry.world.countP fun row => row.2.target = some name
  byFanOut : ∀ name : Name,
    registry'.world.countP (fun row => row.2.multiManager.any fun manager => manager.targets.any fun target =>
      target.1 = name) ≤
    registry.world.countP fun row => row.2.multiManager.any fun manager => manager.targets.any fun target =>
      target.1 = name

theorem Fewer.refl (registry : Registry R) : Fewer registry registry := ⟨fun _ => le_rfl, fun _ => le_rfl⟩

theorem fewer_despawn (registry : Registry R) (entity : Entity) : Fewer registry (registry.despawn entity) :=
  ⟨fun _ => List.filter_sublist.countP_le, fun _ => List.filter_sublist.countP_le⟩

theorem fewer_modify (registry : Registry R) (entity : Entity) (change : Components → Components)
    (hTarget : ∀ c, (change c).target = c.target) (hManager : ∀ c, (change c).multiManager = c.multiManager) :
    Fewer registry (registry.modify entity change) := by
  constructor
  · intro name
    rw [modify]
    dsimp only
    rw [List.countP_map]
    apply le_of_eq
    congr 1
    funext row
    dsimp only [Function.comp_apply]
    split
    · rw [hTarget]
    · rfl
  · intro name
    rw [modify]
    dsimp only
    rw [List.countP_map]
    apply le_of_eq
    congr 1
    funext row
    dsimp only [Function.comp_apply]
    split
    · rw [hManager]
    · rfl

theorem Fewer.required_le {registry registry' : Registry R} (h : Fewer registry registry') {source : Entity}
    (hName : (registry'.components source).targetName = (registry.components source).targetName) :
    registry'.multisourceRequired source ≤ registry.multisourceRequired source := by
  rw [multisourceRequired, multisourceRequired, hName]
  split
  · exact le_rfl
  · rename_i name _
    exact max_le_max (Nat.add_le_add (h.byTarget name) (h.byFanOut name)) le_rfl

theorem required_pos (registry : Registry R) (source : Entity) : 0 < registry.multisourceRequired source := by
  rw [multisourceRequired]
  split
  · exact Nat.one_pos
  · exact lt_max_of_lt_right Nat.one_pos

theorem required_lt (registry : Registry R) (source : Entity) : registry.multisourceRequired source < 2 ^ 64 - 1 := by
  rw [multisourceRequired]
  split
  · norm_num
  · rename_i name _
    have hLength := registry.world_length
    have hTarget : registry.world.countP (fun row => row.2.target = some name) ≤ registry.world.length :=
      List.countP_le_length
    have hFanOut : registry.world.countP (fun row => row.2.multiManager.any fun manager =>
        manager.targets.any fun target => target.1 = name) ≤ registry.world.length := List.countP_le_length
    refine max_lt ?_ (by norm_num)
    omega

end Registry

def relayed (source : Entity) (trace : List Happening) : Nat :=
  trace.countP fun happening => match happening with
    | .queued fire => fire.sender = some source
    | _ => false

namespace Level

variable {R : Type}

def fires (source : Entity) (level : Level R) : Nat := (level.simulation.masterFires source).getD 0

/-- Gate and relay say the same: whoever has this source as its only master is let through if and
only if the source scheduled its target, which it does once, on no less than so many fires. -/
structure Latched (source : Entity) (required : Nat) (level : Level R) : Prop where
  gate : ∀ entity name, (level.registry.components entity).master = some name →
    ((level.registry.find name).filter fun other => (level.registry.components other).multiSource.isSome) = [source] →
    (level.masterIsActive entity = true ↔ 0 < relayed source level.simulation.trace)
  once : relayed source level.simulation.trace ≤ 1
  enough : 0 < relayed source level.simulation.trace → required ≤ fires source level

/-- A move that keeps the latch: no entity's end takes the required number down to the count, and
the fire that meets it meets the number the map was built with and finds room in the queue. -/
structure Steady (source : Entity) (required : Nat) (level level' : Level R) : Prop where
  opens : fires source level' = fires source level → (level'.registry.components source).multiSource.isSome →
    fires source level < level.registry.multisourceRequired source →
    fires source level < level'.registry.multisourceRequired source
  meets : fires source level' ≠ fires source level → fires source level + 1 = level.registry.multisourceRequired source →
    level.registry.multisourceRequired source = required ∧ level.simulation.pending.length < maxPendingEvents

variable {level level' : Level R} {source : Entity} {required : Nat}

theorem Turn.fewer {allowed : ℚ → Prop} (h : Turn allowed level level') :
    Registry.Fewer level.registry level'.registry := by
  cases h with
  | touches other activator =>
    rw [(activateTrigger_foreign level other other activator).2]
    exact .refl _
  | breaks other activator =>
    rw [breakEntity]
    split
    · exact .refl _
    rename_i breakable _
    split
    · exact .refl _
    have hBroken : Registry.Fewer level.registry
        (level.registry.modify other fun c => { c with breakable := some { breakable with broken := true } }) := by
      apply Registry.fewer_modify <;> intro c <;> rfl
    dsimp only
    split
    · exact hBroken
    · exact hBroken
  | relays other source activator useType hActive hSource =>
    rw [activateSource_registry]
    exact .refl _
  | manages other manager activator hActive hSource hManager =>
    rw [activateManager_registry]
    exact .refl _
  | arms other =>
    dsimp only
    apply Registry.fewer_modify <;> intro c <;> rfl
  | despawns other => exact level.registry.fewer_despawn other
  | fires target activator delay useType => exact .refl _
  | moves devices => exact ⟨fun _ => le_rfl, fun _ => le_rfl⟩
  | spawns => exact .refl _
  | knows player => exact .refl _
  | passes dt hAllowed => exact .refl _
  | takes fire rest hTake => exact .refl _
  | ends hEnds => exact .refl _
  | cools dt => exact .refl _
  | rests dt hAllowed => exact .refl _

theorem relayed_append (trace : List Happening) (happening : Happening) :
    relayed source (trace ++ [happening]) = relayed source trace + relayed source [happening] := List.countP_append

theorem relayed_schedules {senders : Option Entity → Prop} {simulation simulation' : Simulation}
    (h : Schedules senders simulation simulation') (hSenders : ¬ senders (some source)) :
    relayed source simulation'.trace = relayed source simulation.trace := by
  induction h with
  | refl => rfl
  | queue s sender target activator delay useType _ hSender ih =>
    rw [Simulation.fireFor]
    split
    · exact (relayed_append _ _).trans ih
    · have hOther : sender ≠ some source := by
        rintro rfl
        exact hSenders hSender
      have hNone : relayed source [.queued ⟨target, useType, activator, max delay 0, s.serial, sender⟩] = 0 := by
        simp [relayed, hOther]
      exact (relayed_append _ _).trans (by rw [hNone, add_zero, ih])
  | accept s manager _ _ ih => exact (relayed_append _ _).trans ih
  | other s s' _ _ _ hTrace ih => rw [hTrace, ih]

/-- While the source lives, it scheduled its target if and only if the count meets the number. -/
structure Latching (source : Entity) (required : Nat) (level : Level R) : Prop where
  there : (level.registry.components source).multiSource.isSome →
    (level.registry.components source).target.isSome ∧ (0 < relayed source level.simulation.trace ↔
      level.registry.multisourceRequired source ≤ fires source level)
  gone : (level.registry.components source).multiSource = none →
    (level.registry.components source).multiManager = none
  once : relayed source level.simulation.trace ≤ 1
  enough : 0 < relayed source level.simulation.trace → required ≤ fires source level

theorem Latching.idle {allowed : ℚ → Prop} (h : Latching source required level) (hTurn : Turn allowed level level')
    (hSteady : Steady source required level level') (hFires : fires source level' = fires source level)
    (hRelayed : relayed source level'.simulation.trace = relayed source level.simulation.trace) :
    Latching source required level' := by
  rcases hTurn.keeps source with hSame | hGone
  · constructor
    · intro hAlive
      have hBefore : (level.registry.components source).multiSource.isSome := hSame.multiSource ▸ hAlive
      obtain ⟨hTarget, hLatch⟩ := h.there hBefore
      refine ⟨hSame.target ▸ hTarget, ?_⟩
      have hLess := hTurn.fewer.required_le hSame.targetName
      have hOpens := hSteady.opens hFires hAlive
      rw [hRelayed, hFires, hLatch]
      omega
    · rw [hSame.multiSource, hSame.multiManager]
      exact h.gone
    · rw [hRelayed]
      exact h.once
    · rw [hRelayed, hFires]
      exact h.enough
  · constructor
    · rw [hGone]
      intro hAlive
      cases hAlive
    · rw [hGone]
      intro _
      rfl
    · rw [hRelayed]
      exact h.once
    · rw [hRelayed, hFires]
      exact h.enough

theorem activateSource_counts (level : Level R) (components : MultiSource) (activator : Option Entity)
    (useType : TriggerUse) :
    fires source (level.activateSource source components activator useType) =
      min (fires source level + 1) (2 ^ 64 - 1) := by
  have hCounted : (Function.update level.simulation.masterFires source
      (some (min (fires source level + 1) (2 ^ 64 - 1))) source).getD 0 = min (fires source level + 1) (2 ^ 64 - 1) := by
    rw [Function.update_self, Option.getD_some]
  rw [activateSource]
  split
  · split
    · exact hCounted
    · rw [fires, onSimulation, (fireFor_busy _ _ _ _ _ _).2]
      exact hCounted
  · exact hCounted

theorem activateSource_meets (level : Level R) (components : MultiSource) (activator : Option Entity)
    (useType : TriggerUse) (hMeets : fires source level + 1 = level.registry.multisourceRequired source)
    (hTarget : (level.registry.components source).target.isSome)
    (hRoom : level.simulation.pending.length < maxPendingEvents) :
    relayed source (level.activateSource source components activator useType).simulation.trace =
      relayed source level.simulation.trace + 1 := by
  have hBound := level.registry.required_lt source
  have hNow : min (fires source level + 1) (2 ^ 64 - 1) = level.registry.multisourceRequired source := by omega
  obtain ⟨target, hTarget⟩ := Option.isSome_iff_exists.mp hTarget
  rw [activateSource]
  split
  · split
    · rename_i hNone
      have hNone : (level.registry.components source).target = none := hNone
      rw [hTarget] at hNone
      cases hNone
    · rename_i other _
      dsimp only [onSimulation]
      rw [Simulation.fireFor, if_neg (Nat.not_le_of_lt hRoom)]
      have hOne : relayed source [.queued ⟨other, useType, activator, max components.delay 0, level.simulation.serial,
          some source⟩] = 1 := by
        simp [relayed]
      exact (relayed_append _ _).trans (by rw [hOne])
  · rename_i hOther
    exact absurd hNow hOther

theorem activateSource_quiet (level : Level R) (components : MultiSource) (activator : Option Entity)
    (useType : TriggerUse) (hOther : fires source level + 1 ≠ level.registry.multisourceRequired source) :
    (level.activateSource source components activator useType).simulation.trace = level.simulation.trace := by
  have hBound := level.registry.required_lt source
  have hNow : min (fires source level + 1) (2 ^ 64 - 1) ≠ level.registry.multisourceRequired source := by omega
  rw [activateSource]
  split
  · rename_i hSame
    exact absurd hSame hNow
  · rfl

theorem Latching.relay (h : Latching source required level) {components : MultiSource}
    (hSource : (level.registry.components source).multiSource = some components) (activator : Option Entity)
    (useType : TriggerUse) (hRequired : required < 2 ^ 64 - 1)
    (hSteady : Steady source required level (level.activateSource source components activator useType)) :
    Latching source required (level.activateSource source components activator useType) := by
  have hCount : fires source (level.activateSource source components activator useType) = _ :=
    activateSource_counts level components activator useType
  have hRegistry := activateSource_registry level source components activator useType
  have hBound := level.registry.required_lt source
  obtain ⟨hTarget, hLatch⟩ := h.there (by rw [hSource]; rfl)
  have hOnce := h.once
  have hEnough := h.enough
  by_cases hMeets : fires source level + 1 = level.registry.multisourceRequired source
  · obtain ⟨hSame, hRoom⟩ := hSteady.meets (by omega) hMeets
    have hRelayed := activateSource_meets level components activator useType hMeets hTarget hRoom
    constructor
    · intro _
      rw [hRegistry, hRelayed, hCount]
      exact ⟨hTarget, by omega⟩
    · rw [hRegistry]
      exact h.gone
    · omega
    · omega
  · have hRelayed := congrArg (relayed source) (activateSource_quiet level components activator useType hMeets)
    constructor
    · intro _
      rw [hRegistry, hRelayed, hCount, hLatch]
      exact ⟨hTarget, by omega⟩
    · rw [hRegistry]
      exact h.gone
    · omega
    · omega

theorem Latching.turn {allowed : ℚ → Prop} (h : Latching source required level) (hRequired : required < 2 ^ 64 - 1)
    (hTurn : Turn allowed level level') (hSteady : Steady source required level level') :
    Latching source required level' := by
  have hConcern := hTurn.concern source
  cases hConcern with
  | foreign _ hForeign =>
    apply h.idle hTurn hSteady
    · rw [fires, fires, hForeign.fires]
    · exact relayed_schedules hForeign.schedules fun hSame => hSame rfl
  | relays components activator useType hActive hSource => exact h.relay hSource activator useType hRequired hSteady
  | manages manager activator hActive hSource hManager =>
    rw [h.gone hSource] at hManager
    cases hManager
  | passes dt hAllowed => exact h.idle hTurn hSteady rfl (relayed_append _ _)
  | takes fire rest hTake => exact h.idle hTurn hSteady rfl (relayed_append _ _)
  | ends => exact h.idle hTurn hSteady rfl (relayed_append _ _)
  | rests dt hAllowed => exact h.idle hTurn hSteady rfl (relayed_append _ _)

theorem masterIsActive_iff {entity : Entity} {name : Name}
    (hMaster : (level.registry.components entity).master = some name)
    (hOnly : ((level.registry.find name).filter fun other => (level.registry.components other).multiSource.isSome) =
      [source]) :
    level.masterIsActive entity = true ↔ level.registry.multisourceRequired source ≤ fires source level := by
  have hPositive := level.registry.required_pos source
  rw [masterIsActive, hMaster]
  dsimp only
  rw [hOnly, List.isEmpty_cons, Bool.false_or, List.any_cons, List.any_nil, Bool.or_false, fires]
  cases level.simulation.masterFires source with
  | none =>
    rw [Option.any_none, Option.getD_none]
    exact ⟨fun hFalse => (Bool.false_ne_true hFalse).elim, fun hLe => absurd hLe (Nat.not_le_of_lt hPositive)⟩
  | some count =>
    rw [Option.any_some, Option.getD_some]
    exact decide_eq_true_iff

theorem Latching.latched (h : Latching source required level) : Latched source required level := by
  refine ⟨fun entity name hMaster hOnly => ?_, h.once, h.enough⟩
  have hMem : source ∈ (level.registry.find name).filter fun other =>
      (level.registry.components other).multiSource.isSome := by
    rw [hOnly]
    exact List.mem_cons_self
  rw [masterIsActive_iff hMaster hOnly]
  exact ((h.there (List.mem_filter.mp hMem).2).2).symm

/-- Whatever the moves from a new level on, as long as each keeps the latch. -/
theorem steady_moves_latch {allowed : ℚ → Prop} (registry : Registry R) (source : Entity)
    (hSource : (registry.components source).multiSource.isSome) (hTarget : (registry.components source).target.isSome)
    (level : Level R)
    (hMoves : ReflTransGen
      (fun level level' => Turn allowed level level' ∧
        Steady source (registry.multisourceRequired source) level level') ⟨.new, registry⟩ level) :
    Latched source (registry.multisourceRequired source) level := by
  apply Latching.latched
  induction hMoves with
  | refl =>
    constructor
    · intro _
      refine ⟨hTarget, ?_⟩
      have hPositive := registry.required_pos source
      exact iff_of_false (Nat.lt_irrefl 0) (Nat.not_le_of_lt hPositive)
    · intro hNone
      have hNone : (registry.components source).multiSource = none := hNone
      rw [hNone] at hSource
      cases hSource
    · exact Nat.zero_le 1
    · intro hPositive
      exact absurd hPositive (Nat.lt_irrefl 0)
  | tail _ hMove ih => exact ih.turn (registry.required_lt source) hMove.1 hMove.2

/-- One entity names the source and fires it once. -/
theorem single_master_latches :
    let source : Components :=
      { targetName := some [9], target := some [8], multiSource := some ⟨0⟩ }
    let registry : Registry Unit := ⟨[(0, source), (1, { target := some [9] }), (2, { master := some [9] })],
      fun name => if name = [9] then [0] else [], (), by decide⟩
    let level := run noDevices ⟨.new, registry⟩ [.useEntity 0 none]
    Latched 0 (registry.multisourceRequired 0) level ∧ level.masterIsActive 2 = true := by
  intro source registry level
  refine ⟨?_, by decide +kernel⟩
  apply steady_moves_latch registry 0 rfl rfl
  have hTurn : Turn (fun _ => True) ⟨.new, registry⟩ level := .relays 0 ⟨0⟩ none .toggle (by decide +kernel) rfl
  refine .single ⟨hTurn, ?_, ?_⟩
  · intro hFires
    exact absurd hFires (by decide +kernel)
  · intro _ _
    exact ⟨rfl, by decide +kernel⟩

/-- Of two entities that name the source one removes itself: the gate opens, the relay never goes out. -/
theorem removed_entity_parts_gate_and_relay :
    let source : Components :=
      { targetName := some [9], target := some [8], multiSource := some ⟨0⟩ }
    let auto : Components := { target := some [9], autoTrigger := some ⟨0, true, false⟩ }
    let registry : Registry Unit :=
      ⟨[(0, source), (1, auto), (2, { target := some [9] }), (3, { master := some [9] })],
        fun name => if name = [9] then [0] else [], (), by decide⟩
    ¬ Latched 0 (registry.multisourceRequired 0) (run noDevices ⟨.new, registry⟩ [.useEntity 0 none, .tick 0]) := by
  intro source auto registry h
  have hGate := h.gate 3 [9] (by decide +kernel) (by decide +kernel)
  have hOpen : (run noDevices ⟨.new, registry⟩ [.useEntity 0 none, .tick 0]).masterIsActive 3 = true := by decide +kernel
  have hNone : relayed 0 (run noDevices ⟨.new, registry⟩ [.useEntity 0 none, .tick 0]).simulation.trace = 0 := by
    decide +kernel
  have hRelayed := hGate.mp hOpen
  omega

end Level

end OpenHalfLife.Game
