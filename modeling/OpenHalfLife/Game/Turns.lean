import OpenHalfLife.Game.Simulation
import Mathlib.Logic.Relation

/-! # Turns

Every call of the host is a chain of the moves below; what holds of every move
holds at every moment of a run, those inside a tick included.
-/

namespace OpenHalfLife.Game

set_option autoImplicit false

open Relation

def spent (trace : List Happening) : Nat :=
  trace.foldl (fun count happening => match happening with
    | .passed _ => 0
    | .dispatched _ => count + 1
    | _ => count) 0

theorem spent_append (trace : List Happening) (happening : Happening) :
    spent (trace ++ [happening]) = match happening with
      | .passed _ => 0
      | .dispatched _ => spent trace + 1
      | _ => spent trace := by
  rw [spent, List.foldl_append]
  rfl

namespace Level

variable {R : Type}

inductive Turn (allowed : ℚ → Prop) (level : Level R) : Level R → Prop
  | fires (target : Name) (activator : Option Entity) (delay : ℚ) (useType : TriggerUse) :
    Turn allowed level (level.onSimulation fun simulation => simulation.fireTyped target activator delay useType)
  | touches (entity : Entity) (activator : Option Entity) : Turn allowed level (level.activateTrigger entity activator).2
  | breaks (entity : Entity) (activator : Option Entity) : Turn allowed level (level.breakEntity entity activator)
  | relays (entity : Entity) (source : MultiSource) (activator : Option Entity) (useType : TriggerUse) :
    level.masterIsActive entity = true → (level.registry.components entity).multiSource = some source →
    Turn allowed level (level.activateSource entity source activator useType)
  | manages (entity : Entity) (manager : MultiManager) (activator : Option Entity) :
    level.masterIsActive entity = true → (level.registry.components entity).multiSource = none →
    (level.registry.components entity).multiManager = some manager →
    Turn allowed level (level.activateManager entity manager activator)
  | moves (devices : R) : Turn allowed level (level.withDevices devices)
  | arms (entity : Entity) : Turn allowed level { level with
      registry := level.registry.modify entity fun c =>
        { c with autoTrigger := c.autoTrigger.map fun auto => { auto with fired := true } } }
  | despawns (entity : Entity) : Turn allowed level { level with registry := level.registry.despawn entity }
  | spawns : Turn allowed level (level.onSimulation fun simulation => { simulation with playerSpawnFired := true })
  | knows (player : Option Entity) :
    Turn allowed level (level.onSimulation fun simulation => { simulation with effectPlayer := player })
  | passes (dt : ℚ) : allowed dt → Turn allowed level (level.passTime dt)
  | takes (fire : Fire) (rest : List Fire) : takeDue level.simulation.pending = some (fire, rest) →
    Turn allowed level (level.removePending fire rest)
  | ends : takeDue level.simulation.pending = none ∨ spent level.simulation.trace = maxEventsPerTick →
    Turn allowed level (level.onSimulation fun simulation => simulation.note .ended)
  | cools (dt : ℚ) : Turn allowed level (level.coolTriggers dt)
  | rests (dt : ℚ) : allowed dt → Turn allowed level (level.restManagers dt)

abbrev Turns (allowed : ℚ → Prop) : Level R → Level R → Prop := ReflTransGen (Turn allowed)

end Level

/-- Steps that only schedule, on behalf of some senders: the queue grows by fires, and nothing is
taken from it. -/
inductive Schedules (senders : Option Entity → Prop) (simulation : Simulation) : Simulation → Prop
  | refl : Schedules senders simulation simulation
  | queue (simulation' : Simulation) (sender : Option Entity) (target : Name) (activator : Option Entity) (delay : ℚ)
    (useType : TriggerUse) : Schedules senders simulation simulation' → senders sender →
    Schedules senders simulation (simulation'.fireFor sender target activator delay useType)
  | accept (simulation' : Simulation) (manager : Entity) : Schedules senders simulation simulation' →
    senders (some manager) → Schedules senders simulation (simulation'.note (.accepted manager))
  | other (simulation' simulation'' : Simulation) : Schedules senders simulation simulation' →
    simulation''.pending = simulation'.pending → simulation''.serial = simulation'.serial →
    simulation''.trace = simulation'.trace → Schedules senders simulation simulation''

namespace Schedules

variable {senders senders' : Option Entity → Prop} {simulation simulation' simulation'' : Simulation}

theorem trans (h : Schedules senders simulation simulation') (h' : Schedules senders simulation' simulation'') :
    Schedules senders simulation simulation'' := by
  induction h' with
  | refl => exact h
  | queue s sender target activator delay useType _ hSender ih =>
    exact .queue s sender target activator delay useType ih hSender
  | accept s manager _ hSender ih => exact .accept s manager ih hSender
  | other s s' _ hPending hSerial hTrace ih => exact .other s s' ih hPending hSerial hTrace

theorem mono (h : Schedules senders simulation simulation') (hMore : ∀ sender, senders sender → senders' sender) :
    Schedules senders' simulation simulation' := by
  induction h with
  | refl => exact .refl
  | queue s sender target activator delay useType _ hSender ih =>
    exact .queue s sender target activator delay useType ih (hMore sender hSender)
  | accept s manager _ hSender ih => exact .accept s manager ih (hMore _ hSender)
  | other s s' _ hPending hSerial hTrace ih => exact .other s s' ih hPending hSerial hTrace

theorem one {sender : Option Entity} (h : senders sender) (target : Name) (activator : Option Entity) (delay : ℚ)
    (useType : TriggerUse) : Schedules senders simulation (simulation.fireFor sender target activator delay useType) :=
  .queue simulation sender target activator delay useType .refl h

theorem same (hPending : simulation'.pending = simulation.pending) (hSerial : simulation'.serial = simulation.serial)
    (hTrace : simulation'.trace = simulation.trace) : Schedules senders simulation simulation' :=
  .other simulation simulation' .refl hPending hSerial hTrace

theorem foldl {α : Type} {f : Simulation → α → Simulation}
    (h : ∀ simulation a, Schedules senders simulation (f simulation a)) (l : List α) (simulation : Simulation) :
    Schedules senders simulation (l.foldl f simulation) := by
  induction l generalizing simulation with
  | nil => exact .refl
  | cons a l ih => exact (h simulation a).trans (ih (f simulation a))

theorem spent_eq (h : Schedules senders simulation simulation') : spent simulation'.trace = spent simulation.trace := by
  induction h with
  | refl => rfl
  | queue s sender target activator delay useType _ _ ih =>
    rw [Simulation.fireFor]
    split
    · exact (spent_append _ _).trans ih
    · exact (spent_append _ _).trans ih
  | accept s manager _ _ ih => exact (spent_append _ _).trans ih
  | other s s' _ _ _ hTrace ih => rw [hTrace, ih]

end Schedules

namespace Level

variable {R : Type}

theorem activateTrigger_schedules (level : Level R) (entity : Entity) (activator : Option Entity) :
    Schedules (· = none) level.simulation (level.activateTrigger entity activator).2.simulation := by
  rw [activateTrigger]
  split
  · exact .refl
  split
  · exact .refl
  split
  · exact .refl
  dsimp only
  split
  · exact .refl
  split
  · exact .same rfl rfl rfl
  · exact .queue _ _ _ _ _ _ (.same rfl rfl rfl) rfl

theorem breakEntity_schedules (level : Level R) (entity : Entity) (activator : Option Entity) :
    Schedules (· = none) level.simulation (level.breakEntity entity activator).simulation := by
  rw [breakEntity]
  split
  · exact .refl
  split
  · exact .refl
  split
  · exact .refl
  · exact .one (by rfl) _ _ _ _

theorem activateSource_schedules (level : Level R) (entity : Entity) (source : MultiSource) (activator : Option Entity)
    (useType : TriggerUse) :
    Schedules (· = some entity) level.simulation (level.activateSource entity source activator useType).simulation := by
  rw [activateSource]
  split
  · split
    · exact .same rfl rfl rfl
    · exact .queue _ _ _ _ _ _ (.same rfl rfl rfl) rfl
  · exact .same rfl rfl rfl

theorem activateManager_schedules (level : Level R) (entity : Entity) (manager : MultiManager)
    (activator : Option Entity) :
    Schedules (· = some entity) level.simulation (level.activateManager entity manager activator).simulation := by
  rw [activateManager]
  split
  · exact .refl
  · have hNoted : Schedules (· = some entity) level.simulation (level.simulation.note (.accepted entity)) :=
      .accept _ _ .refl rfl
    refine hNoted.trans (.trans ?_ (.foldl (fun simulation target => .one (by rfl) _ _ _ _) _ _))
    split
    · exact .same rfl rfl rfl
    · exact .refl

variable (d : Devices R)

theorem activateWith_turn (allowed : ℚ → Prop) (level : Level R) (entity : Entity) (activator : Option Entity)
    (useType : TriggerUse) : Turns allowed level (level.activateWith d entity activator useType) := by
  rw [activateWith]
  split
  · exact .refl
  rename_i hActive
  have hActive : level.masterIsActive entity = true := by simpa using hActive
  split
  · rename_i source hSource
    exact .single (.relays entity source activator useType hActive hSource)
  rename_i hSource
  split
  · exact .single (.moves _)
  split
  · exact .single (.breaks entity activator)
  split
  · exact .single (.moves _)
  split
  · rename_i manager hManager
    exact .single (.manages entity manager activator hActive hSource hManager)
  split
  · exact .single (.moves _)
  · exact .single (.touches entity activator)

theorem activateWith_schedules (level : Level R) (entity : Entity) (activator : Option Entity) (useType : TriggerUse) :
    Schedules (fun _ => True) level.simulation (level.activateWith d entity activator useType).simulation := by
  rw [activateWith]
  split
  · exact .refl
  split
  · exact (activateSource_schedules _ _ _ _ _).mono fun _ _ => trivial
  split
  · exact .refl
  split
  · exact (breakEntity_schedules _ _ _).mono fun _ _ => trivial
  split
  · exact .refl
  split
  · exact (activateManager_schedules _ _ _ _).mono fun _ _ => trivial
  split
  · exact .refl
  · exact (activateTrigger_schedules _ _ _).mono fun _ _ => trivial

theorem turns_foldl {α : Type} {allowed : ℚ → Prop} {f : Level R → α → Level R}
    (h : ∀ level a, Turns allowed level (f level a)) (l : List α) (level : Level R) :
    Turns allowed level (l.foldl f level) := by
  induction l generalizing level with
  | nil => exact .refl
  | cons a l ih => exact (h level a).trans (ih (f level a))

theorem schedules_foldl {α : Type} {senders : Option Entity → Prop} {f : Level R → α → Level R}
    (h : ∀ level a, Schedules senders level.simulation (f level a).simulation) (l : List α) (level : Level R) :
    Schedules senders level.simulation (l.foldl f level).simulation := by
  induction l generalizing level with
  | nil => exact .refl
  | cons a l ih => exact (h level a).trans (ih (f level a))

theorem dispatch_turns (allowed : ℚ → Prop) (level : Level R) (fire : Fire) :
    Turns allowed level (level.dispatch d fire) :=
  turns_foldl (fun level target => activateWith_turn d allowed level target fire.activator fire.useType) _ _

theorem dispatch_schedules (level : Level R) (fire : Fire) :
    Schedules (fun _ => True) level.simulation (level.dispatch d fire).simulation :=
  schedules_foldl (fun level target => activateWith_schedules d level target fire.activator fire.useType) _ _

theorem drainQueue_turns (allowed : ℚ → Prop) (budget : Nat) (level : Level R)
    (hSpent : spent level.simulation.trace + budget = maxEventsPerTick) :
    Turns allowed level (level.drainQueue d budget) := by
  induction budget generalizing level with
  | zero => exact .single (.ends (.inr hSpent))
  | succ budget ih =>
    rw [drainQueue]
    split
    · rename_i hNone
      exact .single (.ends (.inl hNone))
    · rename_i fire rest hTake
      refine .head (.takes fire rest hTake) ((dispatch_turns d allowed _ fire).trans (ih _ ?_))
      rw [(dispatch_schedules d _ fire).spent_eq]
      have hOne : spent (level.simulation.trace ++ [.dispatched fire]) = spent level.simulation.trace + 1 :=
        spent_append _ _
      change spent (level.simulation.trace ++ [.dispatched fire]) + budget = _
      omega

theorem advanceQueue_turns {allowed : ℚ → Prop} (level : Level R) {dt : ℚ} (h : allowed dt) :
    Turns allowed level (level.advanceQueue d dt) := by
  refine .head (.passes dt h) (drainQueue_turns d allowed _ _ ?_)
  change spent (level.simulation.trace ++ [.passed dt]) + _ = _
  rw [spent_append]
  exact Nat.zero_add _

theorem fireAutoTrigger_turns (allowed : ℚ → Prop) (level : Level R)
    (ready : Entity × Name × AutoTrigger × TriggerUse) : Turns allowed level (level.fireAutoTrigger ready) := by
  obtain ⟨entity, target, auto, useType⟩ := ready
  rw [fireAutoTrigger]
  refine .head (.arms entity) (.head (.fires target (some entity) (max auto.delay 0) useType) ?_)
  dsimp only
  split
  · exact .single (.despawns entity)
  · exact .refl

theorem fireAutoTriggers_turns (allowed : ℚ → Prop) (level : Level R) : Turns allowed level level.fireAutoTriggers :=
  turns_foldl (fun level ready => fireAutoTrigger_turns allowed level ready) _ _

theorem firePlayerSpawn_turns (allowed : ℚ → Prop) (level : Level R) :
    Turns allowed level (level.firePlayerSpawn d) := by
  rw [firePlayerSpawn]
  split
  · exact .refl
  · exact .head .spawns (turns_foldl (fun level entity => activateWith_turn d allowed level entity none .toggle) _ _)

theorem advanceDevices_turns (allowed : ℚ → Prop) (level : Level R) (dt : ℚ) :
    Turns allowed level (level.advanceDevices d dt) := by
  rw [advanceDevices]
  refine .head (.moves (d.advance level.registry dt).1) ?_
  dsimp only
  generalize (d.advance level.registry dt).2 = fires
  generalize level.withDevices (d.advance level.registry dt).1 = moved
  induction fires generalizing moved with
  | nil => exact .refl
  | cons fire fires ih => exact .head (.fires fire.1 fire.2 0 .toggle) (ih _)

theorem tick_turns {allowed : ℚ → Prop} (level : Level R) {dt : ℚ} (h : allowed dt) :
    Turns allowed level (level.tick d dt) := by
  have hArmed := (firePlayerSpawn_turns d allowed level).trans (fireAutoTriggers_turns allowed _)
  have hDrained := hArmed.trans (advanceQueue_turns d _ h)
  have hAdvanced := hDrained.trans (advanceDevices_turns d allowed _ dt)
  exact hAdvanced.trans (.head (.cools dt) (.single (.rests dt h)))

theorem call_turns {allowed : ℚ → Prop} (level : Level R) (call : HostCall R)
    (h : ∀ dt, call = .tick dt → allowed dt) : Turns allowed level (level.call d call) := by
  cases call with
  | fireTyped target activator delay useType => exact .single (.fires target activator delay useType)
  | useEntity entity activator => exact activateWith_turn d allowed level entity activator .toggle
  | touchTrigger entity activator => exact .single (.touches entity activator)
  | breakEntity entity activator => exact .single (.breaks entity activator)
  | despawn entity => exact .single (.despawns entity)
  | setEffectPlayer player => exact .single (.knows player)
  | setDevices devices => exact .single (.moves devices)
  | tick dt => exact tick_turns d level (h dt rfl)

theorem run_turns {allowed : ℚ → Prop} (level : Level R) (calls : List (HostCall R))
    (h : ∀ dt, .tick dt ∈ calls → allowed dt) : Turns allowed level (level.run d calls) := by
  induction calls generalizing level with
  | nil => exact .refl
  | cons call calls ih =>
    refine (call_turns d level call fun dt hTick => h dt (hTick ▸ List.mem_cons_self)).trans (ih _ fun dt hTick => ?_)
    exact h dt (List.mem_cons_of_mem _ hTick)

end Level

end OpenHalfLife.Game
