import OpenHalfLife.Game.Turns

/-! # Moves that do not concern an entity

All but a few kinds of moves leave what is kept for an entity alone, and
schedule nothing on its behalf.
-/

namespace OpenHalfLife.Game

set_option autoImplicit false

namespace Registry

variable {R : Type} (registry : Registry R)

theorem components_modify {β : Type} (field : Components → β) (entity : Entity) (change : Components → Components)
    (h : ∀ c, field (change c) = field c) (other : Entity) :
    field ((registry.modify entity change).components other) = field (registry.components other) := by
  rw [components, components, modify]
  dsimp only
  induction registry.world with
  | nil => rfl
  | cons row world ih =>
    have hKey : (if row.1 = entity then (row.1, change row.2) else row).1 = row.1 := by
      split <;> rfl
    rw [List.map_cons, List.find?_cons, List.find?_cons, hKey]
    by_cases hSame : row.1 = other
    · simp only [hSame, decide_true, Option.map_some, Option.getD_some]
      split
      · exact h row.2
      · rfl
    · simp only [hSame, decide_false]
      exact ih

theorem components_despawn_self (entity : Entity) : (registry.despawn entity).components entity = {} := by
  rw [components, despawn, List.find?_eq_none.mpr]
  · rfl
  · intro row hMem
    simpa using (List.mem_filter.mp hMem).2

theorem components_despawn {entity other : Entity} (h : other ≠ entity) :
    (registry.despawn entity).components other = registry.components other := by
  rw [components, components, despawn]
  dsimp only
  rw [List.find?_filter]
  congr 3
  funext row
  by_cases hSame : row.1 = other
  · simp [hSame, h]
  · simp [hSame]

end Registry

namespace Level

variable {R : Type} {level level' : Level R} {entity other : Entity}

/-- The components a `multi_manager` or a `multisource` is known by. -/
structure SameEntity (registry registry' : Registry R) (entity : Entity) : Prop where
  multiSource : (registry'.components entity).multiSource = (registry.components entity).multiSource
  multiManager : (registry'.components entity).multiManager = (registry.components entity).multiManager
  target : (registry'.components entity).target = (registry.components entity).target
  targetName : (registry'.components entity).targetName = (registry.components entity).targetName

theorem SameEntity.refl (registry : Registry R) (entity : Entity) : SameEntity registry registry entity :=
  ⟨rfl, rfl, rfl, rfl⟩

theorem sameEntity_modify (registry : Registry R) (entity : Entity) (change : Components → Components)
    (hSource : ∀ c, (change c).multiSource = c.multiSource) (hManager : ∀ c, (change c).multiManager = c.multiManager)
    (hTarget : ∀ c, (change c).target = c.target) (hName : ∀ c, (change c).targetName = c.targetName)
    (other : Entity) : SameEntity registry (registry.modify entity change) other :=
  ⟨registry.components_modify _ entity change hSource other, registry.components_modify _ entity change hManager other,
    registry.components_modify _ entity change hTarget other, registry.components_modify _ entity change hName other⟩

structure Foreign (entity : Entity) (level level' : Level R) : Prop where
  schedules : Schedules (· ≠ some entity) level.simulation level'.simulation
  busy : level'.simulation.multiManagerBusy entity = level.simulation.multiManagerBusy entity
  fires : level'.simulation.masterFires entity = level.simulation.masterFires entity

theorem fireFor_busy (simulation : Simulation) (sender : Option Entity) (target : Name) (activator : Option Entity)
    (delay : ℚ) (useType : TriggerUse) :
    (simulation.fireFor sender target activator delay useType).multiManagerBusy = simulation.multiManagerBusy ∧
      (simulation.fireFor sender target activator delay useType).masterFires = simulation.masterFires := by
  rw [Simulation.fireFor]
  split <;> exact ⟨rfl, rfl⟩

theorem foldl_fireFor_busy {α : Type} (sender : Option Entity) (target : α → Name) (activator : α → Option Entity)
    (delay : α → ℚ) (useType : TriggerUse) (l : List α) (simulation : Simulation) :
    let after := l.foldl (fun simulation a => simulation.fireFor sender (target a) (activator a) (delay a) useType)
      simulation
    after.multiManagerBusy = simulation.multiManagerBusy ∧ after.masterFires = simulation.masterFires := by
  induction l generalizing simulation with
  | nil => exact ⟨rfl, rfl⟩
  | cons a l ih =>
    obtain ⟨hBusy, hFires⟩ := fireFor_busy simulation sender (target a) (activator a) (delay a) useType
    obtain ⟨hBusy', hFires'⟩ := ih (simulation.fireFor sender (target a) (activator a) (delay a) useType)
    exact ⟨hBusy'.trans hBusy, hFires'.trans hFires⟩

theorem none_ne_some : ∀ sender : Option Entity, sender = none → sender ≠ some entity := by
  rintro _ rfl hSome
  cases hSome

theorem activateTrigger_foreign (level : Level R) (entity other : Entity) (activator : Option Entity) :
    Foreign entity level (level.activateTrigger other activator).2 ∧
      (level.activateTrigger other activator).2.registry = level.registry := by
  refine ⟨⟨(activateTrigger_schedules level other activator).mono none_ne_some, ?_, ?_⟩, ?_⟩
  all_goals
    rw [activateTrigger]
    split
    · rfl
    split
    · rfl
    split
    · rfl
    dsimp only
    split
    · rfl
    split
    · rfl
  · exact congrFun (fireFor_busy _ _ _ _ _ _).1 entity
  · exact congrFun (fireFor_busy _ _ _ _ _ _).2 entity
  · rfl

theorem breakEntity_sameEntity (level : Level R) (entity other : Entity) (activator : Option Entity) :
    SameEntity level.registry (level.breakEntity other activator).registry entity := by
  rw [breakEntity]
  split
  · exact .refl _ _
  rename_i breakable _
  split
  · exact .refl _ _
  have hBroken : SameEntity level.registry
      (level.registry.modify other fun c => { c with breakable := some { breakable with broken := true } }) entity := by
    apply sameEntity_modify <;> intro c <;> rfl
  dsimp only
  split
  · exact hBroken
  · exact hBroken

theorem breakEntity_foreign (level : Level R) (entity other : Entity) (activator : Option Entity) :
    Foreign entity level (level.breakEntity other activator) := by
  refine ⟨(breakEntity_schedules level other activator).mono none_ne_some, ?_, ?_⟩
  all_goals
    rw [breakEntity]
    split
    · rfl
    split
    · rfl
    dsimp only
    split
    · rfl
  · exact congrFun (fireFor_busy _ _ _ _ _ _).1 entity
  · exact congrFun (fireFor_busy _ _ _ _ _ _).2 entity

theorem activateSource_registry (level : Level R) (entity : Entity) (source : MultiSource) (activator : Option Entity)
    (useType : TriggerUse) : (level.activateSource entity source activator useType).registry = level.registry := by
  rw [activateSource]
  split
  · split <;> rfl
  · rfl

theorem activateSource_foreign (level : Level R) (h : other ≠ entity) (source : MultiSource)
    (activator : Option Entity) (useType : TriggerUse) :
    Foreign entity level (level.activateSource other source activator useType) := by
  refine ⟨(activateSource_schedules level other source activator useType).mono ?_, ?_, ?_⟩
  · rintro _ rfl hSame
    exact h (Option.some.inj hSame)
  · rw [activateSource]
    split
    · split
      · rfl
      · exact congrFun (fireFor_busy _ _ _ _ _ _).1 entity
    · rfl
  · rw [activateSource]
    have hOther (value : Option Nat) :
        Function.update level.simulation.masterFires other value entity = level.simulation.masterFires entity :=
      Function.update_of_ne (Ne.symm h) _ _
    split
    · split
      · exact hOther _
      · exact (congrFun (fireFor_busy _ _ _ _ _ _).2 entity).trans (hOther _)
    · exact hOther _

theorem activateManager_registry (level : Level R) (entity : Entity) (manager : MultiManager)
    (activator : Option Entity) : (level.activateManager entity manager activator).registry = level.registry := by
  rw [activateManager]
  split <;> rfl

theorem activateManager_foreign (level : Level R) (h : other ≠ entity) (manager : MultiManager)
    (activator : Option Entity) : Foreign entity level (level.activateManager other manager activator) := by
  refine ⟨(activateManager_schedules level other manager activator).mono ?_, ?_, ?_⟩
  · rintro _ rfl hSame
    exact h (Option.some.inj hSame)
  all_goals
    rw [activateManager]
    split
    · rfl
  · refine (congrFun (foldl_fireFor_busy _ _ _ _ _ _ _).1 entity).trans ?_
    split
    · exact Function.update_of_ne (Ne.symm h) _ _
    · rfl
  · refine (congrFun (foldl_fireFor_busy _ _ _ _ _ _ _).2 entity).trans ?_
    split <;> rfl

theorem Foreign.same (hPending : level'.simulation.pending = level.simulation.pending)
    (hSerial : level'.simulation.serial = level.simulation.serial)
    (hTrace : level'.simulation.trace = level.simulation.trace)
    (hBusy : level'.simulation.multiManagerBusy = level.simulation.multiManagerBusy)
    (hFires : level'.simulation.masterFires = level.simulation.masterFires) : Foreign entity level level' :=
  ⟨.same hPending hSerial hTrace, congrFun hBusy entity, congrFun hFires entity⟩

inductive Concern (allowed : ℚ → Prop) (entity : Entity) (level : Level R) : Level R → Prop
  | foreign (level' : Level R) : Foreign entity level level' → Concern allowed entity level level'
  | relays (source : MultiSource) (activator : Option Entity) (useType : TriggerUse) :
    level.masterIsActive entity = true → (level.registry.components entity).multiSource = some source →
    Concern allowed entity level (level.activateSource entity source activator useType)
  | manages (manager : MultiManager) (activator : Option Entity) :
    level.masterIsActive entity = true → (level.registry.components entity).multiSource = none →
    (level.registry.components entity).multiManager = some manager →
    Concern allowed entity level (level.activateManager entity manager activator)
  | passes (dt : ℚ) : allowed dt → Concern allowed entity level (level.passTime dt)
  | takes (fire : Fire) (rest : List Fire) : takeDue level.simulation.pending = some (fire, rest) →
    Concern allowed entity level (level.removePending fire rest)
  | ends : Concern allowed entity level (level.onSimulation fun simulation => simulation.note .ended)
  | rests (dt : ℚ) : allowed dt → Concern allowed entity level (level.restManagers dt)

theorem Turn.concern {allowed : ℚ → Prop} (h : Turn allowed level level') (entity : Entity) :
    Concern allowed entity level level' := by
  cases h with
  | fires target activator delay useType =>
    have hSame := fireFor_busy level.simulation none target activator delay useType
    exact .foreign _ ⟨.one (by rintro ⟨⟩) target activator delay useType, congrFun hSame.1 entity,
      congrFun hSame.2 entity⟩
  | touches other activator => exact .foreign _ (activateTrigger_foreign level entity other activator).1
  | breaks other activator => exact .foreign _ (breakEntity_foreign level entity other activator)
  | relays other source activator useType hActive hSource =>
    by_cases hOwn : other = entity
    · subst hOwn
      exact .relays source activator useType hActive hSource
    · exact .foreign _ (activateSource_foreign level hOwn source activator useType)
  | manages other manager activator hActive hSource hManager =>
    by_cases hOwn : other = entity
    · subst hOwn
      exact .manages manager activator hActive hSource hManager
    · exact .foreign _ (activateManager_foreign level hOwn manager activator)
  | moves devices => exact .foreign _ (.same rfl rfl rfl rfl rfl)
  | arms other => exact .foreign _ (.same rfl rfl rfl rfl rfl)
  | despawns other => exact .foreign _ (.same rfl rfl rfl rfl rfl)
  | spawns => exact .foreign _ (.same rfl rfl rfl rfl rfl)
  | knows player => exact .foreign _ (.same rfl rfl rfl rfl rfl)
  | passes dt hAllowed => exact .passes dt hAllowed
  | takes fire rest hTake => exact .takes fire rest hTake
  | ends hEnds => exact .ends
  | cools dt => exact .foreign _ (.same rfl rfl rfl rfl rfl)
  | rests dt hAllowed => exact .rests dt hAllowed

theorem Turn.keeps {allowed : ℚ → Prop} (h : Turn allowed level level') (entity : Entity) :
    SameEntity level.registry level'.registry entity ∨ level'.registry.components entity = {} := by
  cases h with
  | touches other activator =>
    rw [(activateTrigger_foreign level entity other activator).2]
    exact .inl (.refl _ _)
  | breaks other activator => exact .inl (breakEntity_sameEntity level entity other activator)
  | relays other source activator useType hActive hSource =>
    rw [activateSource_registry]
    exact .inl (.refl _ _)
  | manages other manager activator hActive hSource hManager =>
    rw [activateManager_registry]
    exact .inl (.refl _ _)
  | arms other =>
    left
    dsimp only
    apply sameEntity_modify <;> intro c <;> rfl
  | despawns other =>
    by_cases hOwn : entity = other
    · subst hOwn
      exact .inr (level.registry.components_despawn_self entity)
    · have hSame := level.registry.components_despawn hOwn
      exact .inl ⟨congrArg _ hSame, congrArg _ hSame, congrArg _ hSame, congrArg _ hSame⟩
  | fires target activator delay useType => exact .inl (.refl _ _)
  | moves devices => exact .inl ⟨rfl, rfl, rfl, rfl⟩
  | spawns => exact .inl (.refl _ _)
  | knows player => exact .inl (.refl _ _)
  | passes dt hAllowed => exact .inl (.refl _ _)
  | takes fire rest hTake => exact .inl (.refl _ _)
  | ends hEnds => exact .inl (.refl _ _)
  | cools dt => exact .inl (.refl _ _)
  | rests dt hAllowed => exact .inl (.refl _ _)

end Level

end OpenHalfLife.Game
