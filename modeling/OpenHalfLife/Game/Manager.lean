import OpenHalfLife.Game.Clock
import OpenHalfLife.Game.Foreign

/-! # Managers that run one schedule at a time

The timer of a `multi_manager` and the delays of what it queued are two clocks.
A manager accepted in a queue pass loses that pass's time from its timer only.
-/

namespace OpenHalfLife.Game

set_option autoImplicit false

open Level

theorem elapsed_concat (trace trace' : List Happening) : elapsed (trace ++ trace') = elapsed trace + elapsed trace' := by
  induction trace' using List.reverseRecOn with
  | nil => rw [List.append_nil, elapsed, elapsed, List.foldl_nil, add_zero]
  | append_singleton trace' happening ih =>
    rw [← List.append_assoc, elapsed_append, elapsed_append, ih]
    cases happening with
    | passed dt => exact add_assoc _ _ _
    | queued fire => rfl
    | dropped => rfl
    | accepted manager => rfl
    | dispatched fire => rfl
    | ended => rfl
    | ticked dt => rfl

theorem ticked_concat (trace trace' : List Happening) : ticked (trace ++ trace') = ticked trace + ticked trace' := by
  induction trace' using List.reverseRecOn with
  | nil => rw [List.append_nil, ticked, ticked, List.foldl_nil, add_zero]
  | append_singleton trace' happening ih =>
    rw [← List.append_assoc, ticked_append, ticked_append, ih]
    cases happening with
    | ticked dt => exact add_assoc _ _ _
    | queued fire => rfl
    | dropped => rfl
    | accepted manager => rfl
    | dispatched fire => rfl
    | ended => rfl
    | passed dt => rfl

theorem ahead_accepted (before middle : List Happening) (entity : Entity) :
    ahead (before ++ .accepted entity :: middle) = ahead before + (elapsed middle - ticked middle) := by
  have hElapsed : elapsed (before ++ .accepted entity :: middle) = elapsed before + elapsed middle :=
    elapsed_concat _ _
  have hTicked : ticked (before ++ .accepted entity :: middle) = ticked before + ticked middle := ticked_concat _ _
  rw [ahead, ahead, hElapsed, hTicked]
  exact add_sub_add_comm _ _ _ _

/-- What was queued before the next accepted activation is out by then: there was nothing to queue,
the timer was set and counts no time from before it, or the next one came late enough. -/
def Spaced (manager : MultiManager) (before middle : List Happening) : Prop :=
  manager.targets = [] ∨ (ahead before ≤ 0 ∧ 0 < busyTime manager) ∨
    (.ended ∈ middle ∧ busyTime manager + ahead before ≤ ticked middle)

/-- The accepted activations of a manager are spaced, and no queue pass stops with one of its fires
due. -/
def Unhurried (entity : Entity) (manager : MultiManager) (trace : List Happening) : Happening → Prop
  | .accepted other => other = entity → ∀ before middle, trace = before ++ .accepted entity :: middle →
    .accepted entity ∉ middle → Spaced manager before middle
  | .ended => ∀ fire ∈ outstanding trace, fire.sender = some entity → 0 < fire.delay
  | _ => True

/-- An accepted activation finds no fire of an earlier one of the same manager pending. -/
def SingleThreaded (entity : Entity) (trace : List Happening) : Prop :=
  ∀ before after, trace = before ++ .accepted entity :: after → ∀ fire ∈ outstanding before, fire.sender ≠ some entity

variable {entity : Entity} {manager : MultiManager} {trace : List Happening} {pending : List Fire} {busy : Option ℚ}

/-- A fire of the last accepted activation: the time left to it, and the timer that covers it. -/
structure Charged (entity : Entity) (manager : MultiManager) (trace : List Happening) (busy : Option ℚ) (fire : Fire)
    (before middle : List Happening) : Prop where
  split : trace = before ++ .accepted entity :: middle
  last : .accepted entity ∉ middle
  targets : manager.targets ≠ []
  left : fire.delay + elapsed middle ≤ busyTime manager
  ended : .ended ∈ middle → 0 < fire.delay + late trace
  covered : ahead before ≤ 0 → 0 < busyTime manager → ∃ timer, busy = some timer ∧ fire.delay + ahead trace ≤ timer

/-- The conditions on a run, and the order in which a tick goes. -/
def Calm (entity : Entity) (manager : MultiManager) (trace : List Happening) : Prop :=
  Throughout InTime trace ∧ Throughout (Unhurried entity manager) trace

theorem Calm.init {happening : Happening} (h : Calm entity manager (trace ++ [happening])) : Calm entity manager trace :=
  ⟨h.1.init, h.2.init⟩

structure Kept (entity : Entity) (manager : MultiManager) (trace : List Happening) (pending : List Fire)
    (busy : Option ℚ) : Prop where
  charged : Calm entity manager trace → ∀ fire ∈ pending, fire.sender = some entity →
    ∃ before middle, Charged entity manager trace busy fire before middle
  single : Throughout (fun before happening => happening = .accepted entity →
    Calm entity manager (before ++ [happening]) → ∀ fire ∈ outstanding before, fire.sender ≠ some entity) trace

def Still (entity : Entity) : Happening → Prop
  | .queued _ => True
  | .dropped => True
  | .dispatched _ => True
  | .accepted other => other ≠ entity
  | _ => False

theorem Charged.still {fire : Fire} {before middle : List Happening} {happening : Happening}
    (h : Charged entity manager trace busy fire before middle) (hStill : Still entity happening) :
    Charged entity manager (trace ++ [happening]) busy fire before (middle ++ [happening]) := by
  obtain ⟨hSplit, hLast, hTargets, hLeft, hEnded, hCovered⟩ := h
  have hElapsed : elapsed (middle ++ [happening]) = elapsed middle := by
    rw [elapsed_append]
    cases happening <;> first | rfl | cases hStill
  have hLate : late (trace ++ [happening]) = late trace := by
    rw [late_append]
    cases happening <;> first | rfl | cases hStill
  have hAhead : ahead (trace ++ [happening]) = ahead trace := by
    rw [ahead_append]
    cases happening <;> first | rfl | cases hStill
  constructor
  · rw [hSplit, List.append_assoc, List.cons_append]
  · intro hMem
    rcases List.mem_append.mp hMem with hMem | hMem
    · exact hLast hMem
    · cases List.mem_singleton.mp hMem
      exact hStill rfl
  · exact hTargets
  · rw [hElapsed]
    exact hLeft
  · intro hMem
    rw [hLate]
    rcases List.mem_append.mp hMem with hMem | hMem
    · exact hEnded hMem
    · cases List.mem_singleton.mp hMem
      cases hStill
  · rw [hAhead]
    exact hCovered

namespace Kept

theorem still (h : Kept entity manager trace pending busy) {happening : Happening} (hStill : Still entity happening)
    {pending' : List Fire} (hPending : ∀ fire ∈ pending', fire.sender = some entity → fire ∈ pending) :
    Kept entity manager (trace ++ [happening]) pending' busy := by
  constructor
  · intro hCalm fire hMem hSender
    obtain ⟨before, middle, hCharged⟩ := h.charged hCalm.init fire (hPending fire hMem hSender) hSender
    exact ⟨before, middle ++ [happening], hCharged.still hStill⟩
  · refine throughout_append.mpr ⟨h.single, ?_⟩
    rintro rfl
    exact absurd rfl hStill

theorem schedules {senders : Option Entity → Prop} {simulation simulation' : Simulation}
    (hSchedules : Schedules senders simulation simulation') (hSenders : ¬ senders (some entity))
    (h : Kept entity manager simulation.trace simulation.pending busy) :
    Kept entity manager simulation'.trace simulation'.pending busy := by
  induction hSchedules with
  | refl => exact h
  | queue s sender target activator delay useType _ hSender ih =>
    rw [Simulation.fireFor]
    split
    · exact ih.still (show Still entity .dropped from trivial) fun fire hMem _ => hMem
    · refine ih.still (show Still entity (.queued _) from trivial) fun fire hMem hOwn => ?_
      rcases List.mem_append.mp hMem with hMem | hMem
      · exact hMem
      · cases List.mem_singleton.mp hMem
        exact absurd (hOwn ▸ hSender) hSenders
  | accept s other _ hSender ih =>
    refine ih.still ?_ fun fire hMem _ => hMem
    rintro rfl
    exact hSenders hSender
  | other s s' _ hPending _ hTrace ih =>
    rw [hPending, hTrace]
    exact ih

theorem passes (h : Kept entity manager trace pending busy) (dt : ℚ) :
    Kept entity manager (trace ++ [.passed dt]) (pending.map fun fire => { fire with delay := fire.delay - dt }) busy := by
  constructor
  · intro hCalm fire hMem hSender
    obtain ⟨other, hOther, rfl⟩ := List.mem_map.mp hMem
    obtain ⟨before, middle, hSplit, hLast, hTargets, hLeft, hEnded, hCovered⟩ :=
      h.charged hCalm.init other hOther hSender
    have hElapsed : elapsed (middle ++ [.passed dt]) = elapsed middle + dt := elapsed_append _ _
    have hLate : late (trace ++ [.passed dt]) = late trace + dt := late_append _ _
    have hAhead : ahead (trace ++ [.passed dt]) = ahead trace + dt := ahead_append _ _
    refine ⟨before, middle ++ [.passed dt], ?_, ?_, hTargets, ?_, ?_, ?_⟩
    · rw [hSplit, List.append_assoc, List.cons_append]
    · simpa using hLast
    · rw [hElapsed]
      linarith
    · intro hMem
      have hEnded := hEnded (by simpa using hMem)
      rw [hLate]
      linarith
    · intro hBefore hBusy
      obtain ⟨timer, hTimer, hDelay⟩ := hCovered hBefore hBusy
      refine ⟨timer, hTimer, ?_⟩
      rw [hAhead]
      linarith
  · exact throughout_append.mpr ⟨h.single, fun hSame => by cases hSame⟩

theorem ends (h : Kept entity manager trace pending busy) (hPending : ∀ fire ∈ pending, fire ∈ outstanding trace) :
    Kept entity manager (trace ++ [.ended]) pending busy := by
  constructor
  · intro hCalm fire hMem hSender
    obtain ⟨before, middle, hSplit, hLast, hTargets, hLeft, hEnded, hCovered⟩ :=
      h.charged hCalm.init fire hMem hSender
    have hDelay : 0 < fire.delay := (throughout_append.mp hCalm.2).2 fire (hPending fire hMem) hSender
    have hElapsed : elapsed (middle ++ [.ended]) = elapsed middle := elapsed_append _ _
    have hLate : late (trace ++ [.ended]) = 0 := late_append _ _
    have hAhead : ahead (trace ++ [.ended]) = ahead trace := ahead_append _ _
    refine ⟨before, middle ++ [.ended], ?_, ?_, hTargets, ?_, ?_, ?_⟩
    · rw [hSplit, List.append_assoc, List.cons_append]
    · simpa using hLast
    · rw [hElapsed]
      exact hLeft
    · intro _
      rw [hLate, add_zero]
      exact hDelay
    · rw [hAhead]
      exact hCovered
  · exact throughout_append.mpr ⟨h.single, fun hSame => by cases hSame⟩

theorem rests (h : Kept entity manager trace pending busy) (dt : ℚ) :
    Kept entity manager (trace ++ [.ticked dt]) pending
      (busy.bind fun timer => if timer - dt > 0 then some (timer - dt) else none) := by
  constructor
  · intro hCalm fire hMem hSender
    obtain ⟨before, middle, hSplit, hLast, hTargets, hLeft, hEnded, hCovered⟩ :=
      h.charged hCalm.init fire hMem hSender
    obtain ⟨hNotLate, hAheadBefore, front, back, hDrained, hNone⟩ := (throughout_append.mp hCalm.1).2
    have hElapsed : elapsed (middle ++ [.ticked dt]) = elapsed middle := elapsed_append _ _
    have hLate : late (trace ++ [.ticked dt]) = late trace := late_append _ _
    have hAhead : ahead (trace ++ [.ticked dt]) = ahead trace - dt := ahead_append _ _
    refine ⟨before, middle ++ [.ticked dt], ?_, ?_, hTargets, ?_, ?_, ?_⟩
    · rw [hSplit, List.append_assoc, List.cons_append]
    · simpa using hLast
    · rw [hElapsed]
      exact hLeft
    · intro hMem
      rw [hLate]
      exact hEnded (by simpa using hMem)
    · intro hBefore hBusy
      obtain ⟨timer, rfl, hDelay⟩ := hCovered hBefore hBusy
      -- the pass of this tick ended behind the accepted activation
      have hPassEnded : Happening.ended ∈ middle := by
        rw [hSplit] at hDrained
        rcases List.append_eq_append_iff.mp hDrained with ⟨between, rfl, hRest⟩ | ⟨between, rfl, hRest⟩
        · cases between with
          | nil =>
            cases hRest
          | cons first between =>
            rw [List.cons_append, List.cons.injEq] at hRest
            rw [hRest.2]
            exact List.mem_append_right _ List.mem_cons_self
        · cases between with
          | nil => cases hRest
          | cons first between =>
            rw [List.cons_append, List.cons.injEq] at hRest
            exact absurd (hRest.2 ▸ List.mem_append_right _ List.mem_cons_self) (hNone entity)
      have hPositive := hEnded hPassEnded
      rw [hNotLate, add_zero] at hPositive
      have hTimer : timer - dt > 0 := by linarith
      refine ⟨timer - dt, if_pos hTimer, ?_⟩
      rw [hAhead]
      linarith
  · exact throughout_append.mpr ⟨h.single, fun hSame => by cases hSame⟩

theorem none_pending (h : Kept entity manager trace pending none)
    (hCalm : Calm entity manager (trace ++ [.accepted entity])) (fire : Fire) (hMem : fire ∈ pending) :
    fire.sender ≠ some entity := by
  intro hSender
  obtain ⟨before, middle, hSplit, hLast, hTargets, hLeft, hEnded, hCovered⟩ := h.charged hCalm.init fire hMem hSender
  have hClocks : late trace = ahead trace := (throughout_append.mp hCalm.1).2
  rcases (throughout_append.mp hCalm.2).2 rfl before middle hSplit hLast with hNone | ⟨hBefore, hBusy⟩ | ⟨hPass, hTime⟩
  · exact hTargets hNone
  · obtain ⟨timer, hTimer, -⟩ := hCovered hBefore hBusy
    cases hTimer
  · have hWaits := hEnded hPass
    rw [hClocks, hSplit, ahead_accepted] at hWaits
    linarith

theorem accepts (h : Kept entity manager trace pending none) (hAll : ∀ fire ∈ outstanding trace, fire ∈ pending)
    (busy : Option ℚ) : Kept entity manager (trace ++ [.accepted entity]) pending busy := by
  constructor
  · intro hCalm fire hMem hSender
    exact absurd hSender (h.none_pending hCalm fire hMem)
  · refine throughout_append.mpr ⟨h.single, fun _ hCalm fire hMem => ?_⟩
    exact h.none_pending hCalm fire (hAll fire hMem)

end Kept

theorem le_busyTime {target : Name × ℚ} (h : target ∈ manager.targets) : max target.2 0 ≤ busyTime manager := by
  have hMax : (0 :: manager.targets.map fun target => max target.2 0).max? = some (busyTime manager) :=
    List.max?_cons'
  exact (List.max?_eq_some_iff.mp hMax).2 _ (List.mem_cons_of_mem _ (List.mem_map_of_mem h))

def Scheduling : Happening → Prop
  | .queued _ => True
  | .dropped => True
  | _ => False

theorem scheduling_still {middle : List Happening} (h : ∀ happening ∈ middle, Scheduling happening) :
    elapsed middle = 0 ∧ ticked middle = 0 := by
  induction middle using List.reverseRecOn with
  | nil => exact ⟨rfl, rfl⟩
  | append_singleton middle happening ih =>
    obtain ⟨hElapsed, hTicked⟩ := ih fun other hMem => h other (List.mem_append_left _ hMem)
    have hLast := h happening (by simp)
    rw [elapsed_append, ticked_append]
    cases happening <;> first | exact ⟨hElapsed, hTicked⟩ | cases hLast

theorem charged_queued {before middle : List Happening} {target : Name × ℚ} (hTarget : target ∈ manager.targets)
    (hMiddle : ∀ happening ∈ middle, Scheduling happening)
    (hBusy : 0 < busyTime manager → busy = some (busyTime manager)) (fire : Fire) (hDelay : fire.delay = max target.2 0)
    (hTrace : trace = before ++ .accepted entity :: middle) : Charged entity manager trace busy fire before middle := by
  obtain ⟨hElapsed, hTicked⟩ := scheduling_still hMiddle
  constructor
  · exact hTrace
  · exact hMiddle _
  · exact List.ne_nil_of_mem hTarget
  · rw [hElapsed, hDelay, add_zero]
    exact le_busyTime hTarget
  · intro hMem
    exact absurd (hMiddle _ hMem) id
  · intro hBefore hPositive
    refine ⟨busyTime manager, hBusy hPositive, ?_⟩
    rw [hTrace, ahead_accepted, hElapsed, hTicked, hDelay]
    linarith [le_busyTime hTarget]

theorem Kept.fans_out {before : List Happening} (hBusy : 0 < busyTime manager → busy = some (busyTime manager))
    (activator : Option Entity) (targets : List (Name × ℚ)) (hTargets : targets ⊆ manager.targets)
    (simulation : Simulation) {middle : List Happening} (hMiddle : ∀ happening ∈ middle, Scheduling happening)
    (hTrace : simulation.trace = before ++ .accepted entity :: middle)
    (h : Kept entity manager simulation.trace simulation.pending busy) :
    let after := targets.foldl
      (fun simulation target => simulation.fireFor (some entity) target.1 activator target.2 .toggle) simulation
    Kept entity manager after.trace after.pending busy := by
  induction targets generalizing simulation middle with
  | nil => exact h
  | cons target targets ih =>
    obtain ⟨hTarget, hTargets⟩ := List.cons_subset.mp hTargets
    rw [List.foldl_cons]
    have hMore {happening : Happening} (hScheduling : Scheduling happening) :
        ∀ other ∈ middle ++ [happening], Scheduling other := by
      intro other hMem
      rcases List.mem_append.mp hMem with hMem | hMem
      · exact hMiddle other hMem
      · cases List.mem_singleton.mp hMem
        exact hScheduling
    have hSplit (happening : Happening) :
        simulation.trace ++ [happening] = before ++ .accepted entity :: (middle ++ [happening]) := by
      rw [hTrace, List.append_assoc, List.cons_append]
    rw [Simulation.fireFor]
    split
    · exact ih hTargets _ (hMore (show Scheduling .dropped from trivial)) (hSplit _)
        (h.still (show Still entity .dropped from trivial) fun fire hMem _ => hMem)
    · generalize hFire : (⟨target.1, .toggle, activator, max target.2 0, simulation.serial, some entity⟩ : Fire) = fire
      have hDelay : fire.delay = max target.2 0 := by rw [← hFire]
      have hQueued : Scheduling (.queued fire) := trivial
      refine ih hTargets _ (hMore hQueued) (hSplit _) ?_
      have hStill : Still entity (.queued fire) := trivial
      have hBefore := h.still hStill fun fire hMem _ => hMem
      constructor
      · intro hCalm other hMem hSender
        rcases List.mem_append.mp hMem with hMem | hMem
        · exact hBefore.charged hCalm other hMem hSender
        · cases List.mem_singleton.mp hMem
          exact ⟨before, middle ++ [.queued fire],
            charged_queued hTarget (hMore hQueued) hBusy fire hDelay (hSplit _)⟩
      · exact hBefore.single

namespace Level

variable {R : Type} {level level' : Level R}

/-- A manager that runs one schedule at a time, or nothing any more. -/
structure Managed (entity : Entity) (manager : MultiManager) (level : Level R) : Prop where
  accounted : Accounted level.simulation
  schedule : (level.registry.components entity).multiManager = some manager ∨
    (level.registry.components entity).multiManager = none
  source : (level.registry.components entity).multiSource = none
  kept : Kept entity manager level.simulation.trace level.simulation.pending (level.simulation.multiManagerBusy entity)

theorem activateManager_kept (hSingle : manager.multithreaded = false) (h : Managed entity manager level)
    (activator : Option Entity) :
    let after := (level.activateManager entity manager activator).simulation
    Kept entity manager after.trace after.pending (after.multiManagerBusy entity) := by
  rw [activateManager]
  split
  · exact h.kept
  rename_i hIdle
  have hIdle : level.simulation.multiManagerBusy entity = none := by simpa [hSingle] using hIdle
  have hKept := h.kept
  rw [hIdle] at hKept
  have hAll (fire : Fire) (hMem : fire ∈ outstanding level.simulation.trace) : fire ∈ level.simulation.pending :=
    h.accounted.perm.mem_iff.mpr hMem
  dsimp only [onSimulation]
  generalize hAfter : (if busyTime manager > 0 then
      { level.simulation.note (.accepted entity) with
        multiManagerBusy := Function.update (level.simulation.note (.accepted entity)).multiManagerBusy entity
          (some (busyTime manager)) }
    else level.simulation.note (.accepted entity)) = simulation
  have hTrace : simulation.trace = level.simulation.trace ++ [.accepted entity] := by
    rw [← hAfter]
    split <;> rfl
  have hPending : simulation.pending = level.simulation.pending := by
    rw [← hAfter]
    split <;> rfl
  have hBusy (hPositive : 0 < busyTime manager) :
      simulation.multiManagerBusy entity = some (busyTime manager) := by
    rw [← hAfter, if_pos hPositive]
    exact Function.update_self _ _ _
  rw [(foldl_fireFor_busy _ _ _ _ _ _ _).1]
  apply Kept.fans_out hBusy activator manager.targets (List.Subset.refl _) simulation
    (fun happening hMem => by cases hMem) hTrace
  rw [hTrace, hPending]
  exact hKept.accepts hAll _

theorem Managed.turn {allowed : ℚ → Prop} (hSingle : manager.multithreaded = false) (h : Managed entity manager level)
    (hTurn : Turn allowed level level') : Managed entity manager level' := by
  have hKeeps := hTurn.keeps entity
  refine ⟨h.accounted.turn hTurn, ?_, ?_, ?_⟩
  · rcases hKeeps with hSame | hGone
    · rw [hSame.multiManager]
      exact h.schedule
    · rw [hGone]
      exact .inr rfl
  · rcases hKeeps with hSame | hGone
    · rw [hSame.multiSource]
      exact h.source
    · rw [hGone]
  · cases hTurn.concern entity with
    | foreign _ hForeign =>
      rw [hForeign.busy]
      exact h.kept.schedules hForeign.schedules fun hSame => hSame rfl
    | relays source activator useType hActive hSource =>
      rw [h.source] at hSource
      cases hSource
    | manages other activator hActive hSource hManager =>
      have hOwn : other = manager := by
        rcases h.schedule with hSame | hGone
        · exact Option.some.inj (hManager.symm.trans hSame)
        · rw [hGone] at hManager
          cases hManager
      subst hOwn
      exact activateManager_kept hSingle h activator
    | passes dt hAllowed => exact h.kept.passes dt
    | takes fire rest hTake =>
      refine h.kept.still (show Still entity (.dispatched fire) from trivial) fun other hMem _ => ?_
      exact (takeDue_some hTake).2.mem_iff.mpr (List.mem_cons_of_mem _ hMem)
    | ends => exact h.kept.ends fun fire hMem => h.accounted.perm.mem_iff.mp hMem
    | rests dt hAllowed => exact h.kept.rests dt

theorem Managed.turns {allowed : ℚ → Prop} (hSingle : manager.multithreaded = false) (h : Managed entity manager level)
    (hTurns : Turns allowed level level') : Managed entity manager level' := by
  induction hTurns with
  | refl => exact h
  | tail _ hTurn ih => exact ih.turn hSingle hTurn

structure Unaccepted (entity : Entity) (level : Level R) : Prop where
  gate : (level.registry.components entity).multiSource ≠ none ∨ (level.registry.components entity).multiManager = none
  never : .accepted entity ∉ level.simulation.trace

theorem not_mem_concat {happening : Happening} (h : .accepted entity ∉ trace) (hOther : happening ≠ .accepted entity) :
    .accepted entity ∉ trace ++ [happening] := by
  intro hMem
  rcases List.mem_append.mp hMem with hMem | hMem
  · exact h hMem
  · exact hOther (List.mem_singleton.mp hMem).symm

theorem fireFor_never (simulation : Simulation) (sender : Option Entity) (target : Name) (activator : Option Entity)
    (delay : ℚ) (useType : TriggerUse) (h : .accepted entity ∉ simulation.trace) :
    .accepted entity ∉ (simulation.fireFor sender target activator delay useType).trace := by
  rw [Simulation.fireFor]
  split
  · exact not_mem_concat h fun hSame => by cases hSame
  · exact not_mem_concat h fun hSame => by cases hSame

theorem schedules_never {senders : Option Entity → Prop} {simulation simulation' : Simulation}
    (hSchedules : Schedules senders simulation simulation') (hSenders : ¬ senders (some entity))
    (h : .accepted entity ∉ simulation.trace) : .accepted entity ∉ simulation'.trace := by
  induction hSchedules with
  | refl => exact h
  | queue s sender target activator delay useType _ _ ih => exact fireFor_never s sender target activator delay useType ih
  | accept s other _ hSender ih =>
    apply not_mem_concat ih
    rintro ⟨⟩
    exact hSenders hSender
  | other s s' _ _ _ hTrace ih =>
    rw [hTrace]
    exact ih

theorem Unaccepted.turn {allowed : ℚ → Prop} (h : Unaccepted entity level) (hTurn : Turn allowed level level') :
    Unaccepted entity level' := by
  constructor
  · rcases hTurn.keeps entity with hSame | hGone
    · rw [hSame.multiSource, hSame.multiManager]
      exact h.gate
    · rw [hGone]
      exact .inr rfl
  · cases hTurn.concern entity with
    | foreign _ hForeign => exact schedules_never hForeign.schedules (fun hSame => hSame rfl) h.never
    | relays source activator useType hActive hSource =>
      rw [activateSource]
      split
      · split
        · exact h.never
        · exact fireFor_never _ _ _ _ _ _ h.never
      · exact h.never
    | manages manager activator hActive hSource hManager =>
      rcases h.gate with hGate | hNone
      · exact absurd hSource hGate
      · rw [hNone] at hManager
        cases hManager
    | passes dt hAllowed => exact not_mem_concat h.never fun hSame => by cases hSame
    | takes fire rest hTake => exact not_mem_concat h.never fun hSame => by cases hSame
    | ends => exact not_mem_concat h.never fun hSame => by cases hSame
    | rests dt hAllowed => exact not_mem_concat h.never fun hSame => by cases hSame

theorem Unaccepted.turns {allowed : ℚ → Prop} (h : Unaccepted entity level) (hTurns : Turns allowed level level') :
    Unaccepted entity level' := by
  induction hTurns with
  | refl => exact h
  | tail _ hTurn ih => exact ih.turn hTurn

end Level

/-- As far as the steps of a run are unhurried, its manager runs one schedule at a time. -/
theorem unhurried_run_is_single_threaded {R : Type} (d : Devices R) (registry : Registry R) (calls : List (HostCall R))
    (entity : Entity) (manager : MultiManager) (hManager : (registry.components entity).multiManager = some manager)
    (hSingle : manager.multithreaded = false) :
    ∀ trace, trace <+: (Level.run d ⟨.new, registry⟩ calls).simulation.trace →
      Throughout (Unhurried entity manager) trace → SingleThreaded entity trace := by
  rintro trace ⟨rest, hRun⟩ hUnhurried before after hTrace
  have hTurns : Turns (fun _ => True) ⟨.new, registry⟩ (Level.run d ⟨.new, registry⟩ calls) :=
    run_turns d _ calls fun _ _ => trivial
  have hSplit : (Level.run d ⟨.new, registry⟩ calls).simulation.trace =
      before ++ .accepted entity :: (after ++ rest) := by
    rw [← hRun, hTrace, List.append_assoc, List.cons_append]
  have hUpTo : before ++ .accepted entity :: after = before ++ [.accepted entity] ++ after := by
    rw [List.append_assoc, List.singleton_append]
  by_cases hSource : (registry.components entity).multiSource = none
  · have hNew : Managed entity manager ⟨.new, registry⟩ := by
      refine ⟨accounted_new, .inl hManager, hSource, ?_, throughout_nil⟩
      intro _ fire hMem
      cases hMem
    have hKept := (hNew.turns hSingle hTurns).kept
    have hTime := (run_resting d ⟨.new, registry⟩ calls resting_new).inTime
    rw [← hRun, hTrace, hUpTo, List.append_assoc] at hTime
    rw [hTrace, hUpTo] at hUnhurried
    exact hKept.single before _ _ hSplit rfl ⟨hTime.init, hUnhurried.init⟩
  · have hNew : Unaccepted entity ⟨.new, registry⟩ := ⟨.inl hSource, fun hMem => by cases hMem⟩
    have hNever := (hNew.turns hTurns).never
    rw [hSplit] at hNever
    exact absurd (by simp) hNever

/-- A manager that is used, waits for its target and is used again. -/
theorem reused_manager_is_single_threaded :
    let manager : MultiManager := ⟨[([2], 1)], false⟩
    let registry : Registry Unit := ⟨[(0, { multiManager := some manager })], fun _ => [], (), by decide⟩
    let calls : List (HostCall Unit) := [.useEntity 0 none, .tick 1, .useEntity 0 none]
    SingleThreaded 0 (Level.run noDevices ⟨.new, registry⟩ calls).simulation.trace := by
  intro manager registry calls
  apply unhurried_run_is_single_threaded noDevices registry calls 0 manager rfl rfl _ (List.prefix_refl _)
  have hTrace : (Level.run noDevices ⟨.new, registry⟩ calls).simulation.trace =
      [.accepted 0, .queued ⟨[2], .toggle, none, 1, 0, some 0⟩, .passed 1, .dispatched ⟨[2], .toggle, none, 0, 0, some 0⟩,
        .ended, .ticked 1, .accepted 0, .queued ⟨[2], .toggle, none, 1, 1, some 0⟩] := by
    decide +kernel
  rw [hTrace]
  have hUsed : Throughout (Unhurried 0 manager) [.accepted 0] := by
    refine throughout_nil.snoc (Happening.accepted 0) ?_
    rintro - before middle hSplit -
    simp at hSplit
  have hQuiet : Throughout (Unhurried 0 manager) [.accepted 0, .queued ⟨[2], .toggle, none, 1, 0, some 0⟩, .passed 1,
      .dispatched ⟨[2], .toggle, none, 0, 0, some 0⟩] :=
    ((hUsed.snoc (.queued ⟨[2], .toggle, none, 1, 0, some 0⟩) trivial).snoc (.passed 1) trivial).snoc
      (.dispatched ⟨[2], .toggle, none, 0, 0, some 0⟩) trivial
  have hNone : outstanding [.accepted 0, .queued ⟨[2], .toggle, none, 1, 0, some 0⟩, .passed 1,
      .dispatched ⟨[2], .toggle, none, 0, 0, some 0⟩] = [] := by
    decide +kernel
  have hEnded : Throughout (Unhurried 0 manager) [.accepted 0, .queued ⟨[2], .toggle, none, 1, 0, some 0⟩, .passed 1,
      .dispatched ⟨[2], .toggle, none, 0, 0, some 0⟩, .ended] := by
    refine hQuiet.snoc .ended ?_
    intro fire hMem
    rw [hNone] at hMem
    cases hMem
  have hServed : Throughout (Unhurried 0 manager) [.accepted 0, .queued ⟨[2], .toggle, none, 1, 0, some 0⟩, .passed 1,
      .dispatched ⟨[2], .toggle, none, 0, 0, some 0⟩, .ended, .ticked 1] :=
    hEnded.snoc (.ticked 1) trivial
  refine (hServed.snoc (.accepted 0) ?_).snoc (.queued ⟨[2], .toggle, none, 1, 1, some 0⟩) trivial
  rintro - before middle hSplit -
  cases before with
  | nil =>
    have hPositive : 0 < busyTime manager := by decide +kernel
    exact .inr (.inl ⟨le_of_eq (sub_self 0), hPositive⟩)
  | cons first before =>
    -- no activation was accepted between the two
    rw [List.cons_append] at hSplit
    have hMem : Happening.accepted 0 ∈ before ++ .accepted 0 :: middle :=
      List.mem_append_right before List.mem_cons_self
    rw [← (List.cons.inj hSplit).2] at hMem
    exact absurd hMem (by decide +kernel)

/-- Time that was over before its activation runs a manager's timer down. -/
theorem manager_runs_twice_at_once :
    let manager : Components := { multiManager := some ⟨[([2], 1)], false⟩ }
    let registry : Registry Unit := ⟨[(0, manager)], fun name => if name = [1] then [0] else [], (), by decide⟩
    let calls : List (HostCall Unit) := [.fireTyped [1] none 0 .toggle, .tick (1 / 2), .tick (1 / 2), .useEntity 0 none]
    ¬ SingleThreaded 0 (Level.run noDevices ⟨.new, registry⟩ calls).simulation.trace := by
  intro manager registry calls h
  have hTrace : (Level.run noDevices ⟨.new, registry⟩ calls).simulation.trace =
      [.queued ⟨[1], .toggle, none, 0, 0, none⟩, .passed (1 / 2), .dispatched ⟨[1], .toggle, none, -1 / 2, 0, none⟩,
        .accepted 0, .queued ⟨[2], .toggle, none, 1, 1, some 0⟩, .ended, .ticked (1 / 2), .passed (1 / 2), .ended,
        .ticked (1 / 2)] ++ .accepted 0 :: [.queued ⟨[2], .toggle, none, 1, 2, some 0⟩] := by
    decide +kernel
  have hPending := h _ _ hTrace ⟨[2], .toggle, none, 1 / 2, 1, some 0⟩ (by decide +kernel)
  exact hPending rfl

end OpenHalfLife.Game
