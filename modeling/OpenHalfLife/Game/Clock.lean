import OpenHalfLife.Game.Queue

/-! # The two clocks

A queue pass counts a tick's time at its start, the timers of the managers
count it at the end of the tick.
-/

namespace OpenHalfLife.Game

set_option autoImplicit false

def ticked (trace : List Happening) : ℚ :=
  trace.foldl (fun time happening => match happening with
    | .ticked dt => time + dt
    | _ => time) 0

def ahead (trace : List Happening) : ℚ := elapsed trace - ticked trace

def late (trace : List Happening) : ℚ :=
  trace.foldl (fun time happening => match happening with
    | .passed dt => time + dt
    | .ended => 0
    | _ => time) 0

theorem ticked_append (trace : List Happening) (happening : Happening) :
    ticked (trace ++ [happening]) = match happening with
      | .ticked dt => ticked trace + dt
      | _ => ticked trace := by
  rw [ticked, List.foldl_append]
  rfl

theorem late_append (trace : List Happening) (happening : Happening) :
    late (trace ++ [happening]) = match happening with
      | .passed dt => late trace + dt
      | .ended => 0
      | _ => late trace := by
  rw [late, List.foldl_append]
  rfl

theorem ahead_append (trace : List Happening) (happening : Happening) :
    ahead (trace ++ [happening]) = match happening with
      | .passed dt => ahead trace + dt
      | .ticked dt => ahead trace - dt
      | _ => ahead trace := by
  rw [ahead, elapsed_append, ticked_append]
  cases happening with
  | passed dt => exact add_sub_right_comm _ _ _
  | ticked dt => exact sub_add_eq_sub_sub _ _ _
  | queued fire => rfl
  | dropped => rfl
  | accepted manager => rfl
  | dispatched fire => rfl
  | ended => rfl

def PassOver (trace : List Happening) : Prop :=
  ∃ before after, trace = before ++ .ended :: after ∧ ∀ manager, .accepted manager ∉ after

/-- The order in which a tick goes: managers are accepted before or in its queue pass, and the
timers rest behind it. -/
def InTime (trace : List Happening) : Happening → Prop
  | .accepted _ => late trace = ahead trace
  | .ticked dt => late trace = 0 ∧ ahead trace = dt ∧ PassOver trace
  | _ => True

theorem PassOver.append {trace : List Happening} (h : PassOver trace) {happening : Happening}
    (hOther : ∀ manager, happening ≠ .accepted manager) : PassOver (trace ++ [happening]) := by
  obtain ⟨before, after, rfl, hNone⟩ := h
  refine ⟨before, after ++ [happening], by simp, fun manager hMem => ?_⟩
  rcases List.mem_append.mp hMem with hMem | hMem
  · exact hNone manager hMem
  · exact hOther manager (List.mem_singleton.mp hMem).symm

namespace Schedules

variable {senders : Option Entity → Prop} {simulation simulation' : Simulation}

theorem clock (h : Schedules senders simulation simulation') :
    late simulation'.trace = late simulation.trace ∧ ahead simulation'.trace = ahead simulation.trace := by
  induction h with
  | refl => exact ⟨rfl, rfl⟩
  | queue s sender target activator delay useType _ _ ih =>
    rw [Simulation.fireFor]
    split
    · exact ⟨(late_append _ _).trans ih.1, (ahead_append _ _).trans ih.2⟩
    · exact ⟨(late_append _ _).trans ih.1, (ahead_append _ _).trans ih.2⟩
  | accept s manager _ _ ih => exact ⟨(late_append _ _).trans ih.1, (ahead_append _ _).trans ih.2⟩
  | other s s' _ _ _ hTrace ih =>
    rw [hTrace]
    exact ih

theorem inTime (h : Schedules senders simulation simulation')
    (hAccept : ∀ manager, senders (some manager) → late simulation.trace = ahead simulation.trace)
    (hTime : Throughout InTime simulation.trace) : Throughout InTime simulation'.trace := by
  induction h with
  | refl => exact hTime
  | queue s sender target activator delay useType _ _ ih =>
    rw [Simulation.fireFor]
    split
    · exact throughout_append.mpr ⟨ih, trivial⟩
    · exact throughout_append.mpr ⟨ih, trivial⟩
  | accept s manager hEarlier hSender ih =>
    have hClock := hEarlier.clock
    have hSame : late s.trace = ahead s.trace := by rw [hClock.1, hClock.2, hAccept manager hSender]
    exact throughout_append.mpr ⟨ih, hSame⟩
  | other s s' _ _ _ hTrace ih => exact hTrace ▸ ih

theorem passOver (h : Schedules senders simulation simulation') (hNone : ∀ manager, ¬ senders (some manager))
    (hDrained : PassOver simulation.trace) : PassOver simulation'.trace := by
  induction h with
  | refl => exact hDrained
  | queue s sender target activator delay useType _ _ ih =>
    rw [Simulation.fireFor]
    split
    · exact ih.append fun manager hSame => by cases hSame
    · exact ih.append fun manager hSame => by cases hSame
  | accept s manager _ hSender ih => exact absurd hSender (hNone manager)
  | other s s' _ _ _ hTrace ih => exact hTrace ▸ ih

end Schedules

structure Resting (simulation : Simulation) : Prop where
  late : late simulation.trace = 0
  ahead : ahead simulation.trace = 0
  inTime : Throughout InTime simulation.trace

theorem resting_new : Resting .new := ⟨rfl, sub_self 0, throughout_nil⟩

theorem Resting.schedules {senders : Option Entity → Prop} {simulation simulation' : Simulation}
    (h : Resting simulation) (hSchedules : Schedules senders simulation simulation') : Resting simulation' where
  late := hSchedules.clock.1.trans h.late
  ahead := hSchedules.clock.2.trans h.ahead
  inTime := hSchedules.inTime (fun _ _ => h.late.trans h.ahead.symm) h.inTime

namespace Level

variable {R : Type} (d : Devices R)

theorem firePlayerSpawn_schedules (level : Level R) :
    Schedules (fun _ => True) level.simulation (level.firePlayerSpawn d).simulation := by
  rw [firePlayerSpawn]
  split
  · exact .refl
  · have hSpawned : Schedules (fun _ => True) level.simulation { level.simulation with playerSpawnFired := true } :=
      .same rfl rfl rfl
    exact hSpawned.trans (schedules_foldl (fun level entity => activateWith_schedules d level entity none .toggle) _
      (level.onSimulation fun simulation => { simulation with playerSpawnFired := true }))

theorem fireAutoTrigger_schedules (level : Level R) (ready : Entity × Name × AutoTrigger × TriggerUse) :
    Schedules (· = none) level.simulation (level.fireAutoTrigger ready).simulation := by
  obtain ⟨entity, target, auto, useType⟩ := ready
  rw [fireAutoTrigger]
  dsimp only
  split
  · exact .one (by rfl) _ _ _ _
  · exact .one (by rfl) _ _ _ _

theorem advanceDevices_schedules (level : Level R) (dt : ℚ) :
    Schedules (· = none) level.simulation (level.advanceDevices d dt).simulation :=
  .foldl (fun simulation fire => .one (by rfl) _ _ _ _) _ _

theorem drainQueue_inTime (budget : Nat) (level : Level R) {dt : ℚ} (hLate : late level.simulation.trace = dt)
    (hAhead : ahead level.simulation.trace = dt) (hTime : Throughout InTime level.simulation.trace) :
    let trace := (level.drainQueue d budget).simulation.trace
    late trace = 0 ∧ ahead trace = dt ∧ Throughout InTime trace ∧ PassOver trace := by
  have hEnded (level : Level R) (hAhead : ahead level.simulation.trace = dt)
      (hTime : Throughout InTime level.simulation.trace) :
      let trace := level.simulation.trace ++ [.ended]
      late trace = 0 ∧ ahead trace = dt ∧ Throughout InTime trace ∧ PassOver trace := by
    refine ⟨late_append _ _, (ahead_append _ _).trans hAhead, throughout_append.mpr ⟨hTime, trivial⟩, ?_⟩
    exact ⟨level.simulation.trace, [], rfl, fun manager hMem => by cases hMem⟩
  induction budget generalizing level with
  | zero => exact hEnded level hAhead hTime
  | succ budget ih =>
    rw [drainQueue]
    split
    · exact hEnded level hAhead hTime
    · rename_i fire rest hTake
      have hLateTaken : late (level.removePending fire rest).simulation.trace = dt := (late_append _ _).trans hLate
      have hAheadTaken : ahead (level.removePending fire rest).simulation.trace = dt := (ahead_append _ _).trans hAhead
      have hSchedules := dispatch_schedules d (level.removePending fire rest) fire
      apply ih
      · exact hSchedules.clock.1.trans hLateTaken
      · exact hSchedules.clock.2.trans hAheadTaken
      · apply hSchedules.inTime
        · intro _ _
          exact hLateTaken.trans hAheadTaken.symm
        · exact throughout_append.mpr ⟨hTime, trivial⟩

theorem tick_resting (level : Level R) (dt : ℚ) (h : Resting level.simulation) :
    Resting (level.tick d dt).simulation := by
  have hArmed : Resting (level.firePlayerSpawn d).fireAutoTriggers.simulation :=
    (h.schedules (firePlayerSpawn_schedules d level)).schedules
      (schedules_foldl (fun level ready => fireAutoTrigger_schedules level ready) _ _)
  rw [tick]
  generalize (level.firePlayerSpawn d).fireAutoTriggers = armed at hArmed
  have hLate : late (armed.passTime dt).simulation.trace = dt := by
    have hPassed : late (armed.simulation.trace ++ [.passed dt]) = late armed.simulation.trace + dt := late_append _ _
    exact hPassed.trans (by rw [hArmed.late, zero_add])
  have hAhead : ahead (armed.passTime dt).simulation.trace = dt := by
    have hPassed : ahead (armed.simulation.trace ++ [.passed dt]) = ahead armed.simulation.trace + dt :=
      ahead_append _ _
    exact hPassed.trans (by rw [hArmed.ahead, zero_add])
  obtain ⟨hLate, hAhead, hTime, hDrained⟩ := drainQueue_inTime d maxEventsPerTick (armed.passTime dt) hLate hAhead
    (throughout_append.mpr ⟨hArmed.inTime, trivial⟩)
  change late (armed.advanceQueue d dt).simulation.trace = 0 at hLate
  change ahead (armed.advanceQueue d dt).simulation.trace = dt at hAhead
  change Throughout InTime (armed.advanceQueue d dt).simulation.trace at hTime
  change PassOver (armed.advanceQueue d dt).simulation.trace at hDrained
  generalize armed.advanceQueue d dt = drained at hLate hAhead hTime hDrained
  have hSchedules := advanceDevices_schedules d drained dt
  have hNone (manager : Entity) : ¬ (some manager = none) := fun hSame => by cases hSame
  constructor
  · exact (late_append _ _).trans (hSchedules.clock.1.trans hLate)
  · have hTicked : ahead ((drained.advanceDevices d dt).simulation.trace ++ [.ticked dt]) =
        ahead (drained.advanceDevices d dt).simulation.trace - dt := ahead_append _ _
    exact hTicked.trans (by rw [hSchedules.clock.2, hAhead, sub_self])
  · change Throughout InTime ((drained.advanceDevices d dt).simulation.trace ++ [.ticked dt])
    refine throughout_append.mpr ⟨hSchedules.inTime (fun manager hSame => absurd hSame (hNone manager)) hTime, ?_, ?_, ?_⟩
    · exact hSchedules.clock.1.trans hLate
    · exact hSchedules.clock.2.trans hAhead
    · exact hSchedules.passOver hNone hDrained

theorem call_resting (level : Level R) (call : HostCall R) (h : Resting level.simulation) :
    Resting (level.call d call).simulation := by
  cases call with
  | fireTyped target activator delay useType => exact h.schedules (.one (by rfl : (none : Option Entity) = none) target activator delay useType)
  | useEntity entity activator => exact h.schedules (activateWith_schedules d level entity activator .toggle)
  | touchTrigger entity activator => exact h.schedules (activateTrigger_schedules level entity activator)
  | breakEntity entity activator => exact h.schedules (breakEntity_schedules level entity activator)
  | despawn entity => exact h
  | setEffectPlayer player => exact ⟨h.late, h.ahead, h.inTime⟩
  | setDevices devices => exact h
  | tick dt => exact tick_resting d level dt h

theorem run_resting (level : Level R) (calls : List (HostCall R)) (h : Resting level.simulation) :
    Resting (level.run d calls).simulation := by
  induction calls generalizing level with
  | nil => exact h
  | cons call calls ih => exact ih _ (call_resting d level call h)

end Level

end OpenHalfLife.Game
