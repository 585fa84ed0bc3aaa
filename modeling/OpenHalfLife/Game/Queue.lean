import OpenHalfLife.Game.Turns
import OpenHalfLife.Lib.Behaviour
import Mathlib.Data.List.Induction
import Mathlib.Data.List.Nodup

/-! # The event queue

A trace says what was queued, how much time every pass took and what was
dispatched; a pending fire is one of the trace that still waits.
-/

namespace OpenHalfLife.Game

set_option autoImplicit false

def outstanding (trace : List Happening) : List Fire :=
  trace.foldl (fun waiting happening => match happening with
    | .queued fire => waiting ++ [fire]
    | .passed dt => waiting.map fun fire => { fire with delay := fire.delay - dt }
    | .dispatched fire => waiting.filter fun other => other.serial ≠ fire.serial
    | _ => waiting) []

def elapsed (trace : List Happening) : ℚ :=
  trace.foldl (fun time happening => match happening with
    | .passed dt => time + dt
    | _ => time) 0

def dispatches (serial : Nat) (trace : List Happening) : Nat :=
  trace.countP fun happening => match happening with
    | .dispatched fire => fire.serial = serial
    | _ => false

theorem outstanding_append (trace : List Happening) (happening : Happening) :
    outstanding (trace ++ [happening]) = match happening with
      | .queued fire => outstanding trace ++ [fire]
      | .passed dt => (outstanding trace).map fun fire => { fire with delay := fire.delay - dt }
      | .dispatched fire => (outstanding trace).filter fun other => other.serial ≠ fire.serial
      | _ => outstanding trace := by
  rw [outstanding, List.foldl_append]
  rfl

theorem elapsed_append (trace : List Happening) (happening : Happening) :
    elapsed (trace ++ [happening]) = match happening with
      | .passed dt => elapsed trace + dt
      | _ => elapsed trace := by
  rw [elapsed, List.foldl_append]
  rfl

def Allowed (trace : List Happening) : Happening → Prop
  | .queued fire => (outstanding trace).length < maxPendingEvents ∧ 0 ≤ fire.delay ∧
      ∀ other, .queued other ∈ trace → other.serial < fire.serial
  | .dropped => (outstanding trace).length = maxPendingEvents
  | .dispatched fire => fire ∈ outstanding trace ∧ fire.delay ≤ 0
  | .ended => (∀ fire ∈ outstanding trace, 0 < fire.delay) ∨ spent trace = maxEventsPerTick
  | _ => True

def Sound (trace : List Happening) : Prop :=
  ∀ before happening after, trace = before ++ happening :: after → Allowed before happening

theorem sound_append {trace : List Happening} {happening : Happening} :
    Sound (trace ++ [happening]) ↔ Sound trace ∧ Allowed trace happening := throughout_append

theorem Sound.init {before after : List Happening} (h : Sound (before ++ after)) : Sound before := Throughout.init h

theorem mem_outstanding {trace : List Happening} {fire : Fire} (h : fire ∈ outstanding trace) :
    ∃ queued, .queued queued ∈ trace ∧ queued.serial = fire.serial := by
  induction trace using List.reverseRecOn generalizing fire with
  | nil => cases h
  | append_singleton trace happening ih =>
    have hEarlier {fire : Fire} (h : fire ∈ outstanding trace) :
        ∃ queued, .queued queued ∈ trace ++ [happening] ∧ queued.serial = fire.serial := by
      obtain ⟨queued, hMem, hSerial⟩ := ih h
      exact ⟨queued, List.mem_append_left _ hMem, hSerial⟩
    rw [outstanding_append] at h
    cases happening with
    | queued other =>
      rcases List.mem_append.mp h with h | h
      · exact hEarlier h
      · cases List.mem_singleton.mp h
        exact ⟨fire, by simp, rfl⟩
    | passed dt =>
      obtain ⟨other, hMem, rfl⟩ := List.mem_map.mp h
      obtain ⟨queued, hQueued, hSerial⟩ := hEarlier hMem
      exact ⟨queued, hQueued, hSerial⟩
    | dispatched other => exact hEarlier (List.mem_filter.mp h).1
    | dropped => exact hEarlier h
    | accepted manager => exact hEarlier h
    | ended => exact hEarlier h
    | ticked dt => exact hEarlier h

inductive Tracked (fire : Fire) (after : List Happening) (waiting : List Fire) : Prop
  | waits : dispatches fire.serial after = 0 →
    (waiting.filter fun other => other.serial = fire.serial) = [{ fire with delay := fire.delay - elapsed after }] →
    Tracked fire after waiting
  | served (other : Fire) : dispatches fire.serial after = 1 → .dispatched other ∈ after → other.serial = fire.serial →
    (waiting.filter fun other => other.serial = fire.serial) = [] → Tracked fire after waiting

theorem dispatches_append (serial : Nat) (trace : List Happening) (happening : Happening) :
    dispatches serial (trace ++ [happening]) = dispatches serial trace + dispatches serial [happening] :=
  List.countP_append

theorem filter_map_delay (waiting : List Fire) (serial : Nat) (dt : ℚ) :
    ((waiting.map fun fire => { fire with delay := fire.delay - dt }).filter fun other : Fire => other.serial = serial) =
      (waiting.filter fun other => other.serial = serial).map fun fire => { fire with delay := fire.delay - dt } := by
  rw [List.filter_map]
  rfl

section Tracked

variable {fire : Fire} {before after : List Happening} {waiting waiting' : List Fire} {happening : Happening}

theorem Tracked.same (h : Tracked fire after waiting) (hDispatches : dispatches fire.serial [happening] = 0)
    (hElapsed : elapsed (after ++ [happening]) = elapsed after)
    (hWaiting : (waiting'.filter fun other => other.serial = fire.serial) =
      waiting.filter fun other => other.serial = fire.serial) : Tracked fire (after ++ [happening]) waiting' := by
  have hCount : dispatches fire.serial (after ++ [happening]) = dispatches fire.serial after := by
    rw [dispatches_append, hDispatches, Nat.add_zero]
  cases h with
  | waits hNone hWaits => exact .waits (hCount.trans hNone) (by rw [hWaiting, hElapsed, hWaits])
  | served other hOne hMem hSerial hGone =>
    exact .served other (hCount.trans hOne) (List.mem_append_left _ hMem) hSerial (hWaiting.trans hGone)

theorem Tracked.passed (h : Tracked fire after waiting) (dt : ℚ) :
    Tracked fire (after ++ [.passed dt]) (waiting.map fun fire => { fire with delay := fire.delay - dt }) := by
  have hCount : dispatches fire.serial (after ++ [.passed dt]) = dispatches fire.serial after :=
    dispatches_append _ _ _
  cases h with
  | waits hNone hWaits =>
    refine .waits (hCount.trans hNone) ?_
    have hElapsed : elapsed (after ++ [.passed dt]) = elapsed after + dt := elapsed_append _ _
    rw [filter_map_delay, hWaits, hElapsed, ← sub_sub]
    rfl
  | served other hOne hMem hSerial hGone =>
    refine .served other (hCount.trans hOne) (List.mem_append_left _ hMem) hSerial ?_
    rw [filter_map_delay, hGone]
    rfl

theorem filter_filter_serial (waiting : List Fire) {serial other : Nat} (h : serial ≠ other) :
    ((waiting.filter fun fire => fire.serial ≠ other).filter fun fire => fire.serial = serial) =
      waiting.filter fun fire => fire.serial = serial := by
  rw [List.filter_filter]
  apply List.filter_congr
  intro fire _
  by_cases hSerial : fire.serial = serial
  · simp [hSerial, h]
  · simp [hSerial]

theorem Tracked.dispatched (h : Tracked fire after waiting) {other : Fire} (hMem : other ∈ waiting) :
    Tracked fire (after ++ [.dispatched other]) (waiting.filter fun fire => fire.serial ≠ other.serial) := by
  by_cases hSame : other.serial = fire.serial
  · have hCount : dispatches fire.serial [.dispatched other] = 1 := by
      simp [dispatches, hSame]
    have hGone : (waiting.filter fun fire => fire.serial ≠ other.serial).filter (fun f => f.serial = fire.serial) = [] := by
      rw [hSame, List.filter_filter]
      simp
    cases h with
    | waits hNone hWaits =>
      refine .served other ?_ (List.mem_append_right _ List.mem_cons_self) hSame hGone
      rw [dispatches_append, hNone, hCount]
    | served served hOne hServed hSerial hNothing =>
      have hThere : other ∈ waiting.filter fun other => other.serial = fire.serial :=
        List.mem_filter.mpr ⟨hMem, by simpa using hSame⟩
      rw [hNothing] at hThere
      cases hThere
  · apply h.same
    · simp [dispatches, hSame]
    · exact elapsed_append _ _
    · exact filter_filter_serial waiting (Ne.symm hSame)

theorem tracked (hSound : Sound (before ++ .queued fire :: after)) :
    Tracked fire after (outstanding (before ++ .queued fire :: after)) := by
  induction after using List.reverseRecOn with
  | nil =>
    obtain ⟨-, -, hFresh⟩ := (sound_append.mp hSound).2
    have hNone : ((outstanding before).filter fun other => other.serial = fire.serial) = [] := by
      rw [List.filter_eq_nil_iff]
      intro other hMem
      obtain ⟨queued, hQueued, hSerial⟩ := mem_outstanding hMem
      have hLess := hFresh queued hQueued
      simp only [decide_eq_true_eq]
      omega
    refine .waits rfl ?_
    have hOutstanding : outstanding (before ++ [.queued fire]) = outstanding before ++ [fire] := outstanding_append _ _
    rw [hOutstanding, List.filter_append, hNone]
    have hElapsed : elapsed [] = 0 := rfl
    rw [hElapsed, sub_zero]
    simp
  | append_singleton after happening ih =>
    rw [← List.cons_append, ← List.append_assoc] at hSound ⊢
    obtain ⟨hBefore, hAllowed⟩ := sound_append.mp hSound
    have hTracked := ih hBefore
    rw [outstanding_append]
    cases happening with
    | queued other =>
      have hLater := hAllowed.2.2 fire (by simp)
      refine hTracked.same rfl (elapsed_append _ _) ?_
      rw [List.filter_append]
      have hOther : ¬ other.serial = fire.serial := by omega
      simp [hOther]
    | passed dt => exact hTracked.passed dt
    | dispatched other => exact hTracked.dispatched hAllowed.1
    | dropped => exact hTracked.same rfl (elapsed_append _ _) rfl
    | accepted manager => exact hTracked.same rfl (elapsed_append _ _) rfl
    | ended => exact hTracked.same rfl (elapsed_append _ _) rfl
    | ticked dt => exact hTracked.same rfl (elapsed_append _ _) rfl

end Tracked

structure Served (before : List Happening) (fire : Fire) (after : List Happening) (pending : List Fire) : Prop where
  /-- It is dispatched once, or it is still pending. -/
  once : dispatches fire.serial after + pending.countP (fun other => other.serial = fire.serial) = 1
  own : ∀ other, .dispatched other ∈ after → other.serial = fire.serial →
    other.target = fire.target ∧ other.activator = fire.activator ∧ other.useType = fire.useType
  /-- Never before its delay has passed. -/
  due : ∀ middle other rest, after = middle ++ .dispatched other :: rest → other.serial = fire.serial →
    fire.delay ≤ elapsed middle
  /-- Not after a pass at the end of which its delay had passed, unless the budget of that pass was spent. -/
  first : ∀ middle rest, after = middle ++ .ended :: rest → fire.delay ≤ elapsed middle →
    dispatches fire.serial middle = 1 ∨ spent (before ++ .queued fire :: middle) = maxEventsPerTick

theorem served {before after : List Happening} {fire : Fire} (hSound : Sound (before ++ .queued fire :: after)) :
    Served before fire after (outstanding (before ++ .queued fire :: after)) := by
  have hSplit (middle rest : List Happening) (happening : Happening) (h : after = middle ++ happening :: rest) :
      Tracked fire middle (outstanding (before ++ .queued fire :: middle)) ∧
        Allowed (before ++ .queued fire :: middle) happening := by
    have hTrace : before ++ .queued fire :: after = (before ++ .queued fire :: middle) ++ happening :: rest := by
      rw [h, List.append_assoc, List.cons_append]
    rw [hTrace] at hSound
    exact ⟨tracked hSound.init, hSound _ _ _ rfl⟩
  have hWaiting (middle : List Happening) (waiting : List Fire) (other : Fire) (hTracked : Tracked fire middle waiting)
      (hMem : other ∈ waiting) (hSerial : other.serial = fire.serial) :
      other = { fire with delay := fire.delay - elapsed middle } := by
    have hThere : other ∈ waiting.filter fun other => other.serial = fire.serial :=
      List.mem_filter.mpr ⟨hMem, by simpa using hSerial⟩
    cases hTracked with
    | waits hNone hWaits =>
      rw [hWaits] at hThere
      exact List.mem_singleton.mp hThere
    | served served hOne hServed hSame hNothing =>
      rw [hNothing] at hThere
      cases hThere
  constructor
  · rw [List.countP_eq_length_filter]
    cases tracked hSound with
    | waits hNone hWaits => rw [hNone, hWaits, List.length_singleton]
    | served other hOne hServed hSame hNothing => rw [hOne, hNothing, List.length_nil]
  · intro other hMem hSerial
    obtain ⟨middle, rest, h⟩ := List.append_of_mem hMem
    obtain ⟨hTracked, hAllowed⟩ := hSplit middle rest _ h
    rw [hWaiting middle _ other hTracked hAllowed.1 hSerial]
    exact ⟨rfl, rfl, rfl⟩
  · intro middle other rest h hSerial
    obtain ⟨hTracked, hAllowed⟩ := hSplit middle rest _ h
    have hDue := hAllowed.2
    rw [hWaiting middle _ other hTracked hAllowed.1 hSerial] at hDue
    exact sub_nonpos.mp hDue
  · intro middle rest h hElapsed
    obtain ⟨hTracked, hAllowed⟩ := hSplit middle rest _ h
    rcases hAllowed with hNoneDue | hSpent
    · cases hTracked with
      | waits hNone hWaits =>
        have hThere : ({ fire with delay := fire.delay - elapsed middle } : Fire) ∈
            outstanding (before ++ .queued fire :: middle) := by
          apply List.mem_of_mem_filter (p := fun other => other.serial = fire.serial)
          rw [hWaits]
          exact List.mem_cons_self
        exact absurd (sub_nonpos.mpr hElapsed) (not_le.mpr (hNoneDue _ hThere))
      | served other hOne hServed hSame hNothing => exact .inl hOne
    · exact .inr hSpent

structure Accounted (simulation : Simulation) : Prop where
  perm : simulation.pending.Perm (outstanding simulation.trace)
  serials : (simulation.pending.map Fire.serial).Nodup
  fresh : ∀ fire, .queued fire ∈ simulation.trace → fire.serial < simulation.serial
  bounded : simulation.pending.length ≤ maxPendingEvents
  sound : Sound simulation.trace

theorem accounted_new : Accounted .new where
  perm := .refl _
  serials := List.nodup_nil
  fresh := fun _ h => by cases h
  bounded := Nat.zero_le _
  sound := fun before happening after h => by simp [Simulation.new] at h

namespace Accounted

variable {simulation simulation' : Simulation}

theorem note (h : Accounted simulation) {happening : Happening} (hAllowed : Allowed simulation.trace happening)
    (hOutstanding : outstanding (simulation.trace ++ [happening]) = outstanding simulation.trace)
    (hQueued : ∀ fire, happening ≠ .queued fire) : Accounted (simulation.note happening) := by
  refine ⟨?_, h.serials, fun fire hMem => ?_, h.bounded, sound_append.mpr ⟨h.sound, hAllowed⟩⟩
  · change simulation.pending.Perm (outstanding (simulation.trace ++ [happening]))
    rw [hOutstanding]
    exact h.perm
  · rcases List.mem_append.mp hMem with hMem | hMem
    · exact h.fresh fire hMem
    · exact absurd (List.mem_singleton.mp hMem).symm (hQueued fire)

theorem same (h : Accounted simulation) (hPending : simulation'.pending = simulation.pending)
    (hSerial : simulation'.serial = simulation.serial) (hTrace : simulation'.trace = simulation.trace) :
    Accounted simulation' := by
  obtain ⟨hPerm, hSerials, hFresh, hBounded, hSound⟩ := h
  rw [← hPending] at hPerm hSerials hBounded
  rw [← hTrace] at hPerm hFresh hSound
  rw [← hSerial] at hFresh
  exact ⟨hPerm, hSerials, hFresh, hBounded, hSound⟩

theorem serial_lt (h : Accounted simulation) {fire : Fire} (hMem : fire ∈ simulation.pending) :
    fire.serial < simulation.serial := by
  obtain ⟨queued, hQueued, hSerial⟩ := mem_outstanding (h.perm.mem_iff.mp hMem)
  exact hSerial ▸ h.fresh queued hQueued

theorem fireFor (h : Accounted simulation) (sender : Option Entity) (target : Name) (activator : Option Entity)
    (delay : ℚ) (useType : TriggerUse) : Accounted (simulation.fireFor sender target activator delay useType) := by
  rw [Simulation.fireFor]
  split
  · rename_i hFull
    refine h.note ?_ (outstanding_append _ _) fun fire hSame => by cases hSame
    exact h.perm.length_eq.symm.trans (Nat.le_antisymm h.bounded hFull)
  · rename_i hRoom
    have hRoom := Nat.lt_of_not_le hRoom
    generalize hFire : (⟨target, useType, activator, max delay 0, simulation.serial, sender⟩ : Fire) = fire
    have hSerial : fire.serial = simulation.serial := by rw [← hFire]
    have hDelay : 0 ≤ fire.delay := by
      rw [← hFire]
      exact le_max_right _ _
    constructor
    · have hOutstanding : outstanding (simulation.trace ++ [.queued fire]) = outstanding simulation.trace ++ [fire] :=
        outstanding_append _ _
      change (simulation.pending ++ [fire]).Perm (outstanding (simulation.trace ++ [.queued fire]))
      rw [hOutstanding]
      exact h.perm.append_right _
    · change ((simulation.pending ++ [fire]).map Fire.serial).Nodup
      rw [List.map_append, List.nodup_append]
      refine ⟨h.serials, List.nodup_singleton _, ?_⟩
      rintro serial hMem _ hOther rfl
      obtain ⟨other, hOther', rfl⟩ := List.mem_map.mp hMem
      have hLess := h.serial_lt hOther'
      have hSame : other.serial = fire.serial := List.mem_singleton.mp hOther
      omega
    · intro other hMem
      rcases List.mem_append.mp hMem with hMem | hMem
      · exact Nat.lt_succ_of_lt (h.fresh other hMem)
      · cases List.mem_singleton.mp hMem
        exact hSerial ▸ Nat.lt_succ_self _
    · change (simulation.pending ++ [fire]).length ≤ _
      rw [List.length_append, List.length_singleton]
      exact hRoom
    · refine sound_append.mpr ⟨h.sound, h.perm.length_eq ▸ hRoom, hDelay, fun other hMem => ?_⟩
      exact hSerial ▸ h.fresh other hMem

theorem schedules {senders : Option Entity → Prop} (h : Accounted simulation)
    (hSchedules : Schedules senders simulation simulation') :
    Accounted simulation' := by
  induction hSchedules with
  | refl => exact h
  | queue s sender target activator delay useType _ _ ih => exact ih.fireFor sender target activator delay useType
  | accept s manager _ _ ih => exact ih.note trivial (outstanding_append _ _) fun fire hSame => by cases hSame
  | other s s' _ hPending hSerial hTrace ih => exact ih.same hPending hSerial hTrace

end Accounted

theorem takeDue_some {pending rest : List Fire} {fire : Fire} (h : takeDue pending = some (fire, rest)) :
    fire.delay ≤ 0 ∧ pending.Perm (fire :: rest) := by
  obtain ⟨-, hDue, -, -⟩ := takeFirst_some h
  exact ⟨of_decide_eq_true hDue, takeFirst_perm h⟩

theorem takeDue_none {pending : List Fire} (h : takeDue pending = none) (fire : Fire) (hMem : fire ∈ pending) :
    0 < fire.delay := lt_of_not_ge (of_decide_eq_false (takeFirst_none.mp h fire hMem))

namespace Accounted

variable {R : Type} {level level' : Level R} {simulation : Simulation}

theorem passTime (h : Accounted level.simulation) (dt : ℚ) :
    Accounted (level.passTime dt).simulation := by
  constructor
  · have hOutstanding : outstanding (level.simulation.trace ++ [.passed dt]) =
        (outstanding level.simulation.trace).map fun fire => { fire with delay := fire.delay - dt } :=
      outstanding_append _ _
    change (level.simulation.pending.map _).Perm (outstanding (level.simulation.trace ++ [.passed dt]))
    rw [hOutstanding]
    exact h.perm.map _
  · change ((level.simulation.pending.map _).map Fire.serial).Nodup
    rw [List.map_map]
    exact h.serials
  · intro fire hMem
    rcases List.mem_append.mp hMem with hMem | hMem
    · exact h.fresh fire hMem
    · cases List.mem_singleton.mp hMem
  · change (level.simulation.pending.map _).length ≤ _
    rw [List.length_map]
    exact h.bounded
  · exact sound_append.mpr ⟨h.sound, trivial⟩

theorem removePending (h : Accounted level.simulation) {fire : Fire} {rest : List Fire}
    (hTake : takeDue level.simulation.pending = some (fire, rest)) :
    Accounted (level.removePending fire rest).simulation := by
  obtain ⟨hDue, hPerm⟩ := takeDue_some hTake
  have hSerials := (hPerm.map Fire.serial).nodup_iff.mp h.serials
  rw [List.map_cons, List.nodup_cons] at hSerials
  have hLength := hPerm.length_eq
  rw [List.length_cons] at hLength
  constructor
  · have hOutstanding : outstanding (level.simulation.trace ++ [.dispatched fire]) =
        (outstanding level.simulation.trace).filter fun other => other.serial ≠ fire.serial := outstanding_append _ _
    have hKept : ((fire :: rest).filter fun other => other.serial ≠ fire.serial) = rest := by
      rw [List.filter_cons_of_neg (by simp), List.filter_eq_self]
      intro other hMem
      have hOther : ¬ other.serial = fire.serial := fun hSame => hSerials.1 (hSame ▸ List.mem_map_of_mem hMem)
      simpa using hOther
    change rest.Perm (outstanding (level.simulation.trace ++ [.dispatched fire]))
    rw [hOutstanding, ← hKept]
    exact (hPerm.symm.trans h.perm).filter _
  · exact hSerials.2
  · intro other hMem
    rcases List.mem_append.mp hMem with hMem | hMem
    · exact h.fresh other hMem
    · cases List.mem_singleton.mp hMem
  · have hBounded := h.bounded
    change rest.length ≤ _
    omega
  · refine sound_append.mpr ⟨h.sound, h.perm.mem_iff.mp (hPerm.mem_iff.mpr List.mem_cons_self), hDue⟩

theorem turn {allowed : ℚ → Prop} (h : Accounted level.simulation) (hTurn : Level.Turn allowed level level') :
    Accounted level'.simulation := by
  cases hTurn with
  | fires target activator delay useType => exact h.fireFor none target activator delay useType
  | touches entity activator => exact h.schedules (level.activateTrigger_schedules entity activator)
  | breaks entity activator => exact h.schedules (level.breakEntity_schedules entity activator)
  | relays entity source activator useType hActive hSource =>
    exact h.schedules (level.activateSource_schedules entity source activator useType)
  | manages entity manager activator hActive hSource hManager =>
    exact h.schedules (level.activateManager_schedules entity manager activator)
  | moves devices => exact h
  | arms entity => exact h
  | despawns entity => exact h
  | spawns => exact h.same rfl rfl rfl
  | knows player => exact h.same rfl rfl rfl
  | passes dt _ => exact h.passTime dt
  | takes fire rest hTake => exact h.removePending hTake
  | ends hEnds =>
    refine h.note ?_ (outstanding_append _ _) fun fire hSame => by cases hSame
    exact hEnds.imp_left fun hNone fire hMem => takeDue_none hNone fire (h.perm.mem_iff.mpr hMem)
  | cools dt => exact h.same rfl rfl rfl
  | rests dt _ =>
    have hNoted : Accounted (level.simulation.note (.ticked dt)) :=
      h.note trivial (outstanding_append _ _) fun fire hSame => by cases hSame
    exact hNoted.same rfl rfl rfl

theorem turns {allowed : ℚ → Prop} (h : Accounted level.simulation) (hTurns : Level.Turns allowed level level') :
    Accounted level'.simulation := by
  induction hTurns with
  | refl => exact h
  | tail _ hTurn ih => exact ih.turn hTurn

end Accounted

theorem Sound.outstanding_le {trace : List Happening} (h : Sound trace) :
    (outstanding trace).length ≤ maxPendingEvents := by
  induction trace using List.reverseRecOn with
  | nil => exact Nat.zero_le _
  | append_singleton trace happening ih =>
    obtain ⟨hSound, hAllowed⟩ := sound_append.mp h
    have hBefore := ih hSound
    rw [outstanding_append]
    cases happening with
    | queued fire =>
      rw [List.length_append, List.length_singleton]
      exact hAllowed.1
    | passed dt =>
      rw [List.length_map]
      exact hBefore
    | dispatched fire => exact (List.length_filter_le _ _).trans hBefore
    | dropped => exact hBefore
    | accepted manager => exact hBefore
    | ended => exact hBefore
    | ticked dt => exact hBefore

/-- Every dispatch is by a pass that began after the fire was queued. -/
def LaterPass (trace : List Happening) : Prop :=
  ∀ before fire middle other rest, trace = before ++ .queued fire :: (middle ++ .dispatched other :: rest) →
    other.serial = fire.serial → ∃ dt, .passed dt ∈ middle

theorem accounted_run {R : Type} (d : Devices R) (registry : Registry R) (calls : List (HostCall R)) :
    Accounted (Level.run d ⟨.new, registry⟩ calls).simulation := by
  have hTurns : Level.Turns (fun _ => True) ⟨.new, registry⟩ (Level.run d ⟨.new, registry⟩ calls) :=
    Level.run_turns d _ calls fun _ _ => trivial
  exact accounted_new.turns hTurns

def noDevices : Devices Unit where
  beforeBreakable := fun _ _ _ _ => none
  beforeManager := fun _ _ _ _ => none
  beforeTrigger := fun _ _ _ _ => none
  advance := fun _ _ => ((), [])

end OpenHalfLife.Game
