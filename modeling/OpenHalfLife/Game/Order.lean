import OpenHalfLife.Game.Queue
import Mathlib.Data.Prod.Lex

/-! # The order of a queue pass

The drain takes the first due event, and the last one fills its place. When are
due events dispatched by remaining delay, and equal ones as they were queued?
-/

namespace OpenHalfLife.Game

set_option autoImplicit false

def Fire.key (fire : Fire) : ℚ ×ₗ ℕ := toLex (fire.delay, fire.serial)

def Happening.fire? : Happening → Option Fire
  | .dispatched fire => some fire
  | _ => none

def dispatched (trace : List Happening) : List Fire := trace.filterMap Happening.fire?

def passed (pending : List Fire) (dt : ℚ) : List Fire := pending.map fun fire => { fire with delay := fire.delay - dt }

structure Numbered (pending : List Fire) (serial : Nat) : Prop where
  serials : (pending.map Fire.serial).Nodup
  fresh : ∀ fire ∈ pending, fire.serial < serial
  bounded : pending.length ≤ maxPendingEvents

theorem dispatched_append (trace : List Happening) (happening : Happening) :
    dispatched (trace ++ [happening]) = dispatched trace ++ happening.fire?.toList := by
  rw [dispatched, List.filterMap_append]
  cases happening <;> rfl

theorem Schedules.pushes {senders : Option Entity → Prop} {simulation simulation' : Simulation}
    (h : Schedules senders simulation simulation') :
    dispatched simulation'.trace = dispatched simulation.trace ∧ simulation.serial ≤ simulation'.serial ∧
      ∃ pushed, simulation'.pending = simulation.pending ++ pushed ∧ ∀ fire ∈ pushed, simulation.serial ≤ fire.serial := by
  induction h with
  | refl => exact ⟨rfl, Nat.le_refl _, [], by simp⟩
  | queue s sender target activator delay useType _ _ ih =>
    obtain ⟨hDispatched, hSerial, pushed, hPending, hPushed⟩ := ih
    rw [Simulation.fireFor]
    split
    · exact ⟨(dispatched_append _ _).trans (by rw [hDispatched]; exact List.append_nil _), hSerial, pushed, hPending,
        hPushed⟩
    · generalize hFire : (⟨target, useType, activator, max delay 0, s.serial, sender⟩ : Fire) = fire
      have hNumber : fire.serial = s.serial := by rw [← hFire]
      refine ⟨(dispatched_append _ _).trans (by rw [hDispatched]; exact List.append_nil _), Nat.le_succ_of_le hSerial,
        pushed ++ [fire], ?_, fun other hMem => ?_⟩
      · change s.pending ++ [fire] = _
        rw [hPending, List.append_assoc]
      · rcases List.mem_append.mp hMem with hMem | hMem
        · exact hPushed other hMem
        · rw [List.mem_singleton.mp hMem, hNumber]
          exact hSerial
  | accept s manager _ _ ih =>
    exact ⟨(dispatched_append _ _).trans (by rw [ih.1]; exact List.append_nil _), ih.2⟩
  | other s s' _ hPending hSerial hTrace ih =>
    rw [hTrace, hSerial, hPending]
    exact ih

theorem Simulation.fireFor_pending {simulation : Simulation} {sender activator : Option Entity} {target : Name}
    {delay : ℚ} {useType : TriggerUse} (h : simulation.pending.length < maxPendingEvents) :
    (simulation.fireFor sender target activator delay useType).pending =
      simulation.pending ++ [⟨target, useType, activator, max delay 0, simulation.serial, sender⟩] := by
  rw [fireFor, if_neg (Nat.not_le_of_lt h)]

namespace Level

variable {R : Type} (d : Devices R)

/-- The pass drains the queue: what holds while so much of the budget is left says what is pushed
and where the pass may stop. -/
theorem drainQueue_drains {stops pushes : List Fire → Prop} (Good : Nat → Level R → Prop)
    (hZero : ∀ level, Good 0 level → stops level.simulation.pending)
    (hNone : ∀ budget level, Good budget level → takeDue level.simulation.pending = none →
      stops level.simulation.pending)
    (hTake : ∀ budget level fire rest, Good (budget + 1) level → takeDue level.simulation.pending = some (fire, rest) →
      ∃ pushed, ((level.removePending fire rest).dispatch d fire).simulation.pending = rest ++ pushed ∧ pushes pushed ∧
        Good budget ((level.removePending fire rest).dispatch d fire))
    (budget : Nat) (level : Level R) (hGood : Good budget level) :
    ∃ order, dispatched (level.drainQueue d budget).simulation.trace = dispatched level.simulation.trace ++ order ∧
      Drains Fire.due stops pushes level.simulation.pending order := by
  induction budget generalizing level with
  | zero => exact ⟨[], dispatched_append _ _, .stop _ (hZero level hGood)⟩
  | succ budget ih =>
    rw [drainQueue]
    split
    · rename_i hDrained
      exact ⟨[], dispatched_append _ _, .stop _ (hNone _ level hGood hDrained)⟩
    · rename_i fire rest hTaken
      obtain ⟨pushed, hPending, hPushed, hAfter⟩ := hTake budget level fire rest hGood hTaken
      obtain ⟨order, hOrder, hDrains⟩ := ih _ hAfter
      refine ⟨fire :: order, ?_, .take _ fire rest pushed order hTaken hPushed (hPending ▸ hDrains)⟩
      rw [hOrder, (dispatch_schedules d _ fire).pushes.1]
      change dispatched (level.simulation.trace ++ [.dispatched fire]) ++ order = _
      rw [dispatched_append, List.append_assoc]
      rfl

theorem drainQueue_fresh (serial budget : Nat) (level : Level R) (hSerial : serial ≤ level.simulation.serial) :
    ∃ order, dispatched (level.drainQueue d budget).simulation.trace = dispatched level.simulation.trace ++ order ∧
      Drains Fire.due (fun _ => True) (fun pushed => ∀ fire ∈ pushed, serial ≤ fire.serial) level.simulation.pending
        order := by
  apply drainQueue_drains d fun _ level => serial ≤ level.simulation.serial
  · exact fun _ _ => trivial
  · exact fun _ _ _ _ => trivial
  · intro budget level fire rest hSerial _
    obtain ⟨-, hNext, pushed, hPending, hPushed⟩ := (dispatch_schedules d (level.removePending fire rest) fire).pushes
    change level.simulation.serial ≤ _ at hNext
    exact ⟨pushed, hPending, fun fire hMem => hSerial.trans (hPushed fire hMem), hSerial.trans hNext⟩
  · exact hSerial

def silentRegistry : Registry Unit := ⟨[], fun _ => [], (), Nat.zero_le _⟩

def paddedRegistry : Registry Unit where
  world := [(0, { multiManager := some ⟨[([], 1)], true⟩ })]
  nameIndex := fun _ => [0]
  devices := ()
  world_length := by rw [List.length_singleton]; exact Nat.one_le_two_pow

theorem countP_takeDue {pending rest : List Fire} {fire : Fire} (h : takeDue pending = some (fire, rest)) :
    pending.countP Fire.due = rest.countP Fire.due + 1 := by
  obtain ⟨hDue, hPerm⟩ := takeDue_some h
  have hDue : fire.due = true := decide_eq_true hDue
  rw [hPerm.countP_eq, List.countP_cons_of_pos hDue]

theorem drained_of_countP {pending : List Fire} (h : pending.countP Fire.due ≤ 0) : Drained Fire.due pending := by
  rw [Nat.le_zero, List.countP_eq_zero] at h
  exact takeFirst_none.mpr fun fire hMem => by simpa using h fire hMem

theorem drainQueue_silent (budget : Nat) (level : Level Unit) (hRegistry : level.registry = silentRegistry)
    (hBudget : level.simulation.pending.countP Fire.due ≤ budget) :
    ∃ order, dispatched (level.drainQueue noDevices budget).simulation.trace =
        dispatched level.simulation.trace ++ order ∧
      Drains Fire.due (Drained Fire.due) Silent level.simulation.pending order := by
  apply drainQueue_drains noDevices fun budget level =>
    level.registry = silentRegistry ∧ level.simulation.pending.countP Fire.due ≤ budget
  · exact fun level h => drained_of_countP h.2
  · exact fun _ _ _ h => h
  · intro budget level fire rest h hTake
    have hCount := countP_takeDue hTake
    have hDispatch : (level.removePending fire rest).dispatch noDevices fire = level.removePending fire rest := by
      have hNobody : (level.removePending fire rest).registry.find fire.target = [] := by
        change level.registry.find fire.target = []
        rw [h.1]
        rfl
      rw [dispatch, hNobody]
      rfl
    rw [hDispatch]
    refine ⟨[], (List.append_nil _).symm, rfl, h.1, ?_⟩
    change rest.countP Fire.due ≤ budget
    have hBudget := h.2
    omega
  · exact ⟨hRegistry, hBudget⟩

theorem dispatch_padded (level : Level Unit) (fire : Fire) (hRegistry : level.registry = paddedRegistry)
    (hRoom : level.simulation.pending.length < maxPendingEvents) :
    (level.dispatch noDevices fire).registry = paddedRegistry ∧
      ∃ pad, (level.dispatch noDevices fire).simulation.pending = level.simulation.pending ++ [pad] ∧ pad.due = false := by
  obtain ⟨simulation, registry⟩ := level
  cases hRegistry
  refine ⟨rfl, ⟨[], .toggle, fire.activator, max 1 0, simulation.serial, some 0⟩, ?_, ?_⟩
  · change (activateManager ⟨simulation, paddedRegistry⟩ 0 ⟨[([], 1)], true⟩ fire.activator).simulation.pending = _
    rw [activateManager, if_neg (by simp)]
    change (Simulation.fireFor _ (some 0) [] fire.activator 1 .toggle).pending = _
    split
    · exact Simulation.fireFor_pending hRoom
    · exact Simulation.fireFor_pending hRoom
  · have hPositive : ¬ (max 1 0 : ℚ) ≤ 0 := not_le.mpr (lt_max_of_lt_left one_pos)
    exact decide_eq_false hPositive

theorem drainQueue_padded (budget : Nat) (level : Level Unit) (hRegistry : level.registry = paddedRegistry)
    (hBudget : level.simulation.pending.countP Fire.due ≤ budget)
    (hBounded : level.simulation.pending.length ≤ maxPendingEvents) :
    ∃ order, dispatched (level.drainQueue noDevices budget).simulation.trace =
        dispatched level.simulation.trace ++ order ∧
      Drains Fire.due (Drained Fire.due) (Padded Fire.due) level.simulation.pending order := by
  apply drainQueue_drains noDevices fun budget level => level.registry = paddedRegistry ∧
    level.simulation.pending.countP Fire.due ≤ budget ∧ level.simulation.pending.length ≤ maxPendingEvents
  · exact fun level h => drained_of_countP h.2.1
  · exact fun _ _ _ h => h
  · intro budget level fire rest h hTake
    obtain ⟨hRegistry, hBudget, hBounded⟩ := h
    have hCount := countP_takeDue hTake
    have hLength := (takeDue_some hTake).2.length_eq
    rw [List.length_cons] at hLength
    have hRoom : (level.removePending fire rest).simulation.pending.length < maxPendingEvents := by
      change rest.length < _
      omega
    obtain ⟨hSame, pad, hPending, hUndue⟩ := dispatch_padded (level.removePending fire rest) fire hRegistry hRoom
    change _ = rest ++ [pad] at hPending
    refine ⟨[pad], hPending, ⟨pad, rfl, hUndue⟩, hSame, ?_, ?_⟩
    · rw [hPending, List.countP_append, List.countP_singleton, hUndue]
      simp only [Bool.false_eq_true, if_false]
      omega
    · rw [hPending, List.length_append, List.length_singleton]
      exact hRoom
  · exact ⟨hRegistry, hBudget, hBounded⟩

end Level

/-- A pass dispatches its due events in order, whatever they activate, exactly if the queue is in step. -/
theorem advanceQueue_inOrder_iff (pending : List Fire) (serial : Nat) (dt : ℚ) (h : Numbered pending serial) :
    (∀ (R : Type) (d : Devices R) (level : Level R) (order : List Fire), level.simulation.pending = pending →
      level.simulation.serial = serial →
      dispatched (level.advanceQueue d dt).simulation.trace = dispatched level.simulation.trace ++ order →
      InOrder Fire.due Fire.key (passed pending dt) order) ↔
      InStep Fire.due Fire.key (passed pending dt) := by
  have hBudget : (passed pending dt).countP Fire.due ≤ maxEventsPerTick := by
    apply List.countP_le_length.trans
    rw [passed, List.length_map]
    exact h.bounded
  have hPassed {R : Type} (level : Level R) :
      dispatched (level.passTime dt).simulation.trace = dispatched level.simulation.trace :=
    (dispatched_append _ _).trans (List.append_nil _)
  constructor
  · intro hAll
    let simulation : Simulation := { Simulation.new with pending := pending, serial := serial }
    obtain ⟨silent, hSilent, hSilentDrains⟩ := Level.drainQueue_silent maxEventsPerTick
      (Level.passTime ⟨simulation, Level.silentRegistry⟩ dt) rfl hBudget
    obtain ⟨padded, hPadded, hPaddedDrains⟩ := Level.drainQueue_padded maxEventsPerTick
      (Level.passTime ⟨simulation, Level.paddedRegistry⟩ dt) rfl hBudget ((List.length_map _).trans_le h.bounded)
    rw [hPassed] at hSilent hPadded
    refine .of_inOrder ?_ hSilentDrains hPaddedDrains (hAll Unit noDevices _ silent rfl rfl hSilent)
      (hAll Unit noDevices _ padded rfl rfl hPadded)
    have hNodup : (pending.map Fire.serial).Nodup := h.serials
    change ((pending.map _).map Fire.key).Nodup
    rw [List.map_map]
    refine List.Nodup.of_map (fun key => (ofLex key).2) ?_
    rw [List.map_map]
    exact hNodup
  · intro hStep R d level order hPending hSerial hOrder
    obtain ⟨order', hOrder', hDrains⟩ := (level.passTime dt).drainQueue_fresh d serial maxEventsPerTick (le_of_eq hSerial.symm)
    rw [hPassed] at hOrder'
    have hSame : order = order' := List.append_cancel_left (hOrder.symm.trans hOrder')
    subst hSame
    have hQueue : (level.passTime dt).simulation.pending = passed pending dt := by
      rw [← hPending]
      rfl
    rw [hQueue] at hDrains
    refine hStep.inOrder (fun fire hMem => ?_) hDrains
    obtain ⟨other, hOther, rfl⟩ := List.mem_map.mp hMem
    exact Nat.not_le_of_lt (h.fresh other hOther)

theorem advanceQueue_inOrder_two :
    InOrder Fire.due Fire.key [⟨[1], .toggle, none, 0, 0, none⟩, ⟨[2], .toggle, none, 0, 1, none⟩]
      [⟨[1], .toggle, none, 0, 0, none⟩, ⟨[2], .toggle, none, 0, 1, none⟩] := by
  let pending : List Fire := [⟨[1], .toggle, none, 1, 0, none⟩, ⟨[2], .toggle, none, 1, 1, none⟩]
  have hNumbered : Numbered pending 2 := ⟨by decide, by decide, by decide⟩
  have hStep : InStep Fire.due Fire.key (passed pending 1) := by
    intro a rest hTake
    have hFirst : takeFirst Fire.due (passed pending 1) =
        some (⟨[1], .toggle, none, 0, 0, none⟩, [⟨[2], .toggle, none, 0, 1, none⟩]) := by
      decide +kernel
    cases hFirst.symm.trans hTake
    refine ⟨fun b hMem _ => ?_, ⟨pairwise_of_length_le_one (List.length_filter_le _ _), ?_⟩⟩
    · cases List.mem_singleton.mp hMem
      exact Prod.Lex.toLex_lt_toLex.mpr (.inr ⟨rfl, Nat.zero_lt_one⟩)
    · exact (List.length_filter_le _ _).trans (by simp)
  have hPassed : passed pending 1 = [⟨[1], .toggle, none, 0, 0, none⟩, ⟨[2], .toggle, none, 0, 1, none⟩] := by
    decide +kernel
  rw [← hPassed]
  exact (advanceQueue_inOrder_iff pending 2 1 hNumbered).mpr hStep Unit noDevices
    ⟨{ Simulation.new with pending := pending, serial := 2 }, Level.silentRegistry⟩ (passed pending 1) rfl rfl
    (by decide +kernel)

/-- Three targets after the same delay: the last one takes the place of the first. -/
theorem manager_targets_out_of_order :
    let manager : Components := { multiManager := some ⟨[([1], 1), ([2], 1), ([3], 1)], false⟩ }
    let registry : Registry Unit := ⟨[(0, manager)], fun _ => [], (), by decide⟩
    let level := Level.run noDevices ⟨.new, registry⟩ [.useEntity 0 none]
    let order := dispatched (level.advanceQueue noDevices 1).simulation.trace
    order.map Fire.target = [[1], [3], [2]] ∧ ¬ InOrder Fire.due Fire.key (passed level.simulation.pending 1) order := by
  intro manager registry level order
  refine ⟨by decide +kernel, fun h => ?_⟩
  have hOvertaken := h ⟨[2], .toggle, none, 0, 1, some 0⟩ (by decide +kernel) ⟨[3], .toggle, none, 0, 2, some 0⟩
    (by decide +kernel) (by decide +kernel) (by decide +kernel)
    (Prod.Lex.toLex_lt_toLex.mpr (.inr ⟨rfl, Nat.lt_succ_self 1⟩)) [⟨[1], .toggle, none, 0, 0, some 0⟩]
    [⟨[2], .toggle, none, 0, 1, some 0⟩] (by decide +kernel)
  exact absurd hOvertaken (by decide)

end OpenHalfLife.Game
