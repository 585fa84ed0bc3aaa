import OpenHalfLife.Ai.ScriptHost
import OpenHalfLife.Lib.SharedMark

/-! # What one step of a script does

To the marker of every entity in the world, to the monster, and to the fires
and removals so far.
-/

namespace OpenHalfLife.Ai

set_option autoImplicit false

variable {K : Type}

namespace Host

/-- Nothing changes but how the entities stand, move and look. -/
structure Driven (h h' : Host K) : Prop where
  live : ∀ e, h'.live e = h.live e
  held : ∀ e, h'.held e = h.held e
  known : h'.known = h.known
  removals : h'.removals = h.removals
  fired : h'.fired = h.fired
  completions : h'.scriptCompletions = h.scriptCompletions
  timeouts : h'.scriptTimeouts = h.scriptTimeouts

theorem Driven.refl (h : Host K) : Driven h h := ⟨fun _ => rfl, fun _ => rfl, rfl, rfl, rfl, rfl, rfl⟩

theorem Driven.trans {h h' h'' : Host K} (first : Driven h h') (second : Driven h' h'') : Driven h h'' where
  live e := (second.live e).trans (first.live e)
  held e := (second.held e).trans (first.held e)
  known := second.known.trans first.known
  removals := second.removals.trans first.removals
  fired := second.fired.trans first.fired
  completions := second.completions.trans first.completions
  timeouts := second.timeouts.trans first.timeouts

theorem live_modifyBody (h : Host K) (e d : Entity) (f : Body K → Body K) :
    (h.modifyBody e f).live d = h.live d := by
  by_cases hd : d = e
  · subst hd
    simp [live, modifyBody]
  · simp [live, modifyBody, hd]

theorem held_modifyBody_of_ne (h : Host K) {e d : Entity} (hd : d ≠ e) (f : Body K → Body K) :
    (h.modifyBody e f).held d = h.held d := by
  simp [held, modifyBody, hd]

theorem held_modifyBody_self (h : Host K) (e : Entity) {f : Body K → Body K} (value : Bool)
    (hf : ∀ body, (f body).scriptHold = value) : (h.modifyBody e f).held e = (h.live e && value) := by
  cases hBody : h.bodies e with
  | none => simp [held, live, modifyBody, hBody]
  | some body => simp [held, live, modifyBody, hBody, hf]

theorem driven_modifyBody (h : Host K) (e : Entity) {f : Body K → Body K}
    (hf : ∀ body, (f body).scriptHold = body.scriptHold) : Driven h (h.modifyBody e f) where
  live d := live_modifyBody h e d f
  held d := by
    by_cases hd : d = e
    · subst hd
      cases hBody : h.bodies d with
      | none => simp [held, modifyBody, hBody]
      | some body => simp [held, modifyBody, hBody, hf]
    · exact held_modifyBody_of_ne h hd f
  known := rfl
  removals := rfl
  fired := rfl
  completions := rfl
  timeouts := rfl

/-- Entities may leave the world; the others keep their markers. -/
structure Thinned (h h' : Host K) : Prop where
  live : ∀ e, h'.live e = true → h.live e = true
  held : ∀ e, h'.live e = true → h'.held e = h.held e
  known : h'.known = h.known
  removals : h'.removals = h.removals
  timeouts : h'.scriptTimeouts = h.scriptTimeouts

theorem Driven.thinned {h h' : Host K} (driven : Driven h h') : Thinned h h' where
  live e hLive := by rw [← driven.live e]; exact hLive
  held e _ := driven.held e
  known := driven.known
  removals := driven.removals
  timeouts := driven.timeouts

theorem Thinned.trans {h h' h'' : Host K} (first : Thinned h h') (second : Thinned h' h'') : Thinned h h'' where
  live e hLive := first.live e (second.live e hLive)
  held e hLive := (second.held e hLive).trans (first.held e (second.live e hLive))
  known := second.known.trans first.known
  removals := second.removals.trans first.removals
  timeouts := second.timeouts.trans first.timeouts

theorem thinned_despawn (h : Host K) (d : Entity) : Thinned h (h.despawn d) where
  live e hLive := by
    by_cases he : e = d
    · simp [live, despawn, he] at hLive
    · simpa [live, despawn, he] using hLive
  held e hLive := by
    by_cases he : e = d
    · simp [live, despawn, he] at hLive
    · simp [held, despawn, he]
  known := rfl
  removals := rfl
  timeouts := rfl

variable [Scalar K]

theorem driven_stop (h : Host K) (e : Entity) : Driven h (h.stopScriptedMovement e) :=
  driven_modifyBody h e fun _ => rfl

theorem driven_place (h : Host K) (e : Entity) (origin : Vec3 K) (yaw : K) : Driven h (h.place e origin yaw) :=
  driven_modifyBody h e fun _ => rfl

theorem driven_select (h : Host K) (e : Entity) (name : String) : Driven h (h.selectSequence e name) :=
  driven_modifyBody h e fun _ => rfl

theorem driven_approach (h : Host K) (e : Entity) (goal : Vec3 K) (speed : K) :
    Driven h (h.approach e goal speed) :=
  driven_modifyBody h e fun _ => rfl

theorem driven_face (h : Host K) (e : Entity) (yaw dt : K) : Driven h (h.face e yaw dt) :=
  driven_modifyBody h e fun _ => rfl

theorem driven_playIdle (h : Host K) (s : ActiveScript K) (e : Entity) : Driven h (h.playIdle s e) := by
  unfold playIdle
  split
  · exact driven_select h e _
  · exact Driven.refl h

theorem driven_startAction (h : Host K) (s : ActiveScript K) (e : Entity) (lift : K) :
    Driven h (h.startAction s e lift).1 := by
  unfold startAction
  split
  · dsimp only
    split
    · exact driven_select h e _
    · exact Driven.refl h
  · exact Driven.refl h

structure SameScript (s s' : ActiveScript K) : Prop where
  runner : s'.runner = s.runner
  actor : s'.actor = s.actor
  wasActive : s'.wasActive = s.wasActive

theorem sameScript_startAction (h : Host K) (s : ActiveScript K) (e : Entity) (lift : K) :
    SameScript s (h.startAction s e lift).2 := by
  unfold startAction
  split <;> exact ⟨rfl, rfl, rfl⟩

theorem driveActor_spec (h : Host K) (s : ActiveScript K) (e : Entity) (action : ScriptAction) (dt : K) :
    Driven h (h.driveActor s e action dt).1 ∧ SameScript s (h.driveActor s e action dt).2 := by
  cases action with
  | none => exact ⟨Driven.refl h, rfl, rfl, rfl⟩
  | idle => exact ⟨(driven_stop h e).trans (driven_playIdle _ s e), rfl, rfl, rfl⟩
  | approach run =>
    exact ⟨(driven_approach h e _ _).trans (driven_playIdle _ s e), rfl, rfl, rfl⟩
  | teleport =>
    exact ⟨((driven_stop h e).trans (driven_place _ e _ _)).trans (driven_playIdle _ s e), rfl, rfl, rfl⟩
  | face =>
    exact ⟨((driven_stop h e).trans (driven_face _ e _ _)).trans (driven_playIdle _ s e), rfl, rfl, rfl⟩
  | play =>
    have hStart := sameScript_startAction (h.stopScriptedMovement e) s e (h.hullLiftOf e)
    exact ⟨(driven_stop h e).trans (driven_startAction _ s e _), hStart.runner, hStart.actor,
      hStart.wasActive⟩

/-! ## Completing and releasing -/

omit [Scalar K] in
theorem despawnAll_spec (h : Host K) (doomed : List Entity) :
    Thinned h (doomed.foldl despawn h) ∧ (doomed.foldl despawn h).fired = h.fired ∧
      (doomed.foldl despawn h).scriptCompletions = h.scriptCompletions := by
  induction doomed generalizing h with
  | nil => exact ⟨(Driven.refl h).thinned, rfl, rfl⟩
  | cons d doomed ih =>
    obtain ⟨hThinned, hFired, hCompletions⟩ := ih (h.despawn d)
    exact ⟨(thinned_despawn h d).trans hThinned, hFired, hCompletions⟩

def firesOf (s : ActiveScript K) (e : Entity) : List (ScriptFire K) :=
  if s.runner.script.target.isEmpty then [] else [⟨s.runner.script.target, e, s.runner.script.delay⟩]

theorem returnActor_driven (h : Host K) (s : ActiveScript K) (e : Entity) : Driven h (h.returnActor s e) := by
  unfold returnActor
  split
  · exact driven_place h e _ _
  · exact Driven.refl h

omit [Scalar K] in
theorem fireTarget_spec (h : Host K) (s : ActiveScript K) (e : Entity) :
    Thinned h (h.fireTarget s e) ∧ (h.fireTarget s e).fired = h.fired ++ firesOf s e ∧
      (h.fireTarget s e).scriptCompletions = h.scriptCompletions := by
  unfold fireTarget firesOf
  split
  · exact ⟨(Driven.refl h).thinned, (List.append_nil _).symm, rfl⟩
  · exact ⟨⟨fun _ hLive => hLive, fun _ _ => rfl, rfl, rfl, rfl⟩, rfl, rfl⟩

omit [Scalar K] in
theorem killTarget_spec (h : Host K) (s : ActiveScript K) :
    Thinned h (h.killTarget s) ∧ (h.killTarget s).fired = h.fired ∧
      (h.killTarget s).scriptCompletions = h.scriptCompletions := by
  unfold killTarget
  split
  · exact ⟨(Driven.refl h).thinned, rfl, rfl⟩
  · exact despawnAll_spec h _

theorem complete_spec (h : Host K) (s : ActiveScript K) (e : Entity) :
    Thinned h (h.complete s e) ∧ (h.complete s e).fired = h.fired ++ firesOf s e ∧
      (h.complete s e).scriptCompletions = h.scriptCompletions + 1 := by
  have hCounted : Thinned h { h with scriptCompletions := h.scriptCompletions + 1 } :=
    ⟨fun _ hLive => hLive, fun _ _ => rfl, rfl, rfl, rfl⟩
  have hReturned := returnActor_driven { h with scriptCompletions := h.scriptCompletions + 1 } s e
  obtain ⟨hFire, hFired, hSame⟩ :=
    fireTarget_spec (returnActor { h with scriptCompletions := h.scriptCompletions + 1 } s e) s e
  obtain ⟨hKill, hKept, hLast⟩ :=
    killTarget_spec ((returnActor { h with scriptCompletions := h.scriptCompletions + 1 } s e).fireTarget s e) s
  refine ⟨((hCounted.trans hReturned.thinned).trans hFire).trans hKill, ?_, ?_⟩
  · calc (h.complete s e).fired
        = ((returnActor { h with scriptCompletions := h.scriptCompletions + 1 } s e).fireTarget s e).fired := hKept
      _ = h.fired ++ firesOf s e := by rw [hFired, hReturned.fired]
  · calc (h.complete s e).scriptCompletions
        = ((returnActor { h with scriptCompletions := h.scriptCompletions + 1 } s e).fireTarget s
            e).scriptCompletions := hLast
      _ = h.scriptCompletions + 1 := by rw [hSame, hReturned.completions]

theorem release_spec (h : Host K) (s : ActiveScript K) (e : Entity) :
    (∀ d, (h.release s e).live d = h.live d) ∧
      (∀ d, (h.release s e).held d = if d = e then false else h.held d) ∧
      (h.release s e).known = h.known ∧ (h.release s e).removals = h.removals ++ [e] ∧
      (h.release s e).fired = h.fired ∧ (h.release s e).scriptCompletions = h.scriptCompletions ∧
      (h.release s e).scriptTimeouts = h.scriptTimeouts := by
  have hStopped := driven_stop (h.removeHold e) e
  have hReleased : Driven ((h.removeHold e).stopScriptedMovement e) (h.release s e) := by
    unfold release
    dsimp only
    split
    · exact driven_modifyBody _ e fun _ => rfl
    · exact Driven.refl _
  have hDriven := hStopped.trans hReleased
  refine ⟨fun d => ?_, fun d => ?_, hDriven.known, hDriven.removals, hDriven.fired, hDriven.completions,
    hDriven.timeouts⟩
  · exact (hDriven.live d).trans (live_modifyBody h e d _)
  · rw [hDriven.held d]
    show (h.modifyBody e _).held d = _
    by_cases hd : d = e
    · rw [if_pos hd, hd, held_modifyBody_self h e false fun _ => rfl, Bool.and_false]
    · rw [if_neg hd, held_modifyBody_of_ne h hd]

/-- The end of a step: a completion, and a removal where the activity ends. -/
structure Finished (h : Host K) (s : ActiveScript K) (e : Entity) (step : ScriptStep) (h' : Host K)
    (s' : ActiveScript K) : Prop where
  live : ∀ d, h'.live d = true → h.live d = true
  held : ∀ d, h'.live d = true →
    h'.held d = if d = e ∧ s.wasActive = true ∧ s.isActive = false then false else h.held d
  known : h'.known = h.known
  removals : h'.removals = h.removals ++ if s.wasActive = true ∧ s.isActive = false then [e] else []
  fired : h'.fired = h.fired ++ if step.completed then firesOf s e else []
  completions : h'.scriptCompletions = h.scriptCompletions + if step.completed then 1 else 0
  timeouts : h'.scriptTimeouts = h.scriptTimeouts + if step.timedOut then 1 else 0
  bodies : step.completed = false → s.wasActive = false → h'.bodies = h.bodies
  runner : s'.runner = s.runner
  actor : s'.actor = s.actor
  wasActive : s'.wasActive = s.isActive

structure Counted (h : Host K) (s : ActiveScript K) (e : Entity) (step : ScriptStep) (h' : Host K) : Prop where
  live : ∀ d, h'.live d = true → h.live d = true
  held : ∀ d, h'.live d = true → h'.held d = h.held d
  known : h'.known = h.known
  removals : h'.removals = h.removals
  fired : h'.fired = h.fired ++ if step.completed then firesOf s e else []
  completions : h'.scriptCompletions = h.scriptCompletions + if step.completed then 1 else 0
  timeouts : h'.scriptTimeouts = h.scriptTimeouts + if step.timedOut then 1 else 0
  bodies : step.completed = false → h'.bodies = h.bodies

omit [Scalar K] in
theorem countTimeout_spec (h : Host K) (s : ActiveScript K) (e : Entity) (step : ScriptStep) :
    Counted h s e { step with completed := false } (h.countTimeout step) := by
  unfold countTimeout
  cases step.timedOut with
  | true => exact ⟨fun _ hLive => hLive, fun _ _ => rfl, rfl, rfl, (List.append_nil _).symm, rfl, rfl, fun _ => rfl⟩
  | false => exact ⟨fun _ hLive => hLive, fun _ _ => rfl, rfl, rfl, (List.append_nil _).symm, rfl, rfl, fun _ => rfl⟩

theorem countStep_spec (h : Host K) (s : ActiveScript K) (e : Entity) (step : ScriptStep) :
    Counted h s e step (h.countStep s e step) := by
  have hTimeout := countTimeout_spec h s e step
  unfold countStep
  cases hDone : step.completed with
  | true =>
    obtain ⟨hThinned, hFired, hCompletions⟩ := complete_spec (h.countTimeout step) s e
    refine ⟨fun d hLive => hTimeout.live d (hThinned.live d hLive),
      fun d hLive => (hThinned.held d hLive).trans (hTimeout.held d (hThinned.live d hLive)),
      hThinned.known.trans hTimeout.known, hThinned.removals.trans hTimeout.removals, ?_, ?_,
      hThinned.timeouts.trans hTimeout.timeouts, fun hNot => ?_⟩
    · have hBefore := hTimeout.fired
      rw [hDone, if_pos rfl, hFired, hBefore]
      simp
    · have hBefore := hTimeout.completions
      rw [hDone, if_pos rfl, hCompletions, hBefore]
      simp
    · rw [hDone] at hNot
      cases hNot
  | false =>
    have hSame : step = { step with completed := false } := by rw [← hDone]
    rw [hSame]
    exact hTimeout

theorem finishScriptStep_spec (h : Host K) (s : ActiveScript K) (e : Entity) (step : ScriptStep) :
    Finished h s e step (h.finishScriptStep s e step).1 (h.finishScriptStep s e step).2 := by
  have hCounted := countStep_spec h s e step
  unfold finishScriptStep
  dsimp only
  by_cases hEnds : s.wasActive = true ∧ s.isActive = false
  · obtain ⟨hLive, hHeld, hKnown, hRemovals, hFires, hCounts, hTimeouts⟩ :=
      release_spec (h.countStep s e step) s e
    rw [if_pos (by simp [hEnds.1, hEnds.2])]
    refine ⟨fun d hd => hCounted.live d (by rw [← hLive d]; exact hd), fun d hd => ?_,
      hKnown.trans hCounted.known, ?_, hFires.trans hCounted.fired, hCounts.trans hCounted.completions,
      hTimeouts.trans hCounted.timeouts, fun _ hWas => ?_, rfl, rfl, rfl⟩
    · dsimp only at hd ⊢
      rw [hLive d] at hd
      rw [hHeld d, hCounted.held d hd]
      simp [hEnds]
    · rw [if_pos hEnds, ← hCounted.removals]
      exact hRemovals
    · rw [hEnds.1] at hWas
      cases hWas
  · have hStays : (s.wasActive && !s.isActive) = false := by
      cases hWas : s.wasActive <;> cases hIs : s.isActive <;> simp_all
    rw [if_neg (by simp [hStays])]
    refine ⟨hCounted.live, fun d hd => ?_, hCounted.known, ?_, hCounted.fired, hCounted.completions,
      hCounted.timeouts, fun hCompleted _ => hCounted.bodies hCompleted, rfl, rfl, rfl⟩
    · rw [hCounted.held d hd, if_neg (fun hAll => hEnds hAll.2)]
    · rw [if_neg hEnds, List.append_nil]
      exact hCounted.removals

/-! ## One step -/

structure Stepped (h : Host K) (s : ActiveScript K) (h' : Host K) (s' : ActiveScript K) : Prop where
  live : ∀ d, h'.live d = true → h.live d = true
  held : ∀ d, h'.live d = true → h'.held d =
    if s'.actor = some d then Turn.mark (h.held d) ⟨s.isActive, s'.isActive⟩ else h.held d
  known : h'.known = h.known
  removals : h'.removals = h.removals ++
    if s.isActive = true ∧ s'.isActive = false then s'.actor.toList else []
  fired : h'.fired = h.fired ++
    if h'.scriptCompletions = h.scriptCompletions then [] else s'.actor.toList.flatMap (firesOf s)
  completions : h'.scriptCompletions = h.scriptCompletions ∨
    h'.scriptCompletions = h.scriptCompletions + 1 ∧ s.isActive = true ∧ s'.isActive = false
  timeouts : h'.scriptTimeouts ≠ h.scriptTimeouts → h'.scriptCompletions = h.scriptCompletions
  untouched : s.isActive = false → s'.isActive = false → h'.bodies = h.bodies
  script : s'.runner.script = s.runner.script
  wasActive : s'.wasActive = s'.isActive

theorem wake_spec (h : Host K) (s : ActiveScript K) (e : Entity) :
    (h.wake s e).2.script = s.runner.script ∧
      ((h.wake s e).2.phase = .playing → s.runner.phase = .playing) ∧
      (s.isActive = true → (h.wake s e).2 = s.runner) := by
  unfold wake
  split
  · refine ⟨s.runner.trigger_script, s.runner.trigger_playing, fun hActive => ?_⟩
    rw [s.runner.trigger_of_active hActive]
  · exact ⟨rfl, id, fun _ => rfl⟩

/-- An activation reaches into no entity and, of the script, only into its runner. -/
structure Possessed (h : Host K) (s : ActiveScript K) (h' : Host K) (s' : ActiveScript K) : Prop where
  bodies : h'.bodies = h.bodies
  known : h'.known = h.known
  removals : h'.removals = h.removals
  fired : h'.fired = h.fired
  completions : h'.scriptCompletions = h.scriptCompletions
  timeouts : h'.scriptTimeouts = h.scriptTimeouts
  actor : s'.actor = s.actor
  wasActive : s'.wasActive = s.wasActive
  script : s'.runner.script = s.runner.script
  playing : s'.runner.phase = .playing → s.runner.phase = .playing

theorem possess_spec (h : Host K) (s : ActiveScript K) (e : Entity) :
    Possessed h s (h.possess s e).1 (h.possess s e).2 := by
  obtain ⟨hScript, hPlaying, -⟩ := wake_spec h s e
  unfold possess
  dsimp only
  split
  · split
    · exact ⟨rfl, rfl, rfl, rfl, rfl, rfl, rfl, rfl, hScript, hPlaying⟩
    · exact ⟨rfl, rfl, rfl, rfl, rfl, rfl, rfl, rfl, hScript, hPlaying⟩
  · exact ⟨rfl, rfl, rfl, rfl, rfl, rfl, rfl, rfl, rfl, id⟩

/-- A marked and driven actor, and a script that is the same to all but its action. -/
structure Holding (h : Host K) (s : ActiveScript K) (e : Entity) (h' : Host K) (s' : ActiveScript K) : Prop where
  live : ∀ d, h'.live d = h.live d
  held : ∀ d, h'.held d = if d = e ∧ s.isActive = true then true else h.held d
  known : h'.known = h.known
  removals : h'.removals = h.removals
  fired : h'.fired = h.fired
  completions : h'.scriptCompletions = h.scriptCompletions
  timeouts : h'.scriptTimeouts = h.scriptTimeouts
  bodies : s.isActive = false → h'.bodies = h.bodies
  runner : s'.runner = s.runner
  actor : s'.actor = s.actor
  wasActive : s'.wasActive = s.wasActive

theorem holdActor_spec (h : Host K) (s : ActiveScript K) {e : Entity} (action : ScriptAction) (dt : K)
    (hLive : h.live e = true) :
    Holding h s e (h.holdActor s e action dt).1 (h.holdActor s e action dt).2 := by
  unfold holdActor
  by_cases hActive : s.isActive = true
  · rw [if_pos hActive]
    obtain ⟨hDriven, hSame⟩ := driveActor_spec (h.insertHold e) s e action dt
    refine ⟨fun d => (hDriven.live d).trans (live_modifyBody h e d _), fun d => ?_, hDriven.known,
      hDriven.removals, hDriven.fired, hDriven.completions, hDriven.timeouts, fun hNot => ?_, hSame.runner, hSame.actor,
      hSame.wasActive⟩
    · rw [hDriven.held d, insertHold]
      by_cases hd : d = e
      · rw [if_pos ⟨hd, hActive⟩, hd, held_modifyBody_self h e true fun _ => rfl, hLive, Bool.and_true]
      · rw [if_neg (fun h => hd h.1), held_modifyBody_of_ne h hd]
    · rw [hActive] at hNot
      cases hNot
  · rw [if_neg hActive]
    refine ⟨fun _ => rfl, fun d => ?_, rfl, rfl, rfl, rfl, rfl, fun _ => rfl, rfl, rfl, rfl⟩
    rw [if_neg (fun h => hActive h.2)]

/-- The parts of a step put together, from an activation over an update and the
hold to the end. -/
theorem stepped_of_parts {h h₁ h₂ h' : Host K} {s s₁ s₂ s' : ActiveScript K} {e : Entity}
    (sense : ScriptSense K) (hActor : s.actor = some e) (hWas : s.wasActive = s.isActive)
    (possessed : Possessed h s h₁ s₁)
    (holding : Holding h₁ { s₁ with runner := (s₁.runner.update sense).2 } e h₂ s₂)
    (finished : Finished h₂ s₂ e (s₁.runner.update sense).1 h' s') : Stepped h s h' s' := by
  have hRunner : s₂.runner = (s₁.runner.update sense).2 := holding.runner
  have hWasActive : s₂.wasActive = s.isActive := by
    rw [holding.wasActive, ← hWas]
    exact possessed.wasActive
  have hActive : s'.isActive = s₂.isActive := by rw [ActiveScript.isActive, finished.runner, ActiveScript.isActive]
  have hMoved : s₂.isActive = (s₁.runner.update sense).2.isActive := by
    rw [ActiveScript.isActive, hRunner, ScriptRunner.isActive]
  have hSame : s'.actor = some e := by
    rw [finished.actor, holding.actor]
    exact possessed.actor.trans hActor
  have hScript : s₂.runner.script = s.runner.script := by
    rw [hRunner, ScriptRunner.update_script, possessed.script]
  have hFires : firesOf s₂ e = firesOf s e := by rw [firesOf, hScript, firesOf]
  have hLive : ∀ d, h₂.live d = h.live d := fun d => by rw [holding.live d, live, possessed.bodies, live]
  have hCompleted : (s₁.runner.update sense).1.completed = true → s.isActive = true := by
    intro hDone
    have hPlaying := possessed.playing (s₁.runner.update_completed sense hDone).1
    rw [ActiveScript.isActive, hPlaying, ScriptPhase.isActive]
  refine ⟨fun d hd => ?_, fun d hd => ?_, ?_, ?_, ?_, ?_, fun hLate => ?_, fun hBefore hAfter => ?_, ?_, ?_⟩
  · rw [← hLive d]
    exact finished.live d hd
  · have hHeld : h₂.held d = if d = e ∧ s₂.isActive = true then true else h.held d := by
      rw [holding.held d, held, possessed.bodies, held, hMoved]
      rfl
    rw [finished.held d hd, hHeld, hSame, hActive, hWasActive, Turn.mark]
    by_cases hd : d = e
    · subst hd
      cases s.isActive <;> cases s₂.isActive <;> simp
    · have hOther : ¬ some e = some d := fun hEq => hd (Option.some.inj hEq).symm
      rw [if_neg (fun h => hd h.1), if_neg (fun h => hd h.1), if_neg hOther]
  · rw [finished.known, holding.known, possessed.known]
  · rw [finished.removals, holding.removals, possessed.removals, hSame, hActive, hWasActive]
    rfl
  · rw [finished.fired, holding.fired, possessed.fired, finished.completions, holding.completions,
      possessed.completions, hSame, hFires]
    cases (s₁.runner.update sense).1.completed <;> simp
  · rw [finished.completions, holding.completions, possessed.completions]
    cases hDone : (s₁.runner.update sense).1.completed with
    | false => exact .inl rfl
    | true =>
      refine .inr ⟨rfl, hCompleted hDone, ?_⟩
      rw [hActive, hMoved]
      exact (s₁.runner.update_completed sense hDone).2
  · rw [finished.timeouts, holding.timeouts, possessed.timeouts] at hLate
    rw [finished.completions, holding.completions, possessed.completions]
    cases hTimed : (s₁.runner.update sense).1.timedOut with
    | true => rw [s₁.runner.update_timedOut sense hTimed]; rfl
    | false => rw [hTimed] at hLate; exact absurd rfl hLate
  · rw [hActive, hMoved] at hAfter
    have hIdle : (s₁.runner.update sense).1.completed = false := by
      cases hDone : (s₁.runner.update sense).1.completed with
      | false => rfl
      | true => rw [hCompleted hDone] at hBefore; cases hBefore
    rw [finished.bodies hIdle (by rw [hWasActive, hBefore]), holding.bodies hAfter, possessed.bodies]
  · rw [finished.runner, hScript]
  · rw [finished.wasActive, hActive]

theorem advance_spec (h : Host K) (s : ActiveScript K) {e : Entity} (dt : K) (hActor : s.actor = some e)
    (hLive : h.live e = true) (hWas : s.wasActive = s.isActive) :
    Stepped h s (h.advance s e dt).1 (h.advance s e dt).2 ∧ (h.advance s e dt).2.actor = some e := by
  have hPossessed := possess_spec h s e
  unfold advance applyScriptStep
  generalize h.possess s e = pair at hPossessed ⊢
  obtain ⟨h₁, s₁⟩ := pair
  dsimp only at hPossessed ⊢
  have hStill : h₁.live e = true := by rw [live, hPossessed.bodies]; exact hLive
  have hHolding := holdActor_spec h₁ { s₁ with runner := (s₁.runner.update (h₁.senseOf s₁ e dt)).2 }
    (s₁.runner.update (h₁.senseOf s₁ e dt)).1.action dt hStill
  generalize h₁.holdActor { s₁ with runner := (s₁.runner.update (h₁.senseOf s₁ e dt)).2 } e
    (s₁.runner.update (h₁.senseOf s₁ e dt)).1.action dt = pair at hHolding ⊢
  have hFinished := finishScriptStep_spec pair.1 pair.2 e (s₁.runner.update (h₁.senseOf s₁ e dt)).1
  refine ⟨stepped_of_parts _ hActor hWas hPossessed hHolding hFinished, ?_⟩
  exact hFinished.actor.trans (hHolding.actor.trans (hPossessed.actor.trans hActor))

/-! ## Binding -/

theorem foldl_chosen {α : Type} {choose : Option α → α → Option α} {rest : List α} {start : Option α} {chosen : α}
    (hChoose : ∀ best shown, choose best shown = best ∨ choose best shown = some shown)
    (h : rest.foldl choose start = some chosen) : start = some chosen ∨ chosen ∈ rest := by
  induction rest generalizing start with
  | nil => exact .inl h
  | cons first rest ih =>
    rcases ih h with hStart | hMem
    · rcases hChoose start first with hKept | hTaken
      · exact .inl (hKept ▸ hStart)
      · rw [hTaken, Option.some.injEq] at hStart
        exact .inr (hStart ▸ List.mem_cons_self)
    · exact .inr (List.mem_cons_of_mem _ hMem)

theorem closest_mem {candidates : List (K × Entity)} {e : Entity} (h : closest candidates = some e) :
    ∃ distance, (distance, e) ∈ candidates := by
  obtain ⟨best, hBest, rfl⟩ := Option.map_eq_some_iff.mp h
  have hFold : none = some best ∨ best ∈ candidates := by
    refine foldl_chosen (fun best shown => ?_) hBest
    cases best with
    | none => exact .inr rfl
    | some other =>
      dsimp only
      split
      · exact .inr rfl
      · exact .inl rfl
  rcases hFold with hNone | hMem
  · cases hNone
  · exact ⟨best.1, hMem⟩

theorem candidate_live {h : Host K} {className : String} {origin : Vec3 K} {radius : K} {d e : Entity}
    {distance : K} (hCandidate : h.candidate className origin radius d = some (distance, e)) :
    h.live e = true := by
  unfold candidate at hCandidate
  cases hBody : h.bodies d with
  | none => simp [hBody] at hCandidate
  | some body =>
    simp only [hBody, Option.bind_eq_bind, Option.bind_some, Option.bind_eq_some_iff] at hCandidate
    obtain ⟨name, -, actor, -, hRest⟩ := hCandidate
    split at hRest
    · cases hRest
    · split at hRest
      · cases hRest
      · simp only [Option.some.injEq, Prod.mk.injEq] at hRest
        rw [← hRest.2, live, hBody, Option.isSome_some]

theorem findScriptActor_live {h : Host K} {script : ScriptDef K} {e : Entity}
    (hFound : h.findScriptActor script = some e) : h.live e = true := by
  unfold findScriptActor at hFound
  split at hFound
  · cases hFound
  · split at hFound
    · next named hNamed =>
      cases hFound
      have hActor := List.find?_some hNamed
      cases hBody : h.bodies e with
      | none => simp [actorOf, hBody] at hActor
      | some body => rw [live, hBody, Option.isSome_some]
    · obtain ⟨distance, hMem⟩ := closest_mem hFound
      obtain ⟨d, -, hCandidate⟩ := List.mem_filterMap.mp hMem
      exact candidate_live hCandidate

omit [Scalar K] in
theorem takeActivations_spec (h : Host K) (e : Entity) :
    ∃ pending, (h.takeActivations e).2 = { h with activations := pending } := by
  unfold takeActivations
  split
  · exact ⟨_, rfl⟩
  · exact ⟨h.activations, rfl⟩

theorem bindActor_spec (h : Host K) (s : ActiveScript K) :
    ∃ actor generation, h.bindActor s = { s with actor := actor, searchedGeneration := generation } ∧
      (∀ e, s.actor = some e → actor = some e) ∧
      ∀ e, actor = some e → s.actor = some e ∨ h.live e = true := by
  unfold bindActor
  split
  · next hSearch =>
    refine ⟨_, _, rfl, fun e hBound => ?_, fun e hFound => .inr (findScriptActor_live hFound)⟩
    simp [hBound] at hSearch
  · exact ⟨s.actor, s.searchedGeneration, rfl, fun _ h => h, fun _ h => .inl h⟩

omit [Scalar K] in
theorem stepped_of_absent {h : Host K} {s : ActiveScript K} (hWas : s.wasActive = s.isActive)
    (hAbsent : ∀ e, s.actor = some e → h.live e = false) : Stepped h s h s := by
  refine ⟨fun _ hLive => hLive, fun d hLive => ?_, rfl, ?_, ?_, .inl rfl, fun _ => rfl, fun _ _ => rfl,
    rfl, hWas⟩
  · rw [if_neg]
    intro hActor
    rw [hAbsent d hActor] at hLive
    cases hLive
  · cases s.isActive <;> simp
  · simp

theorem stepBound_spec (h : Host K) (s : ActiveScript K) (dt : K) (hWas : s.wasActive = s.isActive)
    (hUnbound : s.actor = none → s.isActive = false) :
    Stepped h s (h.stepBound s dt).1 (h.stepBound s dt).2 ∧ (h.stepBound s dt).2.actor = s.actor ∧
      ((h.stepBound s dt).2.actor = none → (h.stepBound s dt).2.isActive = false) := by
  unfold stepBound
  cases hActor : s.actor with
  | none =>
    refine ⟨stepped_of_absent hWas fun e hSome => ?_, hActor, fun _ => hUnbound hActor⟩
    rw [hActor] at hSome
    cases hSome
  | some e =>
    cases hLive : h.live e with
    | false =>
      have hFilter : (some e).filter h.live = none := by simp [Option.filter, hLive]
      rw [hFilter]
      refine ⟨stepped_of_absent hWas fun d hSome => ?_, hActor, fun hNone => ?_⟩
      · rw [hActor] at hSome
        rw [← Option.some.inj hSome]
        exact hLive
      · rw [hActor] at hNone
        cases hNone
    | true =>
      have hFilter : (some e).filter h.live = some e := by simp [Option.filter, hLive]
      rw [hFilter]
      obtain ⟨hStepped, hSame⟩ := advance_spec h s dt hActor hLive hWas
      refine ⟨hStepped, hSame, fun hNone => ?_⟩
      rw [hSame] at hNone
      cases hNone

theorem updateOneScript_spec (h : Host K) (s : ActiveScript K) (dt : K) (hWas : s.wasActive = s.isActive)
    (hUnbound : s.actor = none → s.isActive = false) :
    Stepped h s (h.updateOneScript s dt).1 (h.updateOneScript s dt).2 ∧
      (∀ e, s.actor = some e → (h.updateOneScript s dt).2.actor = some e) ∧
      (∀ e, (h.updateOneScript s dt).2.actor = some e → s.actor = some e ∨ h.live e = true) ∧
      ((h.updateOneScript s dt).2.actor = none → (h.updateOneScript s dt).2.isActive = false) := by
  obtain ⟨pending, hTaken⟩ := takeActivations_spec h s.entity
  unfold updateOneScript
  generalize h.takeActivations s.entity = taken at hTaken ⊢
  obtain ⟨activated, h₀⟩ := taken
  dsimp only at hTaken ⊢
  subst hTaken
  obtain ⟨actor, generation, hBind, hKeeps, hFound⟩ := bindActor_spec { h with activations := pending }
    { s with pendingTrigger := s.pendingTrigger || activated }
  obtain ⟨hStepped, hActor, hIdle⟩ := stepBound_spec { h with activations := pending }
    (bindActor { h with activations := pending } { s with pendingTrigger := s.pendingTrigger || activated }) dt
    (by rw [hBind]; exact hWas) (by
      rw [hBind]
      intro hNone
      refine hUnbound ?_
      cases hBound : s.actor with
      | none => rfl
      | some e => exact absurd (hKeeps e hBound) (by rw [show actor = none from hNone]; simp))
  rw [hBind] at hStepped hActor hIdle ⊢
  exact ⟨⟨hStepped.live, hStepped.held, hStepped.known, hStepped.removals, hStepped.fired,
    hStepped.completions, hStepped.timeouts, hStepped.untouched, hStepped.script, hStepped.wasActive⟩,
    fun e hBound => hActor.trans (hKeeps e hBound), fun e hNow => hFound e (hActor.symm.trans hNow), hIdle⟩

end Host

end OpenHalfLife.Ai
