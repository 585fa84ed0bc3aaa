import Mathlib.Data.Nat.Bitwise
import OpenHalfLife.Lib.Scalar

/-! # The state machine of a scripted sequence

What a script wants done with its monster, from what was observed of it.
-/

namespace OpenHalfLife.Ai

set_option autoImplicit false

inductive MoveTo
  | no
  | walk
  | run
  | instantaneous
  | turnToFace
  deriving DecidableEq, Repr

structure ScriptDef (K : Type) where
  targetMonster : String
  play : String
  idle : String
  radius : K
  repeatRate : K
  moveTo : MoveTo
  target : String
  delay : K
  killTarget : String
  spawnflags : Nat
  origin : Vec3 K
  yaw : K
  aiScript : Bool

namespace ScriptDef

variable {K : Type} (script : ScriptDef K)

def flag (bit : Nat) : Bool := script.spawnflags &&& bit ≠ 0

def repeatable : Bool := script.flag 4

def leavesCorpse : Bool := script.flag 8

def noInterruptions : Bool := script.aiScript || script.flag 32

def overridesAi : Bool := script.aiScript || script.flag 64

def noScriptMovement : Bool := script.flag 128

def idleSequence : Option String :=
  if script.aiScript || script.idle.isEmpty then none else some script.idle

def playSequence : Option String := if script.play.isEmpty then none else some script.play

end ScriptDef

inductive ScriptPhase
  | dormant
  | moving
  | playing
  | repeating
  | done
  deriving DecidableEq, Repr

def ScriptPhase.isActive : ScriptPhase → Bool
  | moving | playing => true
  | _ => false

inductive ScriptAction
  | none
  | idle
  | approach (run : Bool)
  | teleport
  | face
  | play
  deriving DecidableEq, Repr

structure ScriptSense (K : Type) where
  dt : K
  atMark : Bool
  facingMark : Bool
  sequenceFinished : Bool
  disturbed : Bool

structure ScriptStep where
  action : ScriptAction
  started : Bool
  released : Bool
  completed : Bool
  interrupted : Bool
  timedOut : Bool
  deriving DecidableEq, Repr

def ScriptStep.ofAction (action : ScriptAction) : ScriptStep := ⟨action, false, false, false, false, false⟩

def scriptMoveTimeoutSeconds {K : Type} [Scalar K] : K := 30

structure ScriptRunner (K : Type) where
  script : ScriptDef K
  phase : ScriptPhase
  timer : K
  completions : Nat
  warped : Bool
  movingElapsed : K

namespace ScriptRunner

variable {K : Type} [Scalar K]

def new (script : ScriptDef K) : ScriptRunner K := ⟨script, .dormant, 0, 0, false, 0⟩

def isActive (r : ScriptRunner K) : Bool := r.phase.isActive

def start (r : ScriptRunner K) : ScriptRunner K :=
  { r with phase := .moving, timer := 0, warped := false, movingElapsed := 0 }

def trigger (r : ScriptRunner K) : Bool × ScriptRunner K :=
  if r.phase ≠ .dormant then (false, r) else (true, r.start)

def reset (r : ScriptRunner K) : ScriptRunner K :=
  { r with phase := .dormant, timer := 0, warped := false, movingElapsed := 0 }

def abandon (r : ScriptRunner K) : ScriptStep × ScriptRunner K :=
  ({ ScriptStep.ofAction .none with released := true, interrupted := true }, r.reset)

def giveUp (r : ScriptRunner K) : ScriptStep × ScriptRunner K :=
  ({ ScriptStep.ofAction .none with released := true, timedOut := true }, r.reset)

def approachAction (r : ScriptRunner K) : ScriptAction :=
  match r.script.moveTo with
  | .no => .idle
  | .walk => .approach false
  | .run => .approach true
  | .instantaneous => .teleport
  | .turnToFace => .face

def arrived (r : ScriptRunner K) (sense : ScriptSense K) : Bool × ScriptRunner K :=
  match r.script.moveTo with
  | .no => (true, r)
  | .walk | .run => (sense.atMark, r)
  | .instantaneous => (r.warped, { r with warped := true })
  | .turnToFace => (sense.facingMark, r)

def tickMoving (r : ScriptRunner K) (sense : ScriptSense K) (dt : K) : ScriptStep × ScriptRunner K :=
  let (arrived, r) := r.arrived sense
  if !arrived then
    let r := { r with movingElapsed := r.movingElapsed + dt }
    if scriptMoveTimeoutSeconds ≤ r.movingElapsed then r.giveUp
    else (.ofAction r.approachAction, r)
  else (.ofAction .play, { r with phase := .playing })

def tickPlaying (r : ScriptRunner K) (sense : ScriptSense K) : ScriptStep × ScriptRunner K :=
  if !sense.sequenceFinished then (.ofAction .play, r)
  else
    let (phase, timer) : ScriptPhase × K :=
      if r.script.repeatable && decide (0 < r.script.repeatRate) then (.repeating, r.script.repeatRate)
      else if r.script.repeatable then (.dormant, 0)
      else (.done, 0)
    ({ ScriptStep.ofAction .none with released := true, completed := true },
      { r with phase := phase, timer := timer, warped := false,
               completions := min (r.completions + 1) (2 ^ 32 - 1) })

def tickRepeating (r : ScriptRunner K) (dt : K) : ScriptStep × ScriptRunner K :=
  let r := { r with timer := r.timer - dt }
  if r.timer ≤ 0 then
    ({ ScriptStep.ofAction r.start.approachAction with started := true }, r.start)
  else (.ofAction .none, r)

def update (r : ScriptRunner K) (sense : ScriptSense K) : ScriptStep × ScriptRunner K :=
  let dt : K := if Scalar.isFinite sense.dt && decide (0 < sense.dt) then sense.dt else 0
  if sense.disturbed && r.isActive && !r.script.noInterruptions then r.abandon
  else match r.phase with
    | .dormant | .done => (.ofAction .none, r)
    | .repeating => r.tickRepeating dt
    | .moving => r.tickMoving sense dt
    | .playing => r.tickPlaying sense

variable (r : ScriptRunner K) (sense : ScriptSense K)

theorem trigger_of_active (h : r.isActive = true) : r.trigger = (false, r) := by
  have hPhase : r.phase ≠ .dormant := by
    intro hDormant
    simp [isActive, hDormant, ScriptPhase.isActive] at h
  simp [trigger, hPhase]

theorem trigger_script : r.trigger.2.script = r.script := by
  unfold trigger
  split <;> rfl

theorem trigger_playing (h : r.trigger.2.phase = .playing) : r.phase = .playing := by
  unfold trigger at h
  split at h
  · exact h
  · cases h

omit [Scalar K] in
theorem arrived_script : (r.arrived sense).2.script = r.script := by
  unfold arrived
  split <;> rfl

theorem tickMoving_script (dt : K) : (r.tickMoving sense dt).2.script = r.script := by
  have hArrived := r.arrived_script sense
  unfold tickMoving
  dsimp only
  split
  · split
    · exact hArrived
    · exact hArrived
  · exact hArrived

theorem tickMoving_completed (dt : K) : (r.tickMoving sense dt).1.completed = false := by
  unfold tickMoving
  dsimp only
  split
  · split <;> rfl
  · rfl

theorem tickPlaying_script : (r.tickPlaying sense).2.script = r.script := by
  unfold tickPlaying
  split <;> rfl

theorem tickPlaying_completed (h : (r.tickPlaying sense).1.completed = true) :
    (r.tickPlaying sense).2.isActive = false := by
  unfold tickPlaying at h ⊢
  split at h
  · cases h
  · next hFinished =>
    rw [if_neg hFinished]
    dsimp only [isActive]
    split
    · rfl
    · split <;> rfl

theorem tickRepeating_script (dt : K) : (r.tickRepeating dt).2.script = r.script := by
  unfold tickRepeating
  dsimp only
  split <;> rfl

theorem tickRepeating_completed (dt : K) : (r.tickRepeating dt).1.completed = false := by
  unfold tickRepeating
  dsimp only
  split <;> rfl

theorem update_script : (r.update sense).2.script = r.script := by
  unfold update
  dsimp only
  split
  · rfl
  · split
    · rfl
    · rfl
    · exact r.tickRepeating_script _
    · exact r.tickMoving_script sense _
    · exact r.tickPlaying_script sense

theorem update_completed (h : (r.update sense).1.completed = true) :
    r.phase = .playing ∧ (r.update sense).2.isActive = false := by
  unfold update at h ⊢
  dsimp only at h ⊢
  split at h
  · cases h
  · next hCalm =>
    rw [if_neg hCalm]
    cases hPhase : r.phase with
    | dormant => simp [hPhase, ScriptStep.ofAction] at h
    | done => simp [hPhase, ScriptStep.ofAction] at h
    | repeating => simp [hPhase, tickRepeating_completed] at h
    | moving => simp [hPhase, tickMoving_completed] at h
    | playing =>
      simp only [hPhase] at h ⊢
      exact ⟨trivial, r.tickPlaying_completed sense h⟩

theorem update_timedOut (h : (r.update sense).1.timedOut = true) : (r.update sense).1.completed = false := by
  cases hDone : (r.update sense).1.completed with
  | false => rfl
  | true =>
    have hPlaying := (r.update_completed sense hDone).1
    unfold update at h
    dsimp only at h
    split at h
    · cases h
    · simp only [hPlaying, tickPlaying] at h
      split at h <;> cases h

end ScriptRunner

end OpenHalfLife.Ai
