import Mathlib.Logic.Function.Basic
import OpenHalfLife.Ai.Script
import OpenHalfLife.Save.GameSave

/-! # Scripts and the monsters they hold

The level a script works on: entities with their components, the registry of
names, the loaded models, and what the scripts have done so far.
-/

namespace OpenHalfLife.Ai

set_option autoImplicit false

/-! ## Movement -/

section Movement

variable {K : Type} [Scalar K]

structure Route (K : Type) where
  waypoints : List (Vec3 K)
  current : Nat
  goal : Vec3 K
  deriving DecidableEq

def routeRefreshDistance : K := 80

namespace Route

def new : Route K := ⟨[], 0, Vec3.zero⟩

def straightLine (goal : Vec3 K) : Route K := ⟨[goal], 0, goal⟩

def isFinished (route : Route K) : Bool := route.waypoints.length ≤ route.current

def needsRefresh (route : Route K) (goal : Vec3 K) : Bool :=
  route.isFinished || decide (routeRefreshDistance < (goal.sub route.goal).length)

end Route

/-- A yaw in `[-180, 180)`. -/
def normalizeYaw (yaw : K) : K :=
  if !Scalar.isFinite yaw then 0
  else
    let wrapped := Scalar.rem yaw 360
    if 180 ≤ wrapped then wrapped - 360
    else if wrapped < -180 then wrapped + 360
    else wrapped

def turnToward (yaw targetYaw maxStep : K) : K :=
  if !(Scalar.isFinite yaw && Scalar.isFinite targetYaw && Scalar.isFinite maxStep) then yaw
  else
    let delta := Scalar.rem (targetYaw - yaw) 360
    let delta := if 180 < delta then delta - 360 else if delta < -180 then delta + 360 else delta
    if Scalar.abs delta ≤ Scalar.abs maxStep then normalizeYaw targetYaw
    else normalizeYaw (yaw + Scalar.abs maxStep * Scalar.signum delta)

end Movement

/-! ## Components -/

abbrev Entity := Nat

inductive MonsterState
  | none
  | idle
  | alert
  | combat
  | hunt
  | prone
  | script
  | playDead
  | dead
  deriving DecidableEq, Repr

namespace Conditions

def newEnemy : Nat := 2 ^ 8

def lightDamage : Nat := 2 ^ 15

def heavyDamage : Nat := 2 ^ 16

def allDamage : Nat := lightDamage ||| heavyDamage

end Conditions

structure MonsterAi (K : Type) where
  state : MonsterState
  conditions : Nat
  route : Route K
  moveTarget : Option (Vec3 K)
  moveSpeed : K
  stuckTicks : Nat

structure Actor (K : Type) where
  origin : Vec3 K
  yaw : K
  alive : Bool

structure Transform (K : Type) where
  origin : Vec3 K
  angles : Vec3 K

structure StudioAnim (K : Type) where
  model : Nat
  sequence : Nat
  cycle : K

structure Body (K : Type) where
  className : Option String
  actor : Option (Actor K)
  transform : Option (Transform K)
  monsterAi : Option (MonsterAi K)
  studioAnim : Option (StudioAnim K)
  hullLift : Option K
  /-- Seconds until the corpse is removed. -/
  corpse : Option K
  scriptHold : Bool

structure StudioSequence (K : Type) where
  fps : K
  frameCount : Nat

structure StudioModel (K : Type) where
  sequenceNames : List String
  sequences : List (StudioSequence K)

namespace StudioModel

variable {K : Type} [Scalar K]

def duration (sequence : StudioSequence K) : K :=
  if !Scalar.isFinite sequence.fps || decide (sequence.fps ≤ 0) || sequence.frameCount == 0 then 0
  else (sequence.frameCount : K) / sequence.fps

def sequenceByName (model : StudioModel K) (name : String) : Option Nat :=
  let label := String.ofList ((Save.trim name.toList).map Char.toLower)
  model.sequenceNames.findIdx? (· == label)

end StudioModel

def StudioAnim.playSequence {K : Type} [Scalar K] (anim : StudioAnim K) (sequence : Nat) : StudioAnim K :=
  if anim.sequence ≠ sequence then { anim with sequence := sequence, cycle := 0 } else anim

/-- A call of the map logic's `fire`, whose own bound comes after it. -/
structure ScriptFire (K : Type) where
  target : String
  activator : Entity
  delay : K

/-! ## The level -/

/-- `known` entities have been spawned so far, and none of them comes back. The
activations are those of the script entities; `removals` has every actor a
marker was taken from. -/
structure Host (K : Type) where
  bodies : Entity → Option (Body K)
  known : Nat
  born : ∀ e, (bodies e).isSome = true → e < known
  activations : Entity → Option Nat
  names : String → List Entity
  studioModels : List (StudioModel K)
  spawnGeneration : Nat
  scriptStarts : Nat
  scriptCompletions : Nat
  scriptTimeouts : Nat
  fired : List (ScriptFire K)
  removals : List Entity

structure ActiveScript (K : Type) where
  entity : Entity
  runner : ScriptRunner K
  actor : Option Entity
  searchedGeneration : Option Nat
  pendingTrigger : Bool
  wasActive : Bool
  played : K
  playOrigin : Vec3 K

def ActiveScript.isActive {K : Type} (s : ActiveScript K) : Bool := s.runner.phase.isActive

namespace Host

variable {K : Type}

def live (h : Host K) (e : Entity) : Bool := (h.bodies e).isSome

def held (h : Host K) (e : Entity) : Bool := (h.bodies e).any Body.scriptHold

def modifyBody (h : Host K) (e : Entity) (f : Body K → Body K) : Host K :=
  { h with
    bodies := Function.update h.bodies e ((h.bodies e).map f)
    born := by
      intro d hd
      apply h.born d
      by_cases hde : d = e
      · subst hde
        simpa using hd
      · simpa [hde] using hd }

def despawn (h : Host K) (e : Entity) : Host K :=
  { h with
    bodies := Function.update h.bodies e none
    activations := Function.update h.activations e none
    born := by
      intro d hd
      apply h.born d
      by_cases hde : d = e
      · simp [hde] at hd
      · simpa [hde] using hd }

def modifyAi (h : Host K) (e : Entity) (f : MonsterAi K → MonsterAi K) : Host K :=
  h.modifyBody e fun body => { body with monsterAi := body.monsterAi.map f }

def actorOf (h : Host K) (e : Entity) : Option (Actor K) := (h.bodies e).bind Body.actor

def monsterAiOf (h : Host K) (e : Entity) : Option (MonsterAi K) := (h.bodies e).bind Body.monsterAi

variable [Scalar K]

def hullLiftOf (h : Host K) (e : Entity) : K := ((h.bodies e).bind Body.hullLift).getD 0

def stopScriptedMovement (h : Host K) (e : Entity) : Host K :=
  h.modifyAi e fun ai => { ai with moveSpeed := 0, route := .new, stuckTicks := 0 }

/-- Puts the actor's feet at `origin`, in both places that know where it is. -/
def place (h : Host K) (e : Entity) (origin : Vec3 K) (yaw : K) : Host K :=
  let lift := h.hullLiftOf e
  h.modifyBody e fun body => { body with
    transform := body.transform.map fun t => { t with origin := origin, angles := { t.angles with y := yaw } }
    actor := body.actor.map fun a => { a with origin := origin.raise lift, yaw := yaw } }

def selectSequence (h : Host K) (e : Entity) (name : String) : Host K :=
  h.modifyBody e fun body => { body with
    studioAnim := body.studioAnim.map fun anim =>
      anim.playSequence (((h.studioModels[anim.model]?).bind (·.sequenceByName name)).getD 0) }

def playIdle (h : Host K) (s : ActiveScript K) (e : Entity) : Host K :=
  match s.runner.script.idleSequence with
  | some idle => h.selectSequence e idle
  | none => h

/-! ## Finding an actor -/

/-- `c` comes before `d`: it is nearer, or as near and of a smaller id. -/
def nearer (c d : K × Entity) : Bool :=
  !Scalar.totalLe d.1 c.1 || (Scalar.totalLe c.1 d.1 && decide (c.2 < d.2))

def closest (candidates : List (K × Entity)) : Option Entity :=
  (candidates.foldl (fun best candidate => match best with
    | none => some candidate
    | some other => if nearer candidate other then some candidate else some other) none).map Prod.snd

def candidate (h : Host K) (className : String) (origin : Vec3 K) (radius : K) (e : Entity) :
    Option (K × Entity) := do
  let body ← h.bodies e
  let name ← body.className
  let actor ← body.actor
  if name ≠ className || !actor.alive then none
  else
    let feet := actor.origin.raise (-(body.hullLift.getD 0))
    let distance := (feet.sub origin).length
    if !Scalar.isFinite distance || (decide (0 < radius) && decide (radius < distance)) then none
    else some (distance, e)

def nearestByClassname (h : Host K) (className : String) (origin : Vec3 K) (radius : K) : Option Entity :=
  closest ((List.range h.known).filterMap (h.candidate className origin radius))

def findScriptActor (h : Host K) (script : ScriptDef K) : Option Entity :=
  if script.targetMonster.isEmpty then none
  else
    match (h.names script.targetMonster).find? fun e => (h.actorOf e).isSome with
    | some named => some named
    | none => h.nearestByClassname script.targetMonster script.origin script.radius

/-! ## One step of one script -/

def takeActivations (h : Host K) (e : Entity) : Bool × Host K :=
  match h.activations e with
  | some pending => (0 < pending, { h with activations := Function.update h.activations e (some 0) })
  | none => (false, h)

/-- An unbound script searches once for every generation of spawns, and on every
step once it has been triggered. -/
def bindActor (h : Host K) (s : ActiveScript K) : ActiveScript K :=
  if s.actor.isNone && (s.pendingTrigger || s.searchedGeneration != some h.spawnGeneration) then
    { s with actor := h.findScriptActor s.runner.script, searchedGeneration := some h.spawnGeneration }
  else s

def mayPossess (h : Host K) (s : ActiveScript K) (actor : Entity) : Bool :=
  s.runner.script.overridesAi || (h.monsterAiOf actor).all fun ai => ai.state != .combat

def wake (h : Host K) (s : ActiveScript K) (actor : Entity) : Bool × ScriptRunner K :=
  if h.mayPossess s actor then s.runner.trigger else (false, s.runner)

def possess (h : Host K) (s : ActiveScript K) (actor : Entity) : Host K × ActiveScript K :=
  if s.pendingTrigger then
    let (started, runner) := h.wake s actor
    let s := { s with runner := runner, pendingTrigger := false }
    if started then ({ h with scriptStarts := h.scriptStarts + 1 }, { s with played := 0 }) else (h, s)
  else (h, s)

def scriptFallbackActionSeconds : K := 1

def actionSeconds (h : Host K) (s : ActiveScript K) (actor : Entity) : K :=
  match s.runner.script.playSequence with
  | none => 0
  | some name =>
    let resolved := do
      let anim ← (h.bodies actor).bind Body.studioAnim
      let model ← h.studioModels[anim.model]?
      let index ← model.sequenceByName name
      let sequence ← model.sequences[index]?
      return StudioModel.duration sequence
    match resolved with
    | some duration => if 0 < duration then duration else scriptFallbackActionSeconds
    | none => scriptFallbackActionSeconds

def scriptArriveRadius : K := 24

def scriptFacingToleranceDegrees : K := 5

def senseScript (h : Host K) (s : ActiveScript K) (actor : Entity) (dt : K) : ScriptSense K :=
  let script := s.runner.script
  let (origin, yaw) := match h.actorOf actor with
    | some a => (a.origin, a.yaw)
    | none => (Vec3.zero, 0)
  let flat : Vec3 K := ⟨origin.x - script.origin.x, origin.y - script.origin.y, 0⟩
  { dt := dt
    atMark := decide (flat.length ≤ scriptArriveRadius)
    facingMark := decide (Scalar.abs (normalizeYaw (script.yaw - yaw)) ≤ scriptFacingToleranceDegrees)
    sequenceFinished := decide (h.actionSeconds s actor ≤ s.played)
    disturbed := (h.monsterAiOf actor).any fun ai =>
      ai.conditions &&& (Conditions.allDamage ||| Conditions.newEnemy) ≠ 0 }

def blindSense (dt : K) : ScriptSense K := ⟨dt, false, false, false, false⟩

def scriptWalkSpeed : K := 40

def scriptRunSpeed : K := 160

def scriptTurnRateDegrees : K := 360

def approach (h : Host K) (actor : Entity) (goal : Vec3 K) (speed : K) : Host K :=
  h.modifyAi actor fun ai =>
    let ai := if ai.route.isFinished || ai.route.needsRefresh goal then
      { ai with route := .straightLine goal, stuckTicks := 0 } else ai
    { ai with moveTarget := some goal, moveSpeed := speed }

def face (h : Host K) (actor : Entity) (yaw dt : K) : Host K :=
  h.modifyBody actor fun body => { body with
    actor := body.actor.map fun a => { a with yaw := turnToward a.yaw yaw (scriptTurnRateDegrees * dt) } }

def startAction (h : Host K) (s : ActiveScript K) (actor : Entity) (lift : K) : Host K × ActiveScript K :=
  if s.played ≤ 0 then
    let playOrigin := match h.actorOf actor with
      | some a => a.origin.raise (-lift)
      | none => Vec3.zero
    (match s.runner.script.playSequence with
      | some name => h.selectSequence actor name
      | none => h, { s with playOrigin := playOrigin })
  else (h, s)

def driveActor (h : Host K) (s : ActiveScript K) (actor : Entity) (action : ScriptAction) (dt : K) :
    Host K × ActiveScript K :=
  let mark := s.runner.script.origin
  let yaw := s.runner.script.yaw
  let lift := h.hullLiftOf actor
  match action with
  | .none => (h, s)
  | .idle => ((h.stopScriptedMovement actor).playIdle s actor, s)
  | .approach run =>
    ((h.approach actor (mark.raise lift) (if run then scriptRunSpeed else scriptWalkSpeed)).playIdle s actor, s)
  | .teleport => (((h.stopScriptedMovement actor).place actor mark yaw).playIdle s actor, s)
  | .face => (((h.stopScriptedMovement actor).face actor yaw dt).playIdle s actor, s)
  | .play =>
    let (h, s) := (h.stopScriptedMovement actor).startAction s actor lift
    (h, { s with played := s.played + Scalar.maximum dt 0 })

def returnActor (h : Host K) (s : ActiveScript K) (actor : Entity) : Host K :=
  if s.runner.script.noScriptMovement then h.place actor s.playOrigin s.runner.script.yaw else h

def fireTarget (h : Host K) (s : ActiveScript K) (actor : Entity) : Host K :=
  if s.runner.script.target.isEmpty then h
  else { h with fired := h.fired ++ [⟨s.runner.script.target, actor, s.runner.script.delay⟩] }

def killTarget (h : Host K) (s : ActiveScript K) : Host K :=
  if s.runner.script.killTarget.isEmpty then h
  else (h.names s.runner.script.killTarget).foldl despawn h

def complete (h : Host K) (s : ActiveScript K) (actor : Entity) : Host K :=
  let h := { h with scriptCompletions := h.scriptCompletions + 1 }
  ((h.returnActor s actor).fireTarget s actor).killTarget s

def removeHold (h : Host K) (actor : Entity) : Host K :=
  { h.modifyBody actor fun body => { body with scriptHold := false } with removals := h.removals ++ [actor] }

def release (h : Host K) (s : ActiveScript K) (actor : Entity) : Host K :=
  let h := (h.removeHold actor).stopScriptedMovement actor
  if s.runner.script.leavesCorpse then
    h.modifyBody actor fun body => { body with corpse := body.corpse.map fun _ => Scalar.infinity }
  else h

def countTimeout (h : Host K) (step : ScriptStep) : Host K :=
  if step.timedOut then { h with scriptTimeouts := h.scriptTimeouts + 1 } else h

def countStep (h : Host K) (s : ActiveScript K) (actor : Entity) (step : ScriptStep) : Host K :=
  if step.completed then (h.countTimeout step).complete s actor else h.countTimeout step

def finishScriptStep (h : Host K) (s : ActiveScript K) (actor : Entity) (step : ScriptStep) :
    Host K × ActiveScript K :=
  let h := h.countStep s actor step
  if s.wasActive && !s.isActive then (h.release s actor, { s with played := 0, wasActive := s.isActive })
  else (h, { s with wasActive := s.isActive })

def insertHold (h : Host K) (actor : Entity) : Host K :=
  h.modifyBody actor fun body => { body with scriptHold := true }

def holdActor (h : Host K) (s : ActiveScript K) (actor : Entity) (action : ScriptAction) (dt : K) :
    Host K × ActiveScript K :=
  if s.isActive then (h.insertHold actor).driveActor s actor action dt else (h, s)

def applyScriptStep (h : Host K) (s : ActiveScript K) (actor : Entity) (step : ScriptStep) (dt : K) :
    Host K × ActiveScript K :=
  let (h, s) := h.holdActor s actor step.action dt
  h.finishScriptStep s actor step

def senseOf (h : Host K) (s : ActiveScript K) (actor : Entity) (dt : K) : ScriptSense K :=
  if s.isActive then h.senseScript s actor dt else blindSense dt

def advance (h : Host K) (s : ActiveScript K) (actor : Entity) (dt : K) : Host K × ActiveScript K :=
  let (h, s) := h.possess s actor
  let (step, runner) := s.runner.update (h.senseOf s actor dt)
  h.applyScriptStep { s with runner := runner } actor step dt

def stepBound (h : Host K) (s : ActiveScript K) (dt : K) : Host K × ActiveScript K :=
  match s.actor.filter h.live with
  | none => (h, s)
  | some actor => h.advance s actor dt

def updateOneScript (h : Host K) (s : ActiveScript K) (dt : K) : Host K × ActiveScript K :=
  let (activated, h) := h.takeActivations s.entity
  h.stepBound (h.bindActor { s with pendingTrigger := s.pendingTrigger || activated }) dt

end Host

end OpenHalfLife.Ai
