import OpenHalfLife.Game.TrackTrain

/-! # Movers

Doors, rotating buttons, platforms and rotating platforms: how an activation, a step and a blocker
move their state and timer on, and how far open that leaves them. Numbers are exact.
-/

namespace OpenHalfLife.Game

set_option autoImplicit false

inductive MoverState
  | closed
  | opening
  | «open»
  | closing
  deriving DecidableEq, Repr

structure Motion (K : Type) where
  state : MoverState
  timer : K

section

variable {K : Type} [Field K] [LinearOrder K]

def clamp01 (value : K) : K := max 0 (min value 1)

def moverFraction (speed travelDistance : K) (motion : Motion K) : K :=
  let travelSeconds := if 0 < speed then travelDistance / speed else 0
  if travelSeconds ≤ 0 then
    if motion.state = .open then 1 else 0
  else
    let progress := clamp01 (motion.timer / travelSeconds)
    match motion.state with
    | .closed => 0
    | .open => 1
    | .opening => 1 - progress
    | .closing => progress

def travelTime (distance speed : K) : K := if speed ≤ 0 then 0 else max (distance / speed) 0

end

structure Door (K : Type) where
  speed : K
  wait : K
  dmg : K
  delay : K
  travelDistance : K
  rotationAxis : Option (Vec3 K)
  motion : Motion K

structure RotButton (K : Type) where
  speed : K
  distance : K
  wait : K
  delay : K
  toggle : Bool
  motion : Motion K

structure Platform (K : Type) where
  speed : K
  wait : K
  travelDistance : K
  motion : Motion K

structure PlatRot (K : Type) where
  speed : K
  wait : K
  travelDistance : K
  toggle : Bool
  motion : Motion K

variable {K : Type} [Field K] [LinearOrder K]

namespace Door

def activate (door : Door K) (swingAxis : Option (Vec3 K)) : Door K :=
  if door.motion.state = .closed then
    { door with
      rotationAxis := swingAxis.or door.rotationAxis
      motion := ⟨.opening, door.delay + travelTime door.travelDistance door.speed⟩ }
  else door

def advance (door : Door K) (dt : K) : Door K :=
  let timer := door.motion.timer
  match door.motion.state with
  | .closed => door
  | .opening =>
    if timer - dt ≤ 0 then { door with motion := ⟨.open, door.wait⟩ }
    else { door with motion := ⟨.opening, timer - dt⟩ }
  | .open =>
    if door.wait < 0 then door
    else if 0 < timer then { door with motion := ⟨.open, timer - dt⟩ }
    else { door with motion := ⟨.closing, travelTime door.travelDistance door.speed⟩ }
  | .closing =>
    if 0 < timer then { door with motion := ⟨.closing, timer - dt⟩ }
    else { door with motion := ⟨.closed, 0⟩ }

def block (door : Door K) : Door K × Option K :=
  let travel := travelTime door.travelDistance door.speed
  let turned := max (travel - min door.motion.timer travel) 0
  let motion : Motion K :=
    match door.motion.state with
    | .opening => ⟨.closing, turned⟩
    | .closing => ⟨.opening, turned⟩
    | .closed | .open => door.motion
  ({ door with motion }, if 0 < door.dmg then some door.dmg else none)

end Door

namespace RotButton

def activate (button : RotButton K) : RotButton K × Bool :=
  match button.motion.state with
  | .closed =>
    ({ button with motion := ⟨.opening, button.delay + travelTime button.distance button.speed⟩ }, true)
  | .open =>
    if button.toggle then
      ({ button with motion := ⟨.closing, travelTime button.distance button.speed⟩ }, true)
    else (button, false)
  | .opening | .closing => (button, false)

def advance (button : RotButton K) (dt : K) : RotButton K × Bool :=
  let timer := button.motion.timer
  match button.motion.state with
  | .closed => (button, false)
  | .opening =>
    if 0 < timer then ({ button with motion := ⟨.opening, timer - dt⟩ }, false)
    else ({ button with motion := ⟨.open, button.wait⟩ }, true)
  | .open =>
    if button.toggle ∨ button.wait < 0 then (button, false)
    else if 0 < timer then ({ button with motion := ⟨.open, timer - dt⟩ }, false)
    else ({ button with motion := ⟨.closing, travelTime button.distance button.speed⟩ }, false)
  | .closing =>
    if 0 < timer then ({ button with motion := ⟨.closing, timer - dt⟩ }, false)
    else ({ button with motion := ⟨.closed, timer⟩ }, button.toggle)

end RotButton

/-- One step of a lift: of a platform, and of a rotating one, which may wait to be called down. -/
def liftStep (travel wait : K) (toggle : Bool) (dt : K) (motion : Motion K) : Motion K :=
  match motion.state with
  | .closed => motion
  | .opening =>
    let timer := (if motion.timer ≤ 0 then travel else motion.timer) - dt
    if timer ≤ 0 then ⟨.open, if toggle then 0 else wait⟩ else ⟨.opening, timer⟩
  | .open =>
    if toggle then motion
    else if 0 < motion.timer then ⟨.open, motion.timer - dt⟩
    else ⟨.closing, travel⟩
  | .closing => if 0 < motion.timer then ⟨.closing, motion.timer - dt⟩ else ⟨.closed, motion.timer⟩

namespace Platform

def activate (platform : Platform K) : Platform K :=
  if platform.motion.state = .closed then { platform with motion := ⟨.opening, 0⟩ } else platform

def advance (platform : Platform K) (dt : K) : Platform K :=
  { platform with
    motion := liftStep (travelTime platform.travelDistance platform.speed) platform.wait false dt platform.motion }

end Platform

namespace PlatRot

def activate (platrot : PlatRot K) : PlatRot K :=
  match platrot.motion.state with
  | .closed => { platrot with motion := ⟨.opening, 0⟩ }
  | .open =>
    if platrot.toggle then { platrot with motion := ⟨.closing, travelTime platrot.travelDistance platrot.speed⟩ }
    else platrot
  | .opening | .closing => platrot

def advance (platrot : PlatRot K) (dt : K) : PlatRot K :=
  { platrot with
    motion :=
      liftStep (travelTime platrot.travelDistance platrot.speed) platrot.wait platrot.toggle dt platrot.motion }

end PlatRot

inductive Mover (K : Type)
  | door (leaf : Door K)
  | rotButton (button : RotButton K)
  | platform (lift : Platform K)
  | platRot (platrot : PlatRot K)

namespace Mover

def motion : Mover K → Motion K
  | .door leaf => leaf.motion
  | .rotButton button => button.motion
  | .platform lift => lift.motion
  | .platRot platrot => platrot.motion

def travel : Mover K → K
  | .door leaf => travelTime leaf.travelDistance leaf.speed
  | .rotButton button => travelTime button.distance button.speed
  | .platform lift => travelTime lift.travelDistance lift.speed
  | .platRot platrot => travelTime platrot.travelDistance platrot.speed

def fraction : Mover K → K
  | .door leaf => moverFraction leaf.speed leaf.travelDistance leaf.motion
  | .rotButton button => moverFraction button.speed button.distance button.motion
  | .platform lift => moverFraction lift.speed lift.travelDistance lift.motion
  | .platRot platrot => moverFraction platrot.speed platrot.travelDistance platrot.motion

def activate (swingAxis : Option (Vec3 K)) : Mover K → Mover K
  | .door leaf => .door (leaf.activate swingAxis)
  | .rotButton button => .rotButton button.activate.1
  | .platform lift => .platform lift.activate
  | .platRot platrot => .platRot platrot.activate

def advance (dt : K) : Mover K → Mover K
  | .door leaf => .door (leaf.advance dt)
  | .rotButton button => .rotButton (button.advance dt).1
  | .platform lift => .platform (lift.advance dt)
  | .platRot platrot => .platRot (platrot.advance dt)

def block : Mover K → Mover K
  | .door leaf => .door leaf.block.1
  | mover => mover

end Mover

end OpenHalfLife.Game
