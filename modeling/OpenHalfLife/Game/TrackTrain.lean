import Mathlib.Algebra.Order.Field.Basic
import Mathlib.Algebra.Order.Ring.Abs
import Mathlib.Tactic.Linarith
import OpenHalfLife.Game.Registry

/-! # Track trains

The path nodes of a map, the chains laid along them, and a train's place on its chain. Numbers are
exact, over any ordered field; how far apart two points are is `distance`.
-/

namespace OpenHalfLife.Game

set_option autoImplicit false

def maxPathNodes : Nat := 256

def maxTransitionsPerTick : Nat := 64

structure Vec3 (K : Type) where
  x : K
  y : K
  z : K
  deriving DecidableEq

section

variable {K : Type} [Field K] [LinearOrder K]

def Vec3.lerp (start finish : Vec3 K) (s : K) : Vec3 K :=
  ⟨start.x * (1 - s) + finish.x * s, start.y * (1 - s) + finish.y * s,
    start.z * (1 - s) + finish.z * s⟩

/-- The gap between `1` and the next number of single precision. -/
def singleEpsilon : K := 1 / 8388608

inductive Stored (K : Type)
  | finite (value : K)
  | infinite (negative : Bool)
  | nan

def Stored.finiteOr (fallback : K) (clean : K → K) : Stored K → K
  | .finite value => clean value
  | _ => fallback

def Stored.isNegative : Stored K → Bool
  | .finite value => value < 0
  | .infinite negative => negative
  | .nan => false

end

structure Path (K : Type) where
  wait : K
  speed : Option K
  stop : Bool
  branchActive : Bool

structure PathComponents (K : Type) where
  targetName : Option Name := none
  target : Option Name := none
  origin : Option (Vec3 K) := none
  path : Option (Path K) := none
  pathBranch : Option Name := none
  fireOnPass : Option Name := none
  fireOnDeadEnd : Option Name := none

structure Rails (K : Type) where
  world : List (Entity × PathComponents K)
  nameIndex : Name → List Entity

structure PathNode (K : Type) where
  entity : Entity
  position : Vec3 K
  wait : K
  speed : Option K
  stop : Bool
  message : Option Name
  deadEnd : Option Name
  deriving DecidableEq

structure PathChain (K : Type) where
  nodes : List (PathNode K)
  looped : Bool
  deriving DecidableEq

namespace Rails

variable {K : Type} [Field K] (rails : Rails K) (height : K)

def components (entity : Entity) : PathComponents K :=
  ((rails.world.find? fun row => row.1 = entity).map Prod.snd).getD {}

def find (name : Name) : List Entity := rails.nameIndex name

def nextNameOf (entity : Entity) (path : Path K) : Option Name :=
  if path.branchActive then (rails.components entity).pathBranch.or (rails.components entity).target
  else (rails.components entity).target

/-- The name of the node a walk leaves `entity` toward, when it is a path node at all. -/
def onward (entity : Entity) : Option Name :=
  (rails.components entity).path.bind fun path => rails.nextNameOf entity path

def nodeOf (entity : Entity) : Option (PathNode K) :=
  (rails.components entity).path.map fun path =>
    let origin := (rails.components entity).origin.getD ⟨0, 0, 0⟩
    { entity
      position := ⟨origin.x, origin.y, origin.z + height⟩
      wait := path.wait
      speed := path.speed
      stop := path.stop
      message := (rails.components entity).fireOnPass
      deadEnd := (rails.components entity).fireOnDeadEnd }

def walkSteps : Nat → Name → List (PathNode K) → List (PathNode K) × Option Nat
  | 0, _, nodes => (nodes, none)
  | steps + 1, name, nodes =>
    match (rails.find name).head? with
    | none => (nodes, none)
    | some entity =>
      match nodes.findIdx? fun node => node.entity = entity with
      | some index => (nodes, some index)
      | none =>
        match rails.nodeOf height entity with
        | none => (nodes, none)
        | some node =>
          match rails.onward entity with
          | none => (nodes ++ [node], none)
          | some next => walkSteps steps next (nodes ++ [node])

def walkFrom (name : Name) (nodes : List (PathNode K)) : List (PathNode K) × Option Nat :=
  rails.walkSteps height (maxPathNodes - nodes.length) name nodes

/-- The walk out of the last of `kept`, at `entity`. -/
def extend (entity : Entity) (kept : List (PathNode K)) : List (PathNode K) × Option Nat :=
  match rails.onward entity with
  | none => (kept, none)
  | some name => rails.walkFrom height name kept

def buildWithReentry (name : Name) : Option (PathChain K × Option Nat) :=
  let (nodes, reentry) := rails.walkFrom height name []
  if nodes.isEmpty then none else some (⟨nodes, reentry = some 0⟩, reentry)

def build (name : Name) : Option (PathChain K) := (rails.buildWithReentry height name).map Prod.fst

def fromEntities (entities : List Entity) (looped : Bool) : Option (PathChain K) :=
  if entities.isEmpty ∨ maxPathNodes < entities.length then none
  else (entities.mapM (rails.nodeOf height)).map fun nodes => ⟨nodes, looped⟩

/-- The path node of lowest id that leads to `node`, with its own name. -/
def predecessorOf (node : Entity) : Option (Entity × Name) :=
  rails.world.foldl (fun best row =>
    match row.2.targetName with
    | none => best
    | some name =>
      let leadsHere := (rails.onward row.1).any fun next => (rails.find next).head? = some node
      if leadsHere ∧ best.all fun known => row.1 < known.1 then some (row.1, name) else best) none

/-- The walk back from `current` to the head of its path. -/
def headSteps : Nat → List Entity → Entity → Name → Name
  | 0, _, _, head => head
  | steps + 1, visited, current, head =>
    match rails.predecessorOf current with
    | none => head
    | some (entity, name) =>
      if entity ∈ visited then head else headSteps steps (entity :: visited) entity name

def buildEndingAt (lastName : Name) : Option (PathChain K) := do
  let last ← (rails.find lastName).head?
  let head := rails.headSteps (maxPathNodes - 1) [last] last lastName
  (rails.build height head).filter fun chain =>
    !chain.looped && chain.nodes.getLast?.any fun node => node.entity = last

end Rails

namespace PathChain

variable {K : Type}

def nextIndex (chain : PathChain K) (index : Nat) : Option Nat :=
  if index + 1 < chain.nodes.length then some (index + 1)
  else if chain.looped ∧ chain.nodes ≠ [] then some 0 else none

def prevIndex (chain : PathChain K) (index : Nat) : Option Nat :=
  if 0 < index then some (index - 1)
  else if chain.looped ∧ chain.nodes ≠ [] then some (chain.nodes.length - 1) else none

def segmentLen (distance : Vec3 K → Vec3 K → K) (chain : PathChain K) (a b : Nat) : Option K := do
  let start ← chain.nodes[a]?
  let finish ← chain.nodes[b]?
  some (distance start.position finish.position)

end PathChain

structure TrackTrain (K : Type) where
  turnsToFace : Bool
  speed : K
  startSpeed : K
  height : K

structure TrackTrainState (K : Type) where
  chain : PathChain K
  nodeIndex : Nat
  t : K
  direction : K
  speed : K
  moving : Bool
  waitTimer : K
  deadEndFired : Bool
  carryOffset : Vec3 K
  carryYaw : K
  firstNode : Vec3 K
  handoverYaw : Option K
  cruiseSpeed : K

namespace TrackTrainState

variable {K : Type} [Field K] [LinearOrder K]

def spawn (train : TrackTrain K) (chain : PathChain K) : TrackTrainState K :=
  let moving : Bool := singleEpsilon < |train.startSpeed|
  { chain
    nodeIndex := 0
    t := 0
    direction := if train.startSpeed < 0 then -1 else 1
    speed := if moving then |train.startSpeed| else train.speed
    moving
    waitTimer := 0
    deadEndFired := false
    carryOffset := ⟨0, 0, 0⟩
    carryYaw := 0
    firstNode := (chain.nodes.head?.map PathNode.position).getD ⟨0, 0, 0⟩
    handoverYaw := none
    cruiseSpeed := train.speed }

def otherIndex (state : TrackTrainState K) : Option Nat :=
  if 0 ≤ state.direction then state.chain.nextIndex state.nodeIndex
  else state.chain.prevIndex state.nodeIndex

def position (state : TrackTrainState K) : Option (Vec3 K) := do
  let start ← state.chain.nodes[state.nodeIndex]?
  match state.otherIndex with
  | none => some start.position
  | some other =>
    let finish ← state.chain.nodes[other]?
    some (start.position.lerp finish.position (max 0 (min state.t 1)))

def relink (state : TrackTrainState K) (chain : PathChain K) (moving : Bool) : TrackTrainState K :=
  { state with
    chain
    nodeIndex := 0
    t := 0
    direction := 1
    waitTimer := 0
    deadEndFired := false
    carryOffset := ⟨0, 0, 0⟩
    carryYaw := 0
    moving }

def relinkAtEnd (state : TrackTrainState K) (chain : PathChain K) (moving : Bool) : TrackTrainState K :=
  { state.relink chain moving with
    nodeIndex := chain.nodes.length - 1
    direction := -1 }

/-- The last node a re-splice keeps; none on the wrap segment of a loop, where it keeps them all. -/
def committed (state : TrackTrainState K) : Option Nat :=
  if 0 ≤ state.direction ∧ 0 < state.t then
    match state.chain.nextIndex state.nodeIndex with
    | some other => if state.nodeIndex < other then some other else none
    | none => some state.nodeIndex
  else some state.nodeIndex

def rejoin (state : TrackTrainState K) (nodes : List (PathNode K)) : Option Nat → PathChain K × Nat
  | some 0 => (⟨nodes, true⟩, state.nodeIndex)
  | some (index + 1) =>
    if 0 ≤ state.direction ∧ index + 1 ≤ state.nodeIndex then
      (⟨nodes.drop (index + 1), true⟩, state.nodeIndex - (index + 1))
    else (⟨nodes, false⟩, state.nodeIndex)
  | none => (⟨nodes, false⟩, state.nodeIndex)

/-- Whether anything changed, and the state after. Keeping a node past the end panics. -/
def respliceChain (state : TrackTrainState K) (rails : Rails K) (height : K) :
    Option (Bool × TrackTrainState K) :=
  match state.committed with
  | none => some (false, state)
  | some committed => do
    let last ← state.chain.nodes[committed]?
    let (nodes, closedOnto) := rails.extend height last.entity (state.chain.nodes.take (committed + 1))
    let (chain, nodeIndex) := state.rejoin nodes closedOnto
    if chain = state.chain ∧ nodeIndex = state.nodeIndex then some (false, state)
    else some (true, { state with deadEndFired := false, chain, nodeIndex })

def restoreChain (state : TrackTrainState K) (chain : PathChain K) : TrackTrainState K :=
  { state with chain, nodeIndex := min state.nodeIndex (chain.nodes.length - 1) }

def turnOn (state : TrackTrainState K) : TrackTrainState K :=
  { state with
    speed := if !state.moving ∧ singleEpsilon < |state.cruiseSpeed| then |state.cruiseSpeed| else state.speed
    moving := true }

def turnOff (state : TrackTrainState K) : TrackTrainState K := { state with moving := false, waitTimer := 0 }

def reverse (state : TrackTrainState K) : TrackTrainState K :=
  match state.otherIndex with
  | some other => { state with nodeIndex := other, t := 1 - state.t, direction := -state.direction }
  | none => { state with direction := -state.direction }

def restoreDynamicState (state : TrackTrainState K) (nodeIndex : Nat) (t direction speed : Stored K)
    (moving : Bool) (waitTimer : Stored K) : TrackTrainState K :=
  { state with
    nodeIndex := min nodeIndex (state.chain.nodes.length - 1)
    t := t.finiteOr 0 fun value => max 0 (min value 1)
    direction := if direction.isNegative then -1 else 1
    speed := speed.finiteOr 0 fun value => max value 0
    moving
    waitTimer := waitTimer.finiteOr 0 fun value => max value 0 }

def previousNodeIndex (state : TrackTrainState K) : Option Nat :=
  if 0 ≤ state.direction then state.chain.prevIndex state.nodeIndex
  else state.chain.nextIndex state.nodeIndex

def headsFrom (state : TrackTrainState K) (start finish : Nat) : Bool :=
  match state.chain.nodes[start]?, state.chain.nodes[finish]? with
  | some a, some b =>
    singleEpsilon ≤ |b.position.x - a.position.x| ∨ singleEpsilon ≤ |b.position.y - a.position.y|
  | _, _ => false

def hasTravelHeading (state : TrackTrainState K) : Bool :=
  match state.otherIndex with
  | some other => state.headsFrom state.nodeIndex other
  | none => state.previousNodeIndex.any fun last => state.headsFrom last state.nodeIndex

def hasYaw (train : TrackTrain K) (state : TrackTrainState K) : Bool :=
  train.turnsToFace && (state.hasTravelHeading || state.handoverYaw.isSome)

def deadEnd (state : TrackTrainState K) (fired : List Name) : Option (TrackTrainState K × List Name) :=
  if state.deadEndFired then some ({ state with moving := false }, fired)
  else do
    let node ← state.chain.nodes[state.nodeIndex]?
    some ({ state with moving := false, deadEndFired := true }, fired ++ node.deadEnd.toList)

/-- The train as it passes `node`, the chain's `other`. -/
def arrive (state : TrackTrainState K) (other : Nat) (node : PathNode K) : TrackTrainState K :=
  { state with
    nodeIndex := other
    t := 0
    deadEndFired := false
    speed := (node.speed.map fun speed => |speed|).getD state.speed
    moving := state.moving && !node.stop
    waitTimer := if !node.stop ∧ 0 < node.wait then node.wait else state.waitTimer }

/-- The node crossings of one step: how many are left, the way left to go, and what fired. -/
def ride (distance : Vec3 K → Vec3 K → K) :
    Nat → K → TrackTrainState K → List Name → Option (TrackTrainState K × List Name)
  | 0, _, state, fired => some (state, fired)
  | transitions + 1, remaining, state, fired =>
    if 0 < remaining ∧ state.moving then
      match state.otherIndex with
      | none => state.deadEnd fired
      | some other => do
        let len ← state.chain.segmentLen distance state.nodeIndex other
        let remainingInSegment := (1 - max 0 (min state.t 1)) * len
        if len ≤ singleEpsilon ∨ remainingInSegment ≤ remaining then do
          let node ← state.chain.nodes[other]?
          let passed := fired ++ node.message.toList
          if node.stop ∨ 0 < node.wait then some (state.arrive other node, passed)
          else
            ride distance transitions (remaining - max remainingInSegment 0) (state.arrive other node) passed
        else some ({ state with t := state.t + remaining / len }, fired)
    else some (state, fired)

/-- The wait of a train at a node, `dt` later. -/
def waited (state : TrackTrainState K) (dt : K) : TrackTrainState K :=
  if 0 < state.waitTimer then { state with waitTimer := max (state.waitTimer - max dt 0) 0 } else state

def advanceFiring (distance : Vec3 K → Vec3 K → K) (state : TrackTrainState K) (dt : K) :
    Option (TrackTrainState K × List Name) :=
  if !state.moving then some (state, [])
  else if 0 < (state.waited dt).waitTimer then some (state.waited dt, [])
  else
    ride distance maxTransitionsPerTick (max state.speed 0 * max dt 0) (state.waited dt) []

end TrackTrainState

end OpenHalfLife.Game
