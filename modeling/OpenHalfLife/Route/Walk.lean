import Mathlib.Algebra.Order.Floor.Ring
import Mathlib.Algebra.Order.Ring.Rat
import Mathlib.Data.List.AList
import Mathlib.Data.Rat.Floor

/-! # The route planner's walk

Cells are reached cheapest first and keep the link they were reached by. One walk
lives through all rounds; what can be crossed is another function in each.
-/

namespace OpenHalfLife.Route

set_option autoImplicit false

structure Vec3 where
  x : ℚ
  y : ℚ
  z : ℚ
  deriving DecidableEq

inductive EdgeKind
  | walk
  | step
  | drop
  | jump
  | longJump
  | ladder (faceYaw : ℚ) (up : Bool)
  | ride (useYaw : Option ℚ) (travelSeconds : ℚ)
  deriving DecidableEq

structure PathPoint where
  position : Vec3
  kind : EdgeKind
  deriving DecidableEq

abbrev BrushId := Nat

inductive Crossing
  | landed (landing : Vec3) (kind : EdgeKind) (via : Option Vec3)
  | blocked (brush : Option BrushId)
  deriving DecidableEq

def directions : List (Int × Int) := [(1, 0), (1, 1), (0, 1), (-1, 1), (-1, 0), (-1, -1), (0, -1), (1, -1)]

def cellSize : ℚ := 16

def costWalk : Nat := 1

def costClimb : Nat := 2

def costRide : Nat := 3

def costJump : Nat := 4

def costFall : Nat := 64

def costFallPerCell : Nat := 1

def maxCost : Nat := 2 ^ 32 - 1

def saturate (cost : Nat) : Nat := min cost maxCost

def edgeCost (kind : EdgeKind) (start finish : Vec3) : Nat :=
  match kind with
  | .walk | .step => costWalk
  | .ladder _ _ => costClimb
  | .ride _ _ => costRide
  | .jump | .longJump => costJump
  | .drop =>
    let cells := saturate (⌊max (start.z - finish.z) 0 / cellSize⌋.toNat)
    saturate (costFall + saturate (cells * costFallPerCell))

variable (Cell : Type)

structure ParentLink where
  origin : Cell
  kind : EdgeKind
  via : Option Vec3

abbrev CellMap (α : Type) := AList fun _ : Cell => α

structure Trace where
  landing : CellMap Cell Vec3
  parent : CellMap Cell (ParentLink Cell)
  order : List Vec3
  frontier : List BrushId

/-- An edge that was crossed: from where and where to, and whether the landing's cell kept it. -/
structure Crossed where
  start : Vec3
  landing : Vec3
  link : ParentLink Cell
  kept : Bool

/-- `crossed` is not in the source, and nothing reads it. -/
structure Walk where
  trace : Trace Cell
  cost : CellMap Cell Nat
  queue : List (Nat × Cell)
  crossed : List (Crossed Cell)

structure Geometry where
  onLadder : Vec3 → Bool
  ladderEdge : Vec3 → Bool → Option (Vec3 × ℚ)
  cross : Vec3 → Int × Int → Bool → Crossing

variable {Cell}

def popFrontier [LinearOrder Cell] : List (Nat × Cell) → Option ((Nat × Cell) × List (Nat × Cell))
  | [] => none
  | entry :: queue =>
    match popFrontier queue with
    | none => some (entry, [])
    | some (least, rest) =>
      if entry.1 < least.1 ∨ (entry.1 = least.1 ∧ entry.2 ≤ least.2) then some (entry, least :: rest)
      else some (least, entry :: rest)

namespace Walk

variable [LinearOrder Cell] (cellOf : Vec3 → Cell) (cap : Nat)

def cross (walk : Walk Cell) (kept : Bool) (start landing : Vec3) (link : ParentLink Cell) : Walk Cell :=
  { walk with crossed := walk.crossed ++ [⟨start, landing, link, kept⟩] }

/-- `relax`, on an edge crossed from `start`. -/
def relax (walk : Walk Cell) (start landing : Vec3) (link : ParentLink Cell) (total : Nat) : Walk Cell :=
  let cell := cellOf landing
  let keep (trace : Trace Cell) : Walk Cell :=
    { trace := { trace with parent := trace.parent.insert cell link }
      cost := walk.cost.insert cell total
      queue := (total, cell) :: walk.queue
      crossed := walk.crossed ++ [⟨start, landing, link, true⟩] }
  match walk.cost.lookup cell with
  | some best =>
    if best ≤ total then walk.cross false start landing link
    else keep { walk.trace with landing := walk.trace.landing.insert cell landing }
  | none =>
    if walk.trace.landing.entries.length ≥ cap then walk.cross false start landing link
    else keep { walk.trace with
      landing := walk.trace.landing.insert cell landing
      order := walk.trace.order ++ [landing] }

def new (start : Vec3) : Walk Cell where
  trace := ⟨AList.singleton (cellOf start) start, ∅, [start], []⟩
  cost := AList.singleton (cellOf start) 0
  queue := [(0, cellOf start)]
  crossed := []

def requeueAll (walk : Walk Cell) : Walk Cell :=
  { walk with queue := walk.cost.entries.map (fun entry => (entry.2, entry.1)) ++ walk.queue }

/-- What is tried from a cell: the ladder up and down, then the directions of the compass. -/
inductive Attempt
  | ladder (up : Bool)
  | direction (direction : Int × Int)

/-- One edge of a cell at `position` that cost `spent`. -/
def attempt (walk : Walk Cell) (round : Geometry) (origin : Cell) (position : Vec3) (spent : Nat) :
    Attempt → Walk Cell
  | .ladder up =>
    match round.ladderEdge position up with
    | none => walk
    | some (landing, faceYaw) =>
      let kind := EdgeKind.ladder faceYaw up
      walk.relax cellOf cap position landing ⟨origin, kind, none⟩ (saturate (spent + edgeCost kind position landing))
  | .direction direction =>
    match round.cross position direction (round.onLadder position) with
    | .landed landing kind via =>
      walk.relax cellOf cap position landing ⟨origin, kind, via⟩ (saturate (spent + edgeCost kind position landing))
    | .blocked (some brush) =>
      { walk with trace := { walk.trace with frontier := walk.trace.frontier.insert brush } }
    | .blocked none => walk

def attempts (round : Geometry) (origin : Cell) (position : Vec3) (spent : Nat) :
    Walk Cell → List Attempt → Walk Cell × Bool
  | walk, [] => (walk, true)
  | walk, next :: rest =>
    if walk.trace.landing.entries.length ≥ cap then (walk, false)
    else attempts round origin position spent (walk.attempt cellOf cap round origin position spent next) rest

def drain (round : Geometry) : Nat → Walk Cell → Option (Walk Cell)
  | 0, _ => none
  | fuel + 1, walk =>
    match popFrontier walk.queue with
    | none => some walk
    | some ((spent, origin), queue) =>
      let walk := { walk with queue := queue }
      -- only the cheapest entry of a cell is live
      if walk.cost.lookup origin ≠ some spent then drain round fuel walk
      else match walk.trace.landing.lookup origin with
        | none => drain round fuel walk
        | some position =>
          let ladder := if round.onLadder position then [Attempt.ladder true, Attempt.ladder false] else []
          match walk.attempts cellOf cap round origin position spent (ladder ++ directions.map Attempt.direction) with
          | (walk, true) => drain round fuel walk
          | (walk, false) => some walk

def expand (walk : Walk Cell) (round : Geometry) (fuel : Nat) : Option (Walk Cell) :=
  drain cellOf cap round fuel { walk with trace := { walk.trace with frontier := [] } }

/-- `take_ride`, from a boarding cell. -/
def ride (walk : Walk Cell) (board : Cell) (landing : Vec3) (useYaw : Option ℚ) (seconds : ℚ) : Walk Cell :=
  match walk.trace.landing.lookup board, walk.cost.lookup board with
  | some position, some cost =>
    let kind := EdgeKind.ride useYaw seconds
    walk.relax cellOf cap position landing ⟨board, kind, none⟩ (saturate (cost + edgeCost kind position landing))
  | _, _ => walk

end Walk

namespace Trace

variable [LinearOrder Cell]

abbrev Stop (Cell : Type) := Cell × Vec3 × ParentLink Cell

def backFrom (trace : Trace Cell) (startCell : Cell) : Nat → Cell → Option (List (Stop Cell))
  | 0, _ => none
  | fuel + 1, cell =>
    if cell = startCell then some []
    else match trace.landing.lookup cell, trace.parent.lookup cell with
      | some position, some link => ((cell, position, link) :: ·) <$> backFrom trace startCell fuel link.origin
      | _, _ => some []

def listed (start : Vec3) (stops : List (Stop Cell)) : List PathPoint :=
  ⟨start, .walk⟩ :: stops.reverse.flatMap fun (_, position, link) =>
    (link.via.map fun via => (⟨via, .walk⟩ : PathPoint)).toList ++ [⟨position, link.kind⟩]

def pathTo (cellOf : Vec3 → Cell) (trace : Trace Cell) (start : Vec3) (goal : Cell) (fuel : Nat) : Option (List PathPoint) :=
  (trace.backFrom (cellOf start) fuel goal).map (listed start)

end Trace

namespace Walk

variable [LinearOrder Cell] (cellOf : Vec3 → Cell) (cap : Nat)

inductive Operation (Cell : Type)
  | expand (round : Geometry) (fuel : Nat)
  | ride (board : Cell) (landing : Vec3) (useYaw : Option ℚ) (seconds : ℚ)
  | requeueAll

def perform (walk : Walk Cell) : Operation Cell → Option (Walk Cell)
  | .expand round fuel => walk.expand cellOf cap round fuel
  | .ride board landing useYaw seconds => some (walk.ride cellOf cap board landing useYaw seconds)
  | .requeueAll => some walk.requeueAll

/-- The walk from `start` after these operations. -/
def after (start : Vec3) (operations : List (Operation Cell)) : Option (Walk Cell) :=
  operations.foldlM (perform cellOf cap) (Walk.new cellOf start)

end Walk

end OpenHalfLife.Route
