import OpenHalfLife.Physics.Hull

/-! # Traces

A segment is walked through the node tree of a hull, near half first, and then through the tree of
every attached brush. An index out of range is `none`. How a brush is turned about its pivot is
`rotation`.
-/

namespace OpenHalfLife.Physics

set_option autoImplicit false

variable {K : Type} [Field K] [LinearOrder K]

structure Trace (K : Type) where
  fraction : K
  endPos : Vec3 K
  planeNormal : Vec3 K
  planeDist : K
  allSolid : Bool
  startSolid : Bool
  inOpen : Bool
  inWater : Bool
  contents : Int
  brushIndex : Option Nat
  deriving DecidableEq

def Trace.miss (finish : Vec3 K) : Trace K :=
  ⟨1, finish, Vec3.zero, 0, false, false, false, false, Contents.empty, none⟩

def remapLeaf (link : Int) : BrushKind → Int
  | .solid => link
  | .contents volume => if link = Contents.empty then link else volume.contentsValue

def Trace.passLeaf (trace : Trace K) (mapped : Int) : Trace K :=
  if Contents.isSolid mapped then { trace with startSolid := true }
  else if mapped = Contents.empty then { trace with allSolid := false, inOpen := true }
  else { trace with allSolid := false, inWater := true }

def HullPlane.distance (plane : HullPlane K) (point : Vec3 K) : K := plane.normal.dot point - plane.dist

def Trace.stopAt (trace : Trace K) (plane : HullPlane K) (near : Bool) (stop : K × Vec3 K) : Trace K :=
  { trace with
    planeNormal := if near then -plane.normal else plane.normal
    planeDist := if near then -plane.dist else plane.dist
    fraction := stop.1
    endPos := stop.2 }

/-- Backs along the segment while the point is solid; eleven rounds take it below its start. -/
def backOff (contentsOf : Vec3 K → Option Int) (kind : BrushKind) (p1f p2f : K) (p1 p2 : Vec3 K) :
    Nat → K → Vec3 K → K → Option (K × Vec3 K)
  | 0, _, _, _ => some (p1f, p1)
  | rounds + 1, endFraction, endPoint, backoff => do
    if Contents.isSolid (remapLeaf (← contentsOf endPoint) kind) then
      if backoff - 1 / 10 < 0 then some (p1f, p1)
      else
        backOff contentsOf kind p1f p2f p1 p2 rounds (p1f + (p2f - p1f) * (backoff - 1 / 10))
          (Vec3.along p1 p2 (backoff - 1 / 10)) (backoff - 1 / 10)
    else some (unitClamp endFraction, endPoint)

section

variable (planes : List (HullPlane K)) (nodes : List HullNode)

def descend : Nat → Int → Vec3 K → Option Int
  | 0, _, _ => some Contents.solid
  | rounds + 1, link, point =>
    if link < 0 then some link
    else do
      let node ← nodes[link.toNat]?
      let plane ← planes[node.plane]?
      descend rounds (node.child (behind (plane.distance point))) point

def walk (link : Int) (point : Vec3 K) : Option Int := descend planes nodes maxTraceDepth link point

def contentsLink (link : Int) (point : Vec3 K) (depth : Nat) : Option Int :=
  descend planes nodes (depth + 1) link point

/-- The segment against the tree; `false` once it has been stopped. -/
def recurse (kind : BrushKind) :
    Nat → Int → K → K → Vec3 K → Vec3 K → Trace K → Option (Bool × Trace K)
  | 0, link, _, _, _, _, trace =>
    if link < 0 then some (true, trace.passLeaf (remapLeaf link kind))
    else some (false, { trace with startSolid := true })
  | depth + 1, link, p1f, p2f, p1, p2, trace =>
    if link < 0 then some (true, trace.passLeaf (remapLeaf link kind))
    else do
      let node ← nodes[link.toNat]?
      let plane ← planes[node.plane]?
      let d1 := plane.distance p1
      let d2 := plane.distance p2
      let near := behind d1
      if near = behind d2 then recurse kind depth (node.child near) p1f p2f p1 p2 trace
      else
        let midFraction := stopFraction distEpsilon d1 d2
        let mid := Vec3.along p1 p2 midFraction
        let midF := p1f + (p2f - p1f) * midFraction
        let (open?, trace) ← recurse kind depth (node.child near) p1f midF p1 mid trace
        if !open? then some (false, trace)
        else if !Contents.isSolid (remapLeaf (← contentsLink planes nodes (node.child (!near)) mid depth) kind) then
          recurse kind depth (node.child (!near)) midF p2f mid p2 trace
        else if trace.allSolid then some (false, trace)
        else
          let stop ← backOff (fun point => contentsLink planes nodes link point (depth + 1)) kind p1f p2f p1 p2 11
            midF mid midFraction
          some (false, trace.stopAt plane near stop)

end

structure Rotation (K : Type) where
  turn : Vec3 K → K → Vec3 K → Vec3 K
  turnBack : Vec3 K → K → Vec3 K → Vec3 K

def Hull.mins : Hull → Vec3 K
  | .point => Vec3.zero
  | .standing => ⟨-16, -16, -36⟩
  | .large => ⟨-32, -32, -32⟩
  | .crouched => ⟨-16, -16, -18⟩

def Hull.maxs : Hull → Vec3 K
  | .point => Vec3.zero
  | .standing => ⟨16, 16, 36⟩
  | .large => ⟨32, 32, 32⟩
  | .crouched => ⟨16, 16, 18⟩

def boxesOverlap (aMins aMaxs bMins bMaxs : Vec3 K) : Bool :=
  aMins.x ≤ bMaxs.x ∧ aMaxs.x ≥ bMins.x ∧ aMins.y ≤ bMaxs.y ∧ aMaxs.y ≥ bMins.y ∧ aMins.z ≤ bMaxs.z ∧
    aMaxs.z ≥ bMins.z

section

variable (rotation : Rotation K)

namespace BrushPart

variable (part : BrushPart K)

def hasRotation : Bool := part.angleDeg ≠ 0 ∧ part.axis ≠ Vec3.zero

def localPoint (world : Vec3 K) : Vec3 K :=
  if part.hasRotation then
    rotation.turnBack part.axis part.angleDeg (world - part.origin - part.pivot) + part.pivot
  else world - part.origin

def worldPoint (point : Vec3 K) : Vec3 K :=
  if part.hasRotation then
    rotation.turn part.axis part.angleDeg (point - part.pivot) + part.pivot + part.origin
  else point + part.origin

def normalToWorld (normal : Vec3 K) : Vec3 K :=
  if part.hasRotation then rotation.turn part.axis part.angleDeg normal else normal

def rotatedWorldBounds (mins maxs : Vec3 K) : Vec3 K × Vec3 K :=
  let first := part.worldPoint rotation ⟨mins.x, mins.y, mins.z⟩
  let corners := [⟨mins.x, mins.y, maxs.z⟩, ⟨mins.x, maxs.y, mins.z⟩, ⟨mins.x, maxs.y, maxs.z⟩,
    ⟨maxs.x, mins.y, mins.z⟩, ⟨maxs.x, mins.y, maxs.z⟩, ⟨maxs.x, maxs.y, mins.z⟩, maxs].map (part.worldPoint rotation)
  (corners.foldl Vec3.min first, corners.foldl Vec3.max first)

def broadBounds (hull : Hull) : Vec3 K × Vec3 K :=
  if part.hasRotation then part.rotatedWorldBounds rotation (part.mins + hull.mins) (part.maxs + hull.maxs)
  else (part.origin + part.mins + hull.mins, part.origin + part.maxs + hull.maxs)

def reaches (hull : Hull) (mins maxs : Vec3 K) : Bool :=
  let (brushMins, brushMaxs) := part.broadBounds rotation hull
  boxesOverlap mins maxs brushMins brushMaxs

end BrushPart

namespace CollisionModel

variable (model : CollisionModel K) (hull : Hull)

def nodesOf : Hull → List HullNode
  | .point => model.pointNodes
  | _ => model.clipNodes

def brushLink (part : BrushPart K) (point : Vec3 K) : Option (Option Int) :=
  if part.heads hull < 0 then some none
  else if !part.reaches rotation hull point point then some none
  else do
    let link ← walk model.planes (model.nodesOf hull) (part.heads hull) (part.localPoint rotation point)
    some (some link)

def solidBrushAt (point : Vec3 K) : List (BrushPart K) → Option (Option Int)
  | [] => some none
  | part :: rest =>
    match part.kind with
    | .contents _ => solidBrushAt point rest
    | .solid => do
      match ← model.brushLink rotation hull part point with
      | some link => if Contents.isSolid link then some (some link) else solidBrushAt point rest
      | none => solidBrushAt point rest

def volumeAt (point : Vec3 K) : List (BrushPart K) → Option (Option Int)
  | [] => some none
  | part :: rest =>
    match part.kind with
    | .solid => volumeAt point rest
    | .contents volume => do
      match ← model.brushLink rotation hull part point with
      | some link => if Contents.isPresent link then some (some volume.contentsValue) else volumeAt point rest
      | none => volumeAt point rest

def contentsAt (point : Vec3 K) : Option Int := do
  match ← model.solidBrushAt rotation hull point model.brushes with
  | some link => some link
  | none =>
    match ← model.volumeAt rotation hull point model.brushes with
    | some value => some value
    | none => walk model.planes (model.nodesOf hull) (model.heads hull) point

def treeTrace (head : Int) (start finish : Vec3 K) (kind : BrushKind) : Option (Trace K) := do
  let (_, trace) ← recurse model.planes (model.nodesOf hull) kind maxTraceDepth head 0 1 start finish
    { Trace.miss finish with allSolid := true }
  let trace := if trace.allSolid then { trace with startSolid := true } else trace
  some (if trace.startSolid then { trace with fraction := 0, endPos := start } else trace)

def traceTree (head : Int) (pose : Option (BrushPart K)) (start finish : Vec3 K) (kind : BrushKind) :
    Option (Trace K) :=
  match pose with
  | none => model.treeTrace hull head start finish kind
  | some part => do
    if part.hasRotation then
      let trace ← model.treeTrace hull head (part.localPoint rotation start) (part.localPoint rotation finish) kind
      let normal := part.normalToWorld rotation trace.planeNormal
      some { trace with
        endPos := part.worldPoint rotation trace.endPos
        planeNormal := normal
        planeDist := trace.planeDist + normal.dot (part.origin + part.pivot) - trace.planeNormal.dot part.pivot }
    else
      let trace ← model.treeTrace hull head (start - part.origin) (finish - part.origin) kind
      some { trace with
        endPos := trace.endPos + part.origin
        planeDist := trace.planeDist + trace.planeNormal.dot part.origin }

end CollisionModel

def combine (best hit : Trace K) (brush : Nat) : Trace K :=
  let best := { best with inWater := best.inWater || hit.inWater, allSolid := best.allSolid || hit.allSolid }
  let best :=
    if hit.startSolid then { best with startSolid := true, brushIndex := some (best.brushIndex.getD brush) } else best
  if hit.fraction < best.fraction then
    { best with
      fraction := hit.fraction
      endPos := hit.endPos
      planeNormal := hit.planeNormal
      planeDist := hit.planeDist
      brushIndex := some brush }
  else best

namespace CollisionModel

variable (model : CollisionModel K) (hull : Hull)

def hitBrush (start finish : Vec3 K) (part : BrushPart K) : Option (Option (Trace K)) :=
  if part.heads hull < 0 then some none
  else if !part.reaches rotation hull (start.min finish) (start.max finish) then some none
  else do
    let hit ← model.traceTree rotation hull (part.heads hull) (some part) start finish part.kind
    some (some hit)

def traceBrush (start finish : Vec3 K) (brush : Nat) : Option (Trace K) :=
  match model.brushes[brush]? with
  | none => some (Trace.miss finish)
  | some part => do
    match ← model.hitBrush rotation hull start finish part with
    | none => some (Trace.miss finish)
    | some hit =>
      let trace := combine (Trace.miss finish) hit brush
      some (if trace.startSolid then { trace with fraction := 0, endPos := start } else trace)

def foldBrushes (start finish : Vec3 K) (ignore : Option Nat) : Nat → List (BrushPart K) → Trace K → Option (Trace K)
  | _, [], best => some best
  | index, part :: rest, best =>
    if ignore = some index then foldBrushes start finish ignore (index + 1) rest best
    else do
      match ← model.hitBrush rotation hull start finish part with
      | none => foldBrushes start finish ignore (index + 1) rest best
      | some hit => foldBrushes start finish ignore (index + 1) rest (combine best hit index)

def traceIgnoring (start finish : Vec3 K) (ignore : Option Nat) : Option (Trace K) := do
  let world ← model.traceTree rotation hull (model.heads hull) none start finish .solid
  let trace ← model.foldBrushes rotation hull start finish ignore 0 model.brushes world
  let trace := if trace.startSolid then { trace with fraction := 0, endPos := start } else trace
  let contents ← model.contentsAt rotation hull trace.endPos
  some { trace with contents }

def trace (start finish : Vec3 K) : Option (Trace K) := model.traceIgnoring rotation hull start finish none

end CollisionModel

end

end OpenHalfLife.Physics
