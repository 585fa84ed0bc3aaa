import OpenHalfLife.Lib.Crossing
import OpenHalfLife.Media.Listing

/-! # Collision hulls

The node trees of a map, one to each hull, as they are checked when the map is loaded, and the brush
entities attached to them. Coordinates are exact, over any ordered field.
-/

namespace OpenHalfLife.Physics

open OpenHalfLife.Media (SanitizedError)

set_option autoImplicit false

@[ext]
structure Vec3 (K : Type) where
  x : K
  y : K
  z : K
  deriving DecidableEq

namespace Vec3

variable {K : Type} [Field K] [LinearOrder K]

instance : Add (Vec3 K) := ⟨fun v w => ⟨v.x + w.x, v.y + w.y, v.z + w.z⟩⟩

instance : Sub (Vec3 K) := ⟨fun v w => ⟨v.x - w.x, v.y - w.y, v.z - w.z⟩⟩

instance : Neg (Vec3 K) := ⟨fun v => ⟨-v.x, -v.y, -v.z⟩⟩

def zero : Vec3 K := ⟨0, 0, 0⟩

def scale (v : Vec3 K) (factor : K) : Vec3 K := ⟨v.x * factor, v.y * factor, v.z * factor⟩

def dot (v w : Vec3 K) : K := v.x * w.x + v.y * w.y + v.z * w.z

def lengthSquared (v : Vec3 K) : K := v.dot v

def min (v w : Vec3 K) : Vec3 K := ⟨Min.min v.x w.x, Min.min v.y w.y, Min.min v.z w.z⟩

def max (v w : Vec3 K) : Vec3 K := ⟨Max.max v.x w.x, Max.max v.y w.y, Max.max v.z w.z⟩

def along (start finish : Vec3 K) (fraction : K) : Vec3 K := start + (finish - start).scale fraction

end Vec3

/-! ### Contents -/

namespace Contents

def empty : Int := -1

def solid : Int := -2

def water : Int := -3

def slime : Int := -4

def lava : Int := -5

def clip : Int := -8

def ladder : Int := -16

def lowest : Int := ladder

def isPresent (value : Int) : Bool := value ≠ empty

def isSolid (value : Int) : Bool := value = solid ∨ value = clip

end Contents

def distEpsilon {K : Type} [Field K] : K := 1 / (32 : Nat)

def maxTraceDepth : Nat := 256

def maxAttachedBrushes : Nat := 512

inductive Hull
  | point
  | standing
  | large
  | crouched
  deriving DecidableEq

inductive ContentsKind
  | ladder
  | water
  | slime
  | lava
  deriving DecidableEq

def ContentsKind.contentsValue : ContentsKind → Int
  | .ladder => Contents.ladder
  | .water => Contents.water
  | .slime => Contents.slime
  | .lava => Contents.lava

inductive BrushKind
  | solid
  | contents (volume : ContentsKind)
  deriving DecidableEq

structure HullNode where
  plane : Nat
  front : Int
  back : Int
  deriving DecidableEq

def HullNode.child (node : HullNode) (side : Bool) : Int := if side then node.back else node.front

structure HullPlane (K : Type) where
  normal : Vec3 K
  dist : K
  deriving DecidableEq

abbrev Heads := Hull → Int

def Heads.bare : Heads := fun _ => Contents.empty

structure BrushPart (K : Type) where
  heads : Heads
  origin : Vec3 K
  pivot : Vec3 K
  axis : Vec3 K
  angleDeg : K
  kind : BrushKind
  mins : Vec3 K
  maxs : Vec3 K
  /-- The head links put aside while the brush is not solid. -/
  suspended : Option Heads

structure CollisionModel (K : Type) where
  planes : List (HullPlane K)
  pointNodes : List HullNode
  clipNodes : List HullNode
  heads : Heads
  brushes : List (BrushPart K)

structure RawNode where
  plane : Nat
  children : Int × Int

structure RawClipnode where
  plane : Int
  children : Int × Int

structure RawModel (K : Type) where
  headnodes : Heads
  mins : Vec3 K
  maxs : Vec3 K

/-- The lumps of a map, each `none` where it cannot be read; a leaf is its contents value. -/
structure Bsp (K : Type) where
  planes : Option (List (HullPlane K))
  nodes : Option (List RawNode)
  leaves : Option (List Int)
  clipnodes : Option (List RawClipnode)
  models : Option (List (RawModel K))

/-! ### Loading -/

def lump {α : Type} : Option (List α) → Except SanitizedError (List α)
  | some entries => .ok entries
  | none => .error .invalidInput

def validContents (value : Int) : Except SanitizedError Int :=
  if Contents.lowest ≤ value ∧ value ≤ Contents.empty then .ok value else .error .invalidInput

def leafContents (leaves : List Int) (link : Int) : Except SanitizedError Int :=
  match leaves[(-link - 1).toNat]? with
  | some value => validContents value
  | none => .error .invalidInput

/-- A link to one of so many nodes; what a negative one stands for is given by `leaf`. -/
def checkLink (nodeCount : Nat) (leaf : Int → Except SanitizedError Int) (link : Int) : Except SanitizedError Int :=
  if 0 ≤ link then if nodeCount ≤ link.toNat then .error .invalidInput else .ok link else leaf link

def headLeaf (leaves : List Int) : Hull → Int → Except SanitizedError Int
  | .point => leafContents leaves
  | _ => validContents

def checkHeads (pointCount clipCount : Nat) (leaves : List Int) (raw : Heads) : Except SanitizedError Heads := do
  let point ← checkLink pointCount (headLeaf leaves .point) (raw .point)
  let standing ← checkLink clipCount (headLeaf leaves .standing) (raw .standing)
  let large ← checkLink clipCount (headLeaf leaves .large) (raw .large)
  let crouched ← checkLink clipCount (headLeaf leaves .crouched) (raw .crouched)
  return fun
    | .point => point
    | .standing => standing
    | .large => large
    | .crouched => crouched

def checkNode (planeCount nodeCount : Nat) (leaf : Int → Except SanitizedError Int) (plane : Nat)
    (children : Int × Int) : Except SanitizedError HullNode := do
  if planeCount ≤ plane then .error .invalidInput
  else
    let front ← checkLink nodeCount leaf children.1
    let back ← checkLink nodeCount leaf children.2
    return ⟨plane, front, back⟩

section

variable {K : Type} [Field K] [LinearOrder K]

def checkPlane (plane : HullPlane K) : Except SanitizedError (HullPlane K) :=
  if plane.normal.lengthSquared ≤ 0 then .error .invalidInput else .ok plane

def checkPointNode (planes : List (HullPlane K)) (nodes : List RawNode) (leaves : List Int) (node : RawNode) :
    Except SanitizedError HullNode :=
  checkNode planes.length nodes.length (leafContents leaves) node.plane node.children

def checkClipnode (planes : List (HullPlane K)) (clipnodes : List RawClipnode) (node : RawClipnode) :
    Except SanitizedError HullNode :=
  if node.plane < 0 then .error .invalidInput
  else checkNode planes.length clipnodes.length validContents node.plane.toNat node.children

def CollisionModel.fromBspModel (bsp : Bsp K) (modelIndex : Nat) : Except SanitizedError (CollisionModel K) := do
  let rawPlanes ← lump bsp.planes
  let rawNodes ← lump bsp.nodes
  let rawLeaves ← lump bsp.leaves
  let rawClipnodes ← lump bsp.clipnodes
  let rawModels ← lump bsp.models
  match rawModels[modelIndex]? with
  | none => .error .notFound
  | some model =>
    let planes ← rawPlanes.mapM checkPlane
    let pointNodes ← rawNodes.mapM (checkPointNode planes rawNodes rawLeaves)
    let clipNodes ← rawClipnodes.mapM (checkClipnode planes rawClipnodes)
    let heads ← checkHeads pointNodes.length clipNodes.length rawLeaves model.headnodes
    return ⟨planes, pointNodes, clipNodes, heads, []⟩

def CollisionModel.fromBsp (bsp : Bsp K) : Except SanitizedError (CollisionModel K) :=
  CollisionModel.fromBspModel bsp 0

/-! ### Attached brushes -/

namespace CollisionModel

variable (model : CollisionModel K)

/-- The brush of a submodel, standing where it was compiled but for `origin`. -/
def brushPart (bsp : Bsp K) (modelIndex : Nat) (origin : Vec3 K) (kind : BrushKind) :
    Except SanitizedError (BrushPart K) := do
  let rawModels ← lump bsp.models
  let rawLeaves ← lump bsp.leaves
  match rawModels[modelIndex]? with
  | none => .error .notFound
  | some raw =>
    let heads ← checkHeads model.pointNodes.length model.clipNodes.length rawLeaves raw.headnodes
    return ⟨heads, origin, Vec3.zero, Vec3.zero, 0, kind, raw.mins, raw.maxs, none⟩

def attachBrushKind (bsp : Bsp K) (modelIndex : Nat) (origin : Vec3 K) (kind : BrushKind) :
    Except SanitizedError (Nat × CollisionModel K) := do
  if modelIndex = 0 then .error .invalidInput
  else if maxAttachedBrushes ≤ model.brushes.length then .error .unsupported
  else
    let part ← model.brushPart bsp modelIndex origin kind
    return (model.brushes.length, { model with brushes := model.brushes ++ [part] })

def attachBrush (bsp : Bsp K) (modelIndex : Nat) (origin : Vec3 K) : Except SanitizedError (Nat × CollisionModel K) :=
  model.attachBrushKind bsp modelIndex origin .solid

def attachContentsBrush (bsp : Bsp K) (modelIndex : Nat) (origin : Vec3 K) (kind : ContentsKind) :
    Except SanitizedError (Nat × CollisionModel K) :=
  model.attachBrushKind bsp modelIndex origin (.contents kind)

def modifyBrush (brush : Nat) (change : BrushPart K → BrushPart K) : CollisionModel K :=
  { model with brushes := model.brushes.modify brush change }

def setBrushOrigin (brush : Nat) (origin : Vec3 K) : CollisionModel K :=
  model.modifyBrush brush fun part => { part with origin }

def setBrushPose (brush : Nat) (origin pivot axis : Vec3 K) (angleDeg : K) : CollisionModel K :=
  model.modifyBrush brush fun part => { part with origin, pivot, axis, angleDeg }

def detachBrush (brush : Nat) : CollisionModel K :=
  model.modifyBrush brush fun part => { part with heads := Heads.bare, suspended := none }

end CollisionModel

def BrushPart.setSolid (solid : Bool) (part : BrushPart K) : BrushPart K :=
  if solid then
    match part.suspended with
    | some heads => { part with heads, suspended := none }
    | none => part
  else
    match part.suspended with
    | some _ => part
    | none => { part with heads := Heads.bare, suspended := some part.heads }

def CollisionModel.setBrushSolid (model : CollisionModel K) (brush : Nat) (solid : Bool) : CollisionModel K :=
  model.modifyBrush brush (BrushPart.setSolid solid)

end

end OpenHalfLife.Physics
