import OpenHalfLife.World.Assemble
import OpenHalfLife.World.Leaf
import OpenHalfLife.World.Visibility

/-! # The world model of a map

The faces of a map's model are collected, put in order, and found again from the leaves that refer to
them.
-/

namespace OpenHalfLife.World

set_option autoImplicit false

def noSlot : Nat := u32Max

/-- A face of the map with its corners looked up, and whether its texture coordinates are finite. -/
structure BspFace (K : Type) where
  texture : Nat
  vertices : List (WorldVertex K)
  isSky : Bool
  isLiquid : Bool
  projects : Bool

structure BspLeaf where
  firstMarksurface : Nat
  numMarksurfaces : Nat
  visOffset : Int

structure WorldSource (K : Type) where
  faces : List (BspFace K)
  firstFace : Nat
  faceCount : Nat
  leaves : List BspLeaf
  marksurfaces : List Nat
  visLump : List UInt8
  nodes : List Formats.BspNode
  planes : List (Formats.BspPlane K)
  maxWalkDepth : Nat
  atlasScale : K × K

structure WorldModel (K : Type) where
  vertices : List (WorldVertex K)
  indices : List Nat
  bounds : Aabb K
  faces : List (FaceGeometry K)
  batches : List DrawBatch
  liquidBatches : List DrawBatch
  hasSky : Bool
  droppedFaces : Nat
  tree : WorldTree K
  /-- Where the faces of each leaf are in the list of all, and how many. -/
  leafFaces : List (Nat × Nat)
  leafFaceList : List Nat
  leafHasSky : List Bool
  vis : VisibilitySet

section

variable {K : Type} [LinearOrder K]

structure Collected (K : Type) [LinearOrder K] where
  pending : List (PendingFace K)
  faceSlot : List Nat
  bspFaceIsSky : List Bool
  totalVertices : Nat
  droppedFaces : Nat

def collectFace (state : Collected K) (entry : BspFace K × Nat) : Except WorldError (Collected K) :=
  let (face, bspFace) := entry
  if face.isSky then .ok { state with bspFaceIsSky := state.bspFaceIsSky.set bspFace true }
  else if hPolygon : face.vertices.length < 3 then .ok { state with droppedFaces := state.droppedFaces + 1 }
  else
    let totalVertices := state.totalVertices + face.vertices.length
    if totalVertices > maxVertices then .error .limitExceeded
    else if !face.projects then .ok { state with totalVertices, droppedFaces := state.droppedFaces + 1 }
    else
      match tryU32 state.pending.length with
      | none => .error .limitExceeded
      | some slot => .ok
          { state with
            totalVertices
            faceSlot := state.faceSlot.set bspFace slot
            pending := state.pending ++
              [{ texture := face.texture
                 vertices := face.vertices
                 bounds := Aabb.around (face.vertices.map WorldVertex.position)
                 isLiquid := face.isLiquid
                 polygon := Nat.le_of_not_lt hPolygon
                 bounded := rfl }] }

def collect (faces : List (BspFace K)) (firstFace faceCount : Nat) : Except WorldError (Collected K) :=
  if firstFace + faceCount > faces.length then .error .indexOutOfRange
  else
    ((faces.zipIdx.drop firstFace).take faceCount).foldlM collectFace
      ⟨[], List.replicate faces.length noSlot, List.replicate faces.length false, 0, 0⟩

end

def remapSlots (permutation faceSlot : List Nat) : List Nat :=
  faceSlot.map fun slot => if slot = noSlot then slot else permutation.getD slot 0

structure LeafTable where
  leafFaces : List (Nat × Nat)
  leafFaceList : List Nat
  leafHasSky : List Bool

def BspLeaf.marks (leaf : BspLeaf) (marksurfaces : List Nat) : List Nat :=
  (marksurfaces.drop leaf.firstMarksurface).take leaf.numMarksurfaces

def BspLeaf.slots (leaf : BspLeaf) (marksurfaces faceSlot : List Nat) : List Nat :=
  (leaf.marks marksurfaces).filterMap fun bspFace => faceSlot[bspFace]?.filter (· ≠ noSlot)

def addLeaf (marksurfaces faceSlot : List Nat) (bspFaceIsSky : List Bool) (table : LeafTable) (leaf : BspLeaf) :
    Except WorldError LeafTable := do
  let some start := tryU32 table.leafFaceList.length | .error .limitExceeded
  let leafFaceList := table.leafFaceList ++ leaf.slots marksurfaces faceSlot
  let some stop := tryU32 leafFaceList.length | .error .limitExceeded
  .ok
    { leafFaces := table.leafFaces ++ [(start, stop - start)]
      leafFaceList
      leafHasSky := table.leafHasSky ++ [(leaf.marks marksurfaces).any fun bspFace => bspFaceIsSky.getD bspFace false] }

namespace WorldModel

variable {K : Type} [LinearOrder K] [Field K]

def build (source : WorldSource K) : Except WorldError (WorldModel K) := do
  let collected ← collect source.faces source.firstFace source.faceCount
  let assembly := assemble collected.pending source.atlasScale
  let faceSlot := remapSlots assembly.permutation collected.faceSlot
  let table ← source.leaves.foldlM (addLeaf source.marksurfaces faceSlot collected.bspFaceIsSky) ⟨[], [], []⟩
  let vis ← VisibilitySet.build source.visLump (source.leaves.map BspLeaf.visOffset)
  .ok
    { vertices := assembly.vertices
      indices := assembly.indices
      bounds := assembly.bounds
      faces := assembly.faces
      batches := assembly.batches
      liquidBatches := assembly.liquidBatches
      hasSky := table.leafHasSky.any id
      droppedFaces := collected.droppedFaces
      tree := WorldTree.build source.nodes source.planes source.maxWalkDepth
      leafFaces := table.leafFaces
      leafFaceList := table.leafFaceList
      leafHasSky := table.leafHasSky
      vis }

def leafFaceSlots (model : WorldModel K) (leaf : Nat) : List Nat :=
  match model.leafFaces[leaf]? with
  | none => []
  | some (start, count) =>
    if start + count ≤ model.leafFaceList.length then (model.leafFaceList.drop start).take count else []

end WorldModel

end OpenHalfLife.World
