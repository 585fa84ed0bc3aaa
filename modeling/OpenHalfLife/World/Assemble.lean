import OpenHalfLife.Lib.Batches
import OpenHalfLife.World.Culling
import Mathlib.Data.List.Induction
import Mathlib.Data.List.Sort

/-! # Putting the faces of a map in order

The faces are drawn one texture after another, those of liquids last, and each is a fan of triangles
around its first corner.
-/

namespace OpenHalfLife.World

set_option autoImplicit false

def tryU32 (n : Nat) : Option Nat := if n < 2 ^ 32 then some n else none

def u32Max : Nat := 2 ^ 32 - 1

structure WorldVertex (K : Type) where
  position : Vec3 K
  uv : K × K
  lightmapUv : K × K

structure PendingFace (K : Type) [LinearOrder K] where
  texture : Nat
  vertices : List (WorldVertex K)
  bounds : Aabb K
  isLiquid : Bool
  polygon : 3 ≤ vertices.length
  bounded : bounds = Aabb.around (vertices.map WorldVertex.position)

structure FaceGeometry (K : Type) where
  texture : Nat
  firstIndex : Nat
  indexCount : Nat
  bounds : Aabb K
  isLiquid : Bool

structure DrawBatch where
  texture : Nat
  firstIndex : Nat
  indexCount : Nat
  deriving DecidableEq

structure Assembly (K : Type) where
  vertices : List (WorldVertex K)
  indices : List Nat
  bounds : Aabb K
  faces : List (FaceGeometry K)
  batches : List DrawBatch
  liquidBatches : List DrawBatch
  /-- From a pending slot to the slot in order. -/
  permutation : List Nat

def fan (base length : Nat) : List Nat :=
  (List.range' 1 (length - 2)).flatMap fun corner =>
    [base, base + (tryU32 corner).getD 0, base + (tryU32 (corner + 1)).getD 0]

def pushBatch (group : List DrawBatch) (texture firstIndex indexCount : Nat) : List DrawBatch :=
  match group.getLast? with
  | some batch =>
    if batch.texture = texture then
      group.dropLast ++ [{ batch with indexCount := batch.indexCount + indexCount }]
    else group ++ [⟨texture, firstIndex, indexCount⟩]
  | none => [⟨texture, firstIndex, indexCount⟩]

section

variable {K : Type} [LinearOrder K]

def PendingFace.keyLe (a b : PendingFace K) : Bool :=
  if a.isLiquid = b.isLiquid then a.texture ≤ b.texture else !a.isLiquid

def Aabb.join (bounds : Aabb K) : Aabb K → Aabb K
  | .empty => bounds
  | .box low high => if (Aabb.box low high).isValid then (bounds.extend low).extend high else bounds

variable [Field K]

def WorldVertex.scaled (atlasScale : K × K) (vertex : WorldVertex K) : WorldVertex K :=
  { vertex with
    lightmapUv := (vertex.lightmapUv.1 / max atlasScale.1 1, vertex.lightmapUv.2 / max atlasScale.2 1) }

/-- The next face in order, with the pending slot it comes from and the slot it gets. -/
def assembleFace (atlasScale : K × K) (state : Assembly K) (entry : (PendingFace K × Nat) × Nat) : Assembly K :=
  let ((face, originalSlot), orderedSlot) := entry
  let base := (tryU32 state.vertices.length).getD u32Max
  let firstIndex := (tryU32 state.indices.length).getD u32Max
  let indices := state.indices ++ fan base face.vertices.length
  let indexCount := (tryU32 indices.length).getD u32Max - firstIndex
  { vertices := state.vertices ++ face.vertices.map (WorldVertex.scaled atlasScale)
    indices
    bounds := state.bounds.join face.bounds
    faces := state.faces ++ [⟨face.texture, firstIndex, indexCount, face.bounds, face.isLiquid⟩]
    batches := if face.isLiquid then state.batches else pushBatch state.batches face.texture firstIndex indexCount
    liquidBatches :=
      if face.isLiquid then pushBatch state.liquidBatches face.texture firstIndex indexCount else state.liquidBatches
    permutation := state.permutation.set originalSlot ((tryU32 orderedSlot).getD u32Max) }

def faceOrder (pending : List (PendingFace K)) : List (PendingFace K × Nat) :=
  pending.zipIdx.insertionSort fun a b => a.1.keyLe b.1 = true

def assemble (pending : List (PendingFace K)) (atlasScale : K × K) : Assembly K :=
  (faceOrder pending).zipIdx.foldl (assembleFace atlasScale)
    ⟨[], [], .empty, [], [], [], List.replicate pending.length 0⟩

end

/-! ### The order -/

section

variable {K : Type} [LinearOrder K] {pending : List (PendingFace K)}

theorem faceOrder_perm (pending : List (PendingFace K)) : (faceOrder pending).Perm pending.zipIdx :=
  List.perm_insertionSort _ _

theorem PendingFace.keyLe_iff (a b : PendingFace K) : a.keyLe b = true ↔
    a.isLiquid = false ∧ b.isLiquid = true ∨ a.isLiquid = b.isLiquid ∧ a.texture ≤ b.texture := by
  rw [keyLe]
  cases a.isLiquid <;> cases b.isLiquid <;> simp

theorem PendingFace.keyLe_trans {a b c : PendingFace K} (hab : a.keyLe b = true) (hbc : b.keyLe c = true) :
    a.keyLe c = true := by
  rw [keyLe_iff] at hab hbc ⊢
  rcases hab with ⟨ha, hb⟩ | ⟨hab, hTexture⟩
  · rcases hbc with ⟨hb', -⟩ | ⟨hbc, -⟩
    · rw [hb] at hb'
      cases hb'
    · exact .inl ⟨ha, hbc ▸ hb⟩
  · rcases hbc with ⟨hb, hc⟩ | ⟨hbc, hTexture'⟩
    · exact .inl ⟨hab.trans hb, hc⟩
    · exact .inr ⟨hab.trans hbc, hTexture.trans hTexture'⟩

theorem PendingFace.keyLe_total (a b : PendingFace K) : a.keyLe b = true ∨ b.keyLe a = true := by
  rw [keyLe_iff, keyLe_iff]
  cases a.isLiquid <;> cases b.isLiquid <;> simp [le_total]

theorem faceOrder_sorted (pending : List (PendingFace K)) :
    (faceOrder pending).Pairwise fun a b => a.1.keyLe b.1 = true := by
  have : Std.Total fun a b : PendingFace K × Nat => a.1.keyLe b.1 = true := ⟨fun a b => a.1.keyLe_total b.1⟩
  have : IsTrans (PendingFace K × Nat) fun a b => a.1.keyLe b.1 = true := ⟨fun _ _ _ => PendingFace.keyLe_trans⟩
  exact List.pairwise_insertionSort _ _

theorem sorted_of_pass {entries : List (PendingFace K)} (h : entries.Pairwise fun a b => a.keyLe b = true) (liquid : Bool) :
    ((entries.filter fun face => face.isLiquid = liquid).map PendingFace.texture).Pairwise (· ≤ ·) := by
  rw [List.pairwise_map, List.pairwise_filter]
  refine h.imp fun {a b} hLe ha hb => ?_
  rcases (PendingFace.keyLe_iff a b).mp hLe with ⟨hOpaque, hLiquid⟩ | ⟨-, hTexture⟩
  · have hSame : a.isLiquid = b.isLiquid := (of_decide_eq_true ha).trans (of_decide_eq_true hb).symm
    rw [hOpaque, hLiquid] at hSame
    cases hSame
  · exact hTexture

end

/-! ### What the indices draw -/

def triangles {α : Type} (corners : List α) : List (Option α) :=
  (List.range' 1 (corners.length - 2)).flatMap fun corner => [corners[0]?, corners[corner]?, corners[corner + 1]?]

theorem length_fan (base length : Nat) : (fan base length).length = 3 * (length - 2) := by
  simp [fan, Nat.mul_comm]

theorem map_fan {α : Type} {before corners after : List α} (h : corners.length < 2 ^ 32) :
    (fan before.length corners.length).map ((before ++ corners ++ after)[·]?) = triangles corners := by
  have hCorner (offset : Nat) (hOffset : offset < corners.length) :
      (before ++ corners ++ after)[before.length + (tryU32 offset).getD 0]? = corners[offset]? := by
    rw [tryU32, if_pos (hOffset.trans h), Option.getD_some, List.append_assoc, List.getElem?_append_right (by omega),
      List.getElem?_append_left (by omega), Nat.add_sub_cancel_left]
  rw [fan, triangles, List.map_flatMap]
  refine List.flatMap_congr fun corner hMem => ?_
  obtain ⟨step, hStep, rfl⟩ := List.mem_range'.mp hMem
  have hBase : (before ++ corners ++ after)[before.length]? = corners[0]? := by
    rw [List.append_assoc, List.getElem?_append_right le_rfl, List.getElem?_append_left (by omega), Nat.sub_self]
  simp only [List.map_cons, List.map_nil, hBase, hCorner _ (show 1 + 1 * step < corners.length by omega),
    hCorner _ (show 1 + 1 * step + 1 < corners.length by omega)]

section

variable {K : Type} [LinearOrder K] [Field K]

/-- A stretch of the indices that draws a face, under its texture and in its pass. -/
structure Draws (atlasScale : K × K) (vertices : List (WorldVertex K)) (indices : List Nat) (geometry : FaceGeometry K)
    (face : PendingFace K) : Prop where
  texture : geometry.texture = face.texture
  isLiquid : geometry.isLiquid = face.isLiquid
  bounds : geometry.bounds = face.bounds
  inside : geometry.firstIndex + geometry.indexCount ≤ indices.length
  count : geometry.indexCount = 3 * (face.vertices.length - 2)
  corners : ((indices.drop geometry.firstIndex).take geometry.indexCount).map (vertices[·]?) =
    triangles (face.vertices.map (WorldVertex.scaled atlasScale))

variable {atlasScale : K × K} {vertices moreVertices : List (WorldVertex K)} {indices moreIndices : List Nat}
  {geometry : FaceGeometry K} {face : PendingFace K}

theorem isSome_of_mem_triangles {α : Type} {corners : List α} {corner : Option α} (h : corner ∈ triangles corners) :
    corner.isSome := by
  obtain ⟨offset, hOffset, hMem⟩ := List.mem_flatMap.mp h
  obtain ⟨step, hStep, rfl⟩ := List.mem_range'.mp hOffset
  simp only [List.mem_cons, List.not_mem_nil, or_false] at hMem
  rcases hMem with rfl | rfl | rfl <;> simp <;> omega

theorem Draws.append (h : Draws atlasScale vertices indices geometry face) :
    Draws atlasScale (vertices ++ moreVertices) (indices ++ moreIndices) geometry face where
  texture := h.texture
  isLiquid := h.isLiquid
  bounds := h.bounds
  inside := by
    rw [List.length_append]
    exact h.inside.trans (Nat.le_add_right _ _)
  count := h.count
  corners := by
    have hInside := h.inside
    rw [List.drop_append_of_le_length (by omega), List.take_append_of_le_length (by simp; omega), ← h.corners]
    refine List.map_congr_left fun index hIndex => ?_
    have hSome : (vertices[index]?).isSome :=
      isSome_of_mem_triangles (h.corners ▸ List.mem_map_of_mem hIndex)
    exact List.getElem?_append_left (by simpa using hSome)

end

/-! ### The assembly -/

def maxVertices : Nat := 4000000

theorem tryU32_getD {n other : Nat} (h : n < 2 ^ 32) : (tryU32 n).getD other = n := by
  rw [tryU32, if_pos h, Option.getD_some]

section

variable {K : Type} [LinearOrder K] [Field K]

def vertexCount (entries : List (PendingFace K × Nat)) : Nat := (entries.map fun entry => entry.1.vertices.length).sum

omit [Field K] in
theorem three_mul_length_le (entries : List (PendingFace K × Nat)) : 3 * entries.length ≤ vertexCount entries := by
  induction entries with
  | nil => exact le_rfl
  | cons entry entries ih =>
    have hPolygon := entry.1.polygon
    simp only [vertexCount, List.map_cons, List.sum_cons, List.length_cons] at ih ⊢
    omega

structure Assembled (atlasScale : K × K) (slots : Nat) (entries : List (PendingFace K × Nat)) (state : Assembly K) :
    Prop where
  vertices_length : state.vertices.length = vertexCount entries
  indices_length : state.indices.length ≤ 3 * vertexCount entries
  faces_length : state.faces.length = entries.length
  permutation_length : state.permutation.length = slots
  placed : ∀ (k : Nat) (entry : PendingFace K × Nat), entries[k]? = some entry → state.permutation[entry.2]? = some k ∧
    ∃ geometry, state.faces[k]? = some geometry ∧ Draws atlasScale state.vertices state.indices geometry entry.1

variable {atlasScale : K × K} {slots : Nat} {entries : List (PendingFace K × Nat)} {entry : PendingFace K × Nat}
  {state : Assembly K}

theorem Assembled.face (h : Assembled atlasScale slots entries state) (hSlot : entry.2 < slots)
    (hFresh : entry.2 ∉ entries.map Prod.snd) (hTotal : vertexCount (entries ++ [entry]) ≤ maxVertices) :
    Assembled atlasScale slots (entries ++ [entry]) (assembleFace atlasScale state (entry, entries.length)) := by
  obtain ⟨face, slot⟩ := entry
  have hCount : vertexCount (entries ++ [(face, slot)]) = vertexCount entries + face.vertices.length := by
    simp [vertexCount]
  have hVertices := h.vertices_length
  have hIndices := h.indices_length
  have hFew := three_mul_length_le entries
  have hPolygon := face.polygon
  rw [hCount, maxVertices] at hTotal
  have hFan := length_fan state.vertices.length face.vertices.length
  have hBase : (tryU32 state.vertices.length).getD u32Max = state.vertices.length := tryU32_getD (by omega)
  have hFirst : (tryU32 state.indices.length).getD u32Max = state.indices.length := tryU32_getD (by omega)
  have hOrdered : (tryU32 entries.length).getD u32Max = entries.length := tryU32_getD (by omega)
  have hLast : (tryU32 (state.indices ++ fan state.vertices.length face.vertices.length).length).getD u32Max -
      state.indices.length = 3 * (face.vertices.length - 2) := by
    rw [tryU32_getD (by rw [List.length_append]; omega), List.length_append]
    omega
  simp only [assembleFace, hBase, hFirst, hOrdered, hLast]
  constructor
  · simp [hVertices, hCount]
  · dsimp only
    rw [List.length_append, hCount]
    omega
  · simp [h.faces_length]
  · simp [h.permutation_length]
  · intro k other hOther
    dsimp only
    rcases Nat.lt_or_ge k entries.length with hOld | hNew
    · rw [List.getElem?_append_left hOld] at hOther
      obtain ⟨hSlot', geometry, hGeometry, hDraws⟩ := h.placed k other hOther
      have hOtherSlot : slot ≠ other.2 := by
        rintro rfl
        exact hFresh (List.mem_map.mpr ⟨other, List.mem_of_getElem? hOther, rfl⟩)
      refine ⟨by rw [List.getElem?_set_ne hOtherSlot, hSlot'], geometry, ?_, hDraws.append⟩
      rw [List.getElem?_append_left (h.faces_length ▸ hOld), hGeometry]
    · obtain ⟨rfl, rfl⟩ : k = entries.length ∧ other = (face, slot) := by
        rw [List.getElem?_append_right hNew] at hOther
        obtain ⟨hZero, rfl⟩ := List.getElem?_eq_some_iff.mp hOther
        simp only [List.length_singleton] at hZero
        exact ⟨by omega, by simp⟩
      refine ⟨List.getElem?_set_self (h.permutation_length ▸ hSlot),
        ⟨face.texture, state.indices.length, 3 * (face.vertices.length - 2), face.bounds, face.isLiquid⟩, ?_, rfl, rfl,
        rfl, ?_, rfl, ?_⟩
      · rw [List.getElem?_append_right h.faces_length.le, h.faces_length, Nat.sub_self]
        rfl
      · dsimp only
        rw [List.length_append]
        omega
      · dsimp only
        rw [List.drop_left, List.take_of_length_le (by omega)]
        have hCorners : (face.vertices.map (WorldVertex.scaled atlasScale)).length < 2 ^ 32 := by
          rw [List.length_map]
          omega
        have hMap := @map_fan _ state.vertices _ [] hCorners
        rwa [List.append_nil, List.length_map] at hMap

theorem assembled_foldl (bounds : Aabb K) (entries : List (PendingFace K × Nat)) (hNodup : (entries.map Prod.snd).Nodup)
    (hSlots : ∀ entry ∈ entries, entry.2 < slots) (hTotal : vertexCount entries ≤ maxVertices) :
    Assembled atlasScale slots entries
      (entries.zipIdx.foldl (assembleFace atlasScale) ⟨[], [], bounds, [], [], [], List.replicate slots 0⟩) := by
  induction entries using List.reverseRecOn with
  | nil => exact ⟨rfl, Nat.zero_le _, rfl, List.length_replicate, nofun⟩
  | append_singleton entries entry ih =>
    rw [List.map_append, List.nodup_append] at hNodup
    obtain ⟨hBefore, -, hApart⟩ := hNodup
    have hLess : vertexCount entries ≤ maxVertices := by
      refine le_trans ?_ hTotal
      simp [vertexCount]
    have hIh := ih hBefore (fun other hMem => hSlots other (List.mem_append_left _ hMem)) hLess
    rw [List.zipIdx_append, List.foldl_append, Nat.zero_add]
    refine hIh.face (hSlots entry (List.mem_append_right _ List.mem_cons_self)) ?_ hTotal
    exact fun hMem => hApart _ hMem _ List.mem_cons_self rfl

omit [Field K] in
theorem vertexCount_faceOrder (pending : List (PendingFace K)) :
    vertexCount (faceOrder pending) = (pending.map fun face => face.vertices.length).sum := by
  rw [vertexCount, ((faceOrder_perm pending).map _).sum_nat, ← List.zipIdx_map_fst 0 pending, List.map_map,
    List.zipIdx_map_fst]
  rfl

theorem assembled {pending : List (PendingFace K)}
    (hTotal : (pending.map fun face => face.vertices.length).sum ≤ maxVertices) :
    Assembled atlasScale pending.length (faceOrder pending) (assemble pending atlasScale) := by
  have hPerm := faceOrder_perm pending
  have hSlots : (pending.zipIdx.map Prod.snd).Nodup := by
    rw [List.zipIdx_map_snd]
    exact List.nodup_range'
  refine assembled_foldl .empty _ ((hPerm.map Prod.snd).nodup_iff.mpr hSlots) (fun entry hMem => ?_) ?_
  · obtain ⟨hSlot, -⟩ := List.mem_zipIdx' (hPerm.mem_iff.mp hMem)
    exact hSlot
  · rwa [vertexCount_faceOrder]

end

end OpenHalfLife.World
