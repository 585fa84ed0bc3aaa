import OpenHalfLife.World.Collected
import Mathlib.Algebra.Order.BigOperators.Group.List

/-! # Draw lists

The faces to draw for an eye: those of the leaves it may see, as far as they may be in view. Opaque faces
and those of liquids are listed apart.
-/

namespace OpenHalfLife.World

set_option autoImplicit false

structure Pass where
  indices : List Nat
  batches : List DrawBatch
  current : Option DrawBatch

def Pass.empty : Pass := ⟨[], [], none⟩

def Pass.add (pass : Pass) (texture indexCount : Nat) (range : List Nat) : Pass :=
  let fresh : DrawBatch := ⟨texture, (tryU32 pass.indices.length).getD u32Max, indexCount⟩
  let indices := pass.indices ++ range
  match pass.current with
  | some batch =>
    if batch.texture = texture then
      { pass with indices, current := some { batch with indexCount := batch.indexCount + indexCount } }
    else { indices, batches := pass.batches ++ [batch], current := some fresh }
  | none => { pass with indices, current := some fresh }

def Pass.finish (pass : Pass) : List DrawBatch := pass.batches ++ pass.current.toList

structure DrawList where
  indices : List Nat
  batches : List DrawBatch
  liquidIndices : List Nat
  liquidBatches : List DrawBatch
  skyVisible : Bool

def raise (visible : List Bool) (slots : List Nat) : List Bool := slots.foldl (fun visible slot => visible.set slot true) visible

namespace WorldModel

variable {K : Type} [Field K] [LinearOrder K] (model : WorldModel K)

def seeLeaf (leaf : Nat) (flags : List Bool × Bool) (other : Nat) : List Bool × Bool :=
  if model.vis.isVisible leaf other then
    (raise flags.1 (model.leafFaceSlots other), flags.2 || model.leafHasSky.getD other false)
  else flags

def visibleFrom (leaf : Nat) : List Bool × Bool :=
  (List.range model.leafFaces.length).foldl (model.seeLeaf leaf) (List.replicate model.faces.length false, false)

def visible (eye : Vec3 K) : List Bool × Bool :=
  match model.tree.leafAt eye with
  | some leaf =>
    if leaf ≠ 0 ∧ model.vis.leafCount > 0 then model.visibleFrom leaf
    else (List.replicate model.faces.length true, model.hasSky)
  | none => (List.replicate model.faces.length true, model.hasSky)

def range (face : FaceGeometry K) : Option (List Nat) :=
  if face.firstIndex + face.indexCount ≤ model.indices.length then
    some ((model.indices.drop face.firstIndex).take face.indexCount)
  else none

def drawFace (visible : List Bool) (frustum : Option (Frustum K)) (passes : Pass × Pass)
    (entry : FaceGeometry K × Nat) : Pass × Pass :=
  let (face, slot) := entry
  if !visible.getD slot false then passes
  else if frustum.any fun frustum => !frustum.intersects face.bounds then passes
  else
    match model.range face with
    | none => passes
    | some range =>
      if face.isLiquid then (passes.1, passes.2.add face.texture face.indexCount range)
      else (passes.1.add face.texture face.indexCount range, passes.2)

def buildDrawList (eye : Vec3 K) (frustum : Option (Frustum K)) : DrawList :=
  let (visible, skyVisible) := model.visible eye
  let (pass, liquid) := model.faces.zipIdx.foldl (model.drawFace visible frustum) (.empty, .empty)
  { indices := pass.indices
    batches := pass.finish
    liquidIndices := liquid.indices
    liquidBatches := liquid.finish
    skyVisible }

end WorldModel

/-! ### One list -/

def DrawBatch.batch (batch : DrawBatch) : Batch Nat := ⟨batch.texture, batch.firstIndex, batch.indexCount⟩

section

variable {K : Type} {parts : FaceGeometry K → List Nat} {items : List (FaceGeometry K)} {face : FaceGeometry K}
  {pass : Pass}

structure Pass.Lists (parts : FaceGeometry K → List Nat) (items : List (FaceGeometry K)) (pass : Pass) : Prop where
  batched : Batched FaceGeometry.texture parts items pass.indices (pass.finish.map DrawBatch.batch)
  first : pass.current = none → pass.batches = []

theorem Pass.lists_empty (parts : FaceGeometry K → List Nat) : Pass.empty.Lists parts [] :=
  ⟨.nil, fun _ => rfl⟩

theorem Pass.Lists.add (h : pass.Lists parts items) (hCount : (parts face).length = face.indexCount)
    (hFits : pass.indices.length < 2 ^ 32) (hSorted : ∀ item ∈ items, item.texture ≤ face.texture) :
    (pass.add face.texture face.indexCount (parts face)).Lists parts (items ++ [face]) := by
  obtain ⟨hBatched, hFirst⟩ := h
  rw [Pass.finish, List.map_append] at hBatched
  simp only [Pass.add, tryU32_getD hFits]
  cases hCurrent : pass.current with
  | none =>
    rw [hCurrent, hFirst hCurrent] at hBatched
    have hBegin : Batched _ _ (items ++ [face]) _ _ := hBatched.begin nofun
    refine ⟨?_, nofun⟩
    simpa [Pass.finish, DrawBatch.batch, hFirst hCurrent, hCount] using hBegin
  | some batch =>
    rw [hCurrent] at hBatched
    change Batched _ _ _ _ (_ ++ [batch.batch]) at hBatched
    dsimp only
    split <;> rename_i hTexture
    · refine ⟨?_, nofun⟩
      simpa [Pass.finish, DrawBatch.batch, hCount] using hBatched.grow hTexture
    · refine ⟨?_, nofun⟩
      have hLater : ∀ other ∈ pass.batches.map DrawBatch.batch ++ [batch.batch], other.key < face.texture := by
        intro other hOther
        obtain ⟨item, hItem, hKey⟩ := hBatched.used batch.batch (List.mem_append_right _ List.mem_cons_self)
        have hLast : batch.texture < face.texture :=
          lt_of_le_of_ne (hKey ▸ hSorted item hItem : batch.batch.key ≤ face.texture) hTexture
        exact (hBatched.lt_last other hOther).trans_lt hLast
      simpa [Pass.finish, DrawBatch.batch, hCount] using hBatched.begin hLater

end

/-! ### Both lists -/

namespace WorldModel

variable {K : Type} [Field K] [LinearOrder K] (model : WorldModel K)

def part (face : FaceGeometry K) : List Nat := (model.indices.drop face.firstIndex).take face.indexCount

def selects (visible : List Bool) (frustum : Option (Frustum K)) (entry : FaceGeometry K × Nat) : Bool :=
  visible.getD entry.2 false && frustum.all fun frustum => frustum.intersects entry.1.bounds

def chosen (visible : List Bool) (frustum : Option (Frustum K)) (entries : List (FaceGeometry K × Nat)) (liquid : Bool) :
    List (FaceGeometry K) :=
  ((entries.filter (selects visible frustum)).map Prod.fst).filter fun face => face.isLiquid = liquid

def selected (eye : Vec3 K) (frustum : Option (Frustum K)) (liquid : Bool) : List (FaceGeometry K) :=
  chosen (model.visible eye).1 frustum model.faces.zipIdx liquid

variable {model} {visible : List Bool} {frustum : Option (Frustum K)} {entries : List (FaceGeometry K × Nat)}
  {entry : FaceGeometry K × Nat} {passes : Pass × Pass}

theorem drawFace_of_not (h : selects visible frustum entry = false) :
    model.drawFace visible frustum passes entry = passes := by
  rw [selects, Bool.and_eq_false_iff] at h
  simp only [drawFace]
  rcases h with hHidden | hOutside
  · rw [hHidden]
    rfl
  · cases frustum with
    | none => cases hOutside
    | some frustum =>
      simp only [Option.all_some] at hOutside
      simp [hOutside]

theorem drawFace_of_selects (h : selects visible frustum entry = true)
    (hInside : entry.1.firstIndex + entry.1.indexCount ≤ model.indices.length) :
    model.drawFace visible frustum passes entry =
      if entry.1.isLiquid then (passes.1, passes.2.add entry.1.texture entry.1.indexCount (model.part entry.1))
      else (passes.1.add entry.1.texture entry.1.indexCount (model.part entry.1), passes.2) := by
  rw [selects, Bool.and_eq_true] at h
  obtain ⟨hVisible, hView⟩ := h
  have hAny : (frustum.any fun frustum => !frustum.intersects entry.1.bounds) = false := by
    cases frustum with
    | none => rfl
    | some frustum => simpa using hView
  simp only [drawFace, hVisible, hAny, range, if_pos hInside]
  rfl

theorem chosen_append_of_not (liquid : Bool) (h : selects visible frustum entry = false) :
    chosen visible frustum (entries ++ [entry]) liquid = chosen visible frustum entries liquid := by
  simp [chosen, List.filter_append, h]

theorem chosen_append_of_selects (liquid : Bool) (h : selects visible frustum entry = true) :
    chosen visible frustum (entries ++ [entry]) liquid =
      if entry.1.isLiquid = liquid then chosen visible frustum entries liquid ++ [entry.1]
      else chosen visible frustum entries liquid := by
  simp only [chosen, List.filter_append, h, List.filter_cons_of_pos, List.filter_nil, List.map_append, List.map_cons,
    List.map_nil]
  split <;> rename_i hPass
  · simp [hPass]
  · simp [hPass]

theorem chosen_sublist (liquid : Bool) : List.Sublist (chosen visible frustum entries liquid)
    ((entries.map Prod.fst).filter fun face => face.isLiquid = liquid) :=
  (List.filter_sublist.map _).filter _

omit [Field K] [LinearOrder K] in
theorem length_part {face : FaceGeometry K} (h : face.firstIndex + face.indexCount ≤ model.indices.length) :
    (model.part face).length = face.indexCount := by
  rw [part, List.length_take, List.length_drop]
  omega

omit [Field K] [LinearOrder K] in
theorem Ready.before {faces more : List (FaceGeometry K)} (h : model.Ready (faces ++ more)) : model.Ready faces where
  inside face hMem := h.inside face (List.mem_append_left _ hMem)
  few := by
    have hFew := h.few
    rw [List.map_append, List.sum_append] at hFew
    omega
  sorted liquid := by
    have hSorted := h.sorted liquid
    rw [List.filter_append, List.map_append, List.pairwise_append] at hSorted
    exact hSorted.1

structure Drawing (model : WorldModel K) (visible : List Bool) (frustum : Option (Frustum K))
    (entries : List (FaceGeometry K × Nat)) (passes : Pass × Pass) : Prop where
  plain : passes.1.Lists model.part (chosen visible frustum entries false)
  liquid : passes.2.Lists model.part (chosen visible frustum entries true)

theorem length_indices_lt {liquid : Bool} {pass : Pass}
    (h : pass.Lists model.part (chosen visible frustum entries liquid)) (hReady : model.Ready (entries.map Prod.fst)) :
    pass.indices.length < 2 ^ 32 := by
  have hSublist : List.Sublist (chosen visible frustum entries liquid) (entries.map Prod.fst) :=
    (chosen_sublist liquid).trans List.filter_sublist
  have hParts : (chosen visible frustum entries liquid).map (List.length ∘ model.part) =
      (chosen visible frustum entries liquid).map FaceGeometry.indexCount :=
    List.map_congr_left fun face hMem => length_part (hReady.inside face (hSublist.subset hMem))
  have hLength : pass.indices.length = ((chosen visible frustum entries liquid).map FaceGeometry.indexCount).sum := by
    rw [h.batched.written_eq, List.length_flatMap, ← hParts]
    rfl
  rw [hLength]
  exact ((hSublist.map _).sum_le_sum fun _ _ => Nat.zero_le _).trans_lt hReady.few

theorem texture_le {liquid : Bool} (hReady : model.Ready ((entries ++ [entry]).map Prod.fst))
    (hPass : entry.1.isLiquid = liquid) :
    ∀ item ∈ chosen visible frustum entries liquid, item.texture ≤ entry.1.texture := by
  intro item hMem
  have hSorted := hReady.sorted liquid
  rw [List.map_append, List.filter_append, List.map_append, List.pairwise_append] at hSorted
  exact hSorted.2.2 _ (List.mem_map_of_mem ((chosen_sublist liquid).subset hMem)) _ (by simp [hPass])

theorem Drawing.face (h : Drawing model visible frustum entries passes)
    (hReady : model.Ready ((entries ++ [entry]).map Prod.fst)) :
    Drawing model visible frustum (entries ++ [entry]) (model.drawFace visible frustum passes entry) := by
  cases hSelects : selects visible frustum entry with
  | false =>
    rw [drawFace_of_not hSelects]
    exact ⟨(chosen_append_of_not false hSelects).symm ▸ h.plain, (chosen_append_of_not true hSelects).symm ▸ h.liquid⟩
  | true =>
    have hInside := hReady.inside entry.1 (by simp)
    have hBefore : model.Ready (entries.map Prod.fst) := by
      rw [List.map_append] at hReady
      exact hReady.before
    rw [drawFace_of_selects hSelects hInside]
    cases hLiquid : entry.1.isLiquid with
    | false =>
      refine ⟨?_, ?_⟩
      · rw [chosen_append_of_selects false hSelects, if_pos hLiquid]
        exact h.plain.add (length_part hInside) (length_indices_lt h.plain hBefore) (texture_le hReady hLiquid)
      · rw [chosen_append_of_selects true hSelects, hLiquid]
        exact h.liquid
    | true =>
      refine ⟨?_, ?_⟩
      · rw [chosen_append_of_selects false hSelects, hLiquid]
        exact h.plain
      · rw [chosen_append_of_selects true hSelects, if_pos hLiquid]
        exact h.liquid.add (length_part hInside) (length_indices_lt h.liquid hBefore) (texture_le hReady hLiquid)

theorem drawing_foldl (entries : List (FaceGeometry K × Nat)) (hReady : model.Ready (entries.map Prod.fst)) :
    Drawing model visible frustum entries (entries.foldl (model.drawFace visible frustum) (.empty, .empty)) := by
  induction entries using List.reverseRecOn with
  | nil => exact ⟨Pass.lists_empty _, Pass.lists_empty _⟩
  | append_singleton entries entry ih =>
    rw [List.foldl_append]
    have hBefore : model.Ready (entries.map Prod.fst) := by
      rw [List.map_append] at hReady
      exact hReady.before
    exact (ih hBefore).face hReady

/-! ### What may be seen -/

/-- Every face, or those of the leaves visible from the leaf of the eye. -/
def MaySee (model : WorldModel K) (eye : Vec3 K) (slot : Nat) : Prop :=
  ∀ leaf, model.tree.leafAt eye = some leaf → leaf ≠ 0 → model.vis.leafCount > 0 →
    ∃ other < model.leafFaces.length, model.vis.isVisible leaf other = true ∧ slot ∈ model.leafFaceSlots other

theorem length_raise (visible : List Bool) (slots : List Nat) : (raise visible slots).length = visible.length := by
  induction slots generalizing visible with
  | nil => rfl
  | cons slot slots ih => exact (ih _).trans List.length_set

theorem getD_raise (visible : List Bool) (slots : List Nat) {slot : Nat} (h : slot < visible.length) :
    (raise visible slots).getD slot false = true ↔ visible.getD slot false = true ∨ slot ∈ slots := by
  induction slots generalizing visible with
  | nil => simp [raise]
  | cons first slots ih =>
    have hSet : (visible.set first true).getD slot false = true ↔ visible.getD slot false = true ∨ slot = first := by
      rcases eq_or_ne first slot with rfl | hNe
      · simp [h]
      · simp [List.getElem?_set_ne hNe, hNe.symm]
    have hStep := ih (visible.set first true) (by rwa [List.length_set])
    rw [raise, List.foldl_cons, ← raise, hStep, hSet, List.mem_cons, or_assoc]

omit [Field K] [LinearOrder K] in
theorem foldl_seeLeaf (leaf : Nat) (others : List Nat) (flags : List Bool × Bool) {slot : Nat}
    (h : slot < flags.1.length) : (others.foldl (model.seeLeaf leaf) flags).1.getD slot false = true ↔
      flags.1.getD slot false = true ∨
        ∃ other ∈ others, model.vis.isVisible leaf other = true ∧ slot ∈ model.leafFaceSlots other := by
  induction others generalizing flags with
  | nil => simp
  | cons other others ih =>
    rw [List.foldl_cons]
    cases hVisible : model.vis.isVisible leaf other with
    | false =>
      have hStep : model.seeLeaf leaf flags other = flags := by simp [seeLeaf, hVisible]
      rw [hStep, ih _ h]
      simp [hVisible]
    | true =>
      have hStep : (model.seeLeaf leaf flags other).1 = raise flags.1 (model.leafFaceSlots other) := by
        simp [seeLeaf, hVisible]
      rw [ih _ (by rwa [hStep, length_raise]), hStep, getD_raise _ _ h]
      simp [hVisible, or_assoc]

theorem visible_iff (eye : Vec3 K) {slot : Nat} (h : slot < model.faces.length) :
    (model.visible eye).1.getD slot false = true ↔ model.MaySee eye slot := by
  have hAll : (List.replicate model.faces.length true).getD slot false = true := by simp [h]
  rw [visible, MaySee]
  cases hLeaf : model.tree.leafAt eye with
  | none => simp [h]
  | some leaf =>
    dsimp only
    split <;> rename_i hSeen
    · rw [visibleFrom, foldl_seeLeaf _ _ _ (by simpa using h)]
      simp [h, hSeen.1, hSeen.2]
    · simp only [hAll, true_iff]
      rintro _ ⟨⟩ hLeaf' hCount
      exact absurd ⟨hLeaf', hCount⟩ hSeen

end WorldModel

/-! ### The list for an eye -/

section

variable {K : Type} [Field K] [LinearOrder K]

/-- A face that a leaf visible from the eye's refers to, or any when the eye is in no such leaf. -/
def WorldModel.Refers (model : WorldModel K) (source : WorldSource K) (eye : Vec3 K) (f : Nat) : Prop :=
  ∀ leaf, model.tree.leafAt eye = some leaf → leaf ≠ 0 → ∃ (other : Nat) (bspLeaf : BspLeaf),
    source.leaves[other]? = some bspLeaf ∧ model.vis.isVisible leaf other = true ∧ f ∈ bspLeaf.marks source.marksurfaces

def BspFace.InView (face : BspFace K) (frustum : Option (Frustum K)) : Prop :=
  ∀ view, frustum = some view →
    ∃ point, Spanned (face.vertices.map WorldVertex.position) point ∧ view.containsPoint point = true

/-- The lists for an eye hold the chosen faces, and none that can be seen is left out. -/
structure DrawsExactly (source : WorldSource K) (model : WorldModel K) (eye : Vec3 K) (frustum : Option (Frustum K))
    (list : DrawList) : Prop where
  plain : Batched FaceGeometry.texture model.part (model.selected eye frustum false) list.indices
    (list.batches.map DrawBatch.batch)
  liquid : Batched FaceGeometry.texture model.part (model.selected eye frustum true) list.liquidIndices
    (list.liquidBatches.map DrawBatch.batch)
  seen : ∀ slot < model.faces.length, (model.visible eye).1.getD slot false = true ↔ model.MaySee eye slot
  conservative : ∃ place, Placed source model place ∧ ∀ f face, source.Draws f face → face.InView frustum →
    model.Refers source eye f → ∃ geometry, model.faces[place f]? = some geometry ∧
      WorldModel.selects (model.visible eye).1 frustum (geometry, place f) = true

variable [IsStrictOrderedRing K] {source : WorldSource K} {model : WorldModel K}

theorem intersects_of_inView {geometry : FaceGeometry K} {pending : PendingFace K} {face : BspFace K}
    {frustum : Option (Frustum K)} {vertices : List (WorldVertex K)} {indices : List Nat} {atlasScale : K × K}
    (hGives : face.Gives pending) (hDraws : Draws atlasScale vertices indices geometry pending)
    (h : face.InView frustum) : (frustum.all fun frustum => frustum.intersects geometry.bounds) = true := by
  cases frustum with
  | none => rfl
  | some view =>
    obtain ⟨point, hSpanned, hInside⟩ := h view rfl
    rw [← hGives.vertices] at hSpanned
    have hHeld : geometry.bounds.Holds point := by
      rw [hDraws.bounds, pending.bounded]
      exact hSpanned.held
    exact Frustum.intersects_of_holds hHeld hInside

/-- Draw lists are exact, and leave out nothing that can be seen. -/
theorem drawsExactly (h : WorldModel.build source = .ok model) (eye : Vec3 K) (frustum : Option (Frustum K)) :
    DrawsExactly source model eye frustum (model.buildDrawList eye frustum) := by
  obtain ⟨⟨place, hPlaced⟩, hReady⟩ := placed_build h
  have hZip : model.faces.zipIdx.map Prod.fst = model.faces := List.zipIdx_map_fst 0 model.faces
  have hDrawing : WorldModel.Drawing model (model.visible eye).1 frustum model.faces.zipIdx _ :=
    WorldModel.drawing_foldl model.faces.zipIdx (by rwa [hZip])
  refine ⟨hDrawing.plain.batched, hDrawing.liquid.batched, fun slot hSlot => WorldModel.visible_iff eye hSlot, place,
    hPlaced, fun f face hDraws hView hRefers => ?_⟩
  obtain ⟨geometry, pending, hGeometry, hGives, hDrawn⟩ := hPlaced.drawn f face hDraws
  refine ⟨geometry, hGeometry, ?_⟩
  have hSlot : place f < model.faces.length := (List.getElem?_eq_some_iff.mp hGeometry).1
  rw [WorldModel.selects, Bool.and_eq_true, intersects_of_inView hGives hDrawn hView]
  refine ⟨(WorldModel.visible_iff eye hSlot).mpr fun leaf hLeaf hOutside _ => ?_, rfl⟩
  obtain ⟨other, bspLeaf, hOther, hVisible, hMark⟩ := hRefers leaf hLeaf hOutside
  obtain ⟨hLess, hMem⟩ := hPlaced.leaf other bspLeaf hOther f face hMark hDraws
  exact ⟨other, hLess, hVisible, hMem⟩

end

/-! ### A map of two faces -/

def sampleVertex (x y z : ℚ) : WorldVertex ℚ := ⟨⟨x, y, z⟩, (0, 0), (0, 0)⟩

def samplePool : WorldSource ℚ where
  faces :=
    [⟨1, [sampleVertex 0 0 0, sampleVertex 1 0 0, sampleVertex 0 1 0], false, true, true⟩,
      ⟨0, [sampleVertex 0 0 1, sampleVertex 1 0 1, sampleVertex 1 1 1, sampleVertex 0 1 1], false, false, true⟩]
  firstFace := 0
  faceCount := 2
  leaves := [⟨0, 0, -1⟩, ⟨0, 2, -1⟩]
  marksurfaces := [0, 1]
  visLump := []
  nodes := []
  planes := []
  maxWalkDepth := 1
  atlasScale := (1, 1)

/-- Of an opaque face and the liquid one before it, in a leaf that sees everything. -/
theorem drawsExactly_pool : ∃ model, WorldModel.build samplePool = .ok model ∧ ∀ eye frustum,
    DrawsExactly samplePool model eye frustum (model.buildDrawList eye frustum) := by
  obtain ⟨model, hBuild⟩ := Result.exists_ok (show (WorldModel.build samplePool).isOk = true by decide +kernel)
  exact ⟨model, hBuild, drawsExactly hBuild⟩

end OpenHalfLife.World
