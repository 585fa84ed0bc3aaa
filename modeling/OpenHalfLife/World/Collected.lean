import OpenHalfLife.World.Model

/-! # Where a face of the map is found

Every face that is drawn has one slot among those in order, and the leaves that refer to it know it by
that slot.
-/

namespace OpenHalfLife.World

set_option autoImplicit false

section

variable {K : Type} [LinearOrder K]

structure BspFace.Drawn (face : BspFace K) : Prop where
  visible : face.isSky = false
  polygon : 3 ≤ face.vertices.length
  projects : face.projects = true

structure BspFace.Gives (face : BspFace K) (pending : PendingFace K) : Prop where
  texture : pending.texture = face.texture
  vertices : pending.vertices = face.vertices
  isLiquid : pending.isLiquid = face.isLiquid

/-! ### Collecting -/

/-- Of the faces gone through so far, each that is drawn has a pending slot of its own. -/
structure Collecting (faces : List (BspFace K)) (seen : List Nat) (state : Collected K) : Prop where
  few : (state.pending.map fun face => face.vertices.length).sum ≤ state.totalVertices
  total : state.totalVertices ≤ maxVertices
  slots : state.faceSlot.length = faces.length
  given : ∀ (f s : Nat), state.faceSlot[f]? = some s → s ≠ noSlot → f ∈ seen ∧ ∃ face pending,
    faces[f]? = some face ∧ face.Drawn ∧ state.pending[s]? = some pending ∧ face.Gives pending
  drawn : ∀ (f : Nat) (face : BspFace K), f ∈ seen → faces[f]? = some face → face.Drawn →
    ∃ s, state.faceSlot[f]? = some s ∧ s ≠ noSlot
  injective : ∀ (f g s : Nat), state.faceSlot[f]? = some s → state.faceSlot[g]? = some s → s ≠ noSlot → f = g
  onto : ∀ s < state.pending.length, ∃ f : Nat, state.faceSlot[f]? = some s

variable {faces : List (BspFace K)} {seen : List Nat} {state out : Collected K} {face : BspFace K} {bspFace : Nat}

theorem sum_vertices_ge (pending : List (PendingFace K)) :
    3 * pending.length ≤ (pending.map fun face => face.vertices.length).sum := by
  induction pending with
  | nil => exact le_rfl
  | cons face pending ih =>
    have hPolygon := face.polygon
    simp only [List.map_cons, List.sum_cons, List.length_cons]
    omega

theorem Collecting.pending_length (h : Collecting faces seen state) : state.pending.length < noSlot := by
  have hMany := sum_vertices_ge state.pending
  have hFew := h.few
  have hTotal := h.total
  simp only [maxVertices, noSlot, u32Max] at hTotal ⊢
  omega

theorem Collecting.pass (h : Collecting faces seen state) (hFace : faces[bspFace]? = some face) (hNot : ¬ face.Drawn)
    (hPending : out.pending = state.pending) (hSlot : out.faceSlot = state.faceSlot)
    (hMore : state.totalVertices ≤ out.totalVertices) (hTotal : out.totalVertices ≤ maxVertices) :
    Collecting faces (bspFace :: seen) out where
  few := by
    rw [hPending]
    exact h.few.trans hMore
  total := hTotal
  slots := hSlot ▸ h.slots
  given f s hf hs := by
    rw [hSlot] at hf
    rw [hPending]
    obtain ⟨hSeen, hGiven⟩ := h.given f s hf hs
    exact ⟨List.mem_cons_of_mem _ hSeen, hGiven⟩
  drawn f other hSeen hOther hDrawn := by
    rw [hSlot]
    rcases List.mem_cons.mp hSeen with rfl | hSeen
    · exact absurd (Option.some.inj (hFace.symm.trans hOther) ▸ hDrawn) hNot
    · exact h.drawn f other hSeen hOther hDrawn
  injective := hSlot ▸ h.injective
  onto := hSlot ▸ hPending ▸ h.onto

theorem Collecting.add {pending : PendingFace K} {totalVertices : Nat} (h : Collecting faces seen state)
    (hFace : faces[bspFace]? = some face) (hDrawn : face.Drawn) (hFresh : bspFace ∉ seen) (hGives : face.Gives pending)
    (hMore : totalVertices = state.totalVertices + pending.vertices.length) (hTotal : totalVertices ≤ maxVertices) :
    Collecting faces (bspFace :: seen)
      { state with
        totalVertices
        faceSlot := state.faceSlot.set bspFace state.pending.length
        pending := state.pending ++ [pending] } := by
  have hLength := h.pending_length
  have hInside : bspFace < state.faceSlot.length := by
    rw [h.slots]
    exact (List.getElem?_eq_some_iff.mp hFace).1
  have hOld (f : Nat) (hf : f ≠ bspFace) : (state.faceSlot.set bspFace state.pending.length)[f]? = state.faceSlot[f]? :=
    List.getElem?_set_ne hf.symm
  have hNew : (state.faceSlot.set bspFace state.pending.length)[bspFace]? = some state.pending.length :=
    List.getElem?_set_self hInside
  have hBelow (f s : Nat) (hf : state.faceSlot[f]? = some s) (hs : s ≠ noSlot) : s < state.pending.length := by
    obtain ⟨-, _, _, -, -, hPending, -⟩ := h.given f s hf hs
    exact (List.getElem?_eq_some_iff.mp hPending).1
  constructor
  · have hFew := h.few
    simp only [List.map_append, List.sum_append, List.map_cons, List.map_nil, List.sum_cons, List.sum_nil]
    omega
  · exact hTotal
  · exact List.length_set.trans h.slots
  · intro f s hf hs
    dsimp only at hf ⊢
    by_cases hEq : f = bspFace
    · subst hEq
      obtain rfl := Option.some.inj (hNew.symm.trans hf)
      refine ⟨List.mem_cons_self, face, pending, hFace, hDrawn, ?_, hGives⟩
      rw [List.getElem?_append_right le_rfl, Nat.sub_self]
      rfl
    · rw [hOld f hEq] at hf
      obtain ⟨hSeen, other, old, hOther, hDrawn', hPending, hGives'⟩ := h.given f s hf hs
      refine ⟨List.mem_cons_of_mem _ hSeen, other, old, hOther, hDrawn', ?_, hGives'⟩
      rw [List.getElem?_append_left (hBelow f s hf hs), hPending]
  · intro f other hSeen hOther hDrawn'
    dsimp only
    by_cases hEq : f = bspFace
    · subst hEq
      exact ⟨_, hNew, hLength.ne⟩
    · rw [hOld f hEq]
      exact h.drawn f other ((List.mem_cons.mp hSeen).resolve_left hEq) hOther hDrawn'
  · intro f g s hf hg hs
    dsimp only at hf hg
    by_cases hf' : f = bspFace <;> by_cases hg' : g = bspFace
    · rw [hf', hg']
    · rw [hf', hNew] at hf
      rw [hOld g hg'] at hg
      exact absurd (Option.some.inj hf) (hBelow g s hg hs).ne'
    · rw [hg', hNew] at hg
      rw [hOld f hf'] at hf
      exact absurd (Option.some.inj hg) (hBelow f s hf hs).ne'
    · rw [hOld f hf'] at hf
      rw [hOld g hg'] at hg
      exact h.injective f g s hf hg hs
  · intro s hs
    dsimp only at hs ⊢
    rw [List.length_append, List.length_singleton] at hs
    rcases Nat.lt_succ_iff_lt_or_eq.mp hs with hLess | rfl
    · obtain ⟨f, hf⟩ := h.onto s hLess
      refine ⟨f, ?_⟩
      rw [hOld f, hf]
      rintro rfl
      exact hFresh (h.given f s hf (hLess.trans hLength).ne).1
    · exact ⟨bspFace, hNew⟩

theorem Collecting.step (h : Collecting faces seen state) (hFace : faces[bspFace]? = some face) (hFresh : bspFace ∉ seen)
    (hStep : collectFace state (face, bspFace) = .ok out) : Collecting faces (bspFace :: seen) out := by
  simp only [collectFace] at hStep
  split at hStep <;> rename_i hSky
  · cases hStep
    exact h.pass hFace (fun hDrawn => Bool.false_ne_true (hDrawn.visible.symm.trans hSky)) rfl rfl le_rfl h.total
  · split at hStep <;> rename_i hPolygon
    · cases hStep
      exact h.pass hFace (fun hDrawn => Nat.not_lt.mpr hDrawn.polygon hPolygon) rfl rfl le_rfl h.total
    · split at hStep <;> rename_i hTotal
      · cases hStep
      · split at hStep <;> rename_i hProjects
        · cases hStep
          refine h.pass hFace (fun hDrawn => ?_) rfl rfl (Nat.le_add_right _ _) (Nat.not_lt.mp hTotal)
          rw [hDrawn.projects] at hProjects
          cases hProjects
        · have hFits : state.pending.length < 2 ^ 32 := h.pending_length.trans (by decide)
          rw [tryU32, if_pos hFits] at hStep
          cases hStep
          have hDrawn : face.Drawn :=
            ⟨Bool.eq_false_iff.mpr hSky, Nat.le_of_not_lt hPolygon, by simpa using hProjects⟩
          exact h.add hFace hDrawn hFresh ⟨rfl, rfl, rfl⟩ rfl (Nat.not_lt.mp hTotal)

theorem Collecting.run {entries : List (BspFace K × Nat)} (h : Collecting faces seen state)
    (hFaces : ∀ entry ∈ entries, faces[entry.2]? = some entry.1) (hNodup : (entries.map Prod.snd).Nodup)
    (hFresh : ∀ entry ∈ entries, entry.2 ∉ seen) (hRun : entries.foldlM collectFace state = .ok out) :
    Collecting faces ((entries.map Prod.snd).reverse ++ seen) out := by
  induction entries generalizing seen state with
  | nil =>
    cases hRun
    exact h
  | cons entry entries ih =>
    obtain ⟨face, bspFace⟩ := entry
    rw [List.foldlM_cons] at hRun
    obtain ⟨next, hStep, hRest⟩ := Result.bind_eq_ok.mp hRun
    rw [List.map_cons, List.nodup_cons] at hNodup
    have hNext := h.step (hFaces _ List.mem_cons_self) (hFresh _ List.mem_cons_self) hStep
    have hOut := ih hNext (fun entry hMem => hFaces entry (List.mem_cons_of_mem _ hMem)) hNodup.2 ?_ hRest
    · simpa using hOut
    · intro other hMem hSeen
      rcases List.mem_cons.mp hSeen with hEq | hSeen
      · exact hNodup.1 (hEq ▸ List.mem_map_of_mem hMem)
      · exact hFresh other (List.mem_cons_of_mem _ hMem) hSeen

theorem Collecting.start (faces : List (BspFace K)) : Collecting faces []
    ⟨[], List.replicate faces.length noSlot, List.replicate faces.length false, 0, 0⟩ where
  few := le_rfl
  total := Nat.zero_le _
  slots := List.length_replicate
  given _ _ hf hs := absurd (List.eq_of_mem_replicate (List.mem_of_getElem? hf)) hs
  drawn _ _ hSeen := absurd hSeen List.not_mem_nil
  injective _ _ _ hf _ hs := absurd (List.eq_of_mem_replicate (List.mem_of_getElem? hf)) hs
  onto _ hs := absurd hs (Nat.not_lt_zero _)

theorem collecting_collect {firstFace faceCount : Nat} (h : collect faces firstFace faceCount = .ok out) :
    Collecting faces (List.range' firstFace faceCount).reverse out := by
  rw [collect] at h
  split at h <;> rename_i hInside
  · cases h
  · have hSlots : (((faces.zipIdx.drop firstFace).take faceCount).map Prod.snd) = List.range' firstFace faceCount := by
      rw [List.map_take, List.map_drop, List.zipIdx_map_snd, List.drop_range', List.take_range'_of_length_ge (by omega)]
      congr 1
      omega
    have hRun := (Collecting.start faces).run (fun entry hMem => ?_) (hSlots ▸ List.nodup_range') (fun _ _ => nofun) h
    · rwa [hSlots, List.append_nil] at hRun
    · exact List.mem_zipIdx_iff_getElem?.mp (List.mem_of_mem_drop (List.mem_of_mem_take hMem))

end

/-! ### The leaves -/

structure Tabled (marksurfaces faceSlot : List Nat) (leaves : List BspLeaf) (table : LeafTable) : Prop where
  length : table.leafFaces.length = leaves.length
  slots : ∀ (i : Nat) (leaf : BspLeaf), leaves[i]? = some leaf → ∃ start count, table.leafFaces[i]? = some (start, count) ∧
    start + count ≤ table.leafFaceList.length ∧
    (table.leafFaceList.drop start).take count = leaf.slots marksurfaces faceSlot

section

variable {marksurfaces faceSlot : List Nat} {bspFaceIsSky : List Bool} {leaves more : List BspLeaf} {leaf : BspLeaf}
  {table out : LeafTable}

theorem tryU32_eq_some {n m : Nat} (h : tryU32 n = some m) : m = n := by
  rw [tryU32] at h
  split at h
  · exact (Option.some.inj h).symm
  · cases h

theorem Tabled.add (h : Tabled marksurfaces faceSlot leaves table)
    (hStep : addLeaf marksurfaces faceSlot bspFaceIsSky table leaf = .ok out) :
    Tabled marksurfaces faceSlot (leaves ++ [leaf]) out := by
  rw [addLeaf] at hStep
  cases hStart : tryU32 table.leafFaceList.length with
  | none =>
    simp only [hStart] at hStep
    cases hStep
  | some start =>
    simp only [hStart] at hStep
    cases hStop : tryU32 (table.leafFaceList ++ leaf.slots marksurfaces faceSlot).length with
    | none =>
      simp only [hStop] at hStep
      cases hStep
    | some stop =>
      simp only [hStop, Except.ok.injEq] at hStep
      subst hStep
      have hAt : start = table.leafFaceList.length := tryU32_eq_some hStart
      have hEnd : stop = (table.leafFaceList ++ leaf.slots marksurfaces faceSlot).length := tryU32_eq_some hStop
      rw [List.length_append] at hEnd
      constructor
      · simp [h.length]
      · intro i other hOther
        dsimp only
        change ∃ first count, _ ∧ first + count ≤ (table.leafFaceList ++ leaf.slots marksurfaces faceSlot).length ∧
          ((table.leafFaceList ++ leaf.slots marksurfaces faceSlot).drop first).take count = _
        rcases Nat.lt_or_ge i leaves.length with hOld | hNew
        · rw [List.getElem?_append_left hOld] at hOther
          obtain ⟨first, count, hLeaf, hInside, hSlots⟩ := h.slots i other hOther
          refine ⟨first, count, ?_, ?_, ?_⟩
          · rw [List.getElem?_append_left (h.length ▸ hOld), hLeaf]
          · rw [List.length_append]
            omega
          · rw [List.drop_append_of_le_length (by omega), List.take_append_of_le_length (by simp; omega), hSlots]
        · obtain ⟨rfl, rfl⟩ : i = leaves.length ∧ other = leaf := by
            rw [List.getElem?_append_right hNew] at hOther
            obtain ⟨hZero, rfl⟩ := List.getElem?_eq_some_iff.mp hOther
            simp only [List.length_singleton] at hZero
            exact ⟨by omega, by simp⟩
          refine ⟨start, stop - start, ?_, ?_, ?_⟩
          · rw [List.getElem?_append_right h.length.le, h.length, Nat.sub_self]
            rfl
          · rw [List.length_append]
            omega
          · rw [hAt, List.drop_left, List.take_of_length_le (by omega)]

theorem Tabled.run (h : Tabled marksurfaces faceSlot leaves table)
    (hRun : more.foldlM (addLeaf marksurfaces faceSlot bspFaceIsSky) table = .ok out) :
    Tabled marksurfaces faceSlot (leaves ++ more) out := by
  induction more generalizing leaves table with
  | nil =>
    cases hRun
    rwa [List.append_nil]
  | cons leaf more ih =>
    rw [List.foldlM_cons] at hRun
    obtain ⟨next, hStep, hRest⟩ := Result.bind_eq_ok.mp hRun
    rw [List.append_cons]
    exact ih (h.add hStep) hRest

end

/-! ### The model -/

section

variable {K : Type} [LinearOrder K] [Field K]

def WorldSource.Draws (source : WorldSource K) (f : Nat) (face : BspFace K) : Prop :=
  source.firstFace ≤ f ∧ f < source.firstFace + source.faceCount ∧ source.faces[f]? = some face ∧ face.Drawn

structure Placed (source : WorldSource K) (model : WorldModel K) (place : Nat → Nat) : Prop where
  drawn : ∀ f face, source.Draws f face → ∃ geometry pending, model.faces[place f]? = some geometry ∧
    face.Gives pending ∧ Draws source.atlasScale model.vertices model.indices geometry pending
  injective : ∀ f g face other, source.Draws f face → source.Draws g other → place f = place g → f = g
  onto : ∀ k < model.faces.length, ∃ f face, source.Draws f face ∧ place f = k
  leaf : ∀ (i : Nat) (leaf : BspLeaf), source.leaves[i]? = some leaf → ∀ f face, f ∈ leaf.marks source.marksurfaces →
    source.Draws f face → i < model.leafFaces.length ∧ place f ∈ model.leafFaceSlots i

variable {source : WorldSource K} {collected : Collected K} {f : Nat} {face : BspFace K}

def placeOf (permutation faceSlot : List Nat) (f : Nat) : Nat := (remapSlots permutation faceSlot).getD f noSlot

omit [LinearOrder K] [Field K] in
theorem getElem?_remapSlots {permutation faceSlot : List Nat} {f s k : Nat} (hSlot : faceSlot[f]? = some s)
    (hs : s ≠ noSlot) (hPlace : permutation[s]? = some k) :
    (remapSlots permutation faceSlot)[f]? = some k ∧ placeOf permutation faceSlot f = k := by
  have hRemap : (remapSlots permutation faceSlot)[f]? = some k := by
    rw [remapSlots, List.getElem?_map, hSlot, Option.map_some, if_neg hs, List.getD_eq_getElem?_getD, hPlace]
    rfl
  exact ⟨hRemap, by rw [placeOf, List.getD_eq_getElem?_getD, hRemap]; rfl⟩

/-- A face that is drawn, from its pending slot to the one in order. -/
structure Slotted (source : WorldSource K) (collected : Collected K) (f s k : Nat) (face : BspFace K)
    (pending : PendingFace K) : Prop where
  slot : collected.faceSlot[f]? = some s
  isSlot : s ≠ noSlot
  gives : face.Gives pending
  order : (faceOrder collected.pending)[k]? = some (pending, s)
  permutation : (assemble collected.pending source.atlasScale).permutation[s]? = some k
  place : placeOf (assemble collected.pending source.atlasScale).permutation collected.faceSlot f = k

theorem exists_slotted
    (hCollecting : Collecting source.faces (List.range' source.firstFace source.faceCount).reverse collected)
    (hAssembled : Assembled source.atlasScale collected.pending.length (faceOrder collected.pending)
      (assemble collected.pending source.atlasScale))
    (h : source.Draws f face) : ∃ s k pending, Slotted source collected f s k face pending := by
  obtain ⟨hLow, hHigh, hFace, hDrawn⟩ := h
  have hSeen : f ∈ (List.range' source.firstFace source.faceCount).reverse :=
    List.mem_reverse.mpr (List.mem_range'_1.mpr ⟨hLow, hHigh⟩)
  obtain ⟨s, hSlot, hs⟩ := hCollecting.drawn f face hSeen hFace hDrawn
  obtain ⟨-, other, pending, hOther, -, hPending, hGives⟩ := hCollecting.given f s hSlot hs
  obtain rfl := Option.some.inj (hFace.symm.trans hOther)
  have hMem : (pending, s) ∈ faceOrder collected.pending :=
    (faceOrder_perm _).mem_iff.mpr (List.mem_zipIdx_iff_getElem?.mpr hPending)
  obtain ⟨k, hOrder⟩ := List.mem_iff_getElem?.mp hMem
  have hPlace := (hAssembled.placed k _ hOrder).1
  exact ⟨s, k, pending, hSlot, hs, hGives, hOrder, hPlace, (getElem?_remapSlots hSlot hs hPlace).2⟩

theorem Assembled.map_eq {α : Type} {atlasScale : K × K} {slots : Nat} {entries : List (PendingFace K × Nat)}
    {state : Assembly K} (h : Assembled atlasScale slots entries state) (key : FaceGeometry K → α) (key' : PendingFace K → α)
    (hKey : ∀ geometry face, Draws atlasScale state.vertices state.indices geometry face → key geometry = key' face) :
    state.faces.map key = (entries.map Prod.fst).map key' := by
  refine List.ext_getElem? fun k => ?_
  rw [List.getElem?_map, List.getElem?_map, List.getElem?_map]
  cases hOrder : entries[k]? with
  | none =>
    rw [List.getElem?_eq_none_iff, ← h.faces_length, ← List.getElem?_eq_none_iff] at hOrder
    rw [hOrder]
    rfl
  | some entry =>
    obtain ⟨-, geometry, hGeometry, hDraws⟩ := h.placed k entry hOrder
    rw [hGeometry]
    exact congrArg some (hKey geometry entry.1 hDraws)

/-- The ranges of some faces are there, and in each pass in the order of their textures. -/
structure WorldModel.Ready (model : WorldModel K) (faces : List (FaceGeometry K)) : Prop where
  inside : ∀ face ∈ faces, face.firstIndex + face.indexCount ≤ model.indices.length
  few : (faces.map FaceGeometry.indexCount).sum < 2 ^ 32
  sorted : ∀ liquid, ((faces.filter fun face => face.isLiquid = liquid).map FaceGeometry.texture).Pairwise (· ≤ ·)

theorem sorted_assemble {pending : List (PendingFace K)} {atlasScale : K × K}
    (h : Assembled atlasScale pending.length (faceOrder pending) (assemble pending atlasScale)) (liquid : Bool) :
    (((assemble pending atlasScale).faces.filter fun face => face.isLiquid = liquid).map
      FaceGeometry.texture).Pairwise (· ≤ ·) := by
  have hKeys := h.map_eq (fun face => (face.isLiquid, face.texture)) (fun face => (face.isLiquid, face.texture))
    fun _ _ hDraws => by rw [hDraws.isLiquid, hDraws.texture]
  have hSorted := sorted_of_pass (List.pairwise_map.mpr (faceOrder_sorted pending)) liquid
  have hOf {α : Type} (faces : List α) (isLiquid : α → Bool) (texture : α → Nat) :
      (faces.filter fun face => isLiquid face = liquid).map texture =
        ((faces.map fun face => (isLiquid face, texture face)).filter fun key => key.1 = liquid).map Prod.snd := by
    rw [List.filter_map, List.map_map]
    rfl
  rw [hOf] at hSorted ⊢
  rwa [hKeys]

omit [Field K] in
theorem sum_counts_le (entries : List (PendingFace K × Nat)) :
    ((entries.map Prod.fst).map fun face => 3 * (face.vertices.length - 2)).sum ≤ 3 * vertexCount entries := by
  induction entries with
  | nil => exact le_rfl
  | cons entry entries ih =>
    simp only [vertexCount, List.map_cons, List.sum_cons] at ih ⊢
    omega

theorem few_assemble {pending : List (PendingFace K)} {atlasScale : K × K}
    (h : Assembled atlasScale pending.length (faceOrder pending) (assemble pending atlasScale))
    (hTotal : (pending.map fun face => face.vertices.length).sum ≤ maxVertices) :
    ((assemble pending atlasScale).faces.map FaceGeometry.indexCount).sum < 2 ^ 32 := by
  rw [h.map_eq FaceGeometry.indexCount _ fun _ _ hDraws => hDraws.count]
  refine (sum_counts_le _).trans_lt ?_
  rw [vertexCount_faceOrder]
  simp only [maxVertices] at hTotal
  omega

theorem placed_build {model : WorldModel K} (h : WorldModel.build source = .ok model) :
    (∃ place, Placed source model place) ∧ model.Ready model.faces := by
  rw [WorldModel.build] at h
  obtain ⟨collected, hCollect, h⟩ := Result.bind_eq_ok.mp h
  obtain ⟨table, hTable, h⟩ := Result.bind_eq_ok.mp h
  obtain ⟨vis, hVis, h⟩ := Result.bind_eq_ok.mp h
  cases h
  have hCollecting := collecting_collect hCollect
  have hTotal := hCollecting.few.trans hCollecting.total
  have hAssembled : Assembled source.atlasScale _ _ _ := assembled hTotal
  have hTabled : Tabled _ _ ([] ++ source.leaves) table := Tabled.run ⟨rfl, nofun⟩ hTable
  have hFew := hCollecting.pending_length
  have hSlotted (f : Nat) (face : BspFace K) (h : source.Draws f face) := exists_slotted hCollecting hAssembled h
  refine ⟨⟨placeOf (assemble collected.pending source.atlasScale).permutation collected.faceSlot, ?_, ?_, ?_, ?_⟩,
    fun face hMem => ?_, few_assemble hAssembled hTotal, sorted_assemble hAssembled⟩
  · intro f face hDraws
    obtain ⟨s, k, pending, hSlot⟩ := hSlotted f face hDraws
    obtain ⟨-, geometry, hGeometry, hDrawn⟩ := hAssembled.placed k _ hSlot.order
    exact ⟨geometry, pending, hSlot.place ▸ hGeometry, hSlot.gives, hDrawn⟩
  · intro f g face other hDraws hDraws' hEq
    obtain ⟨s, k, pending, hSlot⟩ := hSlotted f face hDraws
    obtain ⟨s', k', pending', hSlot'⟩ := hSlotted g other hDraws'
    obtain rfl : k = k' := by rw [← hSlot.place, ← hSlot'.place, hEq]
    obtain ⟨-, rfl⟩ := Prod.mk.inj (Option.some.inj (hSlot.order.symm.trans hSlot'.order))
    exact hCollecting.injective f g s hSlot.slot hSlot'.slot hSlot.isSlot
  · intro k hk
    dsimp only at hk
    rw [hAssembled.faces_length] at hk
    obtain ⟨hPlace, -⟩ := hAssembled.placed k _ (List.getElem?_eq_getElem hk)
    have hMem := (faceOrder_perm _).mem_iff.mp (List.getElem_mem hk)
    obtain ⟨hLess, -⟩ := List.mem_zipIdx' hMem
    obtain ⟨f, hSlot⟩ := hCollecting.onto _ hLess
    obtain ⟨hSeen, face, -, hFace, hDrawn, -⟩ := hCollecting.given f _ hSlot (hLess.trans hFew).ne
    obtain ⟨hLow, hHigh⟩ := List.mem_range'_1.mp (List.mem_reverse.mp hSeen)
    exact ⟨f, face, ⟨hLow, hHigh, hFace, hDrawn⟩, (getElem?_remapSlots hSlot (hLess.trans hFew).ne hPlace).2⟩
  · intro i leaf hLeaf f face hMark hDraws
    obtain ⟨s, k, pending, hSlot⟩ := hSlotted f face hDraws
    obtain ⟨start, count, hRange, hInside, hSlots⟩ := hTabled.slots i leaf hLeaf
    refine ⟨hTabled.length ▸ (List.getElem?_eq_some_iff.mp hLeaf).1, ?_⟩
    have hLess : k < collected.pending.length := by
      have hOrder := (List.getElem?_eq_some_iff.mp hSlot.order).1
      rwa [(faceOrder_perm _).length_eq, List.length_zipIdx] at hOrder
    simp only [WorldModel.leafFaceSlots, hRange, if_pos hInside, hSlots, BspLeaf.slots, hSlot.place]
    refine List.mem_filterMap.mpr ⟨f, hMark, ?_⟩
    rw [(getElem?_remapSlots hSlot.slot hSlot.isSlot hSlot.permutation).1]
    simp [(hLess.trans hFew).ne]
  · obtain ⟨k, hFace⟩ := List.mem_iff_getElem?.mp hMem
    have hk : k < (faceOrder collected.pending).length := hAssembled.faces_length ▸ (List.getElem?_eq_some_iff.mp hFace).1
    obtain ⟨-, geometry, hGeometry, hDraws⟩ := hAssembled.placed k _ (List.getElem?_eq_getElem hk)
    obtain rfl := Option.some.inj (hFace.symm.trans hGeometry)
    exact hDraws.inside

end

end OpenHalfLife.World
