import Mathlib.Algebra.Order.Ring.Rat
import OpenHalfLife.Lib.Machine
import OpenHalfLife.Physics.Sweep

/-! # Traces and point queries

What a loaded model holds is in range, so no trace and no query fails. A trace starts solid just
where the point query says solid, except where the descent of the start comes to an open leaf after
exactly as many nodes as a walk visits: the query gives up there, and the trace does not.
-/

namespace OpenHalfLife.Physics

open OpenHalfLife.Media (SanitizedError)
open OpenHalfLife.Result

set_option autoImplicit false

/-! ### What a loaded model holds -/

theorem validContents_neg {link value : Int} (h : validContents link = .ok value) : value < 0 := by
  rw [validContents] at h
  split at h
  · rename_i hRange
    cases h
    have hTop : link ≤ -1 := hRange.2
    omega
  · cases h

theorem leafContents_neg {leaves : List Int} {link value : Int} (h : leafContents leaves link = .ok value) :
    value < 0 := by
  rw [leafContents] at h
  split at h
  · exact validContents_neg h
  · cases h

theorem headLeaf_neg {leaves : List Int} {hull : Hull} {link value : Int} (h : headLeaf leaves hull link = .ok value) :
    value < 0 := by
  cases hull with
  | point => exact leafContents_neg h
  | standing => exact validContents_neg h
  | large => exact validContents_neg h
  | crouched => exact validContents_neg h

theorem checkLink_lt {nodeCount : Nat} {leaf : Int → Except SanitizedError Int} {link value : Int}
    (hLeaf : ∀ link value, leaf link = .ok value → value < 0) (h : checkLink nodeCount leaf link = .ok value) :
    value < nodeCount := by
  rw [checkLink] at h
  split at h
  · obtain ⟨hBound, hValue⟩ := ite_error_eq_ok.mp h
    cases hValue
    omega
  · have hNeg := hLeaf link value h
    omega

theorem checkNode_inRange {planeCount nodeCount : Nat} {leaf : Int → Except SanitizedError Int} {plane : Nat}
    {children : Int × Int} {node : HullNode} (hLeaf : ∀ link value, leaf link = .ok value → value < 0)
    (h : checkNode planeCount nodeCount leaf plane children = .ok node) :
    node.plane < planeCount ∧ ∀ side, node.child side < nodeCount := by
  obtain ⟨hPlane, h⟩ := ite_error_eq_ok.mp h
  obtain ⟨front, hFront, h⟩ := bind_eq_ok.mp h
  obtain ⟨back, hBack, h⟩ := bind_eq_ok.mp h
  cases h
  refine ⟨not_le.mp hPlane, fun side => ?_⟩
  cases side with
  | false => exact checkLink_lt hLeaf hFront
  | true => exact checkLink_lt hLeaf hBack

theorem checkHeads_lt {pointCount clipCount : Nat} {leaves : List Int} {raw heads : Heads}
    (h : checkHeads pointCount clipCount leaves raw = .ok heads) (hull : Hull) :
    heads hull < (if hull = .point then pointCount else clipCount : Nat) := by
  obtain ⟨point, hPoint, h⟩ := bind_eq_ok.mp h
  obtain ⟨standing, hStanding, h⟩ := bind_eq_ok.mp h
  obtain ⟨large, hLarge, h⟩ := bind_eq_ok.mp h
  obtain ⟨crouched, hCrouched, h⟩ := bind_eq_ok.mp h
  cases h
  cases hull with
  | point => exact checkLink_lt (fun _ _ => headLeaf_neg) hPoint
  | standing => exact checkLink_lt (fun _ _ => headLeaf_neg) hStanding
  | large => exact checkLink_lt (fun _ _ => headLeaf_neg) hLarge
  | crouched => exact checkLink_lt (fun _ _ => headLeaf_neg) hCrouched

variable {K : Type} [Field K] [LinearOrder K]

/-- Head links lead into the node arrays or to a contents value. -/
def CollisionModel.HeadsInRange (model : CollisionModel K) (heads : Heads) : Prop :=
  ∀ hull, heads hull < (model.nodesOf hull).length

structure CollisionModel.Holds (model : CollisionModel K) (part : BrushPart K) : Prop where
  heads : model.HeadsInRange part.heads
  suspended : ∀ heads ∈ part.suspended, model.HeadsInRange heads ∧ part.heads = Heads.bare

structure CollisionModel.WellFormed (model : CollisionModel K) : Prop where
  nodes : ∀ hull, InRange model.planes (model.nodesOf hull)
  heads : model.HeadsInRange model.heads
  brushes : ∀ part ∈ model.brushes, model.Holds part

theorem CollisionModel.fromBspModel_wellFormed {bsp : Bsp K} {modelIndex : Nat} {model : CollisionModel K}
    (h : fromBspModel bsp modelIndex = .ok model) : model.WellFormed ∧ model.brushes = [] := by
  obtain ⟨rawPlanes, -, h⟩ := bind_eq_ok.mp h
  obtain ⟨rawNodes, -, h⟩ := bind_eq_ok.mp h
  obtain ⟨rawLeaves, -, h⟩ := bind_eq_ok.mp h
  obtain ⟨rawClipnodes, -, h⟩ := bind_eq_ok.mp h
  obtain ⟨rawModels, -, h⟩ := bind_eq_ok.mp h
  split at h
  · cases h
  · rename_i raw hRaw
    obtain ⟨planes, hPlanes, h⟩ := bind_eq_ok.mp h
    obtain ⟨pointNodes, hPointNodes, h⟩ := bind_eq_ok.mp h
    obtain ⟨clipNodes, hClipNodes, h⟩ := bind_eq_ok.mp h
    obtain ⟨heads, hHeads, h⟩ := bind_eq_ok.mp h
    cases h
    obtain ⟨hPointLength, hPoint⟩ := forall_of_mapM hPointNodes
    obtain ⟨hClipLength, hClip⟩ := forall_of_mapM hClipNodes
    have hPointRange : InRange planes pointNodes := by
      intro node hNode
      obtain ⟨rawNode, -, hCheck⟩ := hPoint node hNode
      rw [hPointLength]
      exact checkNode_inRange (fun _ _ => leafContents_neg) hCheck
    have hClipRange : InRange planes clipNodes := by
      intro node hNode
      obtain ⟨rawNode, -, hCheck⟩ := hClip node hNode
      rw [hClipLength]
      exact checkNode_inRange (fun _ _ => validContents_neg) (ite_error_eq_ok.mp hCheck).2
    refine ⟨⟨fun hull => ?_, fun hull => ?_, fun _ hNone => absurd hNone List.not_mem_nil⟩, rfl⟩
    · cases hull with
      | point => exact hPointRange
      | standing => exact hClipRange
      | large => exact hClipRange
      | crouched => exact hClipRange
    · cases hull with
      | point => exact checkHeads_lt hHeads .point
      | standing => exact checkHeads_lt hHeads .standing
      | large => exact checkHeads_lt hHeads .large
      | crouched => exact checkHeads_lt hHeads .crouched

/-! ### The descent of a point -/

section

variable (planes : List (HullPlane K)) (nodes : List HullNode)

def leafAfter : Nat → Int → Vec3 K → Option Int
  | 0, link, _ => if link < 0 then some link else none
  | count + 1, link, point =>
    if link < 0 then none
    else do
      let node ← nodes[link.toNat]?
      let plane ← planes[node.plane]?
      leafAfter count (node.child (behind (plane.distance point))) point

variable {planes nodes}

theorem descend_succ (hNodes : InRange planes nodes) (rounds : Nat) {link : Int} (hLink : link < nodes.length)
    (point : Vec3 K) :
    ∃ value, descend planes nodes rounds link point = some value ∧
      descend planes nodes (rounds + 1) link point = some ((leafAfter planes nodes rounds link point).getD value) ∧
      ((leafAfter planes nodes rounds link point).isSome → value = Contents.solid) := by
  induction rounds generalizing link with
  | zero =>
    refine ⟨Contents.solid, rfl, ?_, fun _ => rfl⟩
    by_cases hLeaf : link < 0
    · rw [descend, if_pos hLeaf, leafAfter, if_pos hLeaf]
      rfl
    · have hIndex : link.toNat < nodes.length := by omega
      have hPlane := (hNodes _ (List.getElem_mem hIndex)).1
      rw [descend, if_neg hLeaf, leafAfter, if_neg hLeaf, List.getElem?_eq_getElem hIndex, Option.bind_eq_bind,
        Option.bind_some, List.getElem?_eq_getElem hPlane]
      rfl
  | succ rounds ih =>
    by_cases hLeaf : link < 0
    · refine ⟨link, ?_, ?_, ?_⟩
      · rw [descend, if_pos hLeaf]
      · rw [descend, if_pos hLeaf, leafAfter, if_pos hLeaf]
        rfl
      · rw [leafAfter, if_pos hLeaf]
        intro hNone
        cases hNone
    · have hIndex : link.toNat < nodes.length := by omega
      obtain ⟨hPlane, hChildren⟩ := hNodes _ (List.getElem_mem hIndex)
      obtain ⟨value, hValue, hNext, hSolid⟩ :=
        ih (hChildren (behind ((planes[(nodes[link.toNat]).plane]).distance point)))
      have hDescend : ∀ count, descend planes nodes (count + 1) link point = descend planes nodes count
          ((nodes[link.toNat]).child (behind ((planes[(nodes[link.toNat]).plane]).distance point))) point := by
        intro count
        rw [descend, if_neg hLeaf, List.getElem?_eq_getElem hIndex, Option.bind_eq_bind, Option.bind_some,
          List.getElem?_eq_getElem hPlane]
        rfl
      have hLeafAfter : leafAfter planes nodes (rounds + 1) link point = leafAfter planes nodes rounds
          ((nodes[link.toNat]).child (behind ((planes[(nodes[link.toNat]).plane]).distance point))) point := by
        rw [leafAfter, if_neg hLeaf, List.getElem?_eq_getElem hIndex, Option.bind_eq_bind, Option.bind_some,
          List.getElem?_eq_getElem hPlane]
        rfl
      rw [hDescend rounds, hDescend (rounds + 1), hLeafAfter]
      exact ⟨value, hValue, hNext, hSolid⟩

end

/-! ### Without brushes -/

namespace CollisionModel

variable {rotation : Rotation K} {model : CollisionModel K} {hull : Hull}

theorem contentsAt_bare (hBrushes : model.brushes = []) (point : Vec3 K) :
    model.contentsAt rotation hull point = walk model.planes (model.nodesOf hull) (model.heads hull) point := by
  rw [contentsAt, hBrushes]
  rfl

theorem walk_total (hModel : model.WellFormed) {heads : Heads} (hHeads : model.HeadsInRange heads) (hull : Hull)
    (point : Vec3 K) :
    ∃ value, walk model.planes (model.nodesOf hull) (heads hull) point = some value := by
  obtain ⟨value, hValue, -⟩ := descend_succ (hModel.nodes hull) maxTraceDepth (hHeads hull) point
  exact ⟨value, hValue⟩

theorem treeTrace_swept (hModel : model.WellFormed) {heads : Heads} (hHeads : model.HeadsInRange heads) (hull : Hull)
    (start finish : Vec3 K) (kind : BrushKind) :
    ∃ tree through out, Unrolls model.planes (model.nodesOf hull) maxTraceDepth (heads hull) tree ∧
      Swept kind tree 0 1 start finish { Trace.miss finish with allSolid := true } through out ∧
      model.treeTrace hull (heads hull) start finish kind = some
        (if out.startSolid || out.allSolid then { out with startSolid := true, fraction := 0, endPos := start }
        else out) := by
  obtain ⟨tree, hTree⟩ := Unrolls.exists_tree (hModel.nodes hull) maxTraceDepth (hHeads hull)
  obtain ⟨through, out, hRun, hSwept⟩ := hTree.recurse kind 0 1 start finish { Trace.miss finish with allSolid := true }
  refine ⟨tree, through, out, hTree, hSwept, ?_⟩
  rw [treeTrace, hRun, Option.bind_eq_bind, Option.bind_some]
  dsimp only
  cases hAll : out.allSolid with
  | false =>
    rw [if_neg Bool.false_ne_true, Bool.or_false]
    cases hStart : out.startSolid with
    | false => rfl
    | true =>
      rw [if_pos rfl, if_pos rfl, hAll]
  | true =>
    rw [if_pos rfl, Bool.or_true]
    rfl

theorem trace_bare (rotation : Rotation K) (hModel : model.WellFormed) (hBrushes : model.brushes = []) (hull : Hull)
    (start finish : Vec3 K) :
    ∃ tree through out contents, Unrolls model.planes (model.nodesOf hull) maxTraceDepth (model.heads hull) tree ∧
      Swept .solid tree 0 1 start finish { Trace.miss finish with allSolid := true } through out ∧
      model.trace rotation hull start finish = some { (if out.startSolid || out.allSolid then
        { out with startSolid := true, fraction := 0, endPos := start } else out) with contents } := by
  obtain ⟨tree, through, out, hTree, hSwept, hTrace⟩ := treeTrace_swept hModel hModel.heads hull start finish .solid
  have hFold : ∀ world, model.foldBrushes rotation hull start finish none 0 model.brushes world = some world := by
    intro world
    rw [hBrushes]
    rfl
  rw [trace, traceIgnoring, traceTree, hTrace, Option.bind_eq_bind, Option.bind_some, hFold, Option.bind_eq_bind,
    Option.bind_some]
  dsimp only
  cases hSolid : out.startSolid || out.allSolid with
  | true =>
    rw [if_pos rfl, if_pos rfl, contentsAt_bare hBrushes]
    obtain ⟨contents, hContents⟩ := walk_total hModel hModel.heads hull start
    refine ⟨tree, through, out, contents, hTree, hSwept, ?_⟩
    rw [hContents, hSolid]
    rfl
  | false =>
    obtain ⟨hStart, hAll⟩ := Bool.or_eq_false_iff.mp hSolid
    rw [if_neg Bool.false_ne_true, hStart, if_neg Bool.false_ne_true, contentsAt_bare hBrushes]
    obtain ⟨contents, hContents⟩ := walk_total hModel hModel.heads hull out.endPos
    refine ⟨tree, through, out, contents, hTree, hSwept, ?_⟩
    rw [hContents, hSolid]
    rfl

/-- What a trace says of its segment, and where it starts according to the point query. -/
structure Sound (model : CollisionModel K) (start finish : Vec3 K) (startContents : Int) (trace : Trace K) : Prop where
  startSolid : trace.startSolid = true ↔ Contents.isSolid startContents = true
  fraction : 0 ≤ trace.fraction ∧ trace.fraction ≤ 1
  endPos : trace.endPos = Vec3.along start finish trace.fraction
  /-- A move that was stopped was stopped by a plane that it crosses. -/
  plane : trace.startSolid = false → trace.fraction < 1 → ∃ plane ∈ model.planes, ∃ side s t,
    trace.planeNormal = (if side then -plane.normal else plane.normal) ∧
    trace.planeDist = (if side then -plane.dist else plane.dist) ∧ 0 ≤ s ∧ s ≤ t ∧ t ≤ 1 ∧
    behind (plane.distance (Vec3.along start finish s)) = side ∧
    behind (plane.distance (Vec3.along start finish t)) = !side

variable [IsStrictOrderedRing K]

theorem trace_sound (rotation : Rotation K) (hModel : model.WellFormed) (hBrushes : model.brushes = []) (hull : Hull)
    (start finish : Vec3 K) :
    ∃ trace startContents, model.trace rotation hull start finish = some trace ∧
      contentsLink model.planes (model.nodesOf hull) (model.heads hull) start maxTraceDepth = some startContents ∧
      Sound model start finish startContents trace := by
  obtain ⟨tree, through, out, contents, hTree, hSwept, hTrace⟩ :=
    trace_bare rotation hModel hBrushes hull start finish
  refine ⟨_, tree.contents start, hTrace, hTree.contentsLink start, ?_⟩
  have hStart : out.startSolid = Contents.isSolid (tree.contents start) := hSwept.startSolid
  by_cases hSolid : Contents.isSolid (tree.contents start) = true
  · rw [hStart, hSolid, Bool.true_or, if_pos rfl]
    exact ⟨iff_of_true rfl hSolid, ⟨le_rfl, zero_le_one⟩, (Vec3.along_zero start finish).symm, nofun⟩
  · have hAll := hSwept.allSolid_of_open hSolid
    have hOpen := Bool.eq_false_of_not_eq_true hSolid
    rw [hAll, hStart, hOpen, Bool.or_false, if_neg Bool.false_ne_true]
    have hStartOut : out.startSolid = false := hStart.trans hOpen
    cases through with
    | true =>
      obtain ⟨hFraction, hEnd, -, -⟩ := hSwept.kept rfl
      refine ⟨?_, ?_, ?_, ?_⟩
      · exact iff_of_false (Bool.not_eq_true _ ▸ hStartOut) hSolid
      · exact ⟨hFraction ▸ zero_le_one, hFraction.le⟩
      · change out.endPos = Vec3.along start finish out.fraction
        rw [hEnd, hFraction]
        exact (Vec3.along_one start finish).symm
      · intro _ hLess
        exact absurd hFraction hLess.ne
    | false =>
      obtain ⟨hLow, hHigh, hEnd, plane, side, s, t, hPlane, hNormal, hDist, hs, hLe, ht, hNear, hFar⟩ :=
        hSwept.stopped rfl hSolid (Vec3.along_zero start finish).symm (Vec3.along_one start finish).symm le_rfl
          zero_le_one le_rfl
      exact ⟨iff_of_false (Bool.not_eq_true _ ▸ hStartOut) hSolid, ⟨hLow, hHigh⟩, hEnd, fun _ _ => ⟨plane,
        hTree.hasPlane hPlane, side, s, t, hNormal, hDist, hs, hLe, ht, hNear, hFar⟩⟩

/-- The trace and the point query of one tree read no index out of range and agree. -/
def Agrees (rotation : Rotation K) (model : CollisionModel K) (hull : Hull) (start finish : Vec3 K) : Prop :=
  ∃ trace startContents, model.trace rotation hull start finish = some trace ∧
    model.contentsAt rotation hull start = some startContents ∧ Sound model start finish startContents trace

theorem Agrees.solid {rotation : Rotation K} {bsp : Bsp K} {hull : Hull} {start finish : Vec3 K} {value : Int}
    (h : Agrees rotation model hull start finish) (hLoaded : fromBsp bsp = .ok model)
    (hLeaf : leafAfter model.planes (model.nodesOf hull) maxTraceDepth (model.heads hull) start = some value) :
    Contents.isSolid value = true := by
  obtain ⟨hModel, hBrushes⟩ := fromBspModel_wellFormed hLoaded
  obtain ⟨trace, startContents, hTrace, hLink, hSound⟩ := trace_sound rotation hModel hBrushes hull start finish
  obtain ⟨leaf, hWalk, hDeeper, hExhausted⟩ := descend_succ (hModel.nodes hull) maxTraceDepth (hModel.heads hull) start
  have hContents : model.contentsAt rotation hull start = some leaf := (contentsAt_bare hBrushes start).trans hWalk
  cases hLink.symm.trans hDeeper
  obtain ⟨other, otherContents, hOther, hOtherContents, hAgrees⟩ := h
  cases hTrace.symm.trans hOther
  cases hContents.symm.trans hOtherContents
  rw [hLeaf] at hSound hExhausted
  exact hSound.startSolid.mp (hAgrees.startSolid.mpr (by rw [hExhausted rfl]; rfl))

/-- They agree but where the descent of the start comes to an open leaf just where a walk gives up. -/
theorem agrees_iff (rotation : Rotation K) {bsp : Bsp K} (hLoaded : fromBsp bsp = .ok model) (hull : Hull)
    (start finish : Vec3 K) :
    Agrees rotation model hull start finish ↔
      ∀ value, leafAfter model.planes (model.nodesOf hull) maxTraceDepth (model.heads hull) start = some value →
        Contents.isSolid value = true := by
  refine ⟨fun h value hLeaf => h.solid hLoaded hLeaf, fun hDeep => ?_⟩
  obtain ⟨hModel, hBrushes⟩ := fromBspModel_wellFormed hLoaded
  obtain ⟨trace, startContents, hTrace, hLink, hSound⟩ := trace_sound rotation hModel hBrushes hull start finish
  obtain ⟨value, hWalk, hDeeper, hExhausted⟩ :=
    descend_succ (hModel.nodes hull) maxTraceDepth (hModel.heads hull) start
  have hContents : model.contentsAt rotation hull start = some value := (contentsAt_bare hBrushes start).trans hWalk
  cases hLink.symm.trans hDeeper
  refine ⟨trace, value, hTrace, hContents, ⟨?_, hSound.fraction, hSound.endPos, hSound.plane⟩⟩
  rw [hSound.startSolid]
  cases hLeaf : leafAfter model.planes (model.nodesOf hull) maxTraceDepth (model.heads hull) start with
  | none => exact Iff.rfl
  | some leaf =>
    rw [hLeaf] at hExhausted
    rw [hExhausted rfl]
    exact iff_of_true (hDeep leaf hLeaf) rfl

end CollisionModel

/-! ### Two maps -/

def noRotation : Rotation ℚ := ⟨fun _ _ point => point, fun _ _ point => point⟩

def atX (x : ℚ) : Vec3 ℚ := ⟨x, 0, 0⟩

/-- A map of one hull: planes across the x axis and the nodes that hold them; leaf 0 is open, leaf 1 solid. -/
def pointMap (planes : List ℚ) (nodes : List RawNode) : Bsp ℚ where
  planes := some (planes.map fun x => ⟨⟨1, 0, 0⟩, x⟩)
  nodes := some nodes
  leaves := some [Contents.empty, Contents.solid]
  clipnodes := some []
  models := some [⟨fun | .point => 0 | _ => Contents.empty, Vec3.zero, Vec3.zero⟩]

def wall : Bsp ℚ := pointMap [0] [⟨0, (-1, -2)⟩]

def corridor : Bsp ℚ :=
  pointMap [0] ((List.range 256).map fun i => ⟨0, (if i = 255 then -1 else i + 1, -2)⟩)

theorem wall_agrees : ∃ model, CollisionModel.fromBsp wall = .ok model ∧
    CollisionModel.Agrees noRotation model .point (atX 3) (atX (-1)) := by
  obtain ⟨model, hModel⟩ := exists_ok (r := CollisionModel.fromBsp wall) (by decide +kernel)
  have hNone : ((CollisionModel.fromBsp wall).toOption.bind fun model =>
      leafAfter model.planes model.pointNodes maxTraceDepth (model.heads .point) (atX 3)) = none := by decide +kernel
  rw [hModel] at hNone
  refine ⟨model, hModel, (CollisionModel.agrees_iff noRotation hModel .point (atX 3) (atX (-1))).mpr fun value hLeaf => ?_⟩
  cases hLeaf.symm.trans hNone

def corridorNodes : List HullNode := (List.range 256).map fun i : Nat => ⟨0, if i = 255 then -1 else i + 1, -2⟩

theorem getElem?_corridorNodes {i : Nat} (h : i < 256) :
    corridorNodes[i]? = some ⟨0, if i = 255 then -1 else i + 1, -2⟩ := by
  rw [corridorNodes, List.getElem?_map, List.getElem?_range h]
  rfl

theorem leafAfter_corridor {planes : List (HullPlane ℚ)} {plane : HullPlane ℚ} {point : Vec3 ℚ}
    (hPlane : planes[0]? = some plane) (hFront : behind (plane.distance point) = false) {count : Nat}
    (hCount : count ≤ 256) :
    leafAfter planes corridorNodes count (if count = 0 then -1 else 256 - count) point = some Contents.empty := by
  induction count with
  | zero => rfl
  | succ count ih =>
    have hLink : ((256 : Int) - (count + 1 : Nat)).toNat = 255 - count := by omega
    have hNext : (if 255 - count = 255 then -1 else ((255 - count : Nat) : Int) + 1) =
        if count = 0 then -1 else 256 - (count : Int) := by
      split <;> split <;> omega
    rw [if_neg (Nat.succ_ne_zero count), leafAfter, if_neg (by omega), hLink, getElem?_corridorNodes (by omega),
      Option.bind_eq_bind, Option.bind_some, hPlane, Option.bind_eq_bind, Option.bind_some, hFront, HullNode.child,
      if_neg Bool.false_ne_true, hNext]
    exact ih (by omega)

/-- In the corridor, the query gives up on a point that the trace finds open. -/
theorem corridor_disagrees : ∃ model, CollisionModel.fromBsp corridor = .ok model ∧
    ¬CollisionModel.Agrees noRotation model .point (atX 2) (atX 1) := by
  obtain ⟨model, hModel⟩ := exists_ok (r := CollisionModel.fromBsp corridor) (by decide +kernel)
  have hLoaded : (CollisionModel.fromBsp corridor).toOption.map (fun model =>
      (model.planes, model.pointNodes, model.heads .point)) = some ([⟨⟨1, 0, 0⟩, 0⟩], corridorNodes, 0) := by
    decide +kernel
  rw [hModel] at hLoaded
  obtain ⟨hPlanes, hNodes, hHead⟩ : model.planes = [⟨⟨1, 0, 0⟩, 0⟩] ∧ model.pointNodes = corridorNodes ∧
      model.heads .point = 0 := by
    simpa [Except.toOption] using hLoaded
  have hFront : behind ((⟨⟨1, 0, 0⟩, 0⟩ : HullPlane ℚ).distance (atX 2)) = false := by decide +kernel
  have hLeaf : leafAfter model.planes model.pointNodes maxTraceDepth (model.heads .point) (atX 2) =
      some Contents.empty := by
    rw [hPlanes, hNodes, hHead]
    exact leafAfter_corridor rfl hFront le_rfl
  exact ⟨model, hModel, fun hAgrees => Bool.false_ne_true (hAgrees.solid hModel hLeaf)⟩

end OpenHalfLife.Physics
