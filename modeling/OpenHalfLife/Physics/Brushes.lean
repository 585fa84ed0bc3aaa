import Mathlib.Order.Bounds.Basic
import OpenHalfLife.Physics.BrushCalls

/-! # Traces through attached brushes

A contents volume never stops a move, except where the segment goes more nodes deep into its tree than
a trace will follow. Where none does, a trace is the nearest hit among the world and the solid brushes.
-/

namespace OpenHalfLife.Physics

open OpenHalfLife.Media (SanitizedError)
open OpenHalfLife.Result

set_option autoImplicit false

variable {K : Type} [Field K] [LinearOrder K]

/-! ### Volumes -/

def HullTree.Overruns : HullTree K → Vec3 K → Vec3 K → Prop
  | .leaf _, _, _ => False
  | .exhausted, _, _ => True
  | .split plane children, p1, p2 =>
    if behind (plane.distance p1) = behind (plane.distance p2) then
      (children (behind (plane.distance p1))).Overruns p1 p2
    else
      (children (behind (plane.distance p1))).Overruns p1 (Vec3.along p1 p2 (plane.midFraction p1 p2)) ∨
        (children (!behind (plane.distance p1))).Overruns (Vec3.along p1 p2 (plane.midFraction p1 p2)) p2

omit [Field K] [LinearOrder K] in
theorem volume_open (link : Int) (volume : ContentsKind) :
    Contents.isSolid (remapLeaf link (.contents volume)) = false := by
  rw [remapLeaf]
  split
  · rename_i hEmpty
    rw [hEmpty]
    rfl
  · cases volume <;> rfl

theorem Swept.volume {volume : ContentsKind} {tree : HullTree K} {p1f p2f : K} {p1 p2 : Vec3 K} {trace out : Trace K}
    {through : Bool} (h : Swept (.contents volume) tree p1f p2f p1 p2 trace through out) :
    (tree.Overruns p1 p2 ↔ through = false) ∧ (through = false → out.startSolid = true) ∧
      (through = true → out.startSolid = trace.startSolid ∧ out.allSolid = false) := by
  induction h with
  | leaf =>
    refine ⟨iff_of_false id nofun, nofun, fun _ => ?_⟩
    rw [Trace.passLeaf_startSolid, Trace.passLeaf_allSolid, volume_open, Bool.or_false, Bool.and_false]
    exact ⟨rfl, rfl⟩
  | exhausted => exact ⟨iff_of_true trivial rfl, fun _ => rfl, nofun⟩
  | same hSame _ ih =>
    rw [HullTree.Overruns, if_pos hSame]
    exact ih
  | near hCross _ ih =>
    rw [HullTree.Overruns, if_neg hCross]
    exact ⟨iff_of_true (.inl (ih.1.mpr rfl)) rfl, fun _ => ih.2.1 rfl, nofun⟩
  | far hCross _ _ _ ihNear ihFar =>
    rw [HullTree.Overruns, if_neg hCross]
    refine ⟨⟨fun hOver => ?_, fun hOut => .inr (ihFar.1.mpr hOut)⟩, ihFar.2.1, fun hOut => ?_⟩
    · rcases hOver with hNear | hFar
      · cases ihNear.1.mp hNear
      · exact ihFar.1.mp hFar
    · exact ⟨(ihFar.2.2 hOut).1.trans (ihNear.2.2 rfl).1, (ihFar.2.2 hOut).2⟩
  | inside _ _ hSolid =>
    rw [volume_open] at hSolid
    cases hSolid
  | stop _ _ hSolid =>
    rw [volume_open] at hSolid
    cases hSolid

omit [Field K] [LinearOrder K] in
theorem Trace.passLeaf_fraction (trace : Trace K) (mapped : Int) : (trace.passLeaf mapped).fraction = trace.fraction := by
  rw [Trace.passLeaf]
  split
  · rfl
  · split <;> rfl

section

variable [IsStrictOrderedRing K]

theorem Swept.fraction_mem {kind : BrushKind} {tree : HullTree K} {p1f p2f : K} {p1 p2 : Vec3 K} {trace out : Trace K}
    {through : Bool} (h : Swept kind tree p1f p2f p1 p2 trace through out) (hLow : 0 ≤ p1f) (hLe : p1f ≤ p2f)
    (hHigh : p2f ≤ 1) (hTrace : 0 ≤ trace.fraction ∧ trace.fraction ≤ 1) : 0 ≤ out.fraction ∧ out.fraction ≤ 1 := by
  induction h with
  | leaf =>
    rw [Trace.passLeaf_fraction]
    exact hTrace
  | exhausted => exact hTrace
  | same _ _ ih => exact ih hLow hLe hHigh hTrace
  | @near plane children p1f p2f p1 p2 trace out hCross _ ih =>
    obtain ⟨hMidLow, hMidHigh, -⟩ := between_unit hLow hLe hHigh (plane.midFraction_nonneg p1 p2)
      (plane.midFraction_le_one p1 p2)
    exact ih hLow hMidLow (hMidHigh.trans hHigh) hTrace
  | @far plane children p1f p2f p1 p2 trace between out through hCross _ _ _ ihNear ihFar =>
    obtain ⟨hMidLow, hMidHigh, -⟩ := between_unit hLow hLe hHigh (plane.midFraction_nonneg p1 p2)
      (plane.midFraction_le_one p1 p2)
    exact ihFar (hLow.trans hMidLow) hMidHigh hHigh (ihNear hLow hMidLow (hMidHigh.trans hHigh) hTrace)
  | @inside plane children p1f p2f p1 p2 trace between hCross _ _ _ ih =>
    obtain ⟨hMidLow, hMidHigh, -⟩ := between_unit hLow hLe hHigh (plane.midFraction_nonneg p1 p2)
      (plane.midFraction_le_one p1 p2)
    exact ih hLow hMidLow (hMidHigh.trans hHigh) hTrace
  | @stop plane children p1f p2f p1 p2 trace between stop hCross _ _ _ hStop _ =>
    obtain ⟨b, hb, hbMid, rfl⟩ := backOff_between hLow hLe hHigh (plane.midFraction_nonneg p1 p2)
      (plane.midFraction_le_one p1 p2) hStop
    obtain ⟨hbLow, hbHigh, -⟩ := between_unit hLow hLe hHigh hb (hbMid.trans (plane.midFraction_le_one p1 p2))
    exact ⟨hLow.trans hbLow, hbHigh.trans hHigh⟩

end

/-! ### Folding hits -/

structure Trace.Tame (trace : Trace K) : Prop where
  nonneg : 0 ≤ trace.fraction
  le_one : trace.fraction ≤ 1
  started : trace.startSolid = true → trace.fraction = 0

/-- Two traces agree in all that tells how far a move goes and what stops it. -/
structure SameMove (trace other : Trace K) : Prop where
  fraction : trace.fraction = other.fraction
  endPos : trace.endPos = other.endPos
  planeNormal : trace.planeNormal = other.planeNormal
  planeDist : trace.planeDist = other.planeDist
  startSolid : trace.startSolid = other.startSolid
  allSolid : trace.allSolid = other.allSolid
  brushIndex : trace.brushIndex = other.brushIndex

omit [Field K] [LinearOrder K] in
theorem SameMove.trans {first second third : Trace K} (h : SameMove first second) (h' : SameMove second third) :
    SameMove first third :=
  ⟨h.fraction.trans h'.fraction, h.endPos.trans h'.endPos, h.planeNormal.trans h'.planeNormal,
    h.planeDist.trans h'.planeDist, h.startSolid.trans h'.startSolid, h.allSolid.trans h'.allSolid,
    h.brushIndex.trans h'.brushIndex⟩

omit [Field K] [LinearOrder K] in
theorem SameMove.symm {trace other : Trace K} (h : SameMove trace other) : SameMove other trace :=
  ⟨h.fraction.symm, h.endPos.symm, h.planeNormal.symm, h.planeDist.symm, h.startSolid.symm, h.allSolid.symm,
    h.brushIndex.symm⟩

omit [LinearOrder K] in
theorem SameMove.halted {trace other : Trace K} (h : SameMove trace other) (start : Vec3 K) :
    SameMove (if trace.startSolid then { trace with fraction := 0, endPos := start } else trace)
      (if other.startSolid then { other with fraction := 0, endPos := start } else other) := by
  rw [h.startSolid]
  split
  · exact ⟨rfl, rfl, h.planeNormal, h.planeDist, rfl, h.allSolid, h.brushIndex⟩
  · exact h

structure Trace.Open (hit : Trace K) : Prop where
  fraction : hit.fraction = 1
  startSolid : hit.startSolid = false
  allSolid : hit.allSolid = false

variable {best other hit : Trace K}

omit [Field K] in
theorem combine_fraction (best hit : Trace K) (brush : Nat) :
    (combine best hit brush).fraction = min best.fraction hit.fraction := by
  rw [combine]
  dsimp only
  split <;> split <;> rename_i hLess
  · exact (min_eq_right hLess.le).symm
  · exact (min_eq_left (not_lt.mp hLess)).symm
  · exact (min_eq_right hLess.le).symm
  · exact (min_eq_left (not_lt.mp hLess)).symm

omit [Field K] in
theorem combine_startSolid (best hit : Trace K) (brush : Nat) :
    (combine best hit brush).startSolid = (best.startSolid || hit.startSolid) := by
  cases hStart : hit.startSolid with
  | true =>
    simp only [combine, hStart, if_true]
    split <;> exact (Bool.or_true _).symm
  | false =>
    simp only [combine, hStart, if_neg Bool.false_ne_true]
    split <;> exact (Bool.or_false _).symm

theorem combine_tame (hBest : best.Tame) (hHit : hit.Tame) (brush : Nat) : (combine best hit brush).Tame := by
  refine ⟨?_, ?_, ?_⟩
  · rw [combine_fraction]
    exact le_min hBest.nonneg hHit.nonneg
  · rw [combine_fraction]
    exact (min_le_left _ _).trans hBest.le_one
  · rw [combine_fraction, combine_startSolid, Bool.or_eq_true]
    rintro (hStart | hStart)
    · rw [hBest.started hStart]
      exact min_eq_left hHit.nonneg
    · rw [hHit.started hStart]
      exact min_eq_right hBest.nonneg

omit [Field K] in
theorem combine_same (h : SameMove best other) (hit : Trace K) (brush : Nat) :
    SameMove (combine best hit brush) (combine other hit brush) := by
  obtain ⟨fraction, endPos, normal, dist, allSolid, startSolid, inOpen, inWater, contents, brushIndex⟩ := best
  obtain ⟨rfl, rfl, rfl, rfl, rfl, rfl, rfl⟩ := h
  rw [combine, combine]
  dsimp only
  split <;> split <;> exact ⟨rfl, rfl, rfl, rfl, rfl, rfl, rfl⟩

theorem combine_open (hBest : best.Tame) (hHit : hit.Open) (brush : Nat) : SameMove (combine best hit brush) best := by
  rw [combine, hHit.startSolid, hHit.allSolid]
  dsimp only
  rw [if_neg Bool.false_ne_true, if_neg (by rw [hHit.fraction]; exact hBest.le_one.not_gt)]
  exact ⟨rfl, rfl, rfl, rfl, rfl, Bool.or_false _, rfl⟩

namespace CollisionModel

variable {rotation : Rotation K} {model : CollisionModel K} {hull : Hull} {start finish : Vec3 K}

/-- A brush whose tree the segment comes near, and overruns. -/
def Overrun (rotation : Rotation K) (model : CollisionModel K) (hull : Hull) (start finish : Vec3 K)
    (part : BrushPart K) : Prop :=
  ¬part.heads hull < 0 ∧ part.reaches rotation hull (start.min finish) (start.max finish) = true ∧
    ∃ tree, Unrolls model.planes (model.nodesOf hull) maxTraceDepth (part.heads hull) tree ∧
      tree.Overruns (part.localPoint rotation start) (part.localPoint rotation finish)

theorem traceTree_some (rotation : Rotation K) (model : CollisionModel K) (hull : Hull) (head : Int)
    (part : BrushPart K) (start finish : Vec3 K) (kind : BrushKind) :
    ∃ outward : Trace K → Trace K,
      (∀ trace, (outward trace).fraction = trace.fraction ∧ (outward trace).startSolid = trace.startSolid ∧
        (outward trace).allSolid = trace.allSolid) ∧
      model.traceTree rotation hull head (some part) start finish kind =
        (model.treeTrace hull head (part.localPoint rotation start) (part.localPoint rotation finish) kind).map
          outward := by
  rw [traceTree]
  dsimp only
  by_cases hRotation : part.hasRotation = true
  · rw [if_pos hRotation]
    refine ⟨_, ?_, Option.map_eq_bind.symm⟩
    exact fun _ => ⟨rfl, rfl, rfl⟩
  · rw [if_neg hRotation, BrushPart.localPoint, BrushPart.localPoint, if_neg hRotation, if_neg hRotation]
    refine ⟨_, ?_, Option.map_eq_bind.symm⟩
    exact fun _ => ⟨rfl, rfl, rfl⟩

variable [IsStrictOrderedRing K]

theorem treeTrace_tame (hModel : model.WellFormed) {heads : Heads} (hHeads : model.HeadsInRange heads) (hull : Hull)
    (start finish : Vec3 K) (kind : BrushKind) :
    ∃ tree trace, Unrolls model.planes (model.nodesOf hull) maxTraceDepth (heads hull) tree ∧
      model.treeTrace hull (heads hull) start finish kind = some trace ∧ trace.Tame ∧
      (kind ≠ .solid → (tree.Overruns start finish → trace.startSolid = true) ∧
        (¬tree.Overruns start finish → trace.Open)) := by
  obtain ⟨tree, through, out, hTree, hSwept, hTrace⟩ := treeTrace_swept hModel hHeads hull start finish kind
  refine ⟨tree, _, hTree, hTrace, ?_, fun hKind => ?_⟩
  · obtain ⟨hLow, hHigh⟩ := hSwept.fraction_mem le_rfl zero_le_one le_rfl ⟨zero_le_one, le_rfl⟩
    cases hSolid : out.startSolid || out.allSolid with
    | true => exact ⟨le_rfl, zero_le_one, fun _ => rfl⟩
    | false =>
      refine ⟨hLow, hHigh, fun hStart => ?_⟩
      rw [if_neg Bool.false_ne_true, (Bool.or_eq_false_iff.mp hSolid).1] at hStart
      cases hStart
  · cases kind with
    | solid => exact absurd rfl hKind
    | contents volume =>
      obtain ⟨hOver, hStopped, hThrough⟩ := hSwept.volume
      constructor
      · intro hOverruns
        rw [hStopped (hOver.mp hOverruns), Bool.true_or, if_pos rfl]
      · intro hOverruns
        have hOut : through = true := Bool.eq_true_of_not_eq_false fun hNot => hOverruns (hOver.mpr hNot)
        obtain ⟨hStart, hAll⟩ := hThrough hOut
        rw [hStart, hAll, Bool.or_false, if_neg (show ¬(Trace.miss finish).startSolid = true from Bool.false_ne_true)]
        exact ⟨(hSwept.kept hOut).1, hStart, hAll⟩

theorem hitBrush_spec (rotation : Rotation K) (hModel : model.WellFormed) {part : BrushPart K} (hPart : model.Holds part)
    (hull : Hull) (start finish : Vec3 K) :
    ∃ hit, model.hitBrush rotation hull start finish part = some hit ∧ (∀ trace ∈ hit, trace.Tame) ∧
      (part.kind ≠ .solid → (Overrun rotation model hull start finish part → ∃ trace ∈ hit, trace.startSolid = true) ∧
        (¬Overrun rotation model hull start finish part → ∀ trace ∈ hit, trace.Open)) := by
  rw [hitBrush]
  by_cases hHead : part.heads hull < 0
  · rw [if_pos hHead]
    exact ⟨none, rfl, nofun, fun _ => ⟨fun hOver => absurd hHead hOver.1, fun _ => nofun⟩⟩
  · rw [if_neg hHead]
    cases hReaches : part.reaches rotation hull (start.min finish) (start.max finish) with
    | false =>
      refine ⟨none, rfl, nofun, fun _ => ⟨fun hOver => ?_, fun _ => nofun⟩⟩
      rw [hOver.2.1] at hReaches
      cases hReaches
    | true =>
      obtain ⟨tree, trace, hTree, hTrace, hTame, hVolume⟩ := treeTrace_tame hModel hPart.heads hull
        (part.localPoint rotation start) (part.localPoint rotation finish) part.kind
      obtain ⟨outward, hOutward, hRun⟩ :=
        traceTree_some rotation model hull (part.heads hull) part start finish part.kind
      obtain ⟨hFraction, hStart, hAll⟩ := hOutward trace
      rw [if_neg (by decide), hRun, hTrace]
      refine ⟨some (outward trace), rfl, ?_, fun hKind => ⟨?_, ?_⟩⟩
      · rintro _ ⟨⟩
        exact ⟨hFraction ▸ hTame.nonneg, hFraction ▸ hTame.le_one, fun hSolid =>
          hFraction.trans (hTame.started (hStart.symm.trans hSolid))⟩
      · rintro ⟨-, -, other, hOther, hOver⟩
        cases hTree.unique hOther
        exact ⟨_, rfl, hStart.trans ((hVolume hKind).1 hOver)⟩
      · intro hNot
        have hOpen := (hVolume hKind).2 fun hOver => hNot ⟨hHead, hReaches, tree, hTree, hOver⟩
        rintro _ ⟨⟩
        exact ⟨hFraction.trans hOpen.fraction, hStart.trans hOpen.startSolid, hAll.trans hOpen.allSolid⟩

/-! ### Traces of a model with brushes -/

def quiet (part : BrushPart K) : BrushPart K := if part.kind = .solid then part else part.setSolid false

def quieted (model : CollisionModel K) : CollisionModel K := { model with brushes := model.brushes.map quiet }

omit [IsStrictOrderedRing K] [Field K] [LinearOrder K] in
theorem holds_quiet {part : BrushPart K} (h : model.Holds part) : model.Holds (quiet part) := by
  rw [quiet]
  split
  · exact h
  · exact h.setSolid false

omit [IsStrictOrderedRing K] [Field K] [LinearOrder K] in
theorem quieted_wellFormed (h : model.WellFormed) : model.quieted.WellFormed := by
  refine ⟨h.nodes, h.heads, fun part hPart => ?_⟩
  obtain ⟨was, hWas, rfl⟩ := List.mem_map.mp hPart
  have hHolds := holds_quiet (h.brushes was hWas)
  exact ⟨hHolds.heads, hHolds.suspended⟩

omit [IsStrictOrderedRing K] in
theorem hitBrush_quiet (rotation : Rotation K) {part : BrushPart K} (hPart : model.Holds part) (hKind : part.kind ≠ .solid)
    (hull : Hull) (start finish : Vec3 K) : model.hitBrush rotation hull start finish (quiet part) = some none := by
  have hBare : (part.setSolid false).heads hull < 0 := by
    rw [BrushPart.setSolid, if_neg Bool.false_ne_true]
    cases hSuspended : part.suspended with
    | none => exact (by decide : (-1 : Int) < 0)
    | some heads =>
      have hSame := (hPart.suspended heads hSuspended).2
      dsimp only
      rw [hSame]
      exact (by decide : (-1 : Int) < 0)
  rw [quiet, if_neg hKind, hitBrush, if_pos hBare]

section Folding

variable (rotation) (model) (hull) (start) (finish)

def Contributes (part : BrushPart K) (hit : Trace K) : Prop :=
  model.hitBrush rotation hull start finish part = some (some hit)

/-- The nearest of the best so far and what these brushes add. -/
structure Folded (parts : List (BrushPart K)) (best out : Trace K) : Prop where
  tame : out.Tame
  fraction : IsLeast {f | f = best.fraction ∨ ∃ part ∈ parts, ∃ hit, Contributes rotation model hull start finish part hit ∧
    f = hit.fraction} out.fraction
  startSolid : out.startSolid = true ↔ best.startSolid = true ∨
    ∃ part ∈ parts, ∃ hit, Contributes rotation model hull start finish part hit ∧ hit.startSolid = true

variable {rotation} {model} {hull} {start} {finish} {parts : List (BrushPart K)} {best other out : Trace K}

omit [IsStrictOrderedRing K] in
theorem Folded.cons_miss {part : BrushPart K} (h : Folded rotation model hull start finish parts best out)
    (hMiss : model.hitBrush rotation hull start finish part = some none) :
    Folded rotation model hull start finish (part :: parts) best out := by
  have hNone (hit : Trace K) : ¬Contributes rotation model hull start finish part hit := by
    intro hHit
    cases hMiss.symm.trans hHit
  refine ⟨h.tame, ?_, ?_⟩
  · simpa only [List.mem_cons, exists_eq_or_imp, hNone, false_and, exists_false, false_or] using h.fraction
  · simpa only [List.mem_cons, exists_eq_or_imp, hNone, false_and, exists_false, false_or] using h.startSolid

omit [IsStrictOrderedRing K] in
theorem Folded.cons_hit {part : BrushPart K} {hit : Trace K} {index : Nat}
    (h : Folded rotation model hull start finish parts (combine best hit index) out)
    (hHit : Contributes rotation model hull start finish part hit) :
    Folded rotation model hull start finish (part :: parts) best out := by
  have hOnly (other : Trace K) : Contributes rotation model hull start finish part other ↔ other = hit := by
    refine ⟨fun hOther => ?_, fun hSame => hSame ▸ hHit⟩
    exact Option.some.inj (Option.some.inj (hOther.symm.trans hHit))
  have hFraction := h.fraction
  have hStart := h.startSolid
  rw [combine_fraction] at hFraction
  rw [combine_startSolid, Bool.or_eq_true] at hStart
  refine ⟨h.tame, ?_, ?_⟩
  · simp only [List.mem_cons, exists_eq_or_imp, hOnly, exists_eq_left]
    obtain ⟨hMem, hLower⟩ := hFraction
    refine ⟨?_, ?_⟩
    · rcases hMem with hBest | hLater
      · rcases min_choice best.fraction hit.fraction with hMin | hMin
        · exact .inl (hBest.trans hMin)
        · exact .inr (.inl (hBest.trans hMin))
      · exact .inr (.inr hLater)
    · rintro f (rfl | rfl | hLater)
      · exact (hLower (.inl rfl)).trans (min_le_left _ _)
      · exact (hLower (.inl rfl)).trans (min_le_right _ _)
      · exact hLower (.inr hLater)
  · simp only [List.mem_cons, exists_eq_or_imp, hOnly, exists_eq_left]
    rw [hStart, or_assoc]

theorem foldBrushes_folded (hModel : model.WellFormed) (hParts : ∀ part ∈ parts, model.Holds part) (hBest : best.Tame) (index : Nat) :
    ∃ out, model.foldBrushes rotation hull start finish none index parts best = some out ∧
      Folded rotation model hull start finish parts best out := by
  induction parts generalizing best index with
  | nil =>
    refine ⟨best, rfl, hBest, ⟨.inl rfl, ?_⟩, ?_⟩
    · rintro f (rfl | ⟨part, hNone, -⟩)
      · exact le_rfl
      · cases hNone
    · simp
  | cons part parts ih =>
    obtain ⟨hPart, hRest⟩ := List.forall_mem_cons.mp hParts
    obtain ⟨hit, hHit, hTame, -⟩ := hitBrush_spec rotation hModel hPart hull start finish
    rw [foldBrushes, if_neg (Option.some_ne_none index).symm, hHit, Option.bind_eq_bind, Option.bind_some]
    cases hit with
    | none =>
      obtain ⟨out, hOut, hFolded⟩ := ih hRest hBest (index + 1)
      exact ⟨out, hOut, hFolded.cons_miss hHit⟩
    | some hit =>
      obtain ⟨out, hOut, hFolded⟩ := ih hRest (combine_tame hBest (hTame hit rfl) index) (index + 1)
      exact ⟨out, hOut, hFolded.cons_hit hHit⟩

theorem foldBrushes_quiet (hModel : model.WellFormed) (hParts : ∀ part ∈ parts, model.Holds part)
    (hVolumes : ∀ part ∈ parts, part.kind ≠ .solid → ¬Overrun rotation model hull start finish part)
    (hBest : best.Tame) (hSame : SameMove best other) {index : Nat}
    (hOut : model.foldBrushes rotation hull start finish none index parts best = some out) :
    ∃ bare, model.foldBrushes rotation hull start finish none index (parts.map quiet) other = some bare ∧ SameMove out bare := by
  induction parts generalizing best other index with
  | nil =>
    obtain rfl := Option.some.inj hOut
    exact ⟨other, rfl, hSame⟩
  | cons part parts ih =>
    obtain ⟨hPart, hRest⟩ := List.forall_mem_cons.mp hParts
    obtain ⟨hVolume, hLater⟩ := List.forall_mem_cons.mp hVolumes
    obtain ⟨hit, hHit, hTame, hKinds⟩ := hitBrush_spec rotation hModel hPart hull start finish
    rw [foldBrushes, if_neg (Option.some_ne_none index).symm, hHit, Option.bind_eq_bind, Option.bind_some] at hOut
    rw [List.map_cons, foldBrushes, if_neg (Option.some_ne_none index).symm]
    by_cases hKind : part.kind = .solid
    · rw [quiet, if_pos hKind, hHit, Option.bind_eq_bind, Option.bind_some]
      cases hit with
      | none => exact ih hRest hLater hBest hSame hOut
      | some hit => exact ih hRest hLater (combine_tame hBest (hTame hit rfl) index) (combine_same hSame hit index) hOut
    · rw [hitBrush_quiet rotation hPart hKind, Option.bind_eq_bind, Option.bind_some]
      cases hit with
      | none => exact ih hRest hLater hBest hSame hOut
      | some hit =>
        have hOpen := (hKinds hKind).2 (hVolume hKind) hit rfl
        exact ih hRest hLater (combine_tame hBest (hTame hit rfl) index) ((combine_open hBest hOpen index).trans hSame) hOut

end Folding

omit [IsStrictOrderedRing K] in
theorem foldBrushes_quieted (rotation : Rotation K) (model : CollisionModel K) (hull : Hull) (start finish : Vec3 K) (index : Nat)
    (parts : List (BrushPart K)) (best : Trace K) : model.quieted.foldBrushes rotation hull start finish none index parts best =
      model.foldBrushes rotation hull start finish none index parts best := by
  induction parts generalizing index best with
  | nil => rfl
  | cons part parts ih =>
    have hHit : model.quieted.hitBrush rotation hull start finish part = model.hitBrush rotation hull start finish part := rfl
    rw [foldBrushes, foldBrushes, hHit]
    simp only [ih]

omit [IsStrictOrderedRing K] in
theorem brushLink_total (hModel : model.WellFormed) {part : BrushPart K} (hPart : model.Holds part) (point : Vec3 K) :
    ∃ link, model.brushLink rotation hull part point = some link := by
  rw [brushLink]
  split
  · exact ⟨none, rfl⟩
  · split
    · exact ⟨none, rfl⟩
    · obtain ⟨value, hValue⟩ := walk_total hModel hPart.heads hull (part.localPoint rotation point)
      exact ⟨some value, by rw [hValue]; rfl⟩

omit [IsStrictOrderedRing K] in
theorem solidBrushAt_total (hModel : model.WellFormed) {parts : List (BrushPart K)} (hParts : ∀ part ∈ parts, model.Holds part)
    (point : Vec3 K) : ∃ link, model.solidBrushAt rotation hull point parts = some link := by
  induction parts with
  | nil => exact ⟨none, rfl⟩
  | cons part parts ih =>
    obtain ⟨hPart, hRest⟩ := List.forall_mem_cons.mp hParts
    have hLinked : ∃ link, model.brushLink rotation hull part point = some link := brushLink_total hModel hPart point
    obtain ⟨link, hLink⟩ := hLinked
    rw [solidBrushAt]
    split
    · exact ih hRest
    · rw [hLink, Option.bind_eq_bind, Option.bind_some]
      cases link with
      | none => exact ih hRest
      | some link =>
        dsimp only
        split
        · exact ⟨some link, rfl⟩
        · exact ih hRest

omit [IsStrictOrderedRing K] in
theorem volumeAt_total (hModel : model.WellFormed) {parts : List (BrushPart K)} (hParts : ∀ part ∈ parts, model.Holds part)
    (point : Vec3 K) : ∃ value, model.volumeAt rotation hull point parts = some value := by
  induction parts with
  | nil => exact ⟨none, rfl⟩
  | cons part parts ih =>
    obtain ⟨hPart, hRest⟩ := List.forall_mem_cons.mp hParts
    have hLinked : ∃ link, model.brushLink rotation hull part point = some link := brushLink_total hModel hPart point
    obtain ⟨link, hLink⟩ := hLinked
    rw [volumeAt]
    split
    · exact ih hRest
    · next volume hKind =>
      rw [hLink, Option.bind_eq_bind, Option.bind_some]
      cases link with
      | none => exact ih hRest
      | some link =>
        dsimp only
        split
        · exact ⟨some volume.contentsValue, rfl⟩
        · exact ih hRest

omit [IsStrictOrderedRing K] in
theorem contentsAt_total (hModel : model.WellFormed) (point : Vec3 K) :
    ∃ value, model.contentsAt rotation hull point = some value := by
  have hSolid : ∃ link, model.solidBrushAt rotation hull point model.brushes = some link :=
    solidBrushAt_total hModel hModel.brushes point
  have hVolumes : ∃ value, model.volumeAt rotation hull point model.brushes = some value :=
    volumeAt_total hModel hModel.brushes point
  obtain ⟨link, hLink⟩ := hSolid
  obtain ⟨volume, hVolume⟩ := hVolumes
  rw [contentsAt, hLink, Option.bind_eq_bind, Option.bind_some]
  cases link with
  | some link => exact ⟨link, rfl⟩
  | none =>
    dsimp only
    rw [hVolume, Option.bind_some]
    cases volume with
    | some value => exact ⟨value, rfl⟩
    | none => exact walk_total hModel hModel.heads hull point

/-- What a trace through the world and the brushes attached to it is. -/
structure Composed (rotation : Rotation K) (model : CollisionModel K) (hull : Hull) (start finish : Vec3 K)
    (world trace : Trace K) : Prop where
  fraction : IsLeast {f | f = world.fraction ∨
    ∃ part ∈ model.brushes, ∃ hit, Contributes rotation model hull start finish part hit ∧ f = hit.fraction} trace.fraction
  startSolid : trace.startSolid = true ↔ world.startSolid = true ∨
    ∃ part ∈ model.brushes, ∃ hit, Contributes rotation model hull start finish part hit ∧ hit.startSolid = true
  halted : trace.startSolid = true → trace.fraction = 0 ∧ trace.endPos = start
  /-- A volume stops nothing, -/
  volumes : (∀ part ∈ model.brushes, part.kind ≠ .solid → ¬Overrun rotation model hull start finish part) →
    ∃ bare, model.quieted.trace rotation hull start finish = some bare ∧ SameMove trace bare
  /-- but for one whose tree is deeper along the segment than a trace follows. -/
  overrun : (∃ part ∈ model.brushes, part.kind ≠ .solid ∧ Overrun rotation model hull start finish part) →
    trace.startSolid = true

omit [IsStrictOrderedRing K] in
theorem trace_of_fold {world out : Trace K} (hModel : model.WellFormed)
    (hWorld : model.treeTrace hull (model.heads hull) start finish .solid = some world)
    (hFold : model.foldBrushes rotation hull start finish none 0 model.brushes world = some out) :
    ∃ trace, model.trace rotation hull start finish = some trace ∧
      SameMove trace (if out.startSolid then { out with fraction := 0, endPos := start } else out) := by
  have hTotal (point : Vec3 K) : ∃ value, model.contentsAt rotation hull point = some value := contentsAt_total hModel point
  obtain ⟨contents, hContents⟩ := hTotal (if out.startSolid then { out with fraction := 0, endPos := start } else out).endPos
  refine ⟨{ (if out.startSolid then { out with fraction := 0, endPos := start } else out) with contents }, ?_, ?_⟩
  · rw [trace, traceIgnoring, traceTree, hWorld, Option.bind_eq_bind, Option.bind_some, hFold, Option.bind_eq_bind,
      Option.bind_some]
    dsimp only
    rw [hContents]
    rfl
  · exact ⟨rfl, rfl, rfl, rfl, rfl, rfl, rfl⟩

theorem composed (rotation : Rotation K) (hModel : model.WellFormed) (hull : Hull) (start finish : Vec3 K) :
    ∃ world trace, model.treeTrace hull (model.heads hull) start finish .solid = some world ∧
      model.trace rotation hull start finish = some trace ∧ Composed rotation model hull start finish world trace := by
  obtain ⟨tree, world, -, hWorld, hTame, -⟩ := treeTrace_tame hModel hModel.heads hull start finish .solid
  have hFolds : ∃ out, model.foldBrushes rotation hull start finish none 0 model.brushes world = some out ∧
      Folded rotation model hull start finish model.brushes world out := foldBrushes_folded hModel hModel.brushes hTame 0
  obtain ⟨out, hOut, hFolded⟩ := hFolds
  obtain ⟨trace, hTrace, hSame⟩ := trace_of_fold hModel hWorld hOut
  refine ⟨world, trace, hWorld, hTrace, ?_⟩
  have hStart : trace.startSolid = out.startSolid := by
    rw [hSame.startSolid]
    split <;> rfl
  have hFraction : trace.fraction = out.fraction := by
    rw [hSame.fraction]
    split
    · next hSolid => exact (hFolded.tame.started hSolid).symm
    · rfl
  refine ⟨hFraction ▸ hFolded.fraction, hStart ▸ hFolded.startSolid, ?_, ?_, ?_⟩
  · intro hSolid
    have hOutSolid := hStart.symm.trans hSolid
    refine ⟨hFraction.trans (hFolded.tame.started hOutSolid), ?_⟩
    rw [hSame.endPos, if_pos hOutSolid]
  · intro hVolumes
    have hRefl : SameMove world world := ⟨rfl, rfl, rfl, rfl, rfl, rfl, rfl⟩
    obtain ⟨bareOut, hBareOut, hBareSame⟩ := foldBrushes_quiet hModel hModel.brushes hVolumes hTame hRefl hOut
    have hBareFold : model.quieted.foldBrushes rotation hull start finish none 0 model.quieted.brushes world = some bareOut :=
      (foldBrushes_quieted rotation model hull start finish _ _ _).trans hBareOut
    obtain ⟨bare, hBare, hBareTrace⟩ := trace_of_fold (quieted_wellFormed hModel) hWorld hBareFold
    refine ⟨bare, hBare, hSame.trans (SameMove.trans ?_ hBareTrace.symm)⟩
    exact hBareSame.halted start
  · rintro ⟨part, hPart, hKind, hOver⟩
    obtain ⟨hit, hHit, -, hKinds⟩ := hitBrush_spec rotation hModel (hModel.brushes part hPart) hull start finish
    obtain ⟨stopped, hStopped, hSolid⟩ := (hKinds hKind).1 hOver
    obtain rfl := Option.mem_def.mp hStopped
    rw [hStart]
    exact hFolded.startSolid.mpr (.inr ⟨part, hPart, stopped, hHit, hSolid⟩)

end CollisionModel

/-! ### A wall in water -/

def flooded : List (Call ℚ) :=
  [.attachContentsBrush wall 0 (atX 5) .water, .setBrushSolid 0 false, .setBrushOrigin 0 (atX 6), .setBrushSolid 0 true]

end OpenHalfLife.Physics
