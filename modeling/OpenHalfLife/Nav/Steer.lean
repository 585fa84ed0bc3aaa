import Mathlib.Analysis.SpecialFunctions.Trigonometric.Basic
import OpenHalfLife.Nav.Search
import OpenHalfLife.Physics.Moves

/-! # Steering along a path

A path is found through the graph or is one straight move. The steering passes
the waypoints a mover stands on, and goes for the next one as far as the probes are clear.
-/

namespace OpenHalfLife.Nav

open Physics Physics.Vec3

set_option autoImplicit false

noncomputable section

open Classical

structure Path where
  waypoints : List (Physics.Vec3 ℝ)
  nodes : List Nat
  cost : WithTop ℝ
  explored : Nat

structure PathLimits where
  maxExplored : Nat
  attachRadius : ℝ
  maxAttachCandidates : Nat

/-! ## Paths -/

def NodeKind.isGrounded : NodeKind → Bool
  | .ground => true
  | .air | .water => false

def waypointOf (node : Node ℝ) (hull : Hull) : Physics.Vec3 ℝ :=
  if node.kind.isGrounded then node.position + (Physics.Vec3.mk 0 0 1).scale hull.footOffset else node.position

def straightPathIfClear (collision : Tracer) (start finish : Physics.Vec3 ℝ) (hull : Hull) : Option Path :=
  if (collision.trace hull start finish).blocked then none
  else some ⟨[finish], [], (finish - start).length, 0⟩

namespace NodeGraph

def waypoint (graph : NodeGraph ℝ) (index : Nat) (hull : Hull) : Option (Physics.Vec3 ℝ) :=
  graph.nodes[index]?.map fun node => waypointOf node hull

def candidates (graph : NodeGraph ℝ) (position : Physics.Vec3 ℝ) (hull : Hull) (radius : ℝ) : List (ℝ × Nat) :=
  let inRange := graph.nodes.zipIdx.filterMap fun (node, index) =>
    let distance := (waypointOf node hull - position).lengthSquared
    if index ≤ u32Max ∧ distance ≤ radius * radius then some (distance, index) else none
  inRange.mergeSort fun left right => decide (left.1 < right.1 ∨ left.1 = right.1 ∧ left.2 ≤ right.2)

def nearestReachable (graph : NodeGraph ℝ) (position : Physics.Vec3 ℝ) (hull : Hull) (collision : Tracer) (radius : ℝ)
    (maxCandidates : Nat) : Option Nat :=
  if radius ≤ 0 then none
  else
    (((graph.candidates position hull radius).take maxCandidates).find? fun (_, index) =>
      (graph.waypoint index hull).any fun waypoint => decide ¬(collision.trace hull position waypoint).blocked).map Prod.snd

def findPath (graph : NodeGraph ℝ) (collision : Tracer) (start finish : Physics.Vec3 ℝ) (hull : Hull) (limits : PathLimits) :
    Option Nav.Path := do
  let first ← graph.nearestReachable start hull collision limits.attachRadius limits.maxAttachCandidates
  let last ← graph.nearestReachable finish hull collision limits.attachRadius limits.maxAttachCandidates
  let (route, routeCost, explored) ← graph.search first last hull limits.maxExplored
  let waypoints ← route.mapM fun node => graph.waypoint node hull
  let attachStart := ((← waypoints.head?) - start).length
  let attachGoal := (finish - (← waypoints.getLast?)).length
  return ⟨waypoints ++ [finish], route, attachStart + routeCost + attachGoal, explored⟩

end NodeGraph

/-! ## Steering -/

structure MoveIntent where
  dir : Physics.Vec3 ℝ
  speedScale : ℝ
  reached : Bool
  blocked : Bool

def MoveIntent.idle (reached : Bool) : MoveIntent := ⟨zero, 0, reached, false⟩

structure SteerLimits where
  arriveRadius : ℝ
  probeDistance : ℝ
  probeAngleDegrees : ℝ
  stuckWindowTicks : Nat
  minWindowProgress : ℝ
  maxSkipProbes : Nat

structure Steer where
  cursor : Nat
  ticks : Nat
  windowStart : Physics.Vec3 ℝ
  windowOpen : Bool
  stuck : Bool

def singleEpsilon : ℝ := 1 / ((8388608 : Nat) : ℝ)

def normalizeHorizontal (vector : Physics.Vec3 ℝ) (hull : Hull) : Option (Physics.Vec3 ℝ) :=
  let vector := if hull = .point then vector else vector.flat
  if vector.lengthSquared ≤ singleEpsilon then none else some vector.normalize

def travelDir (pos target : Physics.Vec3 ℝ) (hull : Hull) : Option (Physics.Vec3 ℝ) := normalizeHorizontal (target - pos) hull

def rotateZ (vector : Physics.Vec3 ℝ) (radians : ℝ) : Physics.Vec3 ℝ :=
  ⟨vector.x * Real.cos radians - vector.y * Real.sin radians, vector.x * Real.sin radians + vector.y * Real.cos radians, vector.z⟩

def toRadians (degrees : ℝ) : ℝ := degrees * (Real.pi / ((180 : Nat) : ℝ))

def clearerSide (pos desired : Physics.Vec3 ℝ) (hull : Hull) (collision : Tracer) (limits : SteerLimits) : Physics.Vec3 ℝ :=
  let reach := max limits.probeDistance 1
  let left := rotateZ desired (Real.pi / ((2 : Nat) : ℝ))
  let right := -left
  let leftFraction := (collision.trace hull pos (pos + left.scale reach)).fraction
  let rightFraction := (collision.trace hull pos (pos + right.scale reach)).fraction
  if leftFraction < rightFraction then right else left

def slide (pos desired : Physics.Vec3 ℝ) (hull : Hull) (collision : Tracer) (reach : ℝ) (forward : Trace ℝ) : Option (Physics.Vec3 ℝ) :=
  if forward.startSolid = false ∧ 0 < forward.planeNormal.lengthSquared then
    (normalizeHorizontal (desired - forward.planeNormal.scale (desired.dot forward.planeNormal)) hull).filter fun slide =>
      decide ¬(collision.trace hull pos (pos + slide.scale reach)).blocked
  else none

def weighProbe (pos desired : Physics.Vec3 ℝ) (hull : Hull) (collision : Tracer) (limits : SteerLimits) (reach : ℝ)
    (best : Option (ℝ × Physics.Vec3 ℝ)) (sign : ℝ) : Option (ℝ × Physics.Vec3 ℝ) :=
  match normalizeHorizontal (rotateZ desired (toRadians limits.probeAngleDegrees * sign)) hull with
  | none => best
  | some candidate =>
    let trace := collision.trace hull pos (pos + candidate.scale reach)
    let score := if trace.startSolid then 0 else trace.fraction
    if best.all fun previous => decide (previous.1 < score) then some (score, candidate) else best

def bestProbe (pos desired : Physics.Vec3 ℝ) (hull : Hull) (collision : Tracer) (limits : SteerLimits) (reach : ℝ) :
    Option (ℝ × Physics.Vec3 ℝ) :=
  [1, -1].foldl (weighProbe pos desired hull collision limits reach) none

def probe (pos desired : Physics.Vec3 ℝ) (hull : Hull) (collision : Tracer) (limits : SteerLimits) : MoveIntent :=
  let reach := max limits.probeDistance 1
  let forward := collision.trace hull pos (pos + desired.scale reach)
  if ¬forward.blocked then ⟨desired, 1, false, false⟩
  else
    match slide pos desired hull collision reach forward with
    | some slide => ⟨slide, ((7 : Nat) : ℝ) / ((10 : Nat) : ℝ), false, false⟩
    | none =>
      match bestProbe pos desired hull collision limits reach with
      | some (score, dir) => if 1 ≤ score then ⟨dir, 1 / ((2 : Nat) : ℝ), false, false⟩ else ⟨dir, 1 / ((4 : Nat) : ℝ), false, true⟩
      | none => ⟨zero, 0, false, true⟩

def headTo (stuck : Bool) (pos target : Physics.Vec3 ℝ) (hull : Hull) (collision : Tracer) (limits : SteerLimits) : MoveIntent :=
  match travelDir pos target hull with
  | none => .idle false
  | some desired =>
    if stuck then ⟨clearerSide pos desired hull collision limits, 1 / ((2 : Nat) : ℝ), false, true⟩
    else probe pos desired hull collision limits

namespace Steer

def new : Steer := ⟨0, 0, zero, false, false⟩

/-- Skips to waypoints that are both nearer and directly traceable, so many times at most. -/
def skipAhead (pos : Physics.Vec3 ℝ) (waypoints : List (Physics.Vec3 ℝ)) (hull : Hull) (collision : Tracer) : Nat → Nat → Nat
  | 0, cursor => cursor
  | probes + 1, cursor =>
    match waypoints[cursor]?, waypoints[cursor + 1]? with
    | some current, some next =>
      if (current - pos).lengthSquared ≤ (next - pos).lengthSquared ∨ (collision.trace hull pos next).blocked then cursor
      else skipAhead pos waypoints hull collision probes (cursor + 1)
    | _, _ => cursor

/-- Passes the waypoints stood on, but the last; there are `left` more. -/
def pass (pos : Physics.Vec3 ℝ) (waypoints : List (Physics.Vec3 ℝ)) (arriveSquared : ℝ) : Nat → Nat → Nat
  | 0, cursor => cursor
  | left + 1, cursor =>
    match waypoints[cursor]? with
    | some target =>
      if arriveSquared < (target - pos).lengthSquared then cursor else pass pos waypoints arriveSquared left (cursor + 1)
    | none => cursor

def updateProgress (steer : Steer) (pos : Physics.Vec3 ℝ) (limits : SteerLimits) : Steer :=
  if !steer.windowOpen then { steer with windowStart := pos, windowOpen := true, ticks := 0 }
  else
    let ticks := min (steer.ticks + 1) u32Max
    if ticks < max limits.stuckWindowTicks 1 then { steer with ticks }
    else
      let travelled := (pos - steer.windowStart).length
      { steer with stuck := decide (travelled < limits.minWindowProgress), windowStart := pos, ticks := 0 }

def skipped (steer : Steer) (pos : Physics.Vec3 ℝ) (path : Path) (hull : Hull) (collision : Tracer) (limits : SteerLimits) : Nat :=
  skipAhead pos path.waypoints hull collision limits.maxSkipProbes (min steer.cursor (path.waypoints.length - 1))

def nextMove (steer : Steer) (pos : Physics.Vec3 ℝ) (path : Path) (hull : Hull) (collision : Tracer) (limits : SteerLimits) :
    MoveIntent × Steer :=
  let steer := steer.updateProgress pos limits
  if path.waypoints.isEmpty then (.idle false, steer)
  else
    let last := path.waypoints.length - 1
    let arriveSquared := limits.arriveRadius * limits.arriveRadius
    let skipped := steer.skipped pos path hull collision limits
    let cursor := pass pos path.waypoints arriveSquared (last - skipped) skipped
    let steer := { steer with cursor }
    match path.waypoints[cursor]? with
    | none => (.idle false, steer)
    | some target =>
      if cursor = last ∧ (target - pos).lengthSquared ≤ arriveSquared then (.idle true, steer)
      else (headTo steer.stuck pos target hull collision limits, steer)

end Steer

end

/-! ## What the steering answers -/

structure Directed (hull : Hull) (dir : Physics.Vec3 ℝ) : Prop where
  length_eq : dir.length = 1
  level : hull ≠ .point → dir.z = 0

section

variable {hull : Hull} {pos dir desired target : Physics.Vec3 ℝ} {collision : Tracer} {limits : SteerLimits} {reach : ℝ}

theorem normalizeHorizontal_directed {vector : Physics.Vec3 ℝ} (h : normalizeHorizontal vector hull = some dir) : Directed hull dir := by
  unfold normalizeHorizontal at h
  dsimp only at h
  have hEpsilon : 0 < singleEpsilon := by norm_num [singleEpsilon]
  by_cases hPoint : hull = .point
  · rw [if_pos hPoint] at h
    split_ifs at h with hShort
    rw [← Option.some.inj h]
    exact ⟨length_normalize (hEpsilon.trans (not_le.mp hShort)), fun hOther => absurd hPoint hOther⟩
  · rw [if_neg hPoint] at h
    split_ifs at h with hShort
    rw [← Option.some.inj h]
    exact ⟨length_normalize (hEpsilon.trans (not_le.mp hShort)), fun _ => by simp [Physics.Vec3.normalize, flat]⟩

theorem Directed.rotateZ (h : Directed hull dir) (radians : ℝ) : Directed hull (rotateZ dir radians) := by
  refine ⟨?_, h.level⟩
  have hSame : (Nav.rotateZ dir radians).lengthSquared = dir.lengthSquared := by
    simp only [Nav.rotateZ, lengthSquared, dot]
    linear_combination (dir.x ^ 2 + dir.y ^ 2) * Real.sin_sq_add_cos_sq radians
  rw [Physics.Vec3.length, hSame]
  exact h.length_eq

theorem Directed.neg (h : Directed hull dir) : Directed hull (-dir) := by
  constructor
  · have hSame : (-dir).lengthSquared = dir.lengthSquared := by
      simp only [lengthSquared, dot, neg_x, neg_y, neg_z]
      ring
    rw [Physics.Vec3.length, hSame]
    exact h.length_eq
  · intro hWalks
    rw [neg_z, h.level hWalks, neg_zero]

theorem clearerSide_directed (h : Directed hull desired) : Directed hull (clearerSide pos desired hull collision limits) := by
  unfold clearerSide
  dsimp only
  split_ifs
  · exact (h.rotateZ _).neg
  · exact h.rotateZ _

theorem slide_directed {forward : Trace ℝ} (h : slide pos desired hull collision reach forward = some dir) : Directed hull dir := by
  unfold slide at h
  split_ifs at h
  exact normalizeHorizontal_directed (Option.filter_eq_some_iff.mp h).1

theorem weighProbe_directed {best : Option (ℝ × Physics.Vec3 ℝ)} (h : ∀ kept, best = some kept → Directed hull kept.2) (sign : ℝ) :
    ∀ kept, weighProbe pos desired hull collision limits reach best sign = some kept → Directed hull kept.2 := by
  intro kept hKept
  unfold weighProbe at hKept
  cases hCandidate : normalizeHorizontal (rotateZ desired (toRadians limits.probeAngleDegrees * sign)) hull with
  | none =>
    rw [hCandidate] at hKept
    exact h kept hKept
  | some candidate =>
    rw [hCandidate] at hKept
    dsimp only at hKept
    split_ifs at hKept
    all_goals first
      | exact h kept hKept
      | exact Option.some.inj hKept ▸ normalizeHorizontal_directed hCandidate

theorem bestProbe_directed {best : ℝ × Physics.Vec3 ℝ} (h : bestProbe pos desired hull collision limits reach = some best) :
    Directed hull best.2 := by
  have hNone : ∀ kept : ℝ × Physics.Vec3 ℝ, none = some kept → Directed hull kept.2 := fun _ hSame => by cases hSame
  exact weighProbe_directed (weighProbe_directed hNone 1) (-1) best h

theorem probe_reached (pos desired : Physics.Vec3 ℝ) (hull : Hull) (collision : Tracer) (limits : SteerLimits) :
    (probe pos desired hull collision limits).reached = false := by
  unfold probe
  dsimp only
  split
  · rfl
  split
  · rfl
  split
  · split <;> rfl
  · rfl

theorem probe_dir (h : Directed hull desired) :
    (probe pos desired hull collision limits).dir = zero ∨ Directed hull (probe pos desired hull collision limits).dir := by
  unfold probe
  dsimp only
  by_cases hClear : ¬(collision.trace hull pos (pos + desired.scale (max limits.probeDistance 1))).blocked
  · rw [if_pos hClear]
    exact .inr h
  rw [if_neg hClear]
  cases hSlide : slide pos desired hull collision (max limits.probeDistance 1)
      (collision.trace hull pos (pos + desired.scale (max limits.probeDistance 1))) with
  | some dir => exact .inr (slide_directed hSlide)
  | none =>
    cases hBest : bestProbe pos desired hull collision limits (max limits.probeDistance 1) with
    | none => exact .inl rfl
    | some best =>
      dsimp only
      split_ifs
      · exact .inr (bestProbe_directed hBest)
      · exact .inr (bestProbe_directed hBest)

theorem headTo_dir (stuck : Bool) (pos target : Physics.Vec3 ℝ) (hull : Hull) (collision : Tracer) (limits : SteerLimits) :
    (headTo stuck pos target hull collision limits).dir = zero ∨
      Directed hull (headTo stuck pos target hull collision limits).dir := by
  unfold headTo
  cases hDesired : travelDir pos target hull with
  | none => exact .inl rfl
  | some desired =>
    cases stuck with
    | true => exact .inr (clearerSide_directed (normalizeHorizontal_directed hDesired))
    | false => exact probe_dir (normalizeHorizontal_directed hDesired)

theorem headTo_reached (stuck : Bool) (pos target : Physics.Vec3 ℝ) (hull : Hull) (collision : Tracer) (limits : SteerLimits) :
    (headTo stuck pos target hull collision limits).reached = false := by
  unfold headTo
  cases travelDir pos target hull with
  | none => rfl
  | some desired =>
    cases stuck with
    | true => rfl
    | false => exact probe_reached pos desired hull collision limits

end

namespace Steer

variable {steer : Steer} {pos : Physics.Vec3 ℝ} {path : Path} {hull : Hull} {collision : Tracer} {limits : SteerLimits}
  {waypoints : List (Physics.Vec3 ℝ)} {arriveSquared : ℝ}

theorem nextMove_dir (steer : Steer) (pos : Physics.Vec3 ℝ) (path : Path) (hull : Hull) (collision : Tracer) (limits : SteerLimits) :
    (steer.nextMove pos path hull collision limits).1.dir = zero ∨
      Directed hull (steer.nextMove pos path hull collision limits).1.dir := by
  unfold nextMove
  dsimp only
  split
  · exact .inl rfl
  split
  · exact .inl rfl
  split
  · exact .inl rfl
  · exact headTo_dir _ _ _ _ _ _

theorem skipAhead_le (probes : Nat) {cursor last : Nat} (h : cursor ≤ last) (hLast : waypoints.length = last + 1) :
    skipAhead pos waypoints hull collision probes cursor ≤ last := by
  induction probes generalizing cursor with
  | zero => exact h
  | succ probes ih =>
    unfold skipAhead
    split
    · rename_i current next _ hNext
      split_ifs
      · exact h
      · exact ih (by
          have hBound := (List.getElem?_eq_some_iff.mp hNext).1
          omega)
    · exact h

variable (pos arriveSquared) in
theorem pass_eq_last (left : Nat) {cursor last : Nat} (hLast : waypoints.length = last + 1) (hLeft : cursor + left = last) :
    pass pos waypoints arriveSquared left cursor = last ↔
      ∀ k, cursor ≤ k → k < last → ∀ target, waypoints[k]? = some target → (target - pos).lengthSquared ≤ arriveSquared := by
  induction left generalizing cursor with
  | zero =>
    obtain rfl : cursor = last := hLeft
    exact ⟨fun _ k hLow hHigh => absurd hHigh (not_lt.mpr hLow), fun _ => rfl⟩
  | succ left ih =>
    obtain ⟨here, hHere⟩ : ∃ here, waypoints[cursor]? = some here := ⟨_, List.getElem?_eq_getElem (by omega)⟩
    unfold pass
    rw [hHere]
    dsimp only
    split_ifs with hAway
    · constructor
      · intro hSame
        omega
      · intro hAll
        exact absurd hAway (not_lt.mpr (hAll cursor le_rfl (by omega) _ hHere))
    · rw [ih (by omega)]
      constructor
      · intro hRest k hLow hHigh target hTarget
        rcases Nat.eq_or_lt_of_le hLow with rfl | hMore
        · rw [hHere] at hTarget
          rw [← Option.some.inj hTarget]
          exact not_lt.mp hAway
        · exact hRest k hMore hHigh target hTarget
      · intro hAll k hLow
        exact hAll k (by omega)

/-- The mover stands on every waypoint that is left once it has skipped ahead. -/
def AtEnd (steer : Steer) (pos : Physics.Vec3 ℝ) (path : Path) (hull : Hull) (collision : Tracer) (limits : SteerLimits) : Prop :=
  path.waypoints ≠ [] ∧ ∀ waypoint ∈ path.waypoints.drop (steer.skipped pos path hull collision limits),
    (waypoint - pos).lengthSquared ≤ limits.arriveRadius * limits.arriveRadius

variable (pos waypoints arriveSquared) in
theorem pass_le (left cursor : Nat) : pass pos waypoints arriveSquared left cursor ≤ cursor + left := by
  induction left generalizing cursor with
  | zero => exact le_rfl
  | succ left ih =>
    unfold pass
    split
    · split_ifs
      · omega
      · exact (ih (cursor + 1)).trans (by omega)
    · omega

theorem skipped_updateProgress (steer : Steer) (pos : Physics.Vec3 ℝ) (path : Path) (hull : Hull) (collision : Tracer)
    (limits : SteerLimits) :
    (steer.updateProgress pos limits).skipped pos path hull collision limits = steer.skipped pos path hull collision limits := by
  have hCursor : (steer.updateProgress pos limits).cursor = steer.cursor := by
    unfold updateProgress
    dsimp only
    split_ifs <;> rfl
  rw [skipped, hCursor, skipped]

theorem nextMove_reached (steer : Steer) (pos : Physics.Vec3 ℝ) (path : Path) (hull : Hull) (collision : Tracer) (limits : SteerLimits) :
    (steer.nextMove pos path hull collision limits).1.reached = true ↔ steer.AtEnd pos path hull collision limits := by
  unfold nextMove AtEnd
  dsimp only
  rw [skipped_updateProgress]
  by_cases hEmpty : path.waypoints = []
  · rw [if_pos (List.isEmpty_iff.mpr hEmpty)]
    exact ⟨fun h => absurd h Bool.false_ne_true, fun h => absurd hEmpty h.1⟩
  rw [if_neg fun h => hEmpty (List.isEmpty_iff.mp h)]
  obtain ⟨last, hLast⟩ : ∃ last, path.waypoints.length = last + 1 :=
    Nat.exists_eq_succ_of_ne_zero fun h => hEmpty (List.length_eq_zero_iff.mp h)
  rw [hLast, Nat.add_sub_cancel]
  generalize hSkipped : steer.skipped pos path hull collision limits = skipped
  have hBound : skipped ≤ last := by
    rw [← hSkipped]
    exact skipAhead_le _ (by rw [hLast, Nat.add_sub_cancel]; exact min_le_right _ _) hLast
  have hPass := pass_eq_last pos (limits.arriveRadius * limits.arriveRadius) (last - skipped)
    hLast (Nat.add_sub_cancel' hBound)
  have hLeft := pass_le pos path.waypoints (limits.arriveRadius * limits.arriveRadius) (last - skipped) skipped
  obtain ⟨target, hTarget⟩ : ∃ target, path.waypoints[pass pos path.waypoints
      (limits.arriveRadius * limits.arriveRadius) (last - skipped) skipped]? = some target :=
    ⟨_, List.getElem?_eq_getElem (by omega)⟩
  rw [hTarget]
  dsimp only
  have hMem (waypoint : Physics.Vec3 ℝ) : waypoint ∈ path.waypoints.drop skipped ↔
      ∃ k, skipped ≤ k ∧ path.waypoints[k]? = some waypoint := by
    rw [List.mem_iff_getElem?]
    constructor
    · rintro ⟨k, hk⟩
      rw [List.getElem?_drop] at hk
      exact ⟨skipped + k, Nat.le_add_right _ _, hk⟩
    · rintro ⟨k, hLow, hk⟩
      refine ⟨k - skipped, ?_⟩
      rw [List.getElem?_drop, Nat.add_sub_cancel' hLow]
      exact hk
  by_cases hEnd : pass pos path.waypoints (limits.arriveRadius * limits.arriveRadius) (last - skipped) skipped = last ∧
      (target - pos).lengthSquared ≤ limits.arriveRadius * limits.arriveRadius
  · rw [if_pos hEnd]
    refine ⟨fun _ => ⟨hEmpty, fun waypoint hWaypoint => ?_⟩, fun _ => rfl⟩
    obtain ⟨k, hLow, hk⟩ := (hMem waypoint).mp hWaypoint
    rw [hEnd.1] at hTarget
    rcases Nat.lt_or_ge k last with hLess | hMore
    · exact hPass.mp hEnd.1 k hLow hLess waypoint hk
    · have hRange := (List.getElem?_eq_some_iff.mp hk).1
      obtain rfl : k = last := by omega
      obtain rfl := Option.some.inj (hk.symm.trans hTarget)
      exact hEnd.2
  · rw [if_neg hEnd, headTo_reached]
    refine ⟨fun h => absurd h Bool.false_ne_true, fun h => absurd ⟨?_, ?_⟩ hEnd⟩
    · exact hPass.mpr fun k hLow _ waypoint hk => h.2 waypoint ((hMem waypoint).mpr ⟨k, hLow, hk⟩)
    · have hAtLast := hPass.mpr fun k hLow _ waypoint hk => h.2 waypoint ((hMem waypoint).mpr ⟨k, hLow, hk⟩)
      rw [hAtLast] at hTarget
      exact h.2 target ((hMem target).mpr ⟨last, hBound, hTarget⟩)

end Steer

end OpenHalfLife.Nav
