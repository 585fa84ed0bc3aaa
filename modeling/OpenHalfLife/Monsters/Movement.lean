import OpenHalfLife.Physics.Moves

/-! # One step towards a target

A walker goes horizontally, with a step up where something is in its way; a flier
takes the whole direction. Numbers are exact.
-/

namespace OpenHalfLife.Monsters

open Physics Physics.Vec3

set_option autoImplicit false

noncomputable section

def routeRefreshDistance : ℝ := ((80 : Nat) : ℝ)

def stepHeight : ℝ := ((18 : Nat) : ℝ)

def waypointTolerance : ℝ := ((8 : Nat) : ℝ)

def stuckProgressFraction : ℝ := ((2 : Nat) : ℝ) / ((5 : Nat) : ℝ)

/-- The gap between `1` and the next number of single precision. -/
def singleEpsilon : ℝ := 1 / ((8388608 : Nat) : ℝ)

structure MoveResult where
  position : Physics.Vec3 ℝ
  distance : ℝ
  blocked : Prop
  steppedUp : Prop

def flies : Hull → Bool
  | .point => true
  | .standing | .large | .crouched => false

def up : Physics.Vec3 ℝ := ⟨0, 0, 1⟩

def moveToward (collision : Tracer) (hull : Hull) (start target : Physics.Vec3 ℝ) (speed dt : ℝ) : MoveResult :=
  let still : MoveResult := ⟨start, 0, False, False⟩
  let step := speed * dt
  if step ≤ 0 then still
  else if flies hull then
    let delta := target - start
    let length := delta.length
    if length ≤ singleEpsilon then still
    else
      let goal := start + (delta.scale length⁻¹).scale (min step length)
      let flight := collision.trace hull start goal
      let position := if flight.startSolid then start else flight.endPos
      ⟨position, (position - start).length, flight.blocked, False⟩
  else
    let horizontal := (target - start).flat
    let length := horizontal.length
    if length ≤ singleEpsilon then still
    else
      let direction := horizontal.scale length⁻¹
      let goal := start + direction.scale (min step length)
      let level := collision.trace hull start goal
      open Classical in
      if ¬level.blocked ∧ level.startSolid = false then ⟨level.endPos, (level.endPos - start).length, False, False⟩
      else
        let raised := (collision.trace hull start (start + up.scale stepHeight)).endPos
        let along := (collision.trace hull raised (raised + direction.scale (min step length))).endPos
        let stepped := (collision.trace hull along (along - up.scale stepHeight)).endPos
        let levelGain := (level.endPos - start).length
        let stepGain := (stepped - start).flat.length
        if levelGain + singleEpsilon < stepGain then
          ⟨stepped, (stepped - start).length, stepGain + waypointTolerance < step, True⟩
        else ⟨level.endPos, levelGain, True, False⟩

def straightLineMove (origin goal : Physics.Vec3 ℝ) (maxStep : ℝ) : Physics.Vec3 ℝ :=
  let delta := (goal - origin).flat
  let length := delta.length
  if length ≤ singleEpsilon ∨ maxStep ≤ 0 then origin else origin + (delta.scale length⁻¹).scale (min maxStep length)

/-! ## How far a step goes -/

/-- A move within a step: in space for a flier; over the ground for a walker, who may climb or drop besides. -/
def Within (hull : Hull) (move : Physics.Vec3 ℝ) (step : ℝ) : Prop :=
  if flies hull then move.length ≤ step else move.flat.length ≤ step ∧ |move.z| ≤ max step stepHeight

end

variable {hull : Hull} {start target : Physics.Vec3 ℝ} {move : Physics.Vec3 ℝ} {step : ℝ}

theorem within_of_level (hLevel : flies hull = false → move.z = 0) (hLength : move.length ≤ step) : Within hull move step := by
  unfold Within
  cases hFlies : flies hull with
  | true => exact hLength
  | false =>
    refine ⟨(length_flat_le move).trans hLength, ?_⟩
    rw [hLevel hFlies, abs_zero]
    exact le_max_of_le_right (by norm_num [stepHeight])

theorem within_zero (hStep : 0 ≤ step) : Within hull (start - start) step := by
  have hZero : start - start = zero := by
    ext <;> simp [zero]
  rw [hZero]
  refine within_of_level (fun _ => rfl) ?_
  have hLength : (zero : Physics.Vec3 ℝ).length = 0 := by simp [Physics.Vec3.length, lengthSquared, dot, zero]
  rw [hLength]
  exact hStep

theorem length_leg_le {delta : Physics.Vec3 ℝ} {fraction : ℝ} (hDelta : 0 < delta.length) (hStep : 0 < step) (hLow : 0 ≤ fraction)
    (hHigh : fraction ≤ 1) :
    (((delta.scale delta.length⁻¹).scale (min step delta.length)).scale fraction).length ≤ step := by
  have hReach : 0 ≤ min step delta.length := le_min hStep.le hDelta.le
  rw [length_scale, length_scale, length_scale, abs_of_nonneg hLow, abs_of_nonneg hReach, abs_inv,
    abs_of_pos hDelta, inv_mul_cancel₀ hDelta.ne', mul_one]
  calc fraction * min step delta.length ≤ 1 * min step delta.length := mul_le_mul_of_nonneg_right hHigh hReach
    _ = min step delta.length := one_mul _
    _ ≤ step := min_le_left _ _

theorem trace_sub (collision : Tracer) (hull : Hull) (start move : Physics.Vec3 ℝ) :
    ∃ fraction, 0 ≤ fraction ∧ fraction ≤ 1 ∧
      (collision.trace hull start (start + move)).endPos = start + move.scale fraction := by
  obtain ⟨fraction, hLow, hHigh, hEnd⟩ := collision.onSegment hull start (start + move)
  refine ⟨fraction, hLow, hHigh, hEnd.trans ?_⟩
  rw [along, add_sub_self]

theorem within_stepped (collision : Tracer) (hHull : flies hull = false) {delta : Physics.Vec3 ℝ} (hLevel : delta.z = 0)
    (hDelta : 0 < delta.length) (hStep : 0 < step) :
    let leg := (delta.scale delta.length⁻¹).scale (min step delta.length)
    let raised := (collision.trace hull start (start + up.scale stepHeight)).endPos
    let along := (collision.trace hull raised (raised + leg)).endPos
    let stepped := (collision.trace hull along (along - up.scale stepHeight)).endPos
    Within hull (stepped - start) step := by
  intro leg raised along stepped
  obtain ⟨rise, hRiseLow, hRiseHigh, hRaised⟩ := trace_sub collision hull start (up.scale stepHeight)
  obtain ⟨far, hFarLow, hFarHigh, hAlong⟩ := trace_sub collision hull raised leg
  have hDown : along - up.scale stepHeight = along + up.scale (-stepHeight) := by
    ext <;> simp [sub_eq_add_neg]
  obtain ⟨drop, hDropLow, hDropHigh, hStepped⟩ := trace_sub collision hull along (up.scale (-stepHeight))
  have hMove : stepped - start = leg.scale far + up.scale (stepHeight * (rise - drop)) := by
    change (collision.trace hull along (along - up.scale stepHeight)).endPos - start = _
    rw [hDown, hStepped]
    change (collision.trace hull raised (raised + leg)).endPos + _ - start = _
    rw [hAlong]
    change (collision.trace hull start (start + up.scale stepHeight)).endPos + _ + _ - start = _
    rw [hRaised]
    ext
    · simp [up]
    · simp [up]
    · simp [up]
      ring
  have hLeg : (leg.scale far).z = 0 := by simp [leg, hLevel]
  rw [Within, hHull, if_neg Bool.false_ne_true, hMove]
  constructor
  · have hFlat : (leg.scale far + up.scale (stepHeight * (rise - drop))).flat = (leg.scale far).flat := by
      ext <;> simp [flat, up]
    rw [hFlat]
    exact (length_flat_le _).trans (length_leg_le hDelta hStep hFarLow hFarHigh)
  · have hHeight : |rise - drop| ≤ 1 := abs_le.mpr ⟨by linarith, by linarith⟩
    rw [add_z, hLeg, scale_z, zero_add]
    refine le_max_of_le_right ?_
    simp only [up, one_mul, stepHeight, abs_mul]
    norm_num
    linarith

theorem moveToward_within (collision : Tracer) (speed dt : ℝ) (hStep : 0 ≤ speed * dt) :
    Within hull ((moveToward collision hull start target speed dt).position - start) (speed * dt) := by
  unfold moveToward
  dsimp only
  by_cases hStill : speed * dt ≤ 0
  · rw [if_pos hStill]
    exact within_zero hStep
  rw [if_neg hStill]
  have hPositive : 0 < speed * dt := not_le.mp hStill
  have hEpsilon : 0 < singleEpsilon := by norm_num [singleEpsilon]
  cases hHull : flies hull with
  | true =>
    rw [if_pos rfl]
    by_cases hShort : (target - start).length ≤ singleEpsilon
    · rw [if_pos hShort]
      exact within_zero hStep
    rw [if_neg hShort]
    dsimp only
    split_ifs
    · exact within_zero hStep
    · obtain ⟨fraction, hLow, hHigh, hEnd⟩ := trace_sub collision hull start
        (((target - start).scale (target - start).length⁻¹).scale (min (speed * dt) (target - start).length))
      rw [hEnd, add_sub_self]
      refine within_of_level (fun hWalks => absurd hWalks (by rw [hHull]; decide)) ?_
      exact length_leg_le (hEpsilon.trans (not_le.mp hShort)) hPositive hLow hHigh
  | false =>
    rw [if_neg Bool.false_ne_true]
    by_cases hShort : (target - start).flat.length ≤ singleEpsilon
    · rw [if_pos hShort]
      exact within_zero hStep
    rw [if_neg hShort]
    have hDelta : 0 < (target - start).flat.length := hEpsilon.trans (not_le.mp hShort)
    obtain ⟨fraction, hLow, hHigh, hEnd⟩ := trace_sub collision hull start
      (((target - start).flat.scale (target - start).flat.length⁻¹).scale (min (speed * dt) (target - start).flat.length))
    have hWithin : Within hull ((collision.trace hull start (start +
        ((target - start).flat.scale (target - start).flat.length⁻¹).scale
          (min (speed * dt) (target - start).flat.length))).endPos - start) (speed * dt) := by
      rw [hEnd, add_sub_self]
      exact within_of_level (fun _ => by simp [flat]) (length_leg_le hDelta hPositive hLow hHigh)
    split_ifs
    · exact hWithin
    · exact within_stepped collision hHull rfl hDelta hPositive
    · exact hWithin

theorem straightLineMove_within (origin goal : Physics.Vec3 ℝ) {maxStep : ℝ} (hStep : 0 ≤ maxStep) :
    Within hull (straightLineMove origin goal maxStep - origin) maxStep := by
  unfold straightLineMove
  dsimp only
  split_ifs with hShort
  · exact within_zero hStep
  · rw [not_or, not_le, not_le] at hShort
    have hDelta : 0 < (goal - origin).flat.length :=
      lt_trans (by norm_num [singleEpsilon]) hShort.1
    rw [add_sub_self]
    refine within_of_level (fun _ => by simp [flat]) ?_
    have hLeg := @length_leg_le maxStep _ 1 hDelta hShort.2 zero_le_one le_rfl
    rwa [length_scale, abs_one, one_mul] at hLeg

end OpenHalfLife.Monsters
