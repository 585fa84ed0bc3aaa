import OpenHalfLife.Game.Movers
import Mathlib.Tactic.FieldSimp
import Mathlib.Tactic.Ring

/-! # The pose of a mover

A mover that takes time to travel is posed by the fraction of the trip behind it. A step moves the
pose by no more than its share of the trip, and nothing else moves it at all, except where a mover
sets out with less than a whole trip on its timer.
-/

namespace OpenHalfLife.Game

set_option autoImplicit false

variable {K : Type} [Field K] [LinearOrder K] [IsStrictOrderedRing K]

omit [IsStrictOrderedRing K] in
theorem clamp01_nonneg (value : K) : 0 ≤ clamp01 value := le_max_left _ _

theorem clamp01_le_one (value : K) : clamp01 value ≤ 1 := max_le zero_le_one (min_le_right _ _)

theorem clamp01_of_nonpos {value : K} (h : value ≤ 0) : clamp01 value = 0 := by
  rw [clamp01, min_eq_left (h.trans zero_le_one), max_eq_left h]

theorem clamp01_of_one_le {value : K} (h : 1 ≤ value) : clamp01 value = 1 := by
  rw [clamp01, min_eq_right h, max_eq_right zero_le_one]

omit [IsStrictOrderedRing K] in
theorem clamp01_of_mem {value : K} (hLow : 0 ≤ value) (hHigh : value ≤ 1) : clamp01 value = value := by
  rw [clamp01, min_eq_left hHigh, max_eq_right hLow]

theorem clamp01_eq_one_iff {value : K} : clamp01 value = 1 ↔ 1 ≤ value := by
  constructor
  · intro h
    by_contra hLess
    rcases le_total value 0 with hLow | hLow
    · rw [clamp01_of_nonpos hLow] at h
      exact zero_ne_one h
    · rw [clamp01_of_mem hLow (not_le.mp hLess).le] at h
      exact hLess h.ge
  · exact clamp01_of_one_le

/-- Going back by `d` takes no more than `d` off the clamped value. -/
theorem clamp01_sub (value : K) {d : K} (hd : 0 ≤ d) :
    clamp01 value - d ≤ clamp01 (value - d) ∧ clamp01 (value - d) ≤ clamp01 value := by
  simp only [clamp01]
  constructor
  · rcases le_total (value - d) 0 with hLow | hLow
    · have hValue : max 0 (min value 1) ≤ d := max_le hd ((min_le_left _ _).trans (sub_nonpos.mp hLow))
      exact (sub_nonpos.mpr hValue).trans (le_max_left _ _)
    · refine le_max_of_le_right (le_min ?_ ?_)
      · have hValue : max 0 (min value 1) ≤ value := max_le (by linarith) (min_le_left _ _)
        linarith
      · have hValue : max 0 (min value 1) ≤ 1 := clamp01_le_one value
        linarith
  · exact max_le_max le_rfl (min_le_min (sub_le_self value hd) le_rfl)

/-- How far open a motion is, for a mover whose trips take `travel` seconds. -/
def posed (travel : K) (motion : Motion K) : K :=
  match motion.state with
  | .closed => 0
  | .open => 1
  | .opening => 1 - clamp01 (motion.timer / travel)
  | .closing => clamp01 (motion.timer / travel)

omit [IsStrictOrderedRing K] in
theorem travelTime_eq {distance speed : K} (h : 0 < travelTime distance speed) :
    0 < speed ∧ travelTime distance speed = distance / speed := by
  rw [travelTime] at h ⊢
  split at h
  · exact absurd h (lt_irrefl 0)
  · rename_i hSpeed
    rw [if_neg hSpeed]
    refine ⟨not_le.mp hSpeed, max_eq_left ?_⟩
    by_contra hLess
    rw [max_eq_right (not_le.mp hLess).le] at h
    exact lt_irrefl 0 h

omit [IsStrictOrderedRing K] in
theorem moverFraction_eq {distance speed : K} (h : 0 < travelTime distance speed) (motion : Motion K) :
    moverFraction speed distance motion = posed (travelTime distance speed) motion := by
  obtain ⟨hSpeed, hTravel⟩ := travelTime_eq h
  rw [hTravel] at h ⊢
  rw [moverFraction, if_pos hSpeed, if_neg (not_le.mpr h)]
  rfl

section Posed

variable {travel dt : K}

theorem posed_mem (travel : K) (motion : Motion K) : 0 ≤ posed travel motion ∧ posed travel motion ≤ 1 := by
  have hLow := clamp01_nonneg (motion.timer / travel)
  have hHigh := clamp01_le_one (motion.timer / travel)
  rw [posed]
  split
  · exact ⟨le_rfl, zero_le_one⟩
  · exact ⟨zero_le_one, le_rfl⟩
  · exact ⟨sub_nonneg.mpr hHigh, sub_le_self 1 hLow⟩
  · exact ⟨hLow, hHigh⟩

theorem step_le_of_eq {a b : K} (hTravel : 0 < travel) (hdt : 0 ≤ dt) (h : a = b) : |a - b| ≤ dt / travel := by
  rw [h, sub_self, abs_zero]
  exact div_nonneg hdt hTravel.le

theorem posed_opening_run (hTravel : 0 < travel) (hdt : 0 ≤ dt) (timer : K) :
    |posed travel ⟨.opening, timer - dt⟩ - posed travel ⟨.opening, timer⟩| ≤ dt / travel := by
  obtain ⟨hLow, hHigh⟩ := clamp01_sub (timer / travel) (div_nonneg hdt hTravel.le)
  simp only [posed, sub_div]
  rw [abs_le]
  constructor <;> linarith

theorem posed_opening_end (hTravel : 0 < travel) (hdt : 0 ≤ dt) {timer : K} (h : timer - dt ≤ 0) :
    |1 - posed travel ⟨.opening, timer⟩| ≤ dt / travel := by
  have hRun := posed_opening_run hTravel hdt timer
  have hEnd : clamp01 ((timer - dt) / travel) = 0 := clamp01_of_nonpos (div_nonpos_of_nonpos_of_nonneg h hTravel.le)
  simpa only [posed, hEnd, sub_zero] using hRun

theorem posed_closing_run (hTravel : 0 < travel) (hdt : 0 ≤ dt) (timer : K) :
    |posed travel ⟨.closing, timer - dt⟩ - posed travel ⟨.closing, timer⟩| ≤ dt / travel := by
  obtain ⟨hLow, hHigh⟩ := clamp01_sub (timer / travel) (div_nonneg hdt hTravel.le)
  simp only [posed, sub_div]
  rw [abs_le]
  constructor <;> linarith

theorem posed_of_timer_le (hTravel : 0 < travel) {timer : K} (h : timer ≤ 0) :
    posed travel ⟨.closing, timer⟩ = 0 ∧ posed travel ⟨.opening, timer⟩ = 1 := by
  have hZero : clamp01 (timer / travel) = 0 := clamp01_of_nonpos (div_nonpos_of_nonpos_of_nonneg h hTravel.le)
  simp only [posed, hZero, sub_zero, and_self]

theorem posed_closing_start (hTravel : 0 < travel) : posed travel ⟨.closing, travel⟩ = 1 := by
  simp only [posed, div_self hTravel.ne']
  exact clamp01_of_one_le le_rfl

theorem posed_opening_start (hTravel : 0 < travel) (delay : K) :
    posed travel ⟨.opening, delay + travel⟩ = 0 ↔ 0 ≤ delay := by
  simp only [posed]
  rw [sub_eq_zero, eq_comm, clamp01_eq_one_iff, le_div_iff₀ hTravel, one_mul, le_add_iff_nonneg_left]

theorem clamp01_turned (hTravel : 0 < travel) (timer : K) :
    clamp01 (max (travel - min timer travel) 0 / travel) = 1 - clamp01 (timer / travel) := by
  rcases le_total timer 0 with hLow | hLow
  · rw [min_eq_left (hLow.trans hTravel.le), max_eq_left (by linarith),
      clamp01_of_nonpos (div_nonpos_of_nonpos_of_nonneg hLow hTravel.le), sub_zero]
    exact clamp01_of_one_le ((le_div_iff₀ hTravel).mpr (by linarith))
  · rcases le_total timer travel with hHigh | hHigh
    · have hShare : timer / travel ≤ 1 := (div_le_one hTravel).mpr hHigh
      have hRest : (travel - timer) / travel = 1 - timer / travel := by rw [sub_div, div_self hTravel.ne']
      rw [min_eq_left hHigh, max_eq_left (sub_nonneg.mpr hHigh), hRest,
        clamp01_of_mem (div_nonneg hLow hTravel.le) hShare,
        clamp01_of_mem (sub_nonneg.mpr hShare) (sub_le_self 1 (div_nonneg hLow hTravel.le))]
    · rw [min_eq_right hHigh, sub_self, max_self, zero_div, clamp01_of_nonpos le_rfl,
        clamp01_of_one_le ((one_le_div hTravel).mpr hHigh), sub_self]

theorem liftStep_posed_iff (hTravel : 0 < travel) (hdt : 0 ≤ dt) (wait : K) (toggle : Bool) (motion : Motion K) :
    |posed travel (liftStep travel wait toggle dt motion) - posed travel motion| ≤ dt / travel ↔
      (motion.state = .opening → motion.timer ≤ 0 → travel ≤ dt + dt) := by
  obtain ⟨state, timer⟩ := motion
  cases state with
  | closed => exact iff_of_true (step_le_of_eq hTravel hdt rfl) nofun
  | «open» =>
    refine iff_of_true ?_ nofun
    simp only [liftStep]
    split
    · exact step_le_of_eq hTravel hdt rfl
    · split
      · exact step_le_of_eq hTravel hdt rfl
      · exact step_le_of_eq hTravel hdt (posed_closing_start hTravel)
  | closing =>
    refine iff_of_true ?_ nofun
    simp only [liftStep]
    split
    · exact posed_closing_run hTravel hdt timer
    · rename_i hTimer
      exact step_le_of_eq hTravel hdt (posed_of_timer_le hTravel (not_lt.mp hTimer)).1.symm
  | opening =>
    simp only [liftStep, true_implies]
    by_cases hTimer : timer ≤ 0
    · rw [if_pos hTimer, (posed_of_timer_le hTravel hTimer).2]
      simp only [hTimer, true_implies]
      split
      · rename_i hArrived
        refine iff_of_true (step_le_of_eq hTravel hdt rfl) ?_
        linarith
      · rename_i hUnderWay
        have hShare : dt / travel ≤ 1 := (div_le_one hTravel).mpr (by linarith)
        have hStart : (travel - dt) / travel = 1 - dt / travel := by rw [sub_div, div_self hTravel.ne']
        simp only [posed, hStart]
        rw [clamp01_of_mem (sub_nonneg.mpr hShare) (sub_le_self 1 (div_nonneg hdt hTravel.le)), sub_sub_cancel,
          abs_sub_comm, abs_of_nonneg (sub_nonneg.mpr hShare), sub_le_iff_le_add, ← add_div,
          one_le_div hTravel]
    · rw [if_neg hTimer]
      refine iff_of_true ?_ (fun hEnd => absurd hEnd hTimer)
      split
      · rename_i hArrived
        exact posed_opening_end hTravel hdt hArrived
      · exact posed_opening_run hTravel hdt timer

theorem Door.advance_posed (door : Door K) (hTravel : 0 < travel) (hdt : 0 ≤ dt)
    (hTime : travelTime door.travelDistance door.speed = travel) :
    |posed travel (door.advance dt).motion - posed travel door.motion| ≤ dt / travel := by
  obtain ⟨speed, wait, dmg, delay, travelDistance, rotationAxis, state, timer⟩ := door
  dsimp only at hTime
  cases state with
  | closed => exact step_le_of_eq hTravel hdt rfl
  | opening =>
    simp only [Door.advance]
    split
    · rename_i hArrived
      exact posed_opening_end hTravel hdt hArrived
    · exact posed_opening_run hTravel hdt timer
  | «open» =>
    simp only [Door.advance, hTime]
    split
    · exact step_le_of_eq hTravel hdt rfl
    · split
      · exact step_le_of_eq hTravel hdt rfl
      · exact step_le_of_eq hTravel hdt (posed_closing_start hTravel)
  | closing =>
    simp only [Door.advance]
    split
    · exact posed_closing_run hTravel hdt timer
    · rename_i hTimer
      exact step_le_of_eq hTravel hdt (posed_of_timer_le hTravel (not_lt.mp hTimer)).1.symm

theorem RotButton.advance_posed (button : RotButton K) (hTravel : 0 < travel) (hdt : 0 ≤ dt)
    (hTime : travelTime button.distance button.speed = travel) :
    |posed travel (button.advance dt).1.motion - posed travel button.motion| ≤ dt / travel := by
  obtain ⟨speed, distance, wait, delay, toggle, state, timer⟩ := button
  dsimp only at hTime
  cases state with
  | closed => exact step_le_of_eq hTravel hdt rfl
  | opening =>
    simp only [RotButton.advance]
    split
    · exact posed_opening_run hTravel hdt timer
    · rename_i hTimer
      exact step_le_of_eq hTravel hdt (posed_of_timer_le hTravel (not_lt.mp hTimer)).2.symm
  | «open» =>
    simp only [RotButton.advance, hTime]
    split
    · exact step_le_of_eq hTravel hdt rfl
    · split
      · exact step_le_of_eq hTravel hdt rfl
      · exact step_le_of_eq hTravel hdt (posed_closing_start hTravel)
  | closing =>
    simp only [RotButton.advance]
    split
    · exact posed_closing_run hTravel hdt timer
    · rename_i hTimer
      exact step_le_of_eq hTravel hdt (posed_of_timer_le hTravel (not_lt.mp hTimer)).1.symm

theorem Door.block_posed (door : Door K) (hTravel : 0 < travel)
    (hTime : travelTime door.travelDistance door.speed = travel) :
    posed travel door.block.1.motion = posed travel door.motion := by
  obtain ⟨speed, wait, dmg, delay, travelDistance, rotationAxis, state, timer⟩ := door
  dsimp only at hTime
  cases state with
  | closed => rfl
  | «open» => rfl
  | opening => simp only [Door.block, posed, hTime, clamp01_turned hTravel]
  | closing => simp only [Door.block, posed, hTime, clamp01_turned hTravel, sub_sub_cancel]

end Posed

inductive MoverStep (K : Type) [Zero K] [LE K]
  | activate (swingAxis : Option (Vec3 K))
  | advance (dt : K) (forward : 0 ≤ dt)
  | block

namespace Mover

variable {mover : Mover K}

def perform (mover : Mover K) : MoverStep K → Mover K
  | .activate swingAxis => mover.activate swingAxis
  | .advance dt _ => mover.advance dt
  | .block => mover.block

def performAll (mover : Mover K) (steps : List (MoverStep K)) : Mover K := steps.foldl perform mover

def Smooth (before after : Mover K) : MoverStep K → Prop
  | .advance dt _ => |after.fraction - before.fraction| ≤ dt / before.travel
  | _ => after.fraction = before.fraction

/-- The pose stays between shut and open, and no step moves it further than it may. -/
def Glides (mover : Mover K) (steps : List (MoverStep K)) : Prop :=
  (0 ≤ (mover.performAll steps).fraction ∧ (mover.performAll steps).fraction ≤ 1) ∧
    ∀ done step later, steps = done ++ step :: later →
      Smooth (mover.performAll done) ((mover.performAll done).perform step) step

/-- A door or button that sets out has no negative delay, and no lift sets out at all; one that has
set out with nothing on its timer makes half its trip in the step. -/
def Eased (mover : Mover K) : MoverStep K → Prop
  | .activate _ =>
    match mover with
    | .door leaf => leaf.motion.state = .closed → 0 ≤ leaf.delay
    | .rotButton button => button.motion.state = .closed → 0 ≤ button.delay
    | .platform lift => lift.motion.state ≠ .closed
    | .platRot platrot => platrot.motion.state ≠ .closed
  | .advance dt _ =>
    match mover with
    | .platform lift => lift.motion.state = .opening → lift.motion.timer ≤ 0 → mover.travel ≤ dt + dt
    | .platRot platrot => platrot.motion.state = .opening → platrot.motion.timer ≤ 0 → mover.travel ≤ dt + dt
    | _ => True
  | .block => True

omit [IsStrictOrderedRing K] in
theorem fraction_eq (h : 0 < mover.travel) : mover.fraction = posed mover.travel mover.motion := by
  cases mover with
  | door => exact moverFraction_eq h _
  | rotButton => exact moverFraction_eq h _
  | platform => exact moverFraction_eq h _
  | platRot => exact moverFraction_eq h _

omit [IsStrictOrderedRing K] in
theorem travel_perform (mover : Mover K) (step : MoverStep K) : (mover.perform step).travel = mover.travel := by
  cases step with
  | activate swingAxis =>
    cases mover with
    | door leaf =>
      simp only [perform, activate, Door.activate]
      split <;> rfl
    | rotButton button =>
      simp only [perform, activate, RotButton.activate]
      split
      · rfl
      · split <;> rfl
      · rfl
      · rfl
    | platform lift =>
      simp only [perform, activate, Platform.activate]
      split <;> rfl
    | platRot platrot =>
      simp only [perform, activate, PlatRot.activate]
      split
      · rfl
      · split <;> rfl
      · rfl
      · rfl
  | advance dt =>
    cases mover with
    | door leaf =>
      simp only [perform, advance, Door.advance]
      split
      · rfl
      · split <;> rfl
      · split
        · rfl
        · split <;> rfl
      · split <;> rfl
    | rotButton button =>
      simp only [perform, advance, RotButton.advance]
      split
      · rfl
      · split <;> rfl
      · split
        · rfl
        · split <;> rfl
      · split <;> rfl
    | platform => rfl
    | platRot => rfl
  | block =>
    cases mover with
    | door leaf => rfl
    | rotButton => rfl
    | platform => rfl
    | platRot => rfl

omit [IsStrictOrderedRing K] in
theorem travel_performAll (mover : Mover K) (steps : List (MoverStep K)) :
    (mover.performAll steps).travel = mover.travel := by
  induction steps generalizing mover with
  | nil => rfl
  | cons step steps ih => exact (ih (mover.perform step)).trans (mover.travel_perform step)

theorem activate_posed_iff (h : 0 < mover.travel) (swingAxis : Option (Vec3 K)) :
    posed mover.travel (mover.activate swingAxis).motion = posed mover.travel mover.motion ↔
      mover.Eased (.activate swingAxis) := by
  cases mover with
  | door leaf =>
    obtain ⟨speed, wait, dmg, delay, travelDistance, rotationAxis, state, timer⟩ := leaf
    cases state with
    | closed => exact (posed_opening_start h delay).trans ⟨fun hDelay _ => hDelay, fun hEased => hEased rfl⟩
    | «open» => exact iff_of_true rfl nofun
    | opening => exact iff_of_true rfl nofun
    | closing => exact iff_of_true rfl nofun
  | rotButton button =>
    obtain ⟨speed, distance, wait, delay, toggle, state, timer⟩ := button
    cases state with
    | closed => exact (posed_opening_start h delay).trans ⟨fun hDelay _ => hDelay, fun hEased => hEased rfl⟩
    | «open» =>
      cases toggle with
      | false => exact iff_of_true rfl nofun
      | true => exact iff_of_true (posed_closing_start h) nofun
    | opening => exact iff_of_true rfl nofun
    | closing => exact iff_of_true rfl nofun
  | platform lift =>
    obtain ⟨speed, wait, travelDistance, state, timer⟩ := lift
    cases state with
    | closed =>
      refine iff_of_false (fun hSame => ?_) (fun hEased => hEased rfl)
      have hOpen : posed (travelTime travelDistance speed) ⟨.opening, 0⟩ = 1 := (posed_of_timer_le h le_rfl).2
      exact zero_ne_one (hSame.symm.trans hOpen)
    | «open» => exact iff_of_true rfl nofun
    | opening => exact iff_of_true rfl nofun
    | closing => exact iff_of_true rfl nofun
  | platRot platrot =>
    obtain ⟨speed, wait, travelDistance, toggle, state, timer⟩ := platrot
    cases state with
    | closed =>
      refine iff_of_false (fun hSame => ?_) (fun hEased => hEased rfl)
      have hOpen : posed (travelTime travelDistance speed) ⟨.opening, 0⟩ = 1 := (posed_of_timer_le h le_rfl).2
      exact zero_ne_one (hSame.symm.trans hOpen)
    | «open» =>
      cases toggle with
      | false => exact iff_of_true rfl nofun
      | true => exact iff_of_true (posed_closing_start h) nofun
    | opening => exact iff_of_true rfl nofun
    | closing => exact iff_of_true rfl nofun

theorem advance_posed_iff (h : 0 < mover.travel) {dt : K} (hdt : 0 ≤ dt) :
    |posed mover.travel (mover.advance dt).motion - posed mover.travel mover.motion| ≤ dt / mover.travel ↔
      mover.Eased (.advance dt hdt) := by
  cases mover with
  | door leaf => exact iff_of_true (leaf.advance_posed h hdt rfl) trivial
  | rotButton button => exact iff_of_true (button.advance_posed h hdt rfl) trivial
  | platform lift => exact liftStep_posed_iff h hdt lift.wait false lift.motion
  | platRot platrot => exact liftStep_posed_iff h hdt platrot.wait platrot.toggle platrot.motion

theorem block_posed (h : 0 < mover.travel) :
    posed mover.travel mover.block.motion = posed mover.travel mover.motion := by
  cases mover with
  | door leaf => exact leaf.block_posed h rfl
  | rotButton => rfl
  | platform => rfl
  | platRot => rfl

theorem smooth_iff (h : 0 < mover.travel) (step : MoverStep K) :
    Smooth mover (mover.perform step) step ↔ mover.Eased step := by
  have hAfter : (mover.perform step).fraction = posed mover.travel (mover.perform step).motion := by
    rw [fraction_eq (by rwa [travel_perform]), travel_perform]
  cases step with
  | activate swingAxis =>
    change (mover.perform _).fraction = mover.fraction ↔ _
    rw [hAfter, fraction_eq h]
    exact activate_posed_iff h swingAxis
  | advance dt forward =>
    rw [Smooth, hAfter, fraction_eq h]
    exact advance_posed_iff h forward
  | block =>
    change (mover.perform _).fraction = mover.fraction ↔ _
    rw [hAfter, fraction_eq h]
    exact iff_of_true (block_posed h) trivial

/-- In every run of a mover that takes time to travel, the pose is never out of range, and it never
jumps if and only if every step is eased. -/
theorem glides_iff (mover : Mover K) (h : 0 < mover.travel) (steps : List (MoverStep K)) :
    mover.Glides steps ↔
      ∀ done step later, steps = done ++ step :: later → (mover.performAll done).Eased step := by
  have hTravel (done : List (MoverStep K)) : 0 < (mover.performAll done).travel := by rwa [travel_performAll]
  constructor
  · intro hGlides done step later hSteps
    exact (smooth_iff (hTravel done) step).mp (hGlides.2 done step later hSteps)
  · intro hEased
    refine ⟨?_, fun done step later hSteps =>
      (smooth_iff (hTravel done) step).mpr (hEased done step later hSteps)⟩
    rw [fraction_eq (hTravel steps)]
    exact posed_mem _ _

end Mover

def sampleDoor : Mover ℚ := .door ⟨25, 3, 0, 1, 100, none, ⟨.closed, 0⟩⟩

def sampleLift : Mover ℚ := .platform ⟨25, 3, 100, ⟨.closed, 0⟩⟩

theorem opened_and_blocked_door_glides :
    sampleDoor.Glides [.activate none, .advance 3 (by decide), .block] := by
  refine (Mover.glides_iff sampleDoor (by decide +kernel) [.activate none, .advance 3 (by decide), .block]).mpr ?_
  intro done step later hSteps
  rcases done with _ | ⟨first, _ | ⟨second, _ | ⟨third, done⟩⟩⟩
  · cases hSteps
    exact fun _ => by decide +kernel
  · cases hSteps
    trivial
  · cases hSteps
    trivial
  · simp at hSteps

/-- A lift that is called is at once posed at the top. -/
theorem called_lift_jumps : ¬ sampleLift.Glides [.activate none] := by
  intro h
  have hSame := h.2 [] (.activate none) [] rfl
  have hJump : (sampleLift.perform (.activate none)).fraction ≠ sampleLift.fraction := by decide +kernel
  exact hJump hSame

end OpenHalfLife.Game
