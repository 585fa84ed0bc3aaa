import OpenHalfLife.Game.RidePlan
import OpenHalfLife.Lib.Progress

/-! # A planned ride is the ride

However time is cut into steps, a train that was set going follows its trip
and rests only at its end, and it does come there. A plan says the same, but
for a loop whose only stop is where the train set out.
-/

namespace OpenHalfLife.Game

set_option autoImplicit false

namespace TrackTrainState

variable {K : Type} [Field K] [LinearOrder K]

structure OnTrip (start : TrackTrainState K) (arrivals : Nat) (state : TrackTrainState K) : Prop where
  chain : state.chain = start.chain
  direction : state.direction = start.direction
  trip : start.Trip arrivals state.nodeIndex state.speed

structure Underway (start : TrackTrainState K) (arrivals : Nat) (state : TrackTrainState K) : Prop
    extends OnTrip start arrivals state where
  moving : state.moving = true
  going : 0 < arrivals → ¬start.Stops state.nodeIndex
  t_nonneg : 0 ≤ state.t
  t_lt : state.t < 1
  parked : start.wayOn state.nodeIndex = none → state.t = 0

structure Rested (start : TrackTrainState K) (arrivals : Nat) (state : TrackTrainState K) : Prop
    extends OnTrip start arrivals state where
  resting : state.moving = false
  at_node : state.t = 0
  ends : start.Ends arrivals state.nodeIndex

section Steps

variable [IsStrictOrderedRing K] {start state : TrackTrainState K} {arrivals other : Nat} {node : PathNode K}
  {distance : Vec3 K → Vec3 K → K} {remaining dt : K} {fired : List Name}

omit [IsStrictOrderedRing K] in
theorem OnTrip.otherIndex (h : start.OnTrip arrivals state) : state.otherIndex = start.wayOn state.nodeIndex :=
  otherIndex_eq_wayOn h.chain h.direction

theorem Underway.arrive (h : start.Underway arrivals state) (hWay : start.wayOn state.nodeIndex = some other)
    (hNode : start.chain.nodes[other]? = some node) :
    if node.stop then start.Rested (arrivals + 1) (state.arrive other node)
    else start.Underway (arrivals + 1) (state.arrive other node) := by
  have hTrip : start.OnTrip (arrivals + 1) (state.arrive other node) :=
    ⟨h.chain, h.direction, h.trip.arrive h.going hWay hNode⟩
  split
  case isTrue hStop =>
    refine ⟨hTrip, ?_, rfl, .inl ⟨Nat.succ_pos _, node, hNode, hStop⟩⟩
    simp [TrackTrainState.arrive, hStop]
  case isFalse hGoes =>
    refine ⟨hTrip, ?_, fun _ => ?_, le_rfl, zero_lt_one, fun _ => rfl⟩
    · simp [TrackTrainState.arrive, hGoes, h.moving]
    · rintro ⟨same, hSame, hStop⟩
      cases hNode.symm.trans hSame
      exact hGoes hStop

omit [IsStrictOrderedRing K] in
theorem Underway.deadEnd (h : start.Underway arrivals state) (hStart : start.nodeIndex < start.chain.nodes.length)
    (hNone : start.wayOn state.nodeIndex = none) (fired : List Name) :
    ∃ last fired', state.deadEnd fired = some (last, fired') ∧ start.Rested arrivals last := by
  have hHere := h.trip.on_chain hStart
  have hNode : state.chain.nodes[state.nodeIndex]? = some start.chain.nodes[state.nodeIndex] := by
    rw [h.chain, List.getElem?_eq_getElem hHere]
  rw [TrackTrainState.deadEnd, hNode]
  split
  · exact ⟨_, _, rfl, ⟨h.chain, h.direction, h.trip⟩, rfl, h.parked hNone, .inr hNone⟩
  · exact ⟨_, _, rfl, ⟨h.chain, h.direction, h.trip⟩, rfl, h.parked hNone, .inr hNone⟩

inductive Rides (distance : Vec3 K → Vec3 K → K) (start : TrackTrainState K) (arrivals : Nat)
    (state : TrackTrainState K) (transitions : Nat) (remaining : K) (fired : List Name) :
    Option (TrackTrainState K × List Name) → Prop
  | rested (last : TrackTrainState K) (fired' : List Name) : start.Rested arrivals last →
    Rides distance start arrivals state transitions remaining fired (some (last, fired'))
  | stopped (last : TrackTrainState K) (fired' : List Name) : start.Rested (arrivals + 1) last →
    Rides distance start arrivals state transitions remaining fired (some (last, fired'))
  | waits (last : TrackTrainState K) (fired' : List Name) : start.Underway (arrivals + 1) last →
    Rides distance start arrivals state transitions remaining fired (some (last, fired'))
  | goesOn (next : TrackTrainState K) (left : K) (fired' : List Name) : start.Underway (arrivals + 1) next →
    Rides distance start arrivals state transitions remaining fired (ride distance transitions left next fired')
  | along (other : Nat) (len : K) : start.wayOn state.nodeIndex = some other →
    state.chain.segmentLen distance state.nodeIndex other = some len → singleEpsilon < len →
    start.Underway arrivals { state with t := state.t + remaining / len } →
    Rides distance start arrivals state transitions remaining fired
      (some ({ state with t := state.t + remaining / len }, fired))

theorem Underway.rides (distance : Vec3 K → Vec3 K → K) (h : start.Underway arrivals state)
    (hStart : start.nodeIndex < start.chain.nodes.length) (hRemaining : 0 < remaining) (transitions : Nat) (fired : List Name) :
    Rides distance start arrivals state transitions remaining fired
      (ride distance (transitions + 1) remaining state fired) := by
  have hHere := h.trip.on_chain hStart
  rw [ride, if_pos ⟨hRemaining, h.moving⟩, h.otherIndex]
  cases hWay : start.wayOn state.nodeIndex with
  | none =>
    obtain ⟨last, fired', hEnd, hRested⟩ := h.deadEnd hStart hWay fired
    dsimp only
    rw [hEnd]
    exact .rested last fired' hRested
  | some other =>
    have hThere := wayOn_lt hWay hHere
    have hNode := List.getElem?_eq_getElem hThere
    obtain ⟨len, hLen⟩ : ∃ len, state.chain.segmentLen distance state.nodeIndex other = some len := by
      rw [h.chain, PathChain.segmentLen, List.getElem?_eq_getElem hHere, hNode]
      exact ⟨_, rfl⟩
    have hClamp : max 0 (min state.t 1) = state.t := by rw [min_eq_left h.t_lt.le, max_eq_right h.t_nonneg]
    dsimp only
    rw [hLen]
    simp only [Option.bind_eq_bind, Option.bind_some, hClamp]
    split
    case isTrue hCross =>
      have hArrive := h.arrive hWay hNode
      rw [h.chain, hNode, Option.bind_some]
      split
      case isTrue hHalts =>
        split at hArrive
        case isTrue => exact .stopped _ _ hArrive
        case isFalse => exact .waits _ _ hArrive
      case isFalse hPasses =>
        rw [if_neg fun hStop => hPasses (.inl hStop)] at hArrive
        exact .goesOn _ _ _ hArrive
    case isFalse hWithin =>
      obtain ⟨hLong, hShort⟩ := not_or.mp hWithin
      rw [not_le] at hLong hShort
      have hLength : 0 < len := singleEpsilon_pos.trans hLong
      refine .along other len hWay hLen hLong ⟨⟨h.chain, h.direction, h.trip⟩, h.moving, h.going, ?_, ?_, ?_⟩
      · exact add_nonneg h.t_nonneg (div_pos hRemaining hLength).le
      · have hStep := (div_lt_iff₀ hLength).mpr hShort
        dsimp only
        linarith
      · intro hNone
        cases hWay.symm.trans hNone

theorem Underway.ride (distance : Vec3 K → Vec3 K → K) (hStart : start.nodeIndex < start.chain.nodes.length)
    (transitions : Nat) (h : start.Underway arrivals state) (remaining : K) (fired : List Name) :
    ∃ last fired' later, TrackTrainState.ride distance transitions remaining state fired = some (last, fired') ∧
      arrivals ≤ later ∧ (start.Underway later last ∨ start.Rested later last) := by
  induction transitions generalizing arrivals state remaining fired with
  | zero => exact ⟨state, fired, arrivals, rfl, le_rfl, .inl h⟩
  | succ transitions ih =>
    rcases lt_or_ge 0 remaining with hRemaining | hDone
    · have hRides := h.rides distance hStart hRemaining transitions fired
      generalize TrackTrainState.ride distance (transitions + 1) remaining state fired = result at hRides ⊢
      cases hRides with
      | rested last fired' hRested => exact ⟨last, fired', arrivals, rfl, le_rfl, .inr hRested⟩
      | stopped last fired' hRested => exact ⟨last, fired', arrivals + 1, rfl, Nat.le_succ _, .inr hRested⟩
      | waits last fired' hUnderway => exact ⟨last, fired', arrivals + 1, rfl, Nat.le_succ _, .inl hUnderway⟩
      | goesOn next left fired' hUnderway =>
        obtain ⟨last, fired', later, hRun, hLater, hLast⟩ := ih hUnderway left fired'
        exact ⟨last, fired', later, hRun, (Nat.le_succ _).trans hLater, hLast⟩
      | along other len hWay hLen hLong hUnderway => exact ⟨_, fired, arrivals, rfl, le_rfl, .inl hUnderway⟩
    · rw [TrackTrainState.ride, if_neg fun hBoth => absurd hBoth.1 (not_lt.mpr hDone)]
      exact ⟨state, fired, arrivals, rfl, le_rfl, .inl h⟩

/-! ## One step of time -/

def leftToGo (distance : Vec3 K → Vec3 K → K) (state : TrackTrainState K) : K :=
  match state.otherIndex with
  | none => 0
  | some other => (1 - state.t) * (state.chain.segmentLen distance state.nodeIndex other).getD 0

/-- How many steps of `dt` the train needs to its next node. -/
def effort (distance : Vec3 K → Vec3 K → K) (dt : K) (state : TrackTrainState K) : K :=
  max state.waitTimer 0 / dt + state.leftToGo distance / (state.speed * dt)

omit [IsStrictOrderedRing K] in
theorem segmentLen_nonneg (hDistance : ∀ a b, 0 ≤ distance a b) (chain : PathChain K) (a b : Nat) :
    0 ≤ (chain.segmentLen distance a b).getD 0 := by
  rw [PathChain.segmentLen]
  cases chain.nodes[a]? with
  | none => exact le_rfl
  | some first =>
    cases chain.nodes[b]? with
    | none => exact le_rfl
    | some second => exact hDistance _ _

theorem Underway.effort_nonneg (h : start.Underway arrivals state) (hDistance : ∀ a b, 0 ≤ distance a b)
    (hSpeed : 0 < state.speed) (hdt : 0 < dt) : 0 ≤ state.effort distance dt := by
  have hLeft : 0 ≤ state.leftToGo distance := by
    rw [leftToGo]
    split
    · exact le_rfl
    · exact mul_nonneg (sub_nonneg.mpr h.t_lt.le) (segmentLen_nonneg hDistance _ _ _)
  exact add_nonneg (div_nonneg (le_max_right _ _) hdt.le) (div_nonneg hLeft (mul_pos hSpeed hdt).le)

theorem Underway.waited (distance : Vec3 K → Vec3 K → K) (h : start.Underway arrivals state) (hdt : 0 < dt)
    (hWaits : 0 < (state.waited dt).waitTimer) :
    start.Underway arrivals (state.waited dt) ∧
      (state.waited dt).effort distance dt + 1 ≤ state.effort distance dt := by
  rw [TrackTrainState.waited] at hWaits ⊢
  split at hWaits
  case isTrue hTimer =>
    rw [if_pos hTimer]
    refine ⟨⟨⟨h.chain, h.direction, h.trip⟩, h.moving, h.going, h.t_nonneg, h.t_lt, h.parked⟩, ?_⟩
    have hLeft : leftToGo distance { state with waitTimer := max (state.waitTimer - max dt 0) 0 } =
        state.leftToGo distance := rfl
    dsimp only at hWaits
    rw [max_eq_left hdt.le] at hWaits ⊢
    have hRest : 0 < state.waitTimer - dt := by
      rcases lt_max_iff.mp hWaits with hRest | hNever
      · exact hRest
      · exact absurd hNever (lt_irrefl 0)
    rw [effort, effort]
    dsimp only
    rw [max_eq_left hdt.le] at hLeft
    rw [hLeft, max_eq_left hRest.le, max_eq_left hRest.le, max_eq_left hTimer.le, sub_div, div_self hdt.ne']
    linarith
  case isFalse hTimer => exact absurd hWaits hTimer

omit [IsStrictOrderedRing K] in
theorem Underway.onward (h : start.Underway arrivals state) (dt : K) : start.Underway arrivals (state.waited dt) := by
  rw [TrackTrainState.waited]
  split
  · exact ⟨⟨h.chain, h.direction, h.trip⟩, h.moving, h.going, h.t_nonneg, h.t_lt, h.parked⟩
  · exact h

theorem Underway.advance (distance : Vec3 K → Vec3 K → K) (h : start.Underway arrivals state)
    (hStart : start.nodeIndex < start.chain.nodes.length) (hSpeed : 0 < state.speed) (hdt : 0 < dt) :
    ∃ last fired later, state.advanceFiring distance dt = some (last, fired) ∧ arrivals ≤ later ∧
      (start.Rested later last ∨ start.Underway later last ∧
        (arrivals < later ∨ later = arrivals ∧ last.effort distance dt + 1 ≤ state.effort distance dt)) := by
  rw [advanceFiring, h.moving, if_neg (by simp)]
  split
  case isTrue hWaits =>
    obtain ⟨hUnderway, hLess⟩ := h.waited distance hdt hWaits
    exact ⟨_, _, arrivals, rfl, le_rfl, .inr ⟨hUnderway, .inr ⟨rfl, hLess⟩⟩⟩
  case isFalse hOver =>
    have hSame : (state.waited dt).speed = state.speed ∧ (state.waited dt).leftToGo distance = state.leftToGo distance ∧
        (state.waited dt).t = state.t ∧ (state.waited dt).chain = state.chain ∧
        (state.waited dt).nodeIndex = state.nodeIndex := by
      rw [TrackTrainState.waited]
      split <;> exact ⟨rfl, rfl, rfl, rfl, rfl⟩
    have hRemaining : 0 < max state.speed 0 * max dt 0 := by
      rw [max_eq_left hSpeed.le, max_eq_left hdt.le]
      exact mul_pos hSpeed hdt
    have hRides := (h.onward dt).rides distance hStart hRemaining (maxTransitionsPerTick - 1) []
    change Rides distance start arrivals (state.waited dt) _ _ _
      (TrackTrainState.ride distance maxTransitionsPerTick _ _ _) at hRides
    generalize TrackTrainState.ride distance maxTransitionsPerTick (max state.speed 0 * max dt 0) (state.waited dt) [] =
      result at hRides ⊢
    cases hRides with
    | rested last fired' hRested => exact ⟨last, fired', arrivals, rfl, le_rfl, .inl hRested⟩
    | stopped last fired' hRested => exact ⟨last, fired', arrivals + 1, rfl, Nat.le_succ _, .inl hRested⟩
    | waits last fired' hUnderway =>
      exact ⟨last, fired', arrivals + 1, rfl, Nat.le_succ _, .inr ⟨hUnderway, .inl (Nat.lt_succ_self _)⟩⟩
    | goesOn next left fired' hUnderway =>
      obtain ⟨last, fired', later, hRun, hLater, hLast⟩ := Underway.ride distance hStart
        (maxTransitionsPerTick - 1) hUnderway left fired'
      refine ⟨last, fired', later, hRun, (Nat.le_succ _).trans hLater, ?_⟩
      rcases hLast with hUnderway | hRested
      · exact .inr ⟨hUnderway, .inl hLater⟩
      · exact .inl hRested
    | along other len hWay hLen hLong hUnderway =>
      refine ⟨_, [], arrivals, rfl, le_rfl, .inr ⟨hUnderway, .inr ⟨rfl, ?_⟩⟩⟩
      have hLength : 0 < len := singleEpsilon_pos.trans hLong
      have hTravel : state.speed * dt ≠ 0 := (mul_pos hSpeed hdt).ne'
      have hWait : 0 ≤ max state.waitTimer 0 / dt := div_nonneg (le_max_right _ _) hdt.le
      rw [max_eq_left hSpeed.le, max_eq_left hdt.le] at hUnderway ⊢
      have hThere : (state.waited dt).otherIndex = some other := by rw [(h.onward dt).otherIndex, hWay]
      have hBefore : state.leftToGo distance = (1 - state.t) * len := by
        rw [← hSame.2.1, leftToGo, hThere]
        dsimp only
        rw [hLen, Option.getD_some, hSame.2.2.1]
      have hAfter : leftToGo distance { state.waited dt with t := (state.waited dt).t + state.speed * dt / len } =
          (1 - state.t) * len - state.speed * dt := by
        have hSameWay : otherIndex { state.waited dt with t := (state.waited dt).t + state.speed * dt / len } =
            some other := hThere
        rw [leftToGo, hSameWay]
        dsimp only
        rw [hLen, Option.getD_some, hSame.2.2.1]
        field_simp
        ring
      rw [effort, effort, hAfter, hBefore]
      dsimp only
      rw [hSame.1, max_eq_right (not_lt.mp hOver), zero_div, zero_add, sub_div, div_self hTravel]
      linarith

end Steps

/-! ## All the way -/

def advanceAll (distance : Vec3 K → Vec3 K → K) (state : TrackTrainState K) (steps : List K) :
    Option (TrackTrainState K) :=
  steps.foldlM (fun state dt => (state.advanceFiring distance dt).map Prod.fst) state

structure PlanAgrees (distance : Vec3 K → Vec3 K → K) (state : TrackTrainState K) (plan : Option (TrainRide K)) :
    Prop where
  arrives : plan.isSome = true ↔ ∀ dt : K, 0 < dt → ∃ n last,
    state.turnOn.advanceAll distance (List.replicate n dt) = some last ∧ last.moving = false
  rests : ∀ ride ∈ plan, ∀ steps : List K, (∀ dt ∈ steps, 0 < dt) → ∀ last,
    state.turnOn.advanceAll distance steps = some last → last.moving = false →
      last.nodeIndex = ride.state.nodeIndex ∧ last.t = 0 ∧ last.speed = ride.state.speed ∧
        last.direction = ride.state.direction
  never : plan = none ↔ ∀ steps : List K, (∀ dt ∈ steps, 0 < dt) → ∀ last,
    state.turnOn.advanceAll distance steps = some last → last.moving = true

def StopsOnlyHere (state : TrackTrainState K) : Prop :=
  state.chain.looped = true ∧ state.Stops state.nodeIndex ∧ ∀ index, index ≠ state.nodeIndex → ¬state.Stops index

section Runs

variable [IsStrictOrderedRing K] {distance : Vec3 K → Vec3 K → K} {start state last : TrackTrainState K}
  {arrivals index : Nat} {speed dt : K} {steps : List K}

theorem Boards.underway (h : state.Boards) : state.turnOn.Underway 0 state.turnOn := by
  refine ⟨⟨rfl, rfl, .start⟩, rfl, fun hNever => absurd hNever (lt_irrefl 0), ?_, ?_, fun _ => h.at_node⟩
  · exact h.at_node.ge
  · exact h.at_node.trans_lt zero_lt_one

omit [IsStrictOrderedRing K] in
theorem Rested.advance (h : start.Rested arrivals state) (dt : K) :
    state.advanceFiring distance dt = some (state, []) := by
  rw [advanceFiring, h.resting]
  rfl

theorem advanceAll_onTrip (distance : Vec3 K → Vec3 K → K) (hStart : start.nodeIndex < start.chain.nodes.length)
    (hSpeed : 0 < start.speed) (hOverrides : OverridesRead start.chain) (h : start.Underway arrivals state ∨ start.Rested arrivals state)
    (hSteps : ∀ dt ∈ steps, 0 < dt) :
    ∃ last later, state.advanceAll distance steps = some last ∧
      (start.Underway later last ∨ start.Rested later last) := by
  induction steps generalizing state arrivals with
  | nil => exact ⟨state, arrivals, rfl, h⟩
  | cons dt steps ih =>
    have hPositive := hSteps dt List.mem_cons_self
    have hRest := fun other hOther => hSteps other (List.mem_cons_of_mem _ hOther)
    obtain ⟨next, fired, later, hNext, hState⟩ : ∃ next fired later,
        state.advanceFiring distance dt = some (next, fired) ∧
          (start.Underway later next ∨ start.Rested later next) := by
      rcases h with h | h
      · obtain ⟨next, fired, later, hNext, -, hState⟩ :=
          h.advance distance hStart (h.trip.speed_pos hSpeed hOverrides) hPositive
        exact ⟨next, fired, later, hNext, hState.symm.imp And.left id⟩
      · exact ⟨state, [], arrivals, h.advance dt, .inr h⟩
    obtain ⟨last, latest, hLast, hEnd⟩ := ih hState hRest
    refine ⟨last, latest, ?_, hEnd⟩
    rw [advanceAll, List.foldlM_cons, hNext]
    exact hLast

omit [IsStrictOrderedRing K] in
theorem advanceAll_replicate (n : Nat) (dt : K) : state.advanceAll distance (List.replicate n dt) =
    repeated (fun state => (state.advanceFiring distance dt).map Prod.fst) n state := by
  induction n generalizing state with
  | zero => rfl
  | succ n ih =>
    rw [List.replicate_succ, advanceAll, List.foldlM_cons, repeated]
    exact congrArg _ (funext fun next => ih)

theorem progresses (hDistance : ∀ a b, 0 ≤ distance a b) (hStart : start.nodeIndex < start.chain.nodes.length)
    (hSpeed : 0 < start.speed) (hOverrides : OverridesRead start.chain) (hTrip : start.Trip arrivals index speed)
    (hEnds : start.Ends arrivals index) (hdt : 0 < dt) :
    Progresses (fun state => (state.advanceFiring distance dt).map Prod.fst)
      (fun left state => ∃ done, done + left = arrivals ∧ start.Underway done state)
      (fun state => state.moving = false) (effort distance dt) where
  effort_nonneg left state hState := by
    obtain ⟨done, -, hUnderway⟩ := hState
    exact hUnderway.effort_nonneg hDistance (hUnderway.trip.speed_pos hSpeed hOverrides) hdt
  step_spec left state hState := by
    obtain ⟨done, hLeft, hUnderway⟩ := hState
    obtain ⟨next, fired, later, hNext, hLater, hRested | ⟨hOn, hMore⟩⟩ :=
      hUnderway.advance distance hStart (hUnderway.trip.speed_pos hSpeed hOverrides) hdt
    · exact ⟨next, by rw [hNext]; rfl, .inl hRested.resting⟩
    · refine ⟨next, by rw [hNext]; rfl, .inr ?_⟩
      have hBefore := hTrip.le_of_ends hEnds hOn.trip
      rcases hMore with hArrived | ⟨rfl, hLess⟩
      · exact .inl ⟨arrivals - later, by omega, later, by omega, hOn⟩
      · exact .inr ⟨⟨later, hLeft, hOn⟩, hLess⟩

theorem Boards.arrives [Archimedean K] (h : state.Boards) (hDistance : ∀ a b, 0 ≤ distance a b)
    (hTrip : state.turnOn.Trip arrivals index speed) (hEnds : state.turnOn.Ends arrivals index) (hdt : 0 < dt) :
    ∃ n last, state.turnOn.advanceAll distance (List.replicate n dt) = some last ∧ last.moving = false := by
  have hStart : state.turnOn.nodeIndex < state.turnOn.chain.nodes.length := h.on_chain
  have hOverrides : OverridesRead state.turnOn.chain := h.overrides
  have hProgress := progresses hDistance hStart h.speed_pos hOverrides hTrip hEnds hdt
  obtain ⟨n, last, hRun, hRests⟩ := hProgress.exists_goal ⟨0, Nat.zero_add arrivals, h.underway⟩
  exact ⟨n, last, (advanceAll_replicate n dt).trans hRun, hRests⟩

theorem Boards.rests (h : state.Boards) (hSteps : ∀ dt ∈ steps, 0 < dt)
    (hRun : state.turnOn.advanceAll distance steps = some last) (hRests : last.moving = false) :
    ∃ later, state.turnOn.Rested later last := by
  have hStart : state.turnOn.nodeIndex < state.turnOn.chain.nodes.length := h.on_chain
  have hOverrides : OverridesRead state.turnOn.chain := h.overrides
  obtain ⟨last', later, hLast, hState⟩ := advanceAll_onTrip distance hStart h.speed_pos hOverrides
    (.inl h.underway) hSteps
  cases hRun.symm.trans hLast
  rcases hState with hUnderway | hRested
  · rw [hUnderway.moving] at hRests
    cases hRests
  · exact ⟨later, hRested⟩

omit [IsStrictOrderedRing K] in
theorem wayOn_ne_none (hLooped : start.chain.looped = true) (hNodes : start.chain.nodes ≠ []) :
    start.wayOn index ≠ none := by
  rw [wayOn]
  split
  · rw [PathChain.nextIndex]
    split
    · exact Option.some_ne_none _
    · rw [if_pos ⟨hLooped, hNodes⟩]
      exact Option.some_ne_none _
  · rw [PathChain.prevIndex]
    split
    · exact Option.some_ne_none _
    · rw [if_pos ⟨hLooped, hNodes⟩]
      exact Option.some_ne_none _

omit [IsStrictOrderedRing K] in
theorem StopsOnlyHere.not_finds (h : state.StopsOnlyHere) (hBoards : state.Boards) (ride : TrainRide K) :
    ¬state.turnOn.Finds ride := by
  intro hFinds
  have hNodes : state.chain.nodes ≠ [] := List.ne_nil_of_length_pos (Nat.zero_lt_of_lt hBoards.on_chain)
  have hWay : state.turnOn.wayOn ride.state.nodeIndex ≠ none := wayOn_ne_none h.1 hNodes
  obtain ⟨arrivals, -, ⟨-, hStops⟩ | hNone⟩ := hFinds.ends
  · exact h.2.2 _ (hFinds.elsewhere.resolve_left hWay) hStops
  · exact hWay hNone

omit [IsStrictOrderedRing K] in
theorem Returns.not_ends (hReturns : state.turnOn.Returns) (hBoards : state.Boards) (h : ¬state.StopsOnlyHere)
    (hTrip : state.turnOn.Trip arrivals index speed) : ¬state.turnOn.Ends arrivals index := by
  obtain ⟨visited, hCircles⟩ := hReturns.circles
  obtain ⟨hLooped, hWhole⟩ := hCircles.whole hBoards.on_chain
  have hIndex := hTrip.on_chain hBoards.on_chain
  obtain ⟨next, -, hWay⟩ := hCircles.onward index (hWhole index hIndex)
  have hOthers : ∀ other, other ≠ state.nodeIndex → ¬state.Stops other := by
    rintro other hOther ⟨node, hNode, hStop⟩
    have hOn := (List.getElem?_eq_some_iff.mp hNode).1
    exact hCircles.goes other (hWhole other hOn) hOther ⟨node, hNode, hStop⟩
  rintro (⟨-, hStops⟩ | hNone)
  · have hHere : index = state.nodeIndex := by
      by_contra hNe
      exact hOthers index hNe hStops
    exact h ⟨hLooped, hHere ▸ hStops, hOthers⟩
  · cases hWay.symm.trans hNone

/-- A plan agrees with the train that is set going unless the train is at the only stop of a loop. -/
theorem planRide_agrees_iff [Archimedean K] (hDistance : ∀ a b, 0 ≤ distance a b) (h : state.Boards) :
    (∃ plan, state.planRide distance = some plan ∧ state.PlanAgrees distance plan) ↔ ¬state.StopsOnlyHere := by
  obtain ⟨plan, hPlan, hFinds, hReturns⟩ := planRide_spec distance h
  have hRests {steps : List K} (hSteps : ∀ dt ∈ steps, 0 < dt) {last : TrackTrainState K}
      (hRun : state.turnOn.advanceAll distance steps = some last) (hLast : last.moving = false) :=
    h.rests hSteps hRun hLast
  have hOne (n : Nat) : ∀ dt ∈ List.replicate n (1 : K), 0 < dt :=
    fun dt hMem => List.eq_of_mem_replicate hMem ▸ zero_lt_one
  constructor
  · rintro ⟨_, hSame, hAgrees⟩ hOnly
    cases hPlan.symm.trans hSame
    cases plan with
    | some ride => exact hOnly.not_finds h ride (hFinds ride rfl)
    | none =>
      obtain ⟨arrivals, speed, hArrived, hTrip⟩ := (hReturns rfl).trip
      obtain ⟨n, last, hRun, hLast⟩ := h.arrives hDistance hTrip (.inl ⟨hArrived, hOnly.2.1⟩) zero_lt_one
      rw [hAgrees.never.mp rfl _ (hOne n) last hRun] at hLast
      cases hLast
  · intro hNot
    refine ⟨plan, hPlan, ?_⟩
    cases plan with
    | some ride =>
      have hRide := hFinds ride rfl
      obtain ⟨arrivals, hTrip, hEnds⟩ := hRide.ends
      have hArrives (dt : K) (hdt : 0 < dt) := h.arrives hDistance hTrip hEnds hdt
      refine ⟨iff_of_true rfl hArrives, ?_, iff_of_false nofun fun hNever => ?_⟩
      · rintro _ ⟨⟩ steps hSteps last hRun hLast
        obtain ⟨later, hRested⟩ := hRests hSteps hRun hLast
        obtain ⟨-, hIndex, hSpeed⟩ := hRested.trip.ends_unique hRested.ends hTrip hEnds
        exact ⟨hIndex, hRested.at_node, hSpeed, hRested.direction.trans hRide.direction.symm⟩
      · obtain ⟨n, last, hRun, hLast⟩ := hArrives 1 zero_lt_one
        rw [hNever _ (hOne n) last hRun] at hLast
        cases hLast
    | none =>
      have hNever : ∀ steps : List K, (∀ dt ∈ steps, 0 < dt) → ∀ last,
          state.turnOn.advanceAll distance steps = some last → last.moving = true := by
        intro steps hSteps last hRun
        by_contra hLast
        obtain ⟨later, hRested⟩ := hRests hSteps hRun (Bool.eq_false_iff.mpr hLast)
        exact (hReturns rfl).not_ends h hNot hRested.trip hRested.ends
      refine ⟨iff_of_false nofun fun hArrives => ?_, nofun, iff_of_true rfl hNever⟩
      obtain ⟨n, last, hRun, hLast⟩ := hArrives 1 zero_lt_one
      rw [hNever _ (hOne n) last hRun] at hLast
      cases hLast

end Runs

end TrackTrainState

theorem alongAxis_nonneg (start finish : Vec3 ℚ) : 0 ≤ alongAxis start finish :=
  add_nonneg (add_nonneg (abs_nonneg _) (abs_nonneg _)) (abs_nonneg _)

/-- Two nodes that lead to each other, the first of them a stop if `here` and the second if `there`. -/
def stoppingRails (here there : Bool) : Rails ℚ where
  world := [
    (1, { targetName := some [97], target := some [98], origin := some ⟨0, 0, 0⟩, path := some ⟨0, none, here, false⟩ }),
    (2, { targetName := some [98], target := some [97], origin := some ⟨100, 0, 0⟩,
          path := some ⟨0, some 20, there, false⟩ })]
  nameIndex name := if name = [97] then [1] else if name = [98] then [2] else []

def boarded (here there : Bool) : TrackTrainState ℚ :=
  TrackTrainState.spawn ⟨true, 50, 0, 0⟩ (((stoppingRails here there).build 0 [97]).getD ⟨[], false⟩)

theorem stoppingRails_read (here there : Bool) : TrackTrainState.RailsRead (stoppingRails here there) := by
  intro entity path hPath
  rw [stoppingRails, Rails.components] at hPath
  by_cases hFirst : (1 : Entity) = entity
  · simp [hFirst] at hPath
    exact ⟨none, by rw [← hPath]; rfl⟩
  · by_cases hSecond : (2 : Entity) = entity
    · simp [hFirst, hSecond] at hPath
      have hTwenty : (some 20 : Option ℚ) = pathSpeedOverride (.finite 20) := by decide +kernel
      exact ⟨some (.finite 20), by rw [← hPath]; exact hTwenty⟩
    · simp [hFirst, hSecond] at hPath

theorem boarded_boards (here there : Bool) : (boarded here there).Boards where
  on_chain := by
    revert here there
    decide +kernel
  at_rest := by
    revert here there
    decide +kernel
  at_node := rfl
  way_on := by
    revert here there
    decide +kernel
  speed_pos := by
    revert here there
    decide +kernel
  overrides := by
    obtain ⟨chain, hChain⟩ : ∃ chain, (stoppingRails here there).build 0 [97] = some chain := by
      refine Option.isSome_iff_exists.mp ?_
      revert here there
      decide +kernel
    rw [boarded, hChain]
    exact TrackTrainState.build_overridesRead (stoppingRails_read here there) hChain

/-- With a stop ahead the plan and the ride agree, whether or not the train is at a stop. -/
theorem ride_to_stop_agrees : ∃ plan, (boarded true true).planRide alongAxis = some plan ∧
    (boarded true true).PlanAgrees alongAxis plan := by
  refine (TrackTrainState.planRide_agrees_iff alongAxis_nonneg (boarded_boards true true)).mpr ?_
  rintro ⟨-, -, hOthers⟩
  have hStop : (boarded true true).chain.nodes[1]?.any PathNode.stop := by decide +kernel
  obtain ⟨node, hNode, hStop⟩ := (Option.any_eq_true _ _).mp hStop
  exact hOthers 1 (by decide +kernel) ⟨node, hNode, hStop⟩

/-- With no stop but the one it is at the train is planned no ride, and stops there all the same. -/
theorem ride_round_to_stop_not_planned : ¬∃ plan, (boarded true false).planRide alongAxis = some plan ∧
    (boarded true false).PlanAgrees alongAxis plan := by
  rintro ⟨plan, hPlan, hAgrees⟩
  have hNone : ((boarded true false).planRide alongAxis).all Option.isNone := by decide +kernel
  have hStops : ((boarded true false).turnOn.advanceAll alongAxis [2, 5]).any fun last => !last.moving := by
    decide +kernel
  rw [hPlan, Option.all_some, Option.isNone_iff_eq_none] at hNone
  obtain ⟨last, hLast, hRests⟩ := (Option.any_eq_true _ _).mp hStops
  have hMoves := hAgrees.never.mp hNone [2, 5] (by decide +kernel) last hLast
  rw [hMoves] at hRests
  cases hRests

end OpenHalfLife.Game
