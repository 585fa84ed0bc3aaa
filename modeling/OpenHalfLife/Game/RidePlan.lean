import OpenHalfLife.Game.TrackRide

/-! # Planned rides

Where a train at rest would come to rest next, summed up node by node, and the
trip it makes on its way there.
-/

namespace OpenHalfLife.Game

set_option autoImplicit false

def pathSpeedOverride {K : Type} [Field K] [LinearOrder K] : Stored K → Option K
  | .finite raw => if raw ≠ 0 then some raw else none
  | _ => none

structure TrainRide (K : Type) where
  state : TrackTrainState K
  seconds : K

namespace TrackTrainState

variable {K : Type} [Field K] [LinearOrder K]

def planned (state : TrackTrainState K) (speed seconds : K) (moved : Bool) : Option (TrainRide K) :=
  if moved then
    some ⟨{ state with speed, moving := false, waitTimer := 0, deadEndFired := false }, seconds⟩
  else none

/-- The loop, with the number of turns it may still take. Reading past the end of the chain panics. -/
def planSteps (distance : Vec3 K → Vec3 K → K) :
    Nat → TrackTrainState K → K → K → List Nat → Bool → Option (Option (TrainRide K))
  | 0, _, _, _, _, _ => none
  | turns + 1, state, speed, seconds, visited, moved =>
    match state.otherIndex with
    | none => some (state.planned speed seconds moved)
    | some other =>
      if ¬0 < speed then some none
      else do
        let len ← state.chain.segmentLen distance state.nodeIndex other
        let seconds := seconds + len / speed
        let state := { state with nodeIndex := other, t := 0 }
        if other ∈ visited then some none
        else do
          let node ← state.chain.nodes[other]?
          let speed := (node.speed.map fun speed => |speed|).getD speed
          if node.stop then some (state.planned speed seconds true)
          else
            planSteps distance turns state speed (if 0 < node.wait then seconds + node.wait else seconds)
              (other :: visited) true

def planRide (distance : Vec3 K → Vec3 K → K) (state : TrackTrainState K) : Option (Option (TrainRide K)) :=
  if state.moving then some none
  else
    planSteps distance (state.chain.nodes.length + 1) state
      (if singleEpsilon < |state.cruiseSpeed| then |state.cruiseSpeed| else state.speed) 0 [state.nodeIndex] false

/-! ## The trip -/

/-- The index after `index` the way the train faces. -/
def wayOn (state : TrackTrainState K) (index : Nat) : Option Nat :=
  if 0 ≤ state.direction then state.chain.nextIndex index else state.chain.prevIndex index

def Stops (state : TrackTrainState K) (index : Nat) : Prop :=
  ∃ node, state.chain.nodes[index]? = some node ∧ node.stop = true

/-- So many arrivals, the node of the last of them, and the speed it left the train with. -/
inductive Trip (start : TrackTrainState K) : Nat → Nat → K → Prop
  | start : Trip start 0 start.nodeIndex start.speed
  | arrive {arrivals index other : Nat} {speed : K} {node : PathNode K} :
    Trip start arrivals index speed → (0 < arrivals → ¬start.Stops index) → start.wayOn index = some other →
    start.chain.nodes[other]? = some node →
    Trip start (arrivals + 1) other ((node.speed.map fun speed => |speed|).getD speed)

/-- The trip goes no further: at a stop it came to, or where there is no way on. -/
def Ends (start : TrackTrainState K) (arrivals index : Nat) : Prop :=
  0 < arrivals ∧ start.Stops index ∨ start.wayOn index = none

/-- The node overrides of the chain are as the map's are read. -/
def OverridesRead (chain : PathChain K) : Prop :=
  ∀ node ∈ chain.nodes, ∃ raw : Option (Stored K), node.speed = raw.bind pathSpeedOverride

def RailsRead (rails : Rails K) : Prop :=
  ∀ entity, ∀ path ∈ (rails.components entity).path, ∃ raw : Option (Stored K), path.speed = raw.bind pathSpeedOverride

structure Boards (state : TrackTrainState K) : Prop where
  on_chain : state.nodeIndex < state.chain.nodes.length
  at_rest : state.moving = false
  at_node : state.t = 0
  way_on : state.otherIndex.isSome = true
  speed_pos : 0 < state.turnOn.speed
  overrides : OverridesRead state.chain

section Laid

variable {rails : Rails K} {height : K} {nodes : List (PathNode K)} {name : Name} {chain : PathChain K}

theorem walkSteps_overridesRead (h : RailsRead rails) (steps : Nat) (looped : Bool)
    (hNodes : OverridesRead ⟨nodes, looped⟩) : OverridesRead ⟨(rails.walkSteps height steps name nodes).1, looped⟩ := by
  induction steps generalizing name nodes with
  | zero => exact hNodes
  | succ steps ih =>
    rw [Rails.walkSteps]
    cases (rails.find name).head? with
    | none => exact hNodes
    | some entity =>
      dsimp only
      cases nodes.findIdx? fun node => node.entity = entity with
      | some index => exact hNodes
      | none =>
        dsimp only
        cases hNode : rails.nodeOf height entity with
        | none => exact hNodes
        | some node =>
          obtain ⟨path, hPath, rfl⟩ := Option.map_eq_some_iff.mp hNode
          have hHere := h entity path hPath
          dsimp only
          cases rails.onward entity with
          | none => exact List.forall_mem_append.mpr ⟨hNodes, List.forall_mem_singleton.mpr hHere⟩
          | some next => exact ih (List.forall_mem_append.mpr ⟨hNodes, List.forall_mem_singleton.mpr hHere⟩)

theorem build_overridesRead (h : RailsRead rails) (hBuild : rails.build height name = some chain) :
    OverridesRead chain := by
  simp only [Rails.build, Rails.buildWithReentry] at hBuild
  split at hBuild
  · cases hBuild
  · cases hBuild
    exact walkSteps_overridesRead h _ _ (List.forall_mem_nil _)

end Laid

section Trips

variable {start : TrackTrainState K} {arrivals arrivals' index index' other : Nat} {speed speed' : K}

theorem wayOn_lt (h : start.wayOn index = some other) (hIndex : index < start.chain.nodes.length) :
    other < start.chain.nodes.length := by
  rw [wayOn] at h
  split at h
  · exact PathChain.nextIndex_lt h
  · exact PathChain.prevIndex_lt h hIndex

theorem wayOn_inj (h : start.wayOn index = some other) (h' : start.wayOn index' = some other)
    (hIndex : index < start.chain.nodes.length) (hIndex' : index' < start.chain.nodes.length) : index = index' := by
  rw [wayOn] at h h'
  split at h
  case isTrue hForward =>
    rw [if_pos hForward] at h'
    have hBack := PathChain.prevIndex_of_nextIndex h hIndex
    exact Option.some.inj (hBack.symm.trans (PathChain.prevIndex_of_nextIndex h' hIndex'))
  case isFalse hBackward =>
    rw [if_neg hBackward] at h'
    have hBack := PathChain.nextIndex_of_prevIndex h hIndex
    exact Option.some.inj (hBack.symm.trans (PathChain.nextIndex_of_prevIndex h' hIndex'))

theorem Trip.on_chain (h : Trip start arrivals index speed) (hStart : start.nodeIndex < start.chain.nodes.length) :
    index < start.chain.nodes.length := by
  induction h with
  | start => exact hStart
  | arrive hTrip hGoing hWay hNode ih => exact wayOn_lt hWay ih

theorem Trip.unique (h : Trip start arrivals index speed) (h' : Trip start arrivals index' speed') :
    index = index' ∧ speed = speed' := by
  induction h generalizing index' speed' with
  | start =>
    cases h'
    exact ⟨rfl, rfl⟩
  | arrive hTrip hGoing hWay hNode ih =>
    cases h' with
    | arrive hTrip' hGoing' hWay' hNode' =>
      obtain ⟨rfl, rfl⟩ := ih hTrip'
      cases hWay.symm.trans hWay'
      cases hNode.symm.trans hNode'
      exact ⟨rfl, rfl⟩

theorem Trip.not_ends (h : Trip start arrivals index speed) (hTrip : Trip start arrivals' index' speed')
    (hLater : arrivals' < arrivals) : ¬start.Ends arrivals' index' := by
  induction h with
  | start => exact absurd hLater (Nat.not_lt_zero _)
  | @arrive arrivals index other speed node hBefore hGoing hWay hNode ih =>
    rcases Nat.lt_or_ge arrivals' arrivals with hEarlier | hSame
    · exact ih hEarlier
    · obtain rfl : arrivals' = arrivals := by omega
      obtain ⟨rfl, rfl⟩ := hBefore.unique hTrip
      rintro (⟨hArrived, hStops⟩ | hNone)
      · exact hGoing hArrived hStops
      · cases hWay.symm.trans hNone

theorem Trip.le_of_ends (h : Trip start arrivals index speed) (hEnds : start.Ends arrivals index)
    (hTrip : Trip start arrivals' index' speed') : arrivals' ≤ arrivals := by
  by_contra hLater
  exact hTrip.not_ends h (by omega) hEnds

theorem Trip.ends_unique (h : Trip start arrivals index speed) (hEnds : start.Ends arrivals index)
    (h' : Trip start arrivals' index' speed') (hEnds' : start.Ends arrivals' index') :
    arrivals = arrivals' ∧ index = index' ∧ speed = speed' := by
  obtain rfl : arrivals = arrivals' :=
    Nat.le_antisymm (h'.le_of_ends hEnds' h) (h.le_of_ends hEnds h')
  exact ⟨rfl, h.unique h'⟩

theorem Trip.speed_pos [IsStrictOrderedRing K] (h : Trip start arrivals index speed) (hStart : 0 < start.speed)
    (hOverrides : OverridesRead start.chain) : 0 < speed := by
  induction h with
  | start => exact hStart
  | @arrive arrivals index other speed node hTrip hGoing hWay hNode ih =>
    obtain ⟨raw, hRaw⟩ := hOverrides node (List.mem_of_getElem? hNode)
    rw [hRaw]
    cases raw with
    | none => exact ih
    | some stored =>
      cases stored with
      | finite value =>
        rw [Option.bind_some, pathSpeedOverride]
        split
        case isTrue hNonzero => exact abs_pos.mpr hNonzero
        case isFalse => exact ih
      | infinite negative => exact ih
      | nan => exact ih

end Trips

/-! ## What a plan finds -/

/-- The nodes of a trip so far, each led to from another but the first, and none of them a stop but
maybe the first. -/
structure Passed (start : TrackTrainState K) (visited : List Nat) (index : Nat) : Prop where
  here : index ∈ visited
  first : start.nodeIndex ∈ visited
  nodup : visited.Nodup
  on_chain : ∀ other ∈ visited, other < start.chain.nodes.length
  onward : ∀ other ∈ visited, other ≠ index → ∃ next ∈ visited, start.wayOn other = some next
  led : ∀ other ∈ visited, other ≠ start.nodeIndex → ∃ before ∈ visited, before ≠ index ∧ start.wayOn before = some other
  goes : ∀ other ∈ visited, other ≠ start.nodeIndex → ¬start.Stops other

/-- Nodes that lead to one another for ever, none of them a stop but maybe the first. -/
structure Circles (start : TrackTrainState K) (visited : List Nat) : Prop where
  first : start.nodeIndex ∈ visited
  onward : ∀ other ∈ visited, ∃ next ∈ visited, start.wayOn other = some next
  goes : ∀ other ∈ visited, other ≠ start.nodeIndex → ¬start.Stops other

/-- The ride is to the end of the trip, which is not a stop it set out from. -/
structure Finds (start : TrackTrainState K) (ride : TrainRide K) : Prop where
  ends : ∃ arrivals, start.Trip arrivals ride.state.nodeIndex ride.state.speed ∧
    start.Ends arrivals ride.state.nodeIndex
  direction : ride.state.direction = start.direction
  elsewhere : start.wayOn ride.state.nodeIndex = none ∨ ride.state.nodeIndex ≠ start.nodeIndex

structure Returns (start : TrackTrainState K) : Prop where
  circles : ∃ visited, start.Circles visited
  trip : ∃ arrivals speed, 0 < arrivals ∧ start.Trip arrivals start.nodeIndex speed

section Plans

variable {start state : TrackTrainState K} {visited : List Nat} {arrivals index other : Nat} {speed : K}

theorem passed_start (h : start.nodeIndex < start.chain.nodes.length) :
    start.Passed [start.nodeIndex] start.nodeIndex where
  here := List.mem_singleton_self _
  first := List.mem_singleton_self _
  nodup := List.nodup_singleton _
  on_chain _ hOther := List.mem_singleton.mp hOther ▸ h
  onward _ hOther hNe := absurd (List.mem_singleton.mp hOther) hNe
  led _ hOther hNe := absurd (List.mem_singleton.mp hOther) hNe
  goes _ hOther hNe := absurd (List.mem_singleton.mp hOther) hNe

theorem Passed.arrive (h : start.Passed visited index) (hWay : start.wayOn index = some other)
    (hNew : other ∉ visited) (hGoes : ¬start.Stops other) : start.Passed (other :: visited) other where
  here := List.mem_cons_self
  first := List.mem_cons_of_mem _ h.first
  nodup := List.nodup_cons.mpr ⟨hNew, h.nodup⟩
  on_chain := List.forall_mem_cons.mpr ⟨wayOn_lt hWay (h.on_chain index h.here), h.on_chain⟩
  onward := by
    rintro before hBefore hNe
    have hOld := (List.mem_cons.mp hBefore).resolve_left hNe
    by_cases hLast : before = index
    · exact ⟨other, List.mem_cons_self, hLast ▸ hWay⟩
    · obtain ⟨next, hNext, hStep⟩ := h.onward before hOld hLast
      exact ⟨next, List.mem_cons_of_mem _ hNext, hStep⟩
  led := by
    intro after hAfter hNe
    rcases List.mem_cons.mp hAfter with rfl | hOld
    · exact ⟨index, List.mem_cons_of_mem _ h.here, fun hSame => hNew (hSame ▸ h.here), hWay⟩
    · obtain ⟨before, hBefore, -, hStep⟩ := h.led after hOld hNe
      exact ⟨before, List.mem_cons_of_mem _ hBefore, fun hSame => hNew (hSame ▸ hBefore), hStep⟩
  goes := by
    intro after hAfter hNe
    rcases List.mem_cons.mp hAfter with rfl | hOld
    · exact hGoes
    · exact h.goes after hOld hNe

theorem Passed.returns (h : start.Passed visited index) (hWay : start.wayOn index = some other)
    (hOld : other ∈ visited) : other = start.nodeIndex ∧ start.Circles visited := by
  constructor
  · by_contra hNe
    obtain ⟨before, hBefore, hEarlier, hStep⟩ := h.led other hOld hNe
    exact hEarlier (wayOn_inj hStep hWay (h.on_chain before hBefore) (h.on_chain index h.here))
  · refine ⟨h.first, fun before hBefore => ?_, h.goes⟩
    by_cases hLast : before = index
    · exact ⟨other, hOld, hLast ▸ hWay⟩
    · exact h.onward before hBefore hLast

theorem otherIndex_eq_wayOn (hChain : state.chain = start.chain) (hDirection : state.direction = start.direction) :
    state.otherIndex = start.wayOn state.nodeIndex := by
  rw [otherIndex, wayOn, hChain, hDirection]

theorem planSteps_spec [IsStrictOrderedRing K] (distance : Vec3 K → Vec3 K → K) (hSpeed : 0 < start.speed)
    (hOverrides : OverridesRead start.chain) {turns : Nat} (seconds : K) (moved : Bool)
    (hChain : state.chain = start.chain) (hDirection : state.direction = start.direction)
    (hTrip : start.Trip arrivals state.nodeIndex speed) (hPassed : start.Passed visited state.nodeIndex)
    (hGoing : 0 < arrivals → ¬start.Stops state.nodeIndex) (hMoved : moved = true ↔ 0 < arrivals)
    (hLeaves : moved = true ∨ (start.wayOn state.nodeIndex).isSome = true)
    (hTurns : start.chain.nodes.length + 2 ≤ turns + visited.length) :
    ∃ plan, planSteps distance turns state speed seconds visited moved = some plan ∧
      (∀ ride, plan = some ride → start.Finds ride) ∧ (plan = none → start.Returns) := by
  induction turns generalizing state speed seconds visited moved arrivals with
  | zero =>
    have hLength : visited.length ≤ start.chain.nodes.length := by
      have hSub : visited ⊆ List.range start.chain.nodes.length :=
        fun other hOther => List.mem_range.mpr (hPassed.on_chain other hOther)
      have hFew := (List.subperm_of_subset hPassed.nodup hSub).length_le
      rwa [List.length_range] at hFew
    omega
  | succ turns ih =>
    rw [planSteps, otherIndex_eq_wayOn hChain hDirection]
    cases hWay : start.wayOn state.nodeIndex with
    | none =>
      have hMoved : moved = true := hLeaves.resolve_right (by simp [hWay])
      refine ⟨_, rfl, fun ride hRide => ?_, fun hNone => ?_⟩
      · rw [planned, if_pos hMoved] at hRide
        cases hRide
        exact ⟨⟨arrivals, hTrip, .inr hWay⟩, hDirection, .inl hWay⟩
      · rw [planned, if_pos hMoved] at hNone
        cases hNone
    | some other =>
      have hPositive := hTrip.speed_pos hSpeed hOverrides
      have hHere := hPassed.on_chain _ hPassed.here
      have hThere := wayOn_lt hWay hHere
      have hNode := List.getElem?_eq_getElem hThere
      obtain ⟨len, hLen⟩ : ∃ len, state.chain.segmentLen distance state.nodeIndex other = some len := by
        rw [hChain, PathChain.segmentLen, List.getElem?_eq_getElem hHere, hNode]
        exact ⟨_, rfl⟩
      have hArrive := hTrip.arrive hGoing hWay hNode
      dsimp only
      rw [if_neg (not_not.mpr hPositive), hLen]
      simp only [Option.bind_eq_bind, Option.bind_some]
      by_cases hOld : other ∈ visited
      · rw [if_pos hOld]
        obtain ⟨rfl, hCircles⟩ := hPassed.returns hWay hOld
        exact ⟨none, rfl, by simp, fun _ => ⟨⟨visited, hCircles⟩, arrivals + 1, _, Nat.succ_pos _, hArrive⟩⟩
      · rw [if_neg hOld, hChain, hNode, Option.bind_some]
        split
        case isTrue hStop =>
          refine ⟨_, rfl, fun ride hRide => ?_, fun hNone => ?_⟩
          · cases hRide
            exact ⟨⟨arrivals + 1, hArrive, .inl ⟨Nat.succ_pos _, _, hNode, hStop⟩⟩, hDirection,
              .inr fun hSame : other = start.nodeIndex => hOld (hSame ▸ hPassed.first)⟩
          · cases hNone
        case isFalse hGoes =>
          have hGoes : ¬start.Stops other := by
            rintro ⟨node, hSame, hStop⟩
            cases hNode.symm.trans hSame
            exact hGoes hStop
          have hArrived : { state with nodeIndex := other, t := 0, chain := start.chain }.chain = start.chain := rfl
          refine ih _ _ hArrived hDirection hArrive (hPassed.arrive hWay hOld hGoes) (fun _ => hGoes) ?_ (.inl rfl) ?_
          · simp
          · rw [List.length_cons]
            omega

theorem Circles.whole (h : start.Circles visited) (hStart : start.nodeIndex < start.chain.nodes.length) :
    start.chain.looped = true ∧ ∀ index < start.chain.nodes.length, index ∈ visited := by
  by_cases hForward : 0 ≤ start.direction
  · have hNext : ∀ index ∈ visited, ∃ next ∈ visited, start.chain.nextIndex index = some next := by
      intro index hIndex
      obtain ⟨next, hNext, hWay⟩ := h.onward index hIndex
      exact ⟨next, hNext, by rwa [wayOn, if_pos hForward] at hWay⟩
    have hUp {first : Nat} (hFirst : first ∈ visited) (steps : Nat) (hSteps : first + steps < start.chain.nodes.length) :
        first + steps ∈ visited := by
      induction steps with
      | zero => exact hFirst
      | succ steps ih =>
        obtain ⟨next, hVisited, hStep⟩ := hNext _ (ih (by omega))
        rw [PathChain.nextIndex, if_pos (by omega)] at hStep
        cases hStep
        exact hVisited
    have hLast := hUp h.first (start.chain.nodes.length - 1 - start.nodeIndex) (by omega)
    rw [show start.nodeIndex + (start.chain.nodes.length - 1 - start.nodeIndex) = start.chain.nodes.length - 1 by omega]
      at hLast
    obtain ⟨next, hVisited, hStep⟩ := hNext _ hLast
    rw [PathChain.nextIndex, if_neg (by omega), Option.ite_none_right_eq_some] at hStep
    obtain ⟨⟨hLooped, -⟩, hZero⟩ := hStep
    cases hZero
    exact ⟨hLooped, fun index hIndex => by simpa using hUp hVisited index (by omega)⟩
  · have hBefore : ∀ index ∈ visited, ∃ next ∈ visited, start.chain.prevIndex index = some next := by
      intro index hIndex
      obtain ⟨next, hNext, hWay⟩ := h.onward index hIndex
      exact ⟨next, hNext, by rwa [wayOn, if_neg hForward] at hWay⟩
    have hDown {first : Nat} (hFirst : first ∈ visited) (steps : Nat) (hSteps : steps ≤ first) :
        first - steps ∈ visited := by
      induction steps with
      | zero => exact hFirst
      | succ steps ih =>
        obtain ⟨next, hVisited, hStep⟩ := hBefore _ (ih (by omega))
        rw [PathChain.prevIndex, if_pos (by omega)] at hStep
        cases hStep
        exact hVisited
    have hZero := hDown h.first start.nodeIndex le_rfl
    rw [Nat.sub_self] at hZero
    obtain ⟨next, hVisited, hStep⟩ := hBefore _ hZero
    rw [PathChain.prevIndex, if_neg (lt_irrefl 0), Option.ite_none_right_eq_some] at hStep
    obtain ⟨⟨hLooped, -⟩, hLast⟩ := hStep
    cases hLast
    refine ⟨hLooped, fun index hIndex => ?_⟩
    have hThere := hDown hVisited (start.chain.nodes.length - 1 - index) (by omega)
    rwa [show start.chain.nodes.length - 1 - (start.chain.nodes.length - 1 - index) = index by omega] at hThere

theorem turnOn_speed (h : state.moving = false) : state.turnOn.speed =
    if singleEpsilon < |state.cruiseSpeed| then |state.cruiseSpeed| else state.speed := by
  simp [turnOn, h]

theorem planRide_spec [IsStrictOrderedRing K] (distance : Vec3 K → Vec3 K → K) (h : state.Boards) :
    ∃ plan, state.planRide distance = some plan ∧ (∀ ride, plan = some ride → state.turnOn.Finds ride) ∧
      (plan = none → state.turnOn.Returns) := by
  have hTrip : state.turnOn.Trip 0 state.nodeIndex state.turnOn.speed := .start
  rw [planRide, h.at_rest, if_neg Bool.false_ne_true, ← turnOn_speed h.at_rest]
  refine planSteps_spec distance h.speed_pos h.overrides 0 false rfl rfl hTrip (passed_start h.on_chain)
    (fun hNever => absurd hNever (lt_irrefl 0)) (by simp) (.inr ?_) ?_
  · have hWay : state.otherIndex = state.turnOn.wayOn state.nodeIndex := otherIndex_eq_wayOn rfl rfl
    rw [← hWay]
    exact h.way_on
  · rw [List.length_singleton]
    rfl

end Plans

end TrackTrainState

end OpenHalfLife.Game
