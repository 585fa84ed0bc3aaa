import OpenHalfLife.Game.TrackTrain
import Mathlib.Tactic.Ring

/-! # A train keeps its place

Whatever is done to a train it stays on its chain, so nothing it reads is past the end. Reversing
and re-splicing move it exactly when the far end of the segment it is on changes under it.
-/

namespace OpenHalfLife.Game

set_option autoImplicit false

section Lerp

variable {K : Type} [Field K] [LinearOrder K] [IsStrictOrderedRing K]

omit [LinearOrder K] [IsStrictOrderedRing K] in
theorem Vec3.lerp_self (start : Vec3 K) (s : K) : start.lerp start s = start := by
  cases start
  simp only [Vec3.lerp, Vec3.mk.injEq]
  refine ⟨?_, ?_, ?_⟩ <;> ring

omit [LinearOrder K] [IsStrictOrderedRing K] in
theorem Vec3.lerp_symm (start finish : Vec3 K) (s : K) :
    finish.lerp start (1 - s) = start.lerp finish s := by
  simp only [Vec3.lerp, Vec3.mk.injEq]
  refine ⟨?_, ?_, ?_⟩ <;> ring

theorem Vec3.lerp_eq_iff (start a b : Vec3 K) (s : K) :
    start.lerp a s = start.lerp b s ↔ s = 0 ∨ a = b := by
  constructor
  · intro h
    simp only [Vec3.lerp, Vec3.mk.injEq] at h
    obtain ⟨hx, hy, hz⟩ := h
    by_cases hs : s = 0
    · exact .inl hs
    · right
      cases a
      cases b
      simp only [Vec3.mk.injEq]
      exact ⟨mul_right_cancel₀ hs (add_left_cancel hx), mul_right_cancel₀ hs (add_left_cancel hy),
        mul_right_cancel₀ hs (add_left_cancel hz)⟩
  · rintro (rfl | rfl)
    · simp only [Vec3.lerp, mul_zero]
    · rfl

end Lerp

structure PathChain.Laid {K : Type} (chain : PathChain K) : Prop where
  nodes_ne : chain.nodes ≠ []
  length_le : chain.nodes.length ≤ maxPathNodes

namespace PathChain

variable {K : Type} {chain : PathChain K} {i j : Nat}

theorem nextIndex_lt (h : chain.nextIndex i = some j) : j < chain.nodes.length := by
  simp only [nextIndex] at h
  split at h
  · cases h
    assumption
  · split at h
    · cases h
      rename_i hLooped
      exact List.length_pos_of_ne_nil hLooped.2
    · cases h

theorem prevIndex_lt (h : chain.prevIndex i = some j) (hi : i < chain.nodes.length) : j < chain.nodes.length := by
  simp only [prevIndex] at h
  split at h
  · cases h
    omega
  · split at h
    · cases h
      omega
    · cases h

theorem prevIndex_of_nextIndex (h : chain.nextIndex i = some j) (hi : i < chain.nodes.length) :
    chain.prevIndex j = some i := by
  simp only [nextIndex] at h
  split at h
  · cases h
    simp [prevIndex]
  · rename_i hLast
    split at h
    · rename_i hLooped
      cases h
      rw [prevIndex, if_neg (lt_irrefl 0), if_pos hLooped]
      congr 1
      omega
    · cases h

theorem nextIndex_of_prevIndex (h : chain.prevIndex i = some j) (hi : i < chain.nodes.length) :
    chain.nextIndex j = some i := by
  simp only [prevIndex] at h
  split at h
  · cases h
    rw [nextIndex, if_pos (by omega)]
    congr 1
    omega
  · rename_i hFirst
    split at h
    · rename_i hLooped
      cases h
      rw [nextIndex, if_neg (by omega), if_pos hLooped]
      congr 1
      omega
    · cases h

end PathChain

namespace Rails

variable {K : Type} [Field K] (rails : Rails K) (height : K)

theorem walkSteps_extends (steps : Nat) (name : Name) (nodes : List (PathNode K)) :
    ∃ added, (rails.walkSteps height steps name nodes).1 = nodes ++ added ∧ added.length ≤ steps ∧
      ∀ index ∈ (rails.walkSteps height steps name nodes).2, index < (nodes ++ added).length := by
  induction steps generalizing name nodes with
  | zero => exact ⟨[], (List.append_nil _).symm, le_rfl, nofun⟩
  | succ steps ih =>
    rw [walkSteps]
    split
    · exact ⟨[], (List.append_nil _).symm, Nat.zero_le _, nofun⟩
    · split
      · rename_i index hIndex
        refine ⟨[], (List.append_nil _).symm, Nat.zero_le _, ?_⟩
        rintro _ ⟨⟩
        rw [List.append_nil]
        exact (List.findIdx?_eq_some_iff_findIdx_eq.mp hIndex).1
      · split
        · exact ⟨[], (List.append_nil _).symm, Nat.zero_le _, nofun⟩
        · rename_i node _
          split
          · exact ⟨[node], rfl, Nat.succ_le_succ (Nat.zero_le _), nofun⟩
          · rename_i next _
            obtain ⟨added, hNodes, hLength, hClosed⟩ := ih next (nodes ++ [node])
            refine ⟨node :: added, ?_, Nat.succ_le_succ hLength, ?_⟩
            · rw [hNodes, List.append_assoc, List.singleton_append]
            · rw [List.append_assoc, List.singleton_append] at hClosed
              exact hClosed

theorem extend_extends (entity : Entity) {kept : List (PathNode K)} (h : kept.length ≤ maxPathNodes) :
    ∃ added, (rails.extend height entity kept).1 = kept ++ added ∧ (kept ++ added).length ≤ maxPathNodes ∧
      ∀ index ∈ (rails.extend height entity kept).2, index < (kept ++ added).length := by
  rw [extend]
  split
  · exact ⟨[], (List.append_nil _).symm, by rwa [List.append_nil], nofun⟩
  · rename_i name _
    obtain ⟨added, hNodes, hLength, hClosed⟩ :=
      rails.walkSteps_extends height (maxPathNodes - kept.length) name kept
    refine ⟨added, hNodes, ?_, hClosed⟩
    rw [List.length_append]
    omega

theorem build_laid {name : Name} {chain : PathChain K} (h : rails.build height name = some chain) : chain.Laid := by
  obtain ⟨added, hNodes, hLength, -⟩ := rails.walkSteps_extends height maxPathNodes name []
  rw [List.nil_append] at hNodes
  simp only [build, buildWithReentry, walkFrom, List.length_nil, Nat.sub_zero, hNodes] at h
  split at h
  · cases h
  · rename_i hAdded
    cases h
    exact ⟨fun hNil => hAdded (List.isEmpty_iff.mpr hNil), hLength⟩

end Rails

namespace TrackTrainState

variable {K : Type} [Field K] [LinearOrder K] [IsStrictOrderedRing K] {state next : TrackTrainState K}

/-- On its chain, between the two ends of its segment, facing one way or the other. -/
structure Seated (state : TrackTrainState K) : Prop where
  laid : state.chain.Laid
  on_chain : state.nodeIndex < state.chain.nodes.length
  t_nonneg : 0 ≤ state.t
  t_le : state.t ≤ 1
  heading : state.direction = 1 ∨ state.direction = -1

/-- Where the node of index `index` lies. -/
def nodeAt (state : TrackTrainState K) (index : Nat) : Option (Vec3 K) :=
  state.chain.nodes[index]?.map PathNode.position

def farEnd (state : TrackTrainState K) : Option (Vec3 K) :=
  state.nodeAt (state.otherIndex.getD state.nodeIndex)

omit [IsStrictOrderedRing K] in
theorem otherIndex_lt (h : state.Seated) {other : Nat} (hOther : state.otherIndex = some other) :
    other < state.chain.nodes.length := by
  rw [otherIndex] at hOther
  split at hOther
  · exact PathChain.nextIndex_lt hOther
  · exact PathChain.prevIndex_lt hOther h.on_chain

omit [Field K] [LinearOrder K] [IsStrictOrderedRing K] in
theorem nodeAt_eq {index : Nat} (h : index < state.chain.nodes.length) :
    state.nodeAt index = some state.chain.nodes[index].position := by
  rw [nodeAt, List.getElem?_eq_getElem h, Option.map_some]

omit [IsStrictOrderedRing K] in
theorem Seated.ends (h : state.Seated) :
    ∃ start finish, state.nodeAt state.nodeIndex = some start ∧ state.farEnd = some finish ∧
      state.position = some (start.lerp finish state.t) := by
  have hClamp : max 0 (min state.t 1) = state.t := by rw [min_eq_left h.t_le, max_eq_right h.t_nonneg]
  have hStart := List.getElem?_eq_getElem h.on_chain
  cases hOther : state.otherIndex with
  | none =>
    have hOn := h.on_chain
    refine ⟨_, state.chain.nodes[state.nodeIndex].position, nodeAt_eq hOn, ?_, ?_⟩
    · rw [farEnd, hOther]
      exact nodeAt_eq hOn
    · rw [position, hStart, hOther, Vec3.lerp_self]
      rfl
  | some other =>
    have hLt := otherIndex_lt h hOther
    refine ⟨_, state.chain.nodes[other].position, nodeAt_eq h.on_chain, ?_, ?_⟩
    · rw [farEnd, hOther]
      exact nodeAt_eq hLt
    · rw [position, hStart, hOther]
      change (state.chain.nodes[other]?.bind _) = _
      rw [List.getElem?_eq_getElem hLt, hClamp]
      rfl

theorem position_eq_iff (h : state.Seated) (hNext : next.Seated) (ht : next.t = state.t)
    (hStart : next.nodeAt next.nodeIndex = state.nodeAt state.nodeIndex) :
    next.position = state.position ↔ state.t = 0 ∨ next.farEnd = state.farEnd := by
  obtain ⟨start, finish, hStart₁, hFar₁, hPosition₁⟩ := h.ends
  obtain ⟨start', finish', hStart₂, hFar₂, hPosition₂⟩ := hNext.ends
  obtain rfl : start' = start := Option.some.inj (hStart₂.symm.trans (hStart.trans hStart₁))
  rw [hPosition₁, hPosition₂, hFar₁, hFar₂, ht, Option.some.injEq, Option.some.injEq, Vec3.lerp_eq_iff]

theorem Seated.turned (h : state.Seated) : 0 ≤ -state.direction ↔ ¬ 0 ≤ state.direction := by
  rcases h.heading with hOne | hOne <;> rw [hOne]
  · simp
  · simp

omit [IsStrictOrderedRing K] in
theorem Seated.neg_heading (h : state.Seated) : -state.direction = 1 ∨ -state.direction = -1 := by
  rcases h.heading with hOne | hOne <;> rw [hOne]
  · exact .inr rfl
  · exact .inl (neg_neg 1)

theorem Seated.reverse (h : state.Seated) : state.reverse.Seated := by
  rw [TrackTrainState.reverse]
  split
  · rename_i other hOther
    exact ⟨h.laid, otherIndex_lt h hOther, sub_nonneg.mpr h.t_le, sub_le_self 1 h.t_nonneg, h.neg_heading⟩
  · exact ⟨h.laid, h.on_chain, h.t_nonneg, h.t_le, h.neg_heading⟩

theorem otherIndex_turned (h : state.Seated) {other : Nat} (hOther : state.otherIndex = some other) (t : K) :
    otherIndex { state with nodeIndex := other, t, direction := -state.direction } = some state.nodeIndex := by
  simp only [otherIndex] at hOther ⊢
  rw [ite_congr (propext h.turned) (fun _ => rfl) (fun _ => rfl), ite_not]
  split
  · rename_i hForward
    rw [if_pos hForward] at hOther
    exact PathChain.prevIndex_of_nextIndex hOther h.on_chain
  · rename_i hBackward
    rw [if_neg hBackward] at hOther
    exact PathChain.nextIndex_of_prevIndex hOther h.on_chain

/-- A reversal moves the train only when it had no way on, was past its node all the same, and has a
way back to somewhere else. -/
theorem reverse_position_iff (h : state.Seated) :
    state.reverse.position = state.position ↔
      state.t = 0 ∨ state.otherIndex.isSome ∨
        state.nodeAt (state.previousNodeIndex.getD state.nodeIndex) = state.nodeAt state.nodeIndex := by
  cases hOther : state.otherIndex with
  | some other =>
    refine iff_of_true ?_ (.inr (.inl rfl))
    have hTurned := h.reverse
    simp only [TrackTrainState.reverse, hOther] at hTurned ⊢
    obtain ⟨start, finish, hStart, hFar, hPosition⟩ := h.ends
    obtain ⟨start', finish', hStart', hFar', hPosition'⟩ := hTurned.ends
    rw [farEnd, hOther] at hFar
    rw [farEnd, otherIndex_turned h hOther] at hFar'
    obtain rfl : start' = finish := Option.some.inj (hStart'.symm.trans hFar)
    obtain rfl : finish' = start := Option.some.inj (hFar'.symm.trans hStart)
    rw [hPosition, hPosition']
    exact congrArg some (Vec3.lerp_symm _ _ _)
  | none =>
    have hTurned := h.reverse
    simp only [TrackTrainState.reverse, hOther] at hTurned ⊢
    rw [position_eq_iff h hTurned rfl rfl]
    refine or_congr Iff.rfl ?_
    simp only [Option.isSome_none, Bool.false_eq_true, false_or]
    have hBehind : otherIndex { state with direction := -state.direction } = state.previousNodeIndex := by
      simp only [otherIndex, previousNodeIndex]
      rw [ite_congr (propext h.turned) (fun _ => rfl) (fun _ => rfl), ite_not]
    rw [farEnd, hBehind, farEnd, hOther]
    rfl

/-- The train is on a segment whose far end a re-splice keeps. -/
def KeepsSegment (state : TrackTrainState K) : Prop :=
  0 ≤ state.direction ∧ state.otherIndex.isSome ∨ state.direction < 0 ∧ 0 < state.nodeIndex

/-- Where the walk out of the train's node leads, for a train with no segment to keep: onward from
the node it is parked on past its end, or round to the node before the first. -/
def leadsTo (state : TrackTrainState K) (rails : Rails K) (height : K) : Option (Vec3 K) := do
  let here ← state.chain.nodes[state.nodeIndex]?
  let (nodes, closedOnto) := rails.extend height here.entity (state.chain.nodes.take (state.nodeIndex + 1))
  let far :=
    if 0 ≤ state.direction then nodes[state.nodeIndex + 1]?.or (closedOnto.bind fun index => nodes[index]?)
    else if closedOnto = some 0 then nodes.getLast? else none
  some (far.getD here).position

omit [IsStrictOrderedRing K] in
theorem committed_lt (h : state.Seated) {committed : Nat} (hCommitted : state.committed = some committed) :
    state.nodeIndex ≤ committed ∧ committed < state.chain.nodes.length := by
  rw [TrackTrainState.committed] at hCommitted
  split at hCommitted
  · split at hCommitted
    · rename_i hOther
      split at hCommitted
      · rename_i hLt
        cases hCommitted
        exact ⟨hLt.le, PathChain.nextIndex_lt hOther⟩
      · cases hCommitted
    · cases hCommitted
      exact ⟨le_rfl, h.on_chain⟩
  · cases hCommitted
    exact ⟨le_rfl, h.on_chain⟩

/-- What the walk leaves of the chain: the nodes kept from `shift` on, and those it added. -/
structure Respliced (state next : TrackTrainState K) (nodes : List (PathNode K)) (closedOnto : Option Nat)
    (shift : Nat) : Prop where
  nodes_eq : next.chain.nodes = nodes.drop shift
  index_eq : next.nodeIndex + shift = state.nodeIndex
  looped_iff : next.chain.looped ↔ closedOnto = some shift
  shift_eq : state.direction < 0 → shift = 0
  closed_le : 0 ≤ state.direction → ∀ index ∈ closedOnto, index ≤ state.nodeIndex → index = shift
  t_eq : next.t = state.t
  direction_eq : next.direction = state.direction
  speed_eq : next.speed = state.speed
  waitTimer_eq : next.waitTimer = state.waitTimer

omit [IsStrictOrderedRing K] in
theorem rejoin_respliced (state : TrackTrainState K) (nodes : List (PathNode K)) (closedOnto : Option Nat)
    (fired : Bool) :
    ∃ shift, Respliced state
      { state with
        deadEndFired := fired
        chain := (state.rejoin nodes closedOnto).1
        nodeIndex := (state.rejoin nodes closedOnto).2 } nodes closedOnto shift := by
  rcases closedOnto with _ | _ | index
  · exact ⟨0, by rw [List.drop_zero]; rfl, rfl, iff_of_false nofun nofun, fun _ => rfl, nofun, rfl, rfl, rfl, rfl⟩
  · refine ⟨0, by rw [List.drop_zero]; rfl, rfl, iff_of_true rfl rfl, fun _ => rfl, ?_, rfl, rfl, rfl, rfl⟩
    rintro - _ ⟨⟩ -
    rfl
  · by_cases h : 0 ≤ state.direction ∧ index + 1 ≤ state.nodeIndex
    · simp only [rejoin, if_pos h]
      refine ⟨index + 1, rfl, Nat.sub_add_cancel h.2, iff_of_true rfl rfl, ?_, ?_, rfl, rfl, rfl, rfl⟩
      · exact fun hBackward => absurd h.1 (not_le.mpr hBackward)
      · rintro - _ ⟨⟩ -
        rfl
    · simp only [rejoin, if_neg h]
      refine ⟨0, by rw [List.drop_zero], rfl, iff_of_false nofun (by simp), fun _ => rfl, ?_, rfl, rfl, rfl, rfl⟩
      rintro hForward _ ⟨⟩ hLe
      exact absurd ⟨hForward, hLe⟩ h

omit [IsStrictOrderedRing K] in
theorem respliceChain_exec (h : state.Seated) (rails : Rails K) (height : K) {committed : Nat}
    (hCommitted : state.committed = some committed) :
    ∃ last added shift changed next, state.chain.nodes[committed]? = some last ∧
      (rails.extend height last.entity (state.chain.nodes.take (committed + 1))).1 =
        state.chain.nodes.take (committed + 1) ++ added ∧
      (state.chain.nodes.take (committed + 1) ++ added).length ≤ maxPathNodes ∧
      (∀ index ∈ (rails.extend height last.entity (state.chain.nodes.take (committed + 1))).2,
        index < (state.chain.nodes.take (committed + 1) ++ added).length) ∧
      state.respliceChain rails height = some (changed, next) ∧
      Respliced state next (state.chain.nodes.take (committed + 1) ++ added)
        (rails.extend height last.entity (state.chain.nodes.take (committed + 1))).2 shift := by
  obtain ⟨last, hLast⟩ : ∃ last, state.chain.nodes[committed]? = some last :=
    ⟨_, List.getElem?_eq_getElem (committed_lt h hCommitted).2⟩
  have hKept : (state.chain.nodes.take (committed + 1)).length ≤ maxPathNodes :=
    (List.length_take_le' _ _).trans h.laid.length_le
  obtain ⟨added, hNodes, hLength, hClosed⟩ := rails.extend_extends height last.entity hKept
  simp only [respliceChain, hCommitted, hLast, Option.bind_eq_bind, Option.bind_some, hNodes]
  split
  · rename_i hSame
    obtain ⟨shift, hShift⟩ := state.rejoin_respliced (state.chain.nodes.take (committed + 1) ++ added)
      (rails.extend height last.entity (state.chain.nodes.take (committed + 1))).2 state.deadEndFired
    rw [hSame.1, hSame.2] at hShift
    exact ⟨last, added, shift, false, state, rfl, hNodes, hLength, hClosed, rfl, hShift⟩
  · obtain ⟨shift, hShift⟩ := state.rejoin_respliced (state.chain.nodes.take (committed + 1) ++ added)
      (rails.extend height last.entity (state.chain.nodes.take (committed + 1))).2 false
    exact ⟨last, added, shift, true, _, rfl, hNodes, hLength, hClosed, rfl, hShift⟩

section Respliced

variable {committed shift : Nat} {added : List (PathNode K)} {closedOnto : Option Nat}

omit [IsStrictOrderedRing K] in
theorem Respliced.nodeAt {nodes : List (PathNode K)} (h : Respliced state next nodes closedOnto shift) (index : Nat) :
    next.nodeAt index = nodes[index + shift]?.map PathNode.position := by
  rw [TrackTrainState.nodeAt, h.nodes_eq, List.getElem?_drop, Nat.add_comm]

omit [Field K] [LinearOrder K] [IsStrictOrderedRing K] in
theorem getElem?_take_append {index : Nat} (h : index ≤ committed) (hCommitted : committed < state.chain.nodes.length) :
    (state.chain.nodes.take (committed + 1) ++ added)[index]? = state.chain.nodes[index]? := by
  rw [List.getElem?_append_left (by rw [List.length_take]; omega), List.getElem?_take_of_lt (by omega)]

omit [Field K] [LinearOrder K] [IsStrictOrderedRing K] in
theorem length_take_append (hCommitted : committed < state.chain.nodes.length) :
    (state.chain.nodes.take (committed + 1) ++ added).length = committed + 1 + added.length := by
  rw [List.length_append, List.length_take]
  omega

omit [IsStrictOrderedRing K] in
theorem Respliced.start
    (h : Respliced state next (state.chain.nodes.take (committed + 1) ++ added) closedOnto shift)
    (hOn : state.nodeIndex ≤ committed) (hCommitted : committed < state.chain.nodes.length) :
    next.nodeAt next.nodeIndex = state.nodeAt state.nodeIndex := by
  rw [h.nodeAt, h.index_eq, getElem?_take_append hOn hCommitted, TrackTrainState.nodeAt]

omit [IsStrictOrderedRing K] in
theorem Respliced.seated (hState : state.Seated)
    (h : Respliced state next (state.chain.nodes.take (committed + 1) ++ added) closedOnto shift)
    (hOn : state.nodeIndex ≤ committed) (hCommitted : committed < state.chain.nodes.length)
    (hLength : (state.chain.nodes.take (committed + 1) ++ added).length ≤ maxPathNodes) : next.Seated := by
  have hIndex := h.index_eq
  have hNext : next.nodeIndex < next.chain.nodes.length := by
    rw [h.nodes_eq, List.length_drop, length_take_append hCommitted]
    omega
  refine ⟨⟨List.ne_nil_of_length_pos (Nat.zero_lt_of_lt hNext), ?_⟩, hNext, ?_, ?_, ?_⟩
  · rw [h.nodes_eq, List.length_drop]
    omega
  · rw [h.t_eq]
    exact hState.t_nonneg
  · rw [h.t_eq]
    exact hState.t_le
  · rw [h.direction_eq]
    exact hState.heading

omit [Field K] [LinearOrder K] [IsStrictOrderedRing K] in
theorem PathChain.nextIndex_succ {chain : PathChain K} {i j : Nat} (h : chain.nextIndex i = some j) (hLt : i < j) :
    j = i + 1 := by
  rw [PathChain.nextIndex] at h
  split at h
  · cases h
    rfl
  · split at h
    · cases h
      exact absurd hLt (Nat.not_lt_zero i)
    · cases h

omit [IsStrictOrderedRing K] in
theorem Respliced.keeps (hState : state.Seated)
    (h : Respliced state next (state.chain.nodes.take (committed + 1) ++ added) closedOnto shift)
    (hCommitted : state.committed = some committed) (hUnderWay : 0 < state.t) (hKeeps : state.KeepsSegment) :
    next.farEnd = state.farEnd := by
  obtain ⟨hOn, hLt⟩ := committed_lt hState hCommitted
  have hIndex := h.index_eq
  rw [farEnd, farEnd, otherIndex, otherIndex, h.direction_eq]
  rcases hKeeps with ⟨hForward, hAhead⟩ | ⟨hBackward, hBehind⟩
  · rw [otherIndex, if_pos hForward] at hAhead
    obtain ⟨other, hOther⟩ := Option.isSome_iff_exists.mp hAhead
    rw [TrackTrainState.committed, if_pos ⟨hForward, hUnderWay⟩, hOther] at hCommitted
    dsimp only at hCommitted
    split at hCommitted
    · rename_i hOnward
      cases hCommitted
      obtain rfl := PathChain.nextIndex_succ hOther hOnward
      have hNext : next.chain.nextIndex next.nodeIndex = some (next.nodeIndex + 1) := by
        rw [PathChain.nextIndex, if_pos]
        rw [h.nodes_eq, List.length_drop, length_take_append hLt]
        omega
      rw [if_pos hForward, if_pos hForward, hOther, hNext, Option.getD_some, Option.getD_some, h.nodeAt,
        show next.nodeIndex + 1 + shift = state.nodeIndex + 1 by omega, getElem?_take_append le_rfl hLt]
      rfl
    · cases hCommitted
  · obtain rfl := h.shift_eq hBackward
    have hSame : next.nodeIndex = state.nodeIndex := hIndex
    rw [if_neg (not_le.mpr hBackward), if_neg (not_le.mpr hBackward), PathChain.prevIndex, PathChain.prevIndex, hSame,
      if_pos hBehind, if_pos hBehind, Option.getD_some, h.nodeAt, getElem?_take_append (by omega) hLt]
    rfl

variable {nodes : List (PathNode K)} {here : PathNode K}

omit [IsStrictOrderedRing K] in
theorem Respliced.leads_forward (h : Respliced state next nodes closedOnto shift) (hForward : 0 ≤ state.direction)
    (hClosed : ∀ index ∈ closedOnto, index < nodes.length) (hHere : nodes[state.nodeIndex]? = some here) :
    next.farEnd = some ((nodes[state.nodeIndex + 1]?.or (closedOnto.bind fun index => nodes[index]?)).getD here).position := by
  have hIndex := h.index_eq
  have hOn := (List.getElem?_eq_some_iff.mp hHere).1
  have hLength : next.chain.nodes.length = nodes.length - shift := by rw [h.nodes_eq, List.length_drop]
  rw [farEnd, otherIndex, h.direction_eq, if_pos hForward, PathChain.nextIndex]
  by_cases hAdded : state.nodeIndex + 1 < nodes.length
  · rw [if_pos (by omega), Option.getD_some, h.nodeAt,
      show next.nodeIndex + 1 + shift = state.nodeIndex + 1 by omega, List.getElem?_eq_getElem hAdded]
    rfl
  · rw [if_neg (by omega), List.getElem?_eq_none (not_lt.mp hAdded), Option.none_or]
    cases hWalk : closedOnto with
    | none =>
      have hOpen : ¬ next.chain.looped := fun hLooped => by
        rw [h.looped_iff, hWalk] at hLooped
        cases hLooped
      rw [if_neg fun hBoth => hOpen hBoth.1, Option.getD_none, h.nodeAt, hIndex, hHere]
      rfl
    | some index =>
      have hLt := hClosed index hWalk
      obtain rfl := h.closed_le hForward index hWalk (by omega)
      have hLooped : next.chain.looped := h.looped_iff.mpr hWalk
      rw [if_pos ⟨hLooped, List.ne_nil_of_length_pos (by omega)⟩, Option.getD_some, h.nodeAt, Nat.zero_add,
        Option.bind_some, List.getElem?_eq_getElem hLt]
      rfl

omit [IsStrictOrderedRing K] in
theorem Respliced.leads_backward (h : Respliced state next nodes closedOnto shift) (hBackward : state.direction < 0)
    (hFirst : state.nodeIndex = 0) (hHere : nodes[0]? = some here) :
    next.farEnd = some ((if closedOnto = some 0 then nodes.getLast? else none).getD here).position := by
  obtain rfl := h.shift_eq hBackward
  have hIndex : next.nodeIndex = 0 := h.index_eq.trans hFirst
  have hNodes : next.chain.nodes = nodes := by rw [h.nodes_eq, List.drop_zero]
  have hOn := (List.getElem?_eq_some_iff.mp hHere).1
  rw [farEnd, otherIndex, h.direction_eq, if_neg (not_le.mpr hBackward), PathChain.prevIndex, hIndex,
    if_neg (lt_irrefl 0), hNodes]
  by_cases hWalk : closedOnto = some 0
  · rw [if_pos ⟨h.looped_iff.mpr hWalk, List.ne_nil_of_length_pos hOn⟩, if_pos hWalk, Option.getD_some, h.nodeAt,
      List.getLast?_eq_getElem?, Nat.add_zero, List.getElem?_eq_getElem (by omega)]
    rfl
  · rw [if_neg fun hBoth => hWalk (h.looped_iff.mp hBoth.1), if_neg hWalk, Option.getD_none, h.nodeAt, hHere]
    rfl

omit [IsStrictOrderedRing K] in
theorem committed_eq (hCommitted : state.committed = some committed) (hKeeps : ¬ state.KeepsSegment) :
    committed = state.nodeIndex := by
  rw [TrackTrainState.committed] at hCommitted
  split at hCommitted
  · rename_i hUnderWay
    have hNone : state.chain.nextIndex state.nodeIndex = none := by
      have hOther : ¬ state.otherIndex.isSome := fun hSome => hKeeps (.inl ⟨hUnderWay.1, hSome⟩)
      rwa [otherIndex, if_pos hUnderWay.1, Option.not_isSome_iff_eq_none] at hOther
    rw [hNone] at hCommitted
    exact (Option.some.inj hCommitted).symm
  · exact (Option.some.inj hCommitted).symm

end Respliced

/-- A re-splice moves the train only when it has left its node, the segment it is on is not one the
re-splice keeps, and the walk now leads elsewhere. -/
theorem respliceChain_keeps (h : state.Seated) (rails : Rails K) (height : K) :
    ∃ changed next, state.respliceChain rails height = some (changed, next) ∧ next.Seated ∧
      next.direction = state.direction ∧ next.speed = state.speed ∧ next.waitTimer = state.waitTimer ∧
      (next.position = state.position ↔
        state.t = 0 ∨ state.KeepsSegment ∨ state.leadsTo rails height = state.farEnd) := by
  cases hCommitted : state.committed with
  | none =>
    refine ⟨false, state, by rw [respliceChain, hCommitted], h, rfl, rfl, rfl, iff_of_true rfl (.inr (.inl ?_))⟩
    rw [TrackTrainState.committed] at hCommitted
    split at hCommitted
    · rename_i hUnderWay
      refine .inl ⟨hUnderWay.1, ?_⟩
      rw [otherIndex, if_pos hUnderWay.1]
      split at hCommitted
      · rename_i hOther
        rw [hOther]
        rfl
      · cases hCommitted
    · cases hCommitted
  | some committed =>
    obtain ⟨last, added, shift, changed, next, hLast, hNodes, hLength, hClosed, hExec, hNext⟩ :=
      respliceChain_exec h rails height hCommitted
    obtain ⟨hOn, hLt⟩ := committed_lt h hCommitted
    have hSeated := hNext.seated h hOn hLt hLength
    refine ⟨changed, next, hExec, hSeated, hNext.direction_eq, hNext.speed_eq, hNext.waitTimer_eq, ?_⟩
    rw [position_eq_iff h hSeated hNext.t_eq (hNext.start hOn hLt)]
    by_cases hKeeps : state.KeepsSegment
    · rcases h.t_nonneg.eq_or_lt with ht | ht
      · exact iff_of_true (.inl ht.symm) (.inl ht.symm)
      · exact iff_of_true (.inr (hNext.keeps h hCommitted ht hKeeps)) (.inr (.inl hKeeps))
    · obtain rfl := committed_eq hCommitted hKeeps
      have hHere : (state.chain.nodes.take (state.nodeIndex + 1) ++ added)[state.nodeIndex]? = some last := by
        rw [getElem?_take_append le_rfl hLt, hLast]
      have hLeads : next.farEnd = state.leadsTo rails height := by
        rw [leadsTo, hLast]
        simp only [Option.bind_eq_bind, Option.bind_some, hNodes]
        by_cases hForward : 0 ≤ state.direction
        · rw [if_pos hForward]
          exact hNext.leads_forward hForward hClosed hHere
        · rw [if_neg hForward]
          have hFirst : state.nodeIndex = 0 :=
            Nat.eq_zero_of_not_pos fun hPos => hKeeps (.inr ⟨not_le.mp hForward, hPos⟩)
          rw [hFirst] at hHere
          exact hNext.leads_backward (not_le.mp hForward) hFirst (by rw [hFirst]; exact hHere)
      rw [hLeads]
      exact or_congr Iff.rfl (by simp only [hKeeps, false_or])

theorem Seated.at_node (h : state.Seated) {index : Nat} (hIndex : index < state.chain.nodes.length)
    (hChain : next.chain = state.chain) (hNext : next.nodeIndex = index) (ht : next.t = 0)
    (hDirection : next.direction = state.direction) : next.Seated := by
  refine ⟨hChain ▸ h.laid, ?_, ht.ge, ht.le.trans zero_le_one, hDirection ▸ h.heading⟩
  rw [hChain, hNext]
  exact hIndex

omit [IsStrictOrderedRing K] in
theorem Seated.same (h : state.Seated) (hChain : next.chain = state.chain)
    (hNext : next.nodeIndex = state.nodeIndex) (ht : next.t = state.t)
    (hDirection : next.direction = state.direction) : next.Seated := by
  refine ⟨hChain ▸ h.laid, ?_, ht ▸ h.t_nonneg, ht ▸ h.t_le, hDirection ▸ h.heading⟩
  rw [hChain, hNext]
  exact h.on_chain

omit [IsStrictOrderedRing K] in
theorem deadEnd_seated (h : state.Seated) (fired : List Name) :
    ∃ next passed, state.deadEnd fired = some (next, passed) ∧ next.Seated := by
  rw [deadEnd]
  split
  · exact ⟨_, _, rfl, h.same rfl rfl rfl rfl⟩
  · rw [List.getElem?_eq_getElem h.on_chain]
    exact ⟨_, _, rfl, h.same rfl rfl rfl rfl⟩

theorem singleEpsilon_pos : (0 : K) < singleEpsilon := by
  rw [singleEpsilon]
  positivity

theorem ride_seated (distance : Vec3 K → Vec3 K → K) (transitions : Nat) (remaining : K) (h : state.Seated)
    (fired : List Name) :
    ∃ next passed, ride distance transitions remaining state fired = some (next, passed) ∧ next.Seated := by
  induction transitions generalizing remaining state fired with
  | zero => exact ⟨_, _, rfl, h⟩
  | succ transitions ih =>
    rw [ride]
    split
    · rename_i hMoving
      split
      · exact deadEnd_seated h fired
      · rename_i other hOther
        have hLt := otherIndex_lt h hOther
        have hClamp : max 0 (min state.t 1) = state.t := by rw [min_eq_left h.t_le, max_eq_right h.t_nonneg]
        simp only [PathChain.segmentLen, List.getElem?_eq_getElem h.on_chain, List.getElem?_eq_getElem hLt,
          Option.bind_eq_bind, Option.bind_some, hClamp]
        split
        · have hArrived : (state.arrive other state.chain.nodes[other]).Seated := h.at_node hLt rfl rfl rfl rfl
          split
          · exact ⟨_, _, rfl, hArrived⟩
          · exact ih _ hArrived _
        · rename_i hWithin
          obtain ⟨hLong, hShort⟩ := not_or.mp hWithin
          have hLength := singleEpsilon_pos.trans (not_le.mp hLong)
          have hStep := (div_le_iff₀ hLength).mpr (not_le.mp hShort).le
          refine ⟨_, _, rfl, h.laid, h.on_chain, add_nonneg h.t_nonneg (div_pos hMoving.1 hLength).le, ?_, h.heading⟩
          dsimp only
          linarith
    · exact ⟨_, _, rfl, h⟩

omit [IsStrictOrderedRing K] in
theorem waited_seated (h : state.Seated) (dt : K) : (state.waited dt).Seated := by
  rw [waited]
  split
  · exact h.same rfl rfl rfl rfl
  · exact h

theorem advanceFiring_seated (distance : Vec3 K → Vec3 K → K) (h : state.Seated) (dt : K) :
    ∃ next fired, state.advanceFiring distance dt = some (next, fired) ∧ next.Seated := by
  rw [advanceFiring]
  split
  · exact ⟨_, _, rfl, h⟩
  · split
    · exact ⟨_, _, rfl, waited_seated h dt⟩
    · exact ride_seated distance _ _ (waited_seated h dt) _

omit [Field K] [LinearOrder K] [IsStrictOrderedRing K] in
theorem Laid.length_pos {chain : PathChain K} (h : chain.Laid) : 0 < chain.nodes.length :=
  List.length_pos_of_ne_nil h.nodes_ne

omit [LinearOrder K] [IsStrictOrderedRing K] in
theorem heading_ite (c : Prop) [Decidable c] :
    (if c then (-1 : K) else 1) = 1 ∨ (if c then (-1 : K) else 1) = -1 := by
  split
  · exact .inr rfl
  · exact .inl rfl

theorem spawn_seated (train : TrackTrain K) {chain : PathChain K} (h : chain.Laid) : (spawn train chain).Seated :=
  ⟨h, Laid.length_pos h, le_rfl, zero_le_one, heading_ite _⟩

theorem relink_seated {chain : PathChain K} (h : chain.Laid) (moving : Bool) : (state.relink chain moving).Seated :=
  ⟨h, Laid.length_pos h, le_rfl, zero_le_one, .inl rfl⟩

theorem relinkAtEnd_seated {chain : PathChain K} (h : chain.Laid) (moving : Bool) :
    (state.relinkAtEnd chain moving).Seated :=
  ⟨h, Nat.sub_one_lt_of_lt (Laid.length_pos h), le_rfl, zero_le_one, .inr rfl⟩

omit [Field K] [LinearOrder K] [IsStrictOrderedRing K] in
theorem min_pred_lt {chain : PathChain K} (h : chain.Laid) (index : Nat) :
    min index (chain.nodes.length - 1) < chain.nodes.length :=
  (min_le_right _ _).trans_lt (Nat.sub_one_lt_of_lt (Laid.length_pos h))

omit [IsStrictOrderedRing K] in
theorem restoreChain_seated (hState : state.Seated) {chain : PathChain K} (h : chain.Laid) :
    (state.restoreChain chain).Seated :=
  ⟨h, min_pred_lt h _, hState.t_nonneg, hState.t_le, hState.heading⟩

theorem clamped (t : Stored K) :
    0 ≤ t.finiteOr 0 (fun value => max 0 (min value 1)) ∧ t.finiteOr 0 (fun value => max 0 (min value 1)) ≤ 1 := by
  cases t with
  | finite value => exact ⟨le_max_left _ _, max_le zero_le_one (min_le_right _ _)⟩
  | infinite => exact ⟨le_rfl, zero_le_one⟩
  | nan => exact ⟨le_rfl, zero_le_one⟩

theorem restoreDynamicState_seated (h : state.Seated) (nodeIndex : Nat) (t direction speed : Stored K)
    (moving : Bool) (waitTimer : Stored K) :
    (state.restoreDynamicState nodeIndex t direction speed moving waitTimer).Seated :=
  ⟨h.laid, min_pred_lt h.laid nodeIndex, (clamped t).1, (clamped t).2, heading_ite _⟩

end TrackTrainState

/-- What may be done to a train, with the chains the walks lay and whatever a save holds. -/
inductive TrainOperation (K : Type)
  | advance (dt : K)
  | turnOn
  | turnOff
  | reverse
  | relink (chain : PathChain K) (laid : chain.Laid) (moving : Bool)
  | relinkAtEnd (chain : PathChain K) (laid : chain.Laid) (moving : Bool)
  | resplice (rails : Rails K) (height : K)
  | restoreChain (chain : PathChain K) (laid : chain.Laid)
  | restoreDynamicState (nodeIndex : Nat) (t direction speed : Stored K) (moving : Bool) (waitTimer : Stored K)

namespace TrackTrainState

variable {K : Type} [Field K] [LinearOrder K] (distance : Vec3 K → Vec3 K → K)

def perform (state : TrackTrainState K) : TrainOperation K → Option (TrackTrainState K)
  | .advance dt => (state.advanceFiring distance dt).map Prod.fst
  | .turnOn => some state.turnOn
  | .turnOff => some state.turnOff
  | .reverse => some state.reverse
  | .relink chain _ moving => some (state.relink chain moving)
  | .relinkAtEnd chain _ moving => some (state.relinkAtEnd chain moving)
  | .resplice rails height => (state.respliceChain rails height).map Prod.snd
  | .restoreChain chain _ => some (state.restoreChain chain)
  | .restoreDynamicState nodeIndex t direction speed moving waitTimer =>
    some (state.restoreDynamicState nodeIndex t direction speed moving waitTimer)

def performAll (state : TrackTrainState K) (operations : List (TrainOperation K)) : Option (TrackTrainState K) :=
  operations.foldlM (perform distance) state

def Keeps (state next : TrackTrainState K) : TrainOperation K → Prop
  | .reverse => next.position = state.position
  | .resplice _ _ =>
    next.position = state.position ∧ next.direction = state.direction ∧ next.speed = state.speed ∧
      next.waitTimer = state.waitTimer
  | _ => True

/-- A train that turns round is at its node, has a way on, or has a way back only to where it is; one
that is re-spliced is at its node, keeps its segment, or is led where its segment already ended. -/
def Settled (state : TrackTrainState K) : TrainOperation K → Prop
  | .reverse =>
    state.t = 0 ∨ state.otherIndex.isSome ∨
      state.nodeAt (state.previousNodeIndex.getD state.nodeIndex) = state.nodeAt state.nodeIndex
  | .resplice rails height =>
    state.t = 0 ∨ state.KeepsSegment ∨ state.leadsTo rails height = state.farEnd
  | _ => True

/-- No step panics, every state is seated, and every step keeps what it must. -/
def RidesWell (state : TrackTrainState K) (operations : List (TrainOperation K)) : Prop :=
  (∃ last, state.performAll distance operations = some last ∧ last.Seated ∧ last.position.isSome) ∧
    ∀ done operation later, operations = done ++ operation :: later →
      ∃ before after, state.performAll distance done = some before ∧ before.Seated ∧
        before.perform distance operation = some after ∧ before.Keeps after operation

variable [IsStrictOrderedRing K] {state : TrackTrainState K}

theorem perform_seated (h : state.Seated) (operation : TrainOperation K) :
    ∃ next, state.perform distance operation = some next ∧ next.Seated ∧
      (state.Keeps next operation ↔ state.Settled operation) := by
  cases operation with
  | advance dt =>
    obtain ⟨next, fired, hExec, hSeated⟩ := advanceFiring_seated distance h dt
    exact ⟨next, by rw [perform, hExec]; rfl, hSeated, Iff.rfl⟩
  | turnOn => exact ⟨_, rfl, h.same rfl rfl rfl rfl, Iff.rfl⟩
  | turnOff => exact ⟨_, rfl, h.same rfl rfl rfl rfl, Iff.rfl⟩
  | reverse => exact ⟨_, rfl, h.reverse, reverse_position_iff h⟩
  | relink chain laid moving => exact ⟨_, rfl, relink_seated laid moving, Iff.rfl⟩
  | relinkAtEnd chain laid moving => exact ⟨_, rfl, relinkAtEnd_seated laid moving, Iff.rfl⟩
  | resplice rails height =>
    obtain ⟨changed, next, hExec, hSeated, hDirection, hSpeed, hWait, hPosition⟩ := respliceChain_keeps h rails height
    refine ⟨next, by rw [perform, hExec]; rfl, hSeated, ?_⟩
    rw [Keeps, Settled, hPosition]
    simp only [hDirection, hSpeed, hWait, and_self, and_true]
  | restoreChain chain laid => exact ⟨_, rfl, restoreChain_seated h laid, Iff.rfl⟩
  | restoreDynamicState nodeIndex t direction speed moving waitTimer =>
    exact ⟨_, rfl, restoreDynamicState_seated h nodeIndex t direction speed moving waitTimer, Iff.rfl⟩

theorem performAll_seated (h : state.Seated) (operations : List (TrainOperation K)) :
    ∃ last, state.performAll distance operations = some last ∧ last.Seated := by
  induction operations generalizing state with
  | nil => exact ⟨state, rfl, h⟩
  | cons operation operations ih =>
    obtain ⟨next, hNext, hSeated, -⟩ := perform_seated distance h operation
    obtain ⟨last, hLast, hDone⟩ := ih hSeated
    refine ⟨last, ?_, hDone⟩
    rw [performAll, List.foldlM_cons, hNext]
    exact hLast

/-- However a train is spawned and whatever is done to it, it stays on its chain, and it is moved by a
reversal or a re-splice exactly when the far end of its segment is not settled. -/
theorem train_rides_well_iff (train : TrackTrain K) (chain : {chain : PathChain K // chain.Laid})
    (operations : List (TrainOperation K)) :
    RidesWell distance (spawn train chain.1) operations ↔
      ∀ done operation later, operations = done ++ operation :: later →
        ∀ before ∈ (spawn train chain.1).performAll distance done, before.Settled operation := by
  have hSpawn := spawn_seated train chain.2
  constructor
  · intro h done operation later hOperations before hBefore
    obtain ⟨before', after, hBefore', hSeated, hAfter, hKeeps⟩ := h.2 done operation later hOperations
    obtain rfl := Option.some.inj (hBefore.symm.trans hBefore')
    obtain ⟨next, hNext, -, hIff⟩ := perform_seated distance hSeated operation
    obtain rfl := Option.some.inj (hNext.symm.trans hAfter)
    exact hIff.mp hKeeps
  · intro h
    obtain ⟨last, hLast, hDone⟩ := performAll_seated distance hSpawn operations
    obtain ⟨_, _, -, -, hPosition⟩ := hDone.ends
    refine ⟨⟨last, hLast, hDone, by rw [hPosition]; rfl⟩, fun done operation later hOperations => ?_⟩
    obtain ⟨before, hBefore, hSeated⟩ := performAll_seated distance hSpawn done
    obtain ⟨after, hAfter, -, hIff⟩ := perform_seated distance hSeated operation
    exact ⟨before, after, hBefore, hSeated, hAfter, hIff.mpr (h done operation later hOperations before hBefore)⟩

end TrackTrainState

def alongAxis (start finish : Vec3 ℚ) : ℚ :=
  |finish.x - start.x| + |finish.y - start.y| + |finish.z - start.z|

def shuttleTrain : TrackTrain ℚ := ⟨true, 100, -50, 0⟩

def branchedRails (branchActive : Bool) : Rails ℚ where
  world := [
    (1, { targetName := some [97], target := some [98], origin := some ⟨0, 0, 0⟩, path := some ⟨0, none, false, false⟩ }),
    (2, { targetName := some [98], target := some [97], pathBranch := some [99], origin := some ⟨100, 0, 0⟩,
          path := some ⟨0, none, false, branchActive⟩ }),
    (3, { targetName := some [99], origin := some ⟨200, 0, 0⟩, path := some ⟨0, none, false, false⟩ })]
  nameIndex name := if name = [97] then [1] else if name = [98] then [2] else if name = [99] then [3] else []

def shuttle : PathChain ℚ := ⟨[
  { entity := 1, position := ⟨0, 0, 0⟩, wait := 0, speed := none, stop := false, message := none, deadEnd := none },
  { entity := 2, position := ⟨100, 0, 0⟩, wait := 0, speed := none, stop := false, message := none, deadEnd := none }],
  true⟩

theorem shuttle_built : (branchedRails false).build 0 [97] = some shuttle := by decide +kernel

theorem shuttle_laid : shuttle.Laid := (branchedRails false).build_laid 0 shuttle_built

/-- A train running backward over the first segment of its loop, turned round half way along it. -/
theorem turned_shuttle_rides_well :
    TrackTrainState.RidesWell alongAxis (TrackTrainState.spawn shuttleTrain shuttle) [.advance 1, .reverse] := by
  refine (TrackTrainState.train_rides_well_iff alongAxis shuttleTrain ⟨shuttle, shuttle_laid⟩ [.advance 1, .reverse]).mpr ?_
  intro done operation later hOperations before hBefore
  rcases done with _ | ⟨first, _ | ⟨second, done⟩⟩
  · cases hOperations
    trivial
  · cases hOperations
    have hOther : ((TrackTrainState.spawn shuttleTrain shuttle).performAll alongAxis [.advance 1]).all
        fun state => state.otherIndex.isSome := by decide +kernel
    rw [hBefore] at hOther
    exact .inr (.inl hOther)
  · simp at hOperations

/-- The same train, with the branch thrown behind it: the re-splice drops the node it was making
for, and puts it back on the node it left. -/
theorem thrown_switch_moves_shuttle :
    ¬ TrackTrainState.RidesWell alongAxis (TrackTrainState.spawn shuttleTrain shuttle)
      [.advance 1, .resplice (branchedRails true) 0] := by
  intro h
  obtain ⟨before, after, hBefore, -, hAfter, hKeeps⟩ := h.2 [.advance 1] (.resplice (branchedRails true) 0) [] rfl
  have hMoved : ((TrackTrainState.spawn shuttleTrain shuttle).performAll alongAxis [.advance 1]).all fun state =>
      (state.perform alongAxis (.resplice (branchedRails true) 0)).all fun next =>
        next.position ≠ state.position := by decide +kernel
  rw [hBefore, Option.all_some, hAfter, Option.all_some, decide_eq_true_iff] at hMoved
  exact hMoved hKeeps.1

end OpenHalfLife.Game
