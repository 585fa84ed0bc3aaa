import Mathlib.Data.List.Induction
import OpenHalfLife.Monsters.Movement
import OpenHalfLife.Lib.Behaviour
import OpenHalfLife.Nav.Steer

/-! # Monsters that follow a navigation graph

Each actor has a path of its own, found again when its goal drifts away or its
hull changes. A tick spends a bounded number of searches on all actors.
-/

namespace OpenHalfLife.Monsters

open Physics Physics.Vec3 Nav

set_option autoImplicit false

noncomputable section

open Classical

structure NavBridgeLimits where
  path : PathLimits
  steer : SteerLimits
  maxSearchesPerTick : Nat

inductive Fallback
  | traced
  | straightLine

structure CachedRoute where
  goal : Physics.Vec3 ℝ
  hull : Hull
  path : Path
  steer : Steer

structure NavBridge (E : Type) where
  graph : NodeGraph ℝ
  limits : NavBridgeLimits
  cache : E → Option CachedRoute
  searchesUsed : Nat

structure MoveCall (E : Type) where
  actor : E
  origin : Physics.Vec3 ℝ
  goal : Physics.Vec3 ℝ
  hull : Hull
  collision : Tracer
  maxStep : ℝ
  fallback : Fallback

def ownPaceSteerLimits (limits : SteerLimits) (maxStep : ℝ) : SteerLimits :=
  let ticks := max limits.stuckWindowTicks 1
  let window : ℝ := if ticks < 2 ^ 16 then ticks else (((2 : Nat) : ℝ) ^ 24 - 1) * ((2 : Nat) : ℝ) ^ 104
  let own := stuckProgressFraction * maxStep * window
  if 0 < own ∧ own < limits.minWindowProgress then { limits with minWindowProgress := own } else limits

variable {E : Type}

namespace NavBridge

def beginTick (bridge : NavBridge E) (live : List E) : NavBridge E :=
  { bridge with searchesUsed := 0, cache := fun actor => if actor ∈ live then bridge.cache actor else none }

def usesGroundNode (bridge : NavBridge E) (path : Path) : Bool :=
  path.nodes.any fun index => bridge.graph.nodes[index]?.any fun node => node.kind.isGrounded

/-- The number of searches spent, and the bridge with the actor's route built anew or dropped. -/
def rebuild (bridge : NavBridge E) (call : MoveCall E) : Nat × NavBridge E :=
  match straightPathIfClear call.collision call.origin call.goal call.hull with
  | some path => (0, { bridge with
      cache := Function.update bridge.cache call.actor (some ⟨call.goal, call.hull, path, .new⟩) })
  | none =>
    if 0 < bridge.graph.nodes.length ∧ bridge.searchesUsed < bridge.limits.maxSearchesPerTick then
      let bridge := { bridge with searchesUsed := bridge.searchesUsed + 1 }
      let found := (bridge.graph.findPath call.collision call.origin call.goal call.hull bridge.limits.path).filter
        fun path => !flies call.hull || !bridge.usesGroundNode path
      (1, { bridge with
        cache := Function.update bridge.cache call.actor (found.map fun path => ⟨call.goal, call.hull, path, .new⟩) })
    else (0, { bridge with cache := Function.update bridge.cache call.actor none })

def stale (bridge : NavBridge E) (call : MoveCall E) : Prop :=
  ∀ cached, bridge.cache call.actor = some cached →
    cached.hull ≠ call.hull ∨ routeRefreshDistance < (cached.goal - call.goal).length

def refresh (bridge : NavBridge E) (call : MoveCall E) : Nat × NavBridge E :=
  if bridge.stale call then bridge.rebuild call else (0, bridge)

/-- The next position, with the number of searches spent and the bridge after the call. -/
def nextMoveWith (bridge : NavBridge E) (call : MoveCall E) : Physics.Vec3 ℝ × Nat × NavBridge E :=
  let (spent, bridge) := bridge.refresh call
  match bridge.cache call.actor with
  | none =>
    (match call.fallback with
      | .traced => (moveToward call.collision call.hull call.origin call.goal call.maxStep 1).position
      | .straightLine => straightLineMove call.origin call.goal call.maxStep, spent, bridge)
  | some cached =>
    let (intent, steer) := cached.steer.nextMove call.origin cached.path call.hull call.collision
      (ownPaceSteerLimits bridge.limits.steer call.maxStep)
    let bridge := { bridge with cache := Function.update bridge.cache call.actor (some { cached with steer }) }
    let position :=
      if intent.reached then call.goal
      else if intent.dir.lengthSquared ≤ Monsters.singleEpsilon then call.origin
      else
        let waypointDistance := (cached.path.waypoints[steer.cursor]?.map fun waypoint => (waypoint - call.origin).length).getD
          call.maxStep
        let travel := min (max call.maxStep 0) (max waypointDistance 0) * min (max intent.speedScale 0) 1
        if travel ≤ 0 then call.origin else call.origin + intent.dir.scale travel
    (position, spent, bridge)

end NavBridge

end

/-! ## How far a call moves -/

namespace NavBridge

variable {E : Type} {bridge : NavBridge E} {call : MoveCall E}

/-- The actor stands on all that is left of the path it follows. -/
def EndReached (bridge : NavBridge E) (call : MoveCall E) : Prop :=
  ∃ cached, (bridge.refresh call).2.cache call.actor = some cached ∧
    cached.steer.AtEnd call.origin cached.path call.hull call.collision bridge.limits.steer

theorem rebuild_limits (bridge : NavBridge E) (call : MoveCall E) : (bridge.rebuild call).2.limits = bridge.limits := by
  unfold rebuild
  split
  · rfl
  · dsimp only
    split_ifs <;> rfl

theorem refresh_limits (bridge : NavBridge E) (call : MoveCall E) : (bridge.refresh call).2.limits = bridge.limits := by
  unfold refresh
  split_ifs
  · exact rebuild_limits bridge call
  · rfl

theorem atEnd_ownPace {cached : CachedRoute} {limits : SteerLimits} {maxStep : ℝ} :
    cached.steer.AtEnd call.origin cached.path call.hull call.collision (ownPaceSteerLimits limits maxStep) ↔
      cached.steer.AtEnd call.origin cached.path call.hull call.collision limits := by
  obtain ⟨progress, hLimits⟩ : ∃ progress, ownPaceSteerLimits limits maxStep = { limits with minWindowProgress := progress } := by
    unfold ownPaceSteerLimits
    dsimp only
    split_ifs
    all_goals exact ⟨_, rfl⟩
  rw [hLimits]
  exact Iff.rfl

theorem endReached_iff {cached : CachedRoute} (h : (bridge.refresh call).2.cache call.actor = some cached) :
    bridge.EndReached call ↔ (cached.steer.nextMove call.origin cached.path call.hull call.collision
      (ownPaceSteerLimits (bridge.refresh call).2.limits.steer call.maxStep)).1.reached = true := by
  rw [Steer.nextMove_reached, atEnd_ownPace, refresh_limits]
  constructor
  · rintro ⟨other, hOther, hEnd⟩
    obtain rfl := Option.some.inj (h.symm.trans hOther)
    exact hEnd
  · exact fun hEnd => ⟨cached, h, hEnd⟩

theorem position_of_endReached (h : bridge.EndReached call) : (bridge.nextMoveWith call).1 = call.goal := by
  obtain ⟨cached, hCached, hEnd⟩ := h
  have hReached := (endReached_iff hCached).mp ⟨cached, hCached, hEnd⟩
  unfold nextMoveWith
  dsimp only
  rw [hCached]
  dsimp only
  rw [if_pos hReached]

theorem flies_eq_false {hull : Hull} (h : flies hull = false) : hull ≠ .point := by
  rintro rfl
  cases h

theorem within_directed {hull : Hull} {dir : Physics.Vec3 ℝ} (h : Directed hull dir) {maxStep distance pace : ℝ}
    (hStep : 0 ≤ maxStep) (hMoves : 0 < min (max maxStep 0) (max distance 0) * min (max pace 0) 1) :
    Within hull (dir.scale (min (max maxStep 0) (max distance 0) * min (max pace 0) 1)) maxStep := by
  refine within_of_level (fun hWalks => ?_) ?_
  · rw [scale_z, h.level (flies_eq_false hWalks), zero_mul]
  · rw [length_scale, h.length_eq, mul_one, abs_of_pos hMoves, max_eq_left hStep]
    calc min maxStep (max distance 0) * min (max pace 0) 1
        ≤ min maxStep (max distance 0) * 1 :=
          mul_le_mul_of_nonneg_left (min_le_right _ _) (le_min hStep (le_max_right _ _))
      _ = min maxStep (max distance 0) := mul_one _
      _ ≤ maxStep := min_le_left _ _

theorem within_of_not_endReached (hStep : 0 ≤ call.maxStep) (h : ¬bridge.EndReached call) :
    Within call.hull ((bridge.nextMoveWith call).1 - call.origin) call.maxStep := by
  unfold nextMoveWith
  dsimp only
  cases hCached : (bridge.refresh call).2.cache call.actor with
  | none =>
    dsimp only
    cases call.fallback with
    | traced =>
      have hWithin := @moveToward_within call.hull call.origin call.goal call.collision call.maxStep 1 (by rwa [mul_one])
      rwa [mul_one] at hWithin
    | straightLine => exact straightLineMove_within call.origin call.goal hStep
  | some cached =>
    dsimp only
    rw [if_neg fun hReached => h ((endReached_iff hCached).mpr hReached)]
    split_ifs with hStill hNothing
    · exact within_zero hStep
    · exact within_zero hStep
    · rw [add_sub_self]
      refine within_directed ?_ hStep (not_le.mp hNothing)
      refine (Steer.nextMove_dir _ _ _ _ _ _).resolve_left fun hZero => hStill ?_
      have hLength : (zero : Physics.Vec3 ℝ).lengthSquared = 0 := by simp [lengthSquared, dot, zero]
      rw [hZero, hLength]
      norm_num [Monsters.singleEpsilon]

/-! ## Runs -/

noncomputable def spentBy (bridge : NavBridge E) : List (MoveCall E) → Nat
  | [] => 0
  | call :: calls => (bridge.nextMoveWith call).2.1 + spentBy (bridge.nextMoveWith call).2.2 calls

theorem searches_nextMoveWith (bridge : NavBridge E) (call : MoveCall E)
    (h : bridge.searchesUsed ≤ bridge.limits.maxSearchesPerTick) :
    (bridge.nextMoveWith call).2.2.limits = bridge.limits ∧
      (bridge.nextMoveWith call).2.2.searchesUsed = bridge.searchesUsed + (bridge.nextMoveWith call).2.1 ∧
      (bridge.nextMoveWith call).2.2.searchesUsed ≤ bridge.limits.maxSearchesPerTick := by
  have hRebuilt : (bridge.rebuild call).2.searchesUsed = bridge.searchesUsed + (bridge.rebuild call).1 ∧
      (bridge.rebuild call).2.searchesUsed ≤ bridge.limits.maxSearchesPerTick := by
    unfold rebuild
    split
    · exact ⟨rfl, h⟩
    · dsimp only
      split_ifs with hSearch
      · exact ⟨rfl, hSearch.2⟩
      · exact ⟨rfl, h⟩
  have hRefreshed : (bridge.refresh call).2.searchesUsed = bridge.searchesUsed + (bridge.refresh call).1 ∧
      (bridge.refresh call).2.searchesUsed ≤ bridge.limits.maxSearchesPerTick := by
    unfold refresh
    split_ifs
    · exact hRebuilt
    · exact ⟨rfl, h⟩
  unfold nextMoveWith
  dsimp only
  split
  · exact ⟨refresh_limits bridge call, hRefreshed⟩
  · exact ⟨refresh_limits bridge call, hRefreshed⟩

variable (bridge) in
theorem spentBy_le (calls : List (MoveCall E)) (h : bridge.searchesUsed ≤ bridge.limits.maxSearchesPerTick) :
    bridge.searchesUsed + bridge.spentBy calls ≤ bridge.limits.maxSearchesPerTick := by
  induction calls generalizing bridge with
  | nil => exact h
  | cons call calls ih =>
    obtain ⟨hLimits, hSpent, hLe⟩ := searches_nextMoveWith bridge call h
    have hRest := @ih (bridge.nextMoveWith call).2.2 (by rwa [hLimits])
    rw [hLimits, hSpent] at hRest
    rw [spentBy, ← Nat.add_assoc]
    exact hRest

end NavBridge

inductive BridgeStep (E : Type)
  | beginTick (live : List E)
  | move (call : MoveCall E) (nonneg : 0 ≤ call.maxStep)

noncomputable def bridgeStep {E : Type} (bridge : NavBridge E) : BridgeStep E → NavBridge E
  | .beginTick live => bridge.beginTick live
  | .move call _ => (bridge.nextMoveWith call).2.2

noncomputable def bridgeRun {E : Type} (graph : NodeGraph ℝ) (limits : NavBridgeLimits) (steps : List (BridgeStep E)) :
    NavBridge E :=
  steps.foldl bridgeStep ⟨graph, limits, fun _ => none, 0⟩

section Runs

variable {E : Type} (graph : NodeGraph ℝ) (limits : NavBridgeLimits)

def MovesWithin (before : List (BridgeStep E)) : BridgeStep E → Prop
  | .beginTick _ => True
  | .move call _ => Within call.hull (((bridgeRun graph limits before).nextMoveWith call).1 - call.origin) call.maxStep

/-- An actor that stands on all that is left of its path has its goal within its step. -/
def GoalWithin (before : List (BridgeStep E)) : BridgeStep E → Prop
  | .beginTick _ => True
  | .move call _ => (bridgeRun graph limits before).EndReached call →
      Within call.hull (call.goal - call.origin) call.maxStep

variable {graph limits}

theorem movesWithin_iff (before : List (BridgeStep E)) (step : BridgeStep E) :
    MovesWithin graph limits before step ↔ GoalWithin graph limits before step := by
  cases step with
  | beginTick live => exact Iff.rfl
  | move call hStep =>
    constructor
    · intro hWithin hEnd
      rw [MovesWithin, NavBridge.position_of_endReached hEnd] at hWithin
      exact hWithin
    · intro hGoal
      by_cases hEnd : (bridgeRun graph limits before).EndReached call
      · rw [MovesWithin, NavBridge.position_of_endReached hEnd]
        exact hGoal hEnd
      · exact NavBridge.within_of_not_endReached hStep hEnd

theorem run_searches (steps : List (BridgeStep E)) : (bridgeRun graph limits steps).limits = limits ∧
    (bridgeRun graph limits steps).searchesUsed ≤ limits.maxSearchesPerTick := by
  induction steps using List.reverseRecOn with
  | nil => exact ⟨rfl, Nat.zero_le _⟩
  | append_singleton steps step ih =>
    rw [bridgeRun, List.foldl_append, List.foldl_cons, List.foldl_nil]
    cases step with
    | beginTick live => exact ⟨ih.1, Nat.zero_le _⟩
    | move call hStep =>
      obtain ⟨hLimits, -, hLe⟩ := NavBridge.searches_nextMoveWith (bridgeRun graph limits steps) call (by rw [ih.1]; exact ih.2)
      refine ⟨hLimits.trans ih.1, ?_⟩
      rw [ih.1] at hLe
      exact hLe

theorem moves_within_iff_goals (graph : NodeGraph ℝ) (limits : NavBridgeLimits) (steps : List (BridgeStep E)) :
    (Throughout (MovesWithin graph limits) steps ↔ Throughout (GoalWithin graph limits) steps) ∧
      ∀ (before : List (BridgeStep E)) (calls : List (MoveCall E)),
        (bridgeRun graph limits before).spentBy calls ≤ limits.maxSearchesPerTick := by
  constructor
  · exact forall₄_congr fun before step _ _ => movesWithin_iff before step
  · intro before calls
    obtain ⟨hLimits, hUsed⟩ := @run_searches E graph limits before
    have hSpent := NavBridge.spentBy_le (bridgeRun graph limits before) calls (by rw [hLimits]; exact hUsed)
    rw [hLimits] at hSpent
    exact (Nat.le_add_left _ _).trans hSpent

end Runs

/-! ## A goal beyond the step -/

noncomputable def defaultLimits : NavBridgeLimits := ⟨⟨4096, (512 : Nat), 16⟩, ⟨(24 : Nat), (48 : Nat), (40 : Nat), 20, (8 : Nat), 2⟩, 8⟩

/-- A walker that takes steps of one unit, twenty units from its goal with nothing in between. -/
noncomputable def farCall : MoveCall Unit := ⟨(), ⟨0, 0, 0⟩, ⟨(20 : Nat), 0, 0⟩, .standing, .clear, 1, .traced⟩

theorem clear_not_blocked (hull : Hull) (start finish : Physics.Vec3 ℝ) : ¬(Tracer.clear.trace hull start finish).blocked := by
  rintro (hShort | hSolid | hSolid)
  · exact lt_irrefl _ hShort
  · cases hSolid
  · cases hSolid

theorem farCall_endReached : (bridgeRun ⟨[], [], []⟩ defaultLimits []).EndReached farCall := by
  have hStraight : straightPathIfClear farCall.collision farCall.origin farCall.goal farCall.hull =
      some ⟨[farCall.goal], [], (farCall.goal - farCall.origin).length, 0⟩ := if_neg (clear_not_blocked _ _ _)
  have hStale : (bridgeRun ⟨[], [], []⟩ defaultLimits []).stale farCall := fun _ hSome => by cases hSome
  refine ⟨⟨farCall.goal, farCall.hull, ⟨[farCall.goal], [], (farCall.goal - farCall.origin).length, 0⟩, .new⟩,
    ?_, List.cons_ne_nil _ _, ?_⟩
  · rw [NavBridge.refresh, if_pos hStale, NavBridge.rebuild, hStraight]
    exact dif_pos rfl
  · intro waypoint hWaypoint
    rw [List.mem_singleton.mp (List.mem_of_mem_drop hWaypoint)]
    norm_num [farCall, lengthSquared, dot, bridgeRun, defaultLimits]

theorem not_moves_within_far_goal :
    ¬∀ steps : List (BridgeStep Unit), Throughout (MovesWithin ⟨[], [], []⟩ defaultLimits) steps := by
  intro h
  have hWithin : MovesWithin ⟨[], [], []⟩ defaultLimits [] (.move farCall zero_le_one) :=
    h [.move farCall zero_le_one] [] (.move farCall zero_le_one) [] rfl
  rw [MovesWithin.eq_def] at hWithin
  dsimp only at hWithin
  rw [NavBridge.position_of_endReached farCall_endReached] at hWithin
  have hFlat : (farCall.goal - farCall.origin).flat.length ≤ 1 := hWithin.1
  have hLength : (farCall.goal - farCall.origin).flat.lengthSquared = 20 * 20 := by
    norm_num [farCall, lengthSquared, dot, flat]
  rw [Physics.Vec3.length, hLength, Real.sqrt_mul_self (by norm_num)] at hFlat
  norm_num at hFlat

end OpenHalfLife.Monsters
