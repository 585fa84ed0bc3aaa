import Mathlib.Algebra.Order.BigOperators.Group.List
import OpenHalfLife.Game.TrackTrain

/-! # Queued damage

The hits of one tick in the order they came, and what they sum up to for one
target. Numbers are exact, so every number is finite.
-/

namespace OpenHalfLife.Monsters

open Game

set_option autoImplicit false

def maxDamageEvents : Nat := 256

structure DamageKinds where
  bits : UInt32

namespace DamageKinds

def all : DamageKinds := ⟨0xFFFFF⟩

def none : DamageKinds := ⟨0⟩

def contains (kinds other : DamageKinds) : Bool := kinds.bits &&& other.bits == other.bits

def intersects (kinds other : DamageKinds) : Bool := kinds.bits &&& other.bits != 0

end DamageKinds

structure DamageEvent (E K : Type) where
  target : E
  attacker : Option E
  amount : K
  sourcePosition : Game.Vec3 K
  provokes : Bool
  kinds : DamageKinds

structure DamageResponse where
  vulnerableTo : DamageKinds
  doubledBy : DamageKinds

def DamageResponse.ordinary : DamageResponse := ⟨.all, .none⟩

def DamageResponse.impervious : DamageResponse := ⟨.none, .none⟩

variable {E K : Type} [Field K] [LinearOrder K]

def DamageEvent.isUsable (event : DamageEvent E K) : Bool := decide (0 < event.amount)

def DamageEvent.hurts (event : DamageEvent E K) (vulnerableTo : DamageKinds) : Bool :=
  vulnerableTo.contains .all || event.kinds.intersects vulnerableTo

def DamageResponse.scale (response : DamageResponse) (event : DamageEvent E K) : K :=
  if !event.hurts response.vulnerableTo then 0
  else if event.kinds.intersects response.doubledBy then ((2 : Nat) : K)
  else 1

structure DamageQueue (E K : Type) [Field K] [LinearOrder K] where
  events : List (DamageEvent E K)
  usable : ∀ event ∈ events, event.isUsable
  length_le : events.length ≤ maxDamageEvents

namespace DamageQueue

def new : DamageQueue E K := ⟨[], by simp, by simp⟩

def pushDamage (queue : DamageQueue E K) (event : DamageEvent E K) : Bool × DamageQueue E K :=
  if h : event.isUsable = true ∧ queue.events.length < maxDamageEvents then
    (true, ⟨queue.events ++ [event],
      fun other hOther => (List.mem_append.mp hOther).elim (queue.usable other) fun hLast =>
        List.mem_singleton.mp hLast ▸ h.1,
      by rw [List.length_append]; exact h.2⟩)
  else (false, queue)

def forTarget [DecidableEq E] (queue : DamageQueue E K) (target : E) : List (DamageEvent E K) :=
  queue.events.filter fun event => event.target = target

end DamageQueue

structure Summary (E K : Type) where
  total : K
  attacker : Option E
  position : Game.Vec3 K
  provoked : Bool

/-- Adds a hit; `worst` is `none` while no hit was counted. -/
def countHit (response : DamageResponse) (state : Option K × Summary E K) (event : DamageEvent E K) :
    Option K × Summary E K :=
  let amount := event.amount * response.scale event
  if amount ≤ 0 then state
  else
    let summary := { state.2 with
      total := state.2.total + amount
      provoked := state.2.provoked || event.provokes }
    if state.1.all fun worst => worst < amount then
      (some amount, { summary with attacker := event.attacker, position := event.sourcePosition })
    else (state.1, summary)

def summarizeEffective [DecidableEq E] (queue : DamageQueue E K) (target : E) (response : DamageResponse) :
    Option (Summary E K) :=
  let summary := ((queue.forTarget target).foldl (countHit response) (none, ⟨0, none, ⟨0, 0, 0⟩, false⟩)).2
  if 0 < summary.total then some summary else none

/-! ## The sum of the hits -/

def loss [DecidableEq E] (queue : DamageQueue E K) (target : E) (response : DamageResponse) : K :=
  ((queue.forTarget target).map fun event => event.amount * response.scale event).sum

variable [IsStrictOrderedRing K]

theorem scale_nonneg (response : DamageResponse) (event : DamageEvent E K) : 0 ≤ response.scale event := by
  unfold DamageResponse.scale
  split_ifs
  · exact le_rfl
  · exact Nat.cast_nonneg 2
  · exact zero_le_one

theorem cost_nonneg {event : DamageEvent E K} (h : event.isUsable = true) (response : DamageResponse) :
    0 ≤ event.amount * response.scale event :=
  mul_nonneg (of_decide_eq_true h).le (scale_nonneg response event)

theorem countHit_total (response : DamageResponse) (state : Option K × Summary E K) {event : DamageEvent E K}
    (h : event.isUsable = true) :
    (countHit response state event).2.total = state.2.total + event.amount * response.scale event := by
  unfold countHit
  dsimp only
  split_ifs with hNone hWorst
  · rw [le_antisymm hNone (cost_nonneg h response), add_zero]
  · rfl
  · rfl

theorem countHits_total (response : DamageResponse) {events : List (DamageEvent E K)}
    (h : ∀ event ∈ events, event.isUsable = true) (state : Option K × Summary E K) :
    (events.foldl (countHit response) state).2.total =
      state.2.total + (events.map fun event => event.amount * response.scale event).sum := by
  induction events generalizing state with
  | nil => simp
  | cons event events ih =>
    obtain ⟨hHead, hRest⟩ := List.forall_mem_cons.mp h
    rw [List.foldl_cons, ih hRest, countHit_total response state hHead, List.map_cons, List.sum_cons, add_assoc]

variable [DecidableEq E]

omit [IsStrictOrderedRing K] in
theorem usable_of_mem_forTarget {queue : DamageQueue E K} {target : E} {event : DamageEvent E K}
    (h : event ∈ queue.forTarget target) : event.isUsable = true :=
  queue.usable event (List.mem_filter.mp h).1

theorem loss_nonneg (queue : DamageQueue E K) (target : E) (response : DamageResponse) : 0 ≤ loss queue target response := by
  refine List.sum_nonneg fun cost hCost => ?_
  obtain ⟨event, hEvent, rfl⟩ := List.mem_map.mp hCost
  exact cost_nonneg (usable_of_mem_forTarget hEvent) response

theorem summary_total (queue : DamageQueue E K) (target : E) (response : DamageResponse) :
    ((queue.forTarget target).foldl (countHit response) (none, ⟨0, none, ⟨0, 0, 0⟩, false⟩)).2.total =
      loss queue target response := by
  rw [countHits_total response fun event hEvent => usable_of_mem_forTarget hEvent]
  exact zero_add _

theorem summarizeEffective_some {queue : DamageQueue E K} {target : E} {response : DamageResponse}
    (h : 0 < loss queue target response) :
    ∃ summary, summarizeEffective queue target response = some summary ∧ summary.total = loss queue target response := by
  refine ⟨_, if_pos ?_, summary_total queue target response⟩
  rwa [summary_total]

theorem summarizeEffective_none {queue : DamageQueue E K} {target : E} {response : DamageResponse}
    (h : loss queue target response = 0) : summarizeEffective queue target response = none := by
  refine if_neg ?_
  rw [summary_total, h]
  exact lt_irrefl 0

omit [IsStrictOrderedRing K] in
theorem loss_eq_zero {queue : DamageQueue E K} {target : E} (h : ∀ event ∈ queue.events, event.target ≠ target)
    (response : DamageResponse) : loss queue target response = 0 := by
  have hNone : queue.forTarget target = [] :=
    List.filter_eq_nil_iff.mpr fun event hEvent hSame => h event hEvent (of_decide_eq_true hSame)
  rw [loss, hNone, List.map_nil, List.sum_nil]

end OpenHalfLife.Monsters
