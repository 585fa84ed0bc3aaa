import Mathlib.Data.List.Induction
import OpenHalfLife.Monsters.DamageCalls

/-! # A Gonarch on its trail

The driver moves the Gonarch along its trail, a hit that spends the health of
a node sends it on, and an activation ends a wait. However the three are mixed,
the nodes are reached one by one, and only at the last one can it die.
-/

namespace OpenHalfLife.Monsters

open Game FirstSight

set_option autoImplicit false

def maxEventsPerTick : Nat := 4096

def conditionsSpecial1 : UInt32 := 0x8000000

section Driver

variable {E K : Type} [Field K] [LinearOrder K]

def Route.new : Route K := ⟨[], 0, ⟨0, 0, 0⟩⟩

def Route.straightLine {K : Type} (goal : Game.Vec3 K) : Route K := ⟨[goal], 0, goal⟩

def Route.isFinished {K : Type} (route : Route K) : Bool := decide (route.waypoints.length ≤ route.current)

def pushEvent (events : List (AiEvent E)) (entity : E) (kind : AiEventKind) : List (AiEvent E) :=
  if events.length < maxEventsPerTick then events ++ [⟨entity, kind⟩] else events

def pushEffects (events : List (AiEvent E)) (entity : E) (effects : ArrivalEffects K) : List (AiEvent E) :=
  let events := effects.fire.elim events fun name => pushEvent events entity (.fireTarget name)
  let events := effects.kill.elim events fun name => pushEvent events entity (.killTarget name)
  effects.sequence.elim events fun name => pushEvent events entity (.scriptRequested name)

def activate (body : Body K) : Body K :=
  { body with
    shield := body.shield.map NihilanthShield.activate
    trail := body.trail.map fun trail => trail.release.2 }

variable (sqrt : K → K)

def spaceLength (v : Game.Vec3 K) : K := sqrt (v.x * v.x + v.y * v.y + v.z * v.z)

def headFor (speeds : K × K) (trail : GonarchTrail K) (ai : MonsterAi K) : MonsterAi K :=
  match trail.destination with
  | none => ai
  | some destination =>
    let goal := ai.route.goal
    let away := spaceLength sqrt ⟨goal.x - destination.x, goal.y - destination.y, goal.z - destination.z⟩
    let routed :=
      if ai.route.isFinished || decide (1 < away) then { ai with route := .straightLine destination, stuckTicks := 0 }
      else ai
    { routed with
      moveTarget := some destination
      moveSpeed := if trail.runsToDestination then speeds.2 else speeds.1
      pendingConditions := routed.pendingConditions ||| conditionsSpecial1 }

/-- One tick of the trail at a position: the effects of a node it reaches, and the trail then. -/
def advance (trail : GonarchTrail K) (position : Game.Vec3 K) (dt : Stored K) : Option (ArrivalEffects K) × GonarchTrail K :=
  let (stalled, trail) := trail.noteProgress sqrt position dt
  if trail.hasReachedDestination sqrt position || stalled then trail.arrive else (none, trail)

/-- What `driveTrail` does to the components of its entity, with the effects of the node it reaches. -/
def driveBody (body : Body K) (dt : Stored K) (speeds : K × K) (scripted : Bool) : Option (ArrivalEffects K) × Body K :=
  match body.trail, body.actor, body.ai with
  | some trail, some actor, some ai =>
    if !actor.alive then (none, body)
    else
      let trail := (trail.tick dt).2
      if scripted then (none, { body with trail := some trail })
      else
        let (arrived, trail) := advance sqrt trail actor.origin dt
        let ai := if arrived.isSome then { ai with route := .new, moveSpeed := 0, stuckTicks := 0 } else ai
        let health := (arrived.bind ArrivalEffects.setHealth).getD actor.health
        (arrived, { body with
          trail := some trail
          actor := some { actor with health }
          ai := some (headFor sqrt speeds trail ai) })
  | _, _, _ => (none, body)

def driveTrail [DecidableEq E] (world : Bodies E K) (entity : E) (dt : Stored K) (speeds : K × K) (scripted : Bool)
    (events : List (AiEvent E)) : Bodies E K × List (AiEvent E) :=
  let (arrived, body) := driveBody sqrt (world entity) dt speeds scripted
  (Function.update world entity body, arrived.elim events fun effects => pushEffects events entity effects)

end Driver

/-! ## Along the trail -/

section Trails

variable {K : Type} [Field K]

def TrailPhase.index : TrailPhase K → Nat
  | .traveling index => index
  | .arriving index _ => index
  | .holding index => index
  | .free => 0

def TrailPhase.reached : TrailPhase K → Nat
  | .traveling index => index
  | .arriving index _ => index + 1
  | .holding index => index + 1
  | .free => 0

structure OnTrail (gonarch : GonarchTrail K) : Prop where
  phase_ne : gonarch.phase ≠ .free
  index_lt : gonarch.phase.index < gonarch.trail.nodes.length

/-- A way along the trail, with the effects of the nodes reached on it. -/
structure Walked (start finish : GonarchTrail K) (arrived : List (ArrivalEffects K)) : Prop where
  trail : finish.trail = start.trail
  healthFactor : finish.healthFactor = start.healthFactor
  baseHealth : finish.baseHealth = start.baseHealth
  onTrail : OnTrail finish
  index_le : start.phase.index ≤ finish.phase.index
  arrivals : (start.trail.nodes.take finish.phase.reached).map (GonarchTrail.effects start.healthFactor) =
    (start.trail.nodes.take start.phase.reached).map (GonarchTrail.effects start.healthFactor) ++ arrived
  passed : ∀ k, start.phase.index ≤ k → k < finish.phase.index → ∀ node, start.node k = some node → node.health = none

namespace Walked

variable {start middle finish : GonarchTrail K} {arrived later : List (ArrivalEffects K)}

theorem of_same (h : OnTrail start) (hTrail : finish.trail = start.trail) (hFactor : finish.healthFactor = start.healthFactor)
    (hBase : finish.baseHealth = start.baseHealth) (hFree : finish.phase ≠ .free)
    (hIndex : finish.phase.index = start.phase.index) (hReached : finish.phase.reached = start.phase.reached) :
    Walked start finish [] where
  trail := hTrail
  healthFactor := hFactor
  baseHealth := hBase
  onTrail := ⟨hFree, by rw [hIndex, hTrail]; exact h.index_lt⟩
  index_le := hIndex.ge
  arrivals := by rw [hReached, List.append_nil]
  passed k hLow hHigh := absurd (hHigh.trans_le hIndex.le) hLow.not_gt

theorem refl (h : OnTrail start) : Walked start start [] := of_same h rfl rfl rfl h.phase_ne rfl rfl

theorem trans (h : Walked start middle arrived) (h' : Walked middle finish later) : Walked start finish (arrived ++ later) where
  trail := h'.trail.trans h.trail
  healthFactor := h'.healthFactor.trans h.healthFactor
  baseHealth := h'.baseHealth.trans h.baseHealth
  onTrail := h'.onTrail
  index_le := h.index_le.trans h'.index_le
  arrivals := by
    have hLater := h'.arrivals
    rw [h.trail, h.healthFactor, h.arrivals] at hLater
    rw [hLater, List.append_assoc]
  passed k hLow hHigh node hNode := by
    rcases lt_or_ge k middle.phase.index with hBefore | hAfter
    · exact h.passed k hLow hBefore node hNode
    · refine h'.passed k hAfter hHigh node ?_
      rw [GonarchTrail.node, h.trail]
      exact hNode

theorem depart {k : Nat} (hPhase : start.phase = .holding k) (hLast : start.trail.isLast k = false)
    (hHealth : ∀ node, start.node k = some node → node.health = none) :
    Walked start { start with phase := .traveling (k + 1) } [] where
  trail := rfl
  healthFactor := rfl
  baseHealth := rfl
  onTrail := ⟨(by simp), not_le.mp (of_decide_eq_false hLast)⟩
  index_le := by rw [hPhase]; exact Nat.le_succ k
  arrivals := by rw [hPhase, List.append_nil]; rfl
  passed j hLow hHigh node hNode := by
    rw [hPhase] at hLow
    obtain rfl : j = k := le_antisymm (Nat.lt_succ_iff.mp hHigh) hLow
    exact hHealth node hNode

theorem reach {k : Nat} {node : TrailNode K} (hPhase : start.phase = .traveling k) (hNode : start.node k = some node)
    (hTrail : finish.trail = start.trail) (hFactor : finish.healthFactor = start.healthFactor)
    (hBase : finish.baseHealth = start.baseHealth) (hFree : finish.phase ≠ .free) (hIndex : finish.phase.index = k)
    (hReached : finish.phase.reached = k + 1) :
    Walked start finish [GonarchTrail.effects start.healthFactor node] where
  trail := hTrail
  healthFactor := hFactor
  baseHealth := hBase
  onTrail := ⟨hFree, by
    rw [hIndex, hTrail]
    exact (List.getElem?_eq_some_iff.mp hNode).1⟩
  index_le := by rw [hPhase, hIndex]; exact le_rfl
  arrivals := by
    have hNodes : start.trail.nodes[k]? = some node := hNode
    rw [hPhase, hReached, List.take_add_one, hNodes, List.map_append]
    rfl
  passed j hLow hHigh := by
    rw [hPhase] at hLow
    rw [hIndex] at hHigh
    exact absurd hHigh (not_lt.mpr hLow)

end Walked

namespace GonarchTrail

variable [LinearOrder K] {gonarch : GonarchTrail K}

omit [LinearOrder K] in
theorem walked_departIfPassable (h : OnTrail gonarch) {k : Nat} (hPhase : gonarch.phase = .holding k) :
    Walked gonarch (gonarch.departIfPassable k).2 [] := by
  unfold departIfPassable
  cases hNode : gonarch.node k with
  | none => exact .refl h
  | some node =>
    dsimp only
    split_ifs with hHeld
    · exact .refl h
    · rw [Bool.or_eq_true, Bool.or_eq_true, not_or, not_or] at hHeld
      refine .depart hPhase (Bool.eq_false_iff.mpr hHeld.2) fun other hOther => ?_
      obtain rfl := Option.some.inj (hNode.symm.trans hOther)
      exact Option.not_isSome_iff_eq_none.mp hHeld.1.1

theorem walked_tick (h : OnTrail gonarch) (dt : Stored K) : Walked gonarch (gonarch.tick dt).2 [] := by
  unfold tick
  cases hPhase : gonarch.phase with
  | arriving k waitLeft =>
    dsimp only
    split_ifs
    · exact .of_same h rfl rfl rfl (by simp) (by rw [hPhase]; rfl) (by rw [hPhase]; rfl)
    · have hHeld : Walked gonarch { gonarch with phase := .holding k } [] :=
        .of_same h rfl rfl rfl (by simp) (by rw [hPhase]; rfl) (by rw [hPhase]; rfl)
      exact hHeld.trans (walked_departIfPassable hHeld.onTrail rfl)
  | traveling k => exact .refl h
  | holding k => exact .refl h
  | free => exact .refl h

omit [LinearOrder K] in
theorem walked_release (h : OnTrail gonarch) : Walked gonarch gonarch.release.2 [] := by
  unfold release
  cases hPhase : gonarch.phase with
  | holding k =>
    dsimp only
    cases hNode : gonarch.node k with
    | none => exact .refl h
    | some node =>
      dsimp only
      split_ifs with hHeld
      · exact .refl h
      · rw [Bool.or_eq_true, not_or] at hHeld
        refine .depart hPhase (Bool.eq_false_iff.mpr hHeld.2) fun other hOther => ?_
        obtain rfl := Option.some.inj (hNode.symm.trans hOther)
        exact Option.not_isSome_iff_eq_none.mp hHeld.1
  | traveling k => exact .refl h
  | arriving k waitLeft => exact .refl h
  | free => exact .refl h

theorem walked_noteProgress (sqrt : K → K) (h : OnTrail gonarch) (position : Game.Vec3 K) (dt : Stored K) :
    Walked gonarch (gonarch.noteProgress sqrt position dt).2 [] := by
  unfold noteProgress
  split
  · exact .of_same h rfl rfl rfl h.phase_ne rfl rfl
  · exact .of_same h rfl rfl rfl h.phase_ne rfl rfl

theorem walked_arrive (h : OnTrail gonarch) : Walked gonarch gonarch.arrive.2 gonarch.arrive.1.toList := by
  unfold arrive
  cases hPhase : gonarch.phase with
  | traveling k =>
    dsimp only
    have hSame (phase : TrailPhase K) : ({ gonarch with phase, stall := none } : GonarchTrail K).node k = gonarch.node k := rfl
    rw [hSame]
    cases hNode : gonarch.node k with
    | none => exact .of_same h rfl rfl rfl (by simp) (by rw [hPhase]) (by rw [hPhase])
    | some node =>
      dsimp only
      split_ifs
      · exact .reach hPhase hNode rfl rfl rfl (by simp) rfl rfl
      · have hHeld : Walked gonarch { gonarch with stall := none, phase := .holding k } [effects gonarch.healthFactor node] :=
          .reach hPhase hNode rfl rfl rfl (by simp) rfl rfl
        exact hHeld.trans (walked_departIfPassable hHeld.onTrail rfl)
  | arriving k waitLeft => exact .refl h
  | holding k => exact .refl h
  | free => exact .refl h

theorem walked_advance (sqrt : K → K) (h : OnTrail gonarch) (position : Game.Vec3 K) (dt : Stored K) :
    Walked gonarch (advance sqrt gonarch position dt).2 (advance sqrt gonarch position dt).1.toList := by
  have hNoted := walked_noteProgress sqrt h position dt
  unfold advance
  dsimp only
  split_ifs
  · exact hNoted.trans (walked_arrive hNoted.onTrail)
  · exact hNoted

end GonarchTrail

variable [LinearOrder K] {body : Body K} {gonarch : GonarchTrail K}

theorem walked_driveBody (sqrt : K → K) (h : OnTrail gonarch) (hTrail : body.trail = some gonarch) (dt : Stored K)
    (speeds : K × K) (scripted : Bool) :
    ∃ after, (driveBody sqrt body dt speeds scripted).2.trail = some after ∧
      Walked gonarch after (driveBody sqrt body dt speeds scripted).1.toList := by
  unfold driveBody
  rw [hTrail]
  cases body.actor with
  | none => exact ⟨gonarch, hTrail, .refl h⟩
  | some actor =>
    cases body.ai with
    | none => exact ⟨gonarch, hTrail, .refl h⟩
    | some ai =>
      dsimp only
      have hTicked := GonarchTrail.walked_tick h dt
      split_ifs
      · exact ⟨gonarch, hTrail, .refl h⟩
      · exact ⟨_, rfl, hTicked⟩
      all_goals exact ⟨_, rfl, hTicked.trans (GonarchTrail.walked_advance sqrt hTicked.onTrail actor.origin dt)⟩

theorem absorbDamage_cases (h : OnTrail gonarch) (health amount : K) :
    gonarch.absorbDamage health amount = (.shielded, gonarch) ∨
    (∃ k, gonarch.phase = .holding k ∧ (gonarch.trail.isLast k = true ∨ ¬health - amount ≤ 0) ∧
      gonarch.absorbDamage health amount = (.applied, gonarch)) ∨
    ∃ k, gonarch.phase = .holding k ∧ gonarch.trail.isLast k = false ∧ health - amount ≤ 0 ∧
      gonarch.absorbDamage health amount = (.depleted (k + 1), { gonarch with phase := .traveling (k + 1) }) := by
  unfold GonarchTrail.absorbDamage
  cases hPhase : gonarch.phase with
  | free => exact absurd hPhase h.phase_ne
  | traveling k => exact .inl rfl
  | arriving k waitLeft => exact .inl rfl
  | holding k =>
    dsimp only
    by_cases hLast : gonarch.trail.isLast k = true
    · exact .inr (.inl ⟨k, rfl, .inl hLast, if_pos hLast⟩)
    · rw [if_neg hLast]
      cases (gonarch.node k).bind TrailNode.health with
      | none => exact .inl rfl
      | some nodeHealth =>
        by_cases hSpent : health - amount ≤ 0
        · exact .inr (.inr ⟨k, rfl, Bool.eq_false_iff.mpr hLast, hSpent, if_pos hSpent⟩)
        · exact .inr (.inl ⟨k, rfl, .inr hSpent, if_neg hSpent⟩)

/-- What the hits of a call do to a Gonarch on its trail: they are kept off; they spend the health of
its node and send it on; or they cost health, which kills at the last node alone. -/
inductive Fate (gonarch : GonarchTrail K) (body : Body K) (total : K) (result : Struck × Body K) : Prop
  | kept : result.1.death = none → result.2.actor = body.actor → result.2.trail = some gonarch →
      Fate gonarch body total result
  | spent (k : Nat) (actor : Actor K) : gonarch.phase = .holding k → gonarch.trail.isLast k = false →
      body.actor = some actor → actor.health - total ≤ 0 → result.1.death = none →
      result.2.actor = some { actor with health := gonarch.baseHealth } →
      result.2.trail = some { gonarch with phase := .traveling (k + 1) } → Fate gonarch body total result
  | cost (k : Nat) : gonarch.phase = .holding k → result.2.trail = some gonarch →
      (gonarch.trail.isLast k = false → result.1.death = none) → Fate gonarch body total result

end Trails

section Struck

variable {E K : Type} [Field K] [LinearOrder K] {body : Body K} {gonarch : GonarchTrail K} {actor : Actor K}

theorem fate_intake (h : OnTrail gonarch) (hTrail : body.trail = some gonarch) (hActor : body.actor = some actor)
    (multiplier total : K) : Fate gonarch body total (settle multiplier total actor (bossIntake body actor total)) := by
  unfold bossIntake
  dsimp only
  split
  · exact .kept rfl rfl hTrail
  · exact .kept rfl rfl hTrail
  · rw [hTrail]
    dsimp only
    obtain hKept | ⟨k, hPhase, hAllowed, hCost⟩ | ⟨k, hPhase, hLast, hSpent, hDeparts⟩ :=
      absorbDamage_cases h actor.health total
    · rw [hKept]
      exact .kept rfl rfl rfl
    · rw [hCost]
      dsimp only [settle, wound]
      by_cases hDead : 0 < actor.health ∧ actor.health - total ≤ 0
      · rw [if_pos hDead]
        exact .cost k hPhase rfl fun hLast => absurd hDead.2 (hAllowed.resolve_left (Bool.eq_false_iff.mp hLast))
      · rw [if_neg hDead]
        exact .cost k hPhase rfl fun _ => rfl
    · rw [hDeparts]
      exact .spent k actor hPhase hLast hActor hSpent rfl rfl rfl

variable [DecidableEq E] [IsStrictOrderedRing K]

theorem fate_struck (h : OnTrail gonarch) (call : DamageCall E K) (world : Bodies E K) (target : E)
    (hTrail : (world target).trail = some gonarch) :
    Fate gonarch (world target) (call.cost world target) (call.struck world target) := by
  by_cases hStruck : 0 < call.cost world target ∧ ∃ actor, (world target).actor = some actor ∧ actor.alive = true
  · obtain ⟨hCost, actor, hActor, hAlive⟩ := hStruck
    unfold DamageCall.struck
    rw [strike_alive hCost hActor hAlive]
    exact fate_intake h hTrail hActor _ _
  · rw [DamageCall.struck_unhurt hStruck]
    exact .kept rfl rfl hTrail

end Struck

/-! ## Runs -/

section Runs

variable {E K : Type} [Field K] [LinearOrder K] [DecidableEq E]

/-- What may happen to a Gonarch: it is moved, used, driven for a tick after other events, or hit. -/
inductive GonarchStep (E K : Type) [Field K] [LinearOrder K]
  | move (origin : Game.Vec3 K)
  | activate
  | drive (dt : Stored K) (speeds : K × K) (scripted : Bool) (events : List (AiEvent E))
  | damage (call : DamageCall E K)

def gonarchStep (sqrt : K → K) (target : E) (world : Bodies E K) : GonarchStep E K → Bodies E K
  | .move origin => Function.update world target
      { world target with actor := (world target).actor.map fun actor => { actor with origin } }
  | .activate => Function.update world target (activate (world target))
  | .drive dt speeds scripted events => (driveTrail sqrt world target dt speeds scripted events).1
  | .damage call => (call.apply world).2

def stepArrivals (sqrt : K → K) (target : E) (world : Bodies E K) : GonarchStep E K → List (ArrivalEffects K)
  | .drive dt speeds scripted _ => (driveBody sqrt (world target) dt speeds scripted).1.toList
  | _ => []

def gonarchRun (sqrt : K → K) (target : E) (world : Bodies E K) (steps : List (GonarchStep E K)) :
    Bodies E K × List (ArrivalEffects K) :=
  steps.foldl (fun state step =>
    (gonarchStep sqrt target state.1 step, state.2 ++ stepArrivals sqrt target state.1 step)) (world, [])

structure NextStep (sqrt : K → K) (target : E) (world : Bodies E K) (gonarch : GonarchTrail K) (step : GonarchStep E K) :
    Prop where
  forward : ∃ next, (gonarchStep sqrt target world step target).trail = some next ∧
    gonarch.phase.index ≤ next.phase.index ∧
    ∀ k, gonarch.phase.index ≤ k → k < next.phase.index → ∀ node, gonarch.node k = some node → node.health.isSome →
      ∃ call actor, step = .damage call ∧ gonarch.phase = .holding k ∧ (world target).actor = some actor ∧
        actor.health - call.cost world target ≤ 0 ∧
        (gonarchStep sqrt target world step target).actor = some { actor with health := gonarch.baseHealth }
  shielded : ∀ call, step = .damage call → (∀ k, gonarch.phase ≠ .holding k) →
    (gonarchStep sqrt target world step target).actor = (world target).actor
  died : ∀ call, step = .damage call → ∀ event ∈ (call.apply world).1.events, event.entity = target →
    ∃ k, gonarch.phase = .holding k ∧ gonarch.trail.isLast k = true

variable {sqrt : K → K} {target : E} {world : Bodies E K} {gonarch : GonarchTrail K}

variable (sqrt) in
theorem walked_step (h : OnTrail gonarch) (hTrail : (world target).trail = some gonarch) {step : GonarchStep E K}
    (hStep : ∀ call, step ≠ .damage call) :
    ∃ after, (gonarchStep sqrt target world step target).trail = some after ∧
      Walked gonarch after (stepArrivals sqrt target world step) := by
  cases step with
  | move origin =>
    refine ⟨gonarch, ?_, .refl h⟩
    rw [gonarchStep, Function.update_self]
    exact hTrail
  | activate =>
    refine ⟨gonarch.release.2, ?_, GonarchTrail.walked_release h⟩
    rw [gonarchStep, Function.update_self, activate, hTrail]
    rfl
  | drive dt speeds scripted events =>
    obtain ⟨after, hAfter, hWalked⟩ := walked_driveBody sqrt h hTrail dt speeds scripted
    refine ⟨after, ?_, hWalked⟩
    rw [gonarchStep, driveTrail]
    dsimp only
    rw [Function.update_self]
    exact hAfter
  | damage call => exact absurd rfl (hStep call)

omit [Field K] [LinearOrder K] [DecidableEq E] in
theorem pushEffects_died {events : List (AiEvent E)} {entity : E} {effects : ArrivalEffects K} {event : AiEvent E}
    (h : event ∈ pushEffects events entity effects) (hDied : event.kind = .died) : event ∈ events := by
  have hPush {events : List (AiEvent E)} {kind : AiEventKind} (hKind : kind ≠ .died)
      (hMem : event ∈ pushEvent events entity kind) : event ∈ events := by
    unfold pushEvent at hMem
    split_ifs at hMem
    · rcases List.mem_append.mp hMem with hEarlier | hLast
      · exact hEarlier
      · rw [List.mem_singleton.mp hLast] at hDied
        exact absurd hDied hKind
    · exact hMem
  have hElim {name : Option Name} {kind : Name → AiEventKind} (hKind : ∀ name, kind name ≠ .died)
      {events : List (AiEvent E)}
      (hMem : event ∈ name.elim events fun name => pushEvent events entity (kind name)) : event ∈ events := by
    cases name with
    | none => exact hMem
    | some name => exact hPush (hKind name) hMem
  exact hElim (fun _ => by simp) (hElim (fun _ => by simp) (hElim (fun _ => by simp) h))

theorem driveTrail_died {entity : E} {dt : Stored K} {speeds : K × K} {scripted : Bool} {events : List (AiEvent E)}
    {event : AiEvent E} (h : event ∈ (driveTrail sqrt world entity dt speeds scripted events).2)
    (hDied : event.kind = .died) : event ∈ events := by
  unfold driveTrail at h
  dsimp only at h
  cases hArrived : (driveBody sqrt (world entity) dt speeds scripted).1 with
  | none =>
    rw [hArrived] at h
    exact h
  | some effects =>
    rw [hArrived] at h
    exact pushEffects_died h hDied

/-- The Gonarch after some steps: the effects produced are those of the nodes it has reached, in their order. -/
structure Progressed (start gonarch : GonarchTrail K) (log : List (ArrivalEffects K)) : Prop where
  trail : gonarch.trail = start.trail
  healthFactor : gonarch.healthFactor = start.healthFactor
  baseHealth : gonarch.baseHealth = start.baseHealth
  onTrail : OnTrail gonarch
  log : log = (start.trail.nodes.take gonarch.phase.reached).map (GonarchTrail.effects start.healthFactor)

omit [LinearOrder K] in
theorem Progressed.walked {start after : GonarchTrail K} {log arrived : List (ArrivalEffects K)}
    (h : Progressed start gonarch log) (hWalked : Walked gonarch after arrived) : Progressed start after (log ++ arrived) where
  trail := hWalked.trail.trans h.trail
  healthFactor := hWalked.healthFactor.trans h.healthFactor
  baseHealth := hWalked.baseHealth.trans h.baseHealth
  onTrail := hWalked.onTrail
  log := by
    have hArrivals := hWalked.arrivals
    rw [h.trail, h.healthFactor, ← h.log] at hArrivals
    exact hArrivals.symm

variable [IsStrictOrderedRing K]

theorem damage_step (h : OnTrail gonarch) (hTrail : (world target).trail = some gonarch) (call : DamageCall E K) :
    ∃ after, ((call.apply world).2 target).trail = some after ∧ after.trail = gonarch.trail ∧
      after.healthFactor = gonarch.healthFactor ∧ after.baseHealth = gonarch.baseHealth ∧ OnTrail after ∧
      after.phase.reached = gonarch.phase.reached := by
  rw [call.apply_self]
  change ∃ after, (call.struck world target).2.trail = some after ∧ _
  cases fate_struck h call world target hTrail with
  | kept hDeath hActor hSame => exact ⟨gonarch, hSame, rfl, rfl, rfl, h, rfl⟩
  | spent k actor hPhase hLast hActor hSpent hDeath hHealth hSame =>
    refine ⟨_, hSame, rfl, rfl, rfl, ⟨by simp, ?_⟩, by rw [hPhase]; rfl⟩
    exact not_le.mp (of_decide_eq_false hLast)
  | cost k hPhase hSame hDeath => exact ⟨gonarch, hSame, rfl, rfl, rfl, h, rfl⟩

theorem Progressed.step {start : GonarchTrail K} {log : List (ArrivalEffects K)} (h : Progressed start gonarch log)
    (hTrail : (world target).trail = some gonarch) (step : GonarchStep E K) :
    ∃ after, (gonarchStep sqrt target world step target).trail = some after ∧
      Progressed start after (log ++ stepArrivals sqrt target world step) := by
  by_cases hDamage : ∃ call, step = .damage call
  · obtain ⟨call, rfl⟩ := hDamage
    obtain ⟨after, hAfter, hSame, hFactor, hBase, hOn, hReached⟩ := damage_step h.onTrail hTrail call
    refine ⟨after, hAfter, hSame.trans h.trail, hFactor.trans h.healthFactor, hBase.trans h.baseHealth, hOn, ?_⟩
    rw [hReached, ← h.log]
    exact List.append_nil log
  · obtain ⟨after, hAfter, hWalked⟩ := walked_step sqrt h.onTrail hTrail fun call hCall => hDamage ⟨call, hCall⟩
    exact ⟨after, hAfter, h.walked hWalked⟩

variable (sqrt) in
theorem run_progressed {start : GonarchTrail K} (h : OnTrail start) (hReached : start.phase.reached = 0)
    (hTrail : (world target).trail = some start) (steps : List (GonarchStep E K)) :
    ∃ gonarch, ((gonarchRun sqrt target world steps).1 target).trail = some gonarch ∧
      Progressed start gonarch (gonarchRun sqrt target world steps).2 := by
  induction steps using List.reverseRecOn with
  | nil => exact ⟨start, hTrail, rfl, rfl, rfl, h, by rw [hReached]; rfl⟩
  | append_singleton steps step ih =>
    obtain ⟨gonarch, hGonarch, hProgressed⟩ := ih
    rw [gonarchRun, List.foldl_append, List.foldl_cons, List.foldl_nil]
    exact hProgressed.step hGonarch step

theorem death_of_event {call : DamageCall E K} {event : AiEvent E} (h : event ∈ (call.apply world).1.events)
    (hEntity : event.entity = target) : (call.struck world target).1.death ≠ none := by
  intro hNone
  have hEvents := (@reports_eq E K _ _ _ call.queue call.multiplier call.response target world _).2.2.1
  change (call.struck world target).1.death = none at hNone
  unfold DamageCall.struck at hNone
  rw [hNone] at hEvents
  exact List.filter_eq_nil_iff.mp hEvents event h (decide_eq_true hEntity)

theorem next_step (h : OnTrail gonarch) (hTrail : (world target).trail = some gonarch) (step : GonarchStep E K) :
    NextStep sqrt target world gonarch step := by
  by_cases hDamage : ∃ call, step = .damage call
  · obtain ⟨call, rfl⟩ := hDamage
    have hAfter : gonarchStep sqrt target world (.damage call) target = (call.struck world target).2 := call.apply_self world target
    have hFate := fate_struck h call world target hTrail
    constructor
    · rw [hAfter]
      cases hFate with
      | kept hDeath hActor hSame =>
        exact ⟨gonarch, hSame, le_rfl, fun k hLow hHigh => absurd hHigh (not_lt.mpr hLow)⟩
      | spent k actor hPhase hLast hActor hSpent hDeath hHealth hSame =>
        refine ⟨_, hSame, by rw [hPhase]; exact Nat.le_succ k, fun j hLow hHigh node hNode hSome => ?_⟩
        have hSameNode : j = k := by
          rw [hPhase] at hLow
          exact le_antisymm (Nat.lt_succ_iff.mp hHigh) hLow
        exact ⟨call, actor, rfl, hSameNode ▸ hPhase, hActor, hSpent, hHealth⟩
      | cost k hPhase hSame hDeath =>
        exact ⟨gonarch, hSame, le_rfl, fun k hLow hHigh => absurd hHigh (not_lt.mpr hLow)⟩
    · intro other _ hMoving
      rw [hAfter]
      cases hFate with
      | kept hDeath hActor hSame => exact hActor
      | spent k actor hPhase => exact absurd hPhase (hMoving k)
      | cost k hPhase => exact absurd hPhase (hMoving k)
    · intro other hSame event hEvent hEntity
      obtain rfl := GonarchStep.damage.inj hSame
      have hDied := death_of_event hEvent hEntity
      cases hFate with
      | kept hDeath => exact absurd hDeath hDied
      | spent k actor hPhase hLast hActor hSpent hDeath => exact absurd hDeath hDied
      | cost k hPhase hSame hDeath => exact ⟨k, hPhase, by_contra fun hLast => hDied (hDeath (Bool.eq_false_iff.mpr hLast))⟩
  · have hOther (call : DamageCall E K) (hCall : step = .damage call) : False := hDamage ⟨call, hCall⟩
    obtain ⟨after, hAfter, hWalked⟩ := walked_step sqrt h hTrail hOther
    constructor
    · refine ⟨after, hAfter, hWalked.index_le, fun k hLow hHigh node hNode hSome => ?_⟩
      rw [hWalked.passed k hLow hHigh node hNode] at hSome
      cases hSome
    · exact fun call hCall => (hOther call hCall).elim
    · exact fun call hCall => (hOther call hCall).elim

end Runs

def sampleNode (name : Name) (health : Option Rat) : TrailNode Rat := ⟨name, ⟨0, 0, 0⟩, none, health, 0, none, none, none, false, false⟩

def sampleTrail : Trail Rat := ⟨[sampleNode [1] (some 5), sampleNode [2] none], by decide⟩

def gonarchWorld : Bodies Nat Rat := fun _ =>
  ⟨some ⟨⟨0, 0, 0⟩, 10, true⟩, none, false, none, some (.new sampleTrail (.finite 1) (.finite 10))⟩

end OpenHalfLife.Monsters
