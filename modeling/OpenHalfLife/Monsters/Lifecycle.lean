import OpenHalfLife.Monsters.BigMomma
import OpenHalfLife.Monsters.Damage
import OpenHalfLife.Monsters.Nihilanth
import OpenHalfLife.Lib.First

/-! # Health intake and death

The one place where health moves. The queue is gone through once, each target
is struck on its first hit with all its hits together, and a boss may keep them off.
-/

namespace OpenHalfLife.Monsters

open Game FirstSight

set_option autoImplicit false

structure Route (K : Type) where
  waypoints : List (Game.Vec3 K)
  current : Nat
  goal : Game.Vec3 K

structure Actor (K : Type) where
  origin : Game.Vec3 K
  health : K
  alive : Bool

structure MonsterAi (K : Type) where
  route : Route K
  moveTarget : Option (Game.Vec3 K)
  moveSpeed : K
  stuckTicks : Nat
  pendingConditions : UInt32

structure Body (K : Type) where
  actor : Option (Actor K)
  ai : Option (MonsterAi K)
  impervious : Bool
  shield : Option (NihilanthShield K)
  trail : Option (GonarchTrail K)

abbrev Bodies (E K : Type) := E → Body K

inductive CorpseDecision
  | corpse
  | gib

inductive AiEventKind
  | died
  | fireTarget (name : Name)
  | killTarget (name : Name)
  | scriptRequested (name : Name)

structure AiEvent (E : Type) where
  entity : E
  kind : AiEventKind

structure DamageOutcome (E : Type) where
  events : List (AiEvent E)
  corpses : List (E × CorpseDecision)
  hurt : List E

inductive Intake
  | applied
  | spent
  | blocked

variable {E K : Type} [Field K] [LinearOrder K]

def bossIntake (body : Body K) (actor : Actor K) (total : K) : Intake × Body K :=
  let verdict := (body.shield.map fun shield => (shield.absorb total).1).getD .applied
  let body := { body with shield := body.shield.map fun shield => (shield.absorb total).2 }
  match verdict with
  | .absorbed | .blocked => (.blocked, body)
  | .applied =>
    match body.trail with
    | none => (.applied, body)
    | some trail =>
      let (verdict, trail) := trail.absorbDamage actor.health total
      let body := { body with trail := some trail }
      match verdict with
      | .applied => (.applied, body)
      | .shielded => (.blocked, body)
      | .depleted _ => (.spent, { body with actor := some { actor with health := trail.baseHealth } })

structure Struck where
  hurt : Bool
  death : Option CorpseDecision

def Struck.unhurt : Struck := ⟨false, none⟩

def wound (gibOverkillMultiplier total : K) (actor : Actor K) (body : Body K) : Struck × Body K :=
  let newHealth := actor.health - total
  if 0 < actor.health ∧ newHealth ≤ 0 then
    let overkillThreshold := max actor.health 0 * max gibOverkillMultiplier 0
    let decision := if overkillThreshold < total ∧ 0 < overkillThreshold then .gib else .corpse
    (⟨true, some decision⟩, { body with actor := some { actor with health := newHealth, alive := false } })
  else (⟨true, none⟩, { body with actor := some { actor with health := newHealth } })

def settle (gibOverkillMultiplier total : K) (actor : Actor K) : Intake × Body K → Struck × Body K
  | (.blocked, body) => (.unhurt, body)
  | (.spent, body) => (⟨true, none⟩, body)
  | (.applied, body) => wound gibOverkillMultiplier total actor body

def Body.answer (body : Body K) (response : DamageResponse) : DamageResponse :=
  if body.impervious then .impervious else response

def strike [DecidableEq E] (queue : DamageQueue E K) (gibOverkillMultiplier : K) (response : E → DamageResponse)
    (target : E) (body : Body K) : Struck × Body K :=
  match summarizeEffective queue target (body.answer (response target)), body.actor with
  | some summary, some actor =>
    if !actor.alive then (.unhurt, body)
    else settle gibOverkillMultiplier summary.total actor (bossIntake body actor summary.total)
  | _, _ => (.unhurt, body)

def DamageOutcome.push (outcome : DamageOutcome E) (target : E) (struck : Struck) : DamageOutcome E where
  events := outcome.events ++ (struck.death.map fun _ => ⟨target, .died⟩).toList
  corpses := outcome.corpses ++ (struck.death.map fun decision => (target, decision)).toList
  hurt := outcome.hurt ++ if struck.hurt then [target] else []

def applyDamageEffective [DecidableEq E] (world : Bodies E K) (queue : DamageQueue E K) (gibOverkillMultiplier : K)
    (response : E → DamageResponse) : DamageOutcome E × Bodies E K :=
  (queue.events.foldl (fun walk event =>
    if event.target ∈ walk.1 then walk
    else
      let (struck, body) := strike queue gibOverkillMultiplier response event.target (walk.2.2 event.target)
      (walk.1 ++ [event.target], walk.2.1.push event.target struck, Function.update walk.2.2 event.target body))
    ([], ⟨[], [], []⟩, world)).2

/-! ## Each target is struck once -/

section Calls

variable [DecidableEq E] {queue : DamageQueue E K} {multiplier : K} {response : E → DamageResponse} {target : E}
  {body : Body K} {world : Bodies E K} {actor : Actor K}

def targets (queue : DamageQueue E K) : List E := firsts (queue.events.map DamageEvent.target)

def Body.cost (body : Body K) (queue : DamageQueue E K) (response : E → DamageResponse) (target : E) : K :=
  loss queue target (body.answer (response target))

theorem strike_no_actor (h : ∀ actor, body.actor = some actor → actor.alive = false) :
    strike queue multiplier response target body = (.unhurt, body) := by
  unfold strike
  cases hActor : body.actor with
  | none => cases summarizeEffective queue target (body.answer (response target)) <;> rfl
  | some actor =>
    cases summarizeEffective queue target (body.answer (response target)) with
    | none => rfl
    | some summary =>
      dsimp only
      rw [h actor hActor]
      rfl

variable [IsStrictOrderedRing K]

theorem strike_no_cost (h : body.cost queue response target = 0) :
    strike queue multiplier response target body = (.unhurt, body) := by
  unfold strike
  rw [summarizeEffective_none h]

theorem strike_alive (hCost : 0 < body.cost queue response target) (hActor : body.actor = some actor)
    (hAlive : actor.alive = true) :
    strike queue multiplier response target body = settle multiplier (body.cost queue response target) actor
      (bossIntake body actor (body.cost queue response target)) := by
  obtain ⟨summary, hSummary, hTotal⟩ := summarizeEffective_some hCost
  unfold strike
  rw [hSummary, hActor]
  dsimp only
  rw [hAlive, hTotal]
  rfl

theorem strike_untargeted (h : ∀ event ∈ queue.events, event.target ≠ target) :
    strike queue multiplier response target body = (.unhurt, body) :=
  strike_no_cost (loss_eq_zero h _)

variable (world queue multiplier response)

theorem applyDamageEffective_eq :
    applyDamageEffective world queue multiplier response =
      ((targets queue).foldl
        (fun out target => out.push target (strike queue multiplier response target (world target)).1) ⟨[], [], []⟩,
        fun target => (strike queue multiplier response target (world target)).2) := by
  have hWalk := foldl_unmet (fun (state : DamageOutcome E × Bodies E K) target =>
    (state.1.push target (strike queue multiplier response target (state.2 target)).1,
      Function.update state.2 target (strike queue multiplier response target (state.2 target)).2))
    [] (queue.events.map DamageEvent.target) (⟨[], [], []⟩, world)
  rw [List.foldl_map] at hWalk
  refine hWalk.trans ((foldl_visits (fun (out : DamageOutcome E) target body =>
    out.push target (strike queue multiplier response target body).1)
    (fun target body => (strike queue multiplier response target body).2) (nodup_firsts _) _ _).trans ?_)
  refine congrArg (Prod.mk _) (funext fun target => ?_)
  by_cases hTarget : target ∈ targets queue
  · exact if_pos hTarget
  · have hNone : ∀ event ∈ queue.events, event.target ≠ target := fun event hEvent hSame =>
      hTarget (mem_firsts.mpr (List.mem_map.mpr ⟨event, hEvent, hSame⟩))
    rw [strike_untargeted hNone]
    exact if_neg hTarget

variable {world queue multiplier response}

theorem unhurt_of_not_mem (h : target ∉ targets queue) :
    strike queue multiplier response target body = (.unhurt, body) :=
  strike_untargeted fun event hEvent hSame => h (mem_firsts.mpr (List.mem_map.mpr ⟨event, hEvent, hSame⟩))

theorem hurt_eq : (applyDamageEffective world queue multiplier response).1.hurt =
    (targets queue).flatMap fun target =>
      if (strike queue multiplier response target (world target)).1.hurt then [target] else [] := by
  rw [applyDamageEffective_eq]
  exact (foldl_field (fun _ _ => rfl) _).trans (List.nil_append _)

theorem events_eq : (applyDamageEffective world queue multiplier response).1.events =
    (targets queue).flatMap fun target =>
      ((strike queue multiplier response target (world target)).1.death.map fun _ => AiEvent.mk target .died).toList := by
  rw [applyDamageEffective_eq]
  exact (foldl_field (fun _ _ => rfl) _).trans (List.nil_append _)

theorem corpses_eq : (applyDamageEffective world queue multiplier response).1.corpses =
    (targets queue).flatMap fun target =>
      ((strike queue multiplier response target (world target)).1.death.map fun decision => (target, decision)).toList := by
  rw [applyDamageEffective_eq]
  exact (foldl_field (fun _ _ => rfl) _).trans (List.nil_append _)

theorem reports_eq :
    (applyDamageEffective world queue multiplier response).2 target =
        (strike queue multiplier response target (world target)).2 ∧
    (applyDamageEffective world queue multiplier response).1.hurt.filter (fun entry => id entry = target) =
        (if (strike queue multiplier response target (world target)).1.hurt then [target] else []) ∧
    (applyDamageEffective world queue multiplier response).1.events.filter (fun event => event.entity = target) =
        ((strike queue multiplier response target (world target)).1.death.map fun _ => AiEvent.mk target .died).toList ∧
    (applyDamageEffective world queue multiplier response).1.corpses.filter (fun entry => entry.1 = target) =
        ((strike queue multiplier response target (world target)).1.death.map fun decision => (target, decision)).toList := by
  refine ⟨by rw [applyDamageEffective_eq], ?_, ?_, ?_⟩
  · rw [hurt_eq]
    refine filter_reports_eq (fun key entry hEntry => ?_) (nodup_firsts _) (fun key hKey => ?_) target
    · split_ifs at hEntry
      · exact List.mem_singleton.mp hEntry
      · cases hEntry
    · rw [unhurt_of_not_mem hKey]
      rfl
  · rw [events_eq]
    refine filter_reports_eq (fun key entry hEntry => ?_) (nodup_firsts _) (fun key hKey => ?_) target
    · obtain ⟨_, _, rfl⟩ := Option.map_eq_some_iff.mp (Option.mem_toList.mp hEntry)
      rfl
    · rw [unhurt_of_not_mem hKey]
      rfl
  · rw [corpses_eq]
    refine filter_reports_eq (fun key entry hEntry => ?_) (nodup_firsts _) (fun key hKey => ?_) target
    · obtain ⟨_, _, rfl⟩ := Option.map_eq_some_iff.mp (Option.mem_toList.mp hEntry)
      rfl
    · rw [unhurt_of_not_mem hKey]
      rfl

end Calls

end OpenHalfLife.Monsters
