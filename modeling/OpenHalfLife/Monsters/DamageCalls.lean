import Mathlib.Algebra.Order.Field.Rat
import OpenHalfLife.Monsters.Lifecycle

/-! # What the calls do to a target

Without a boss component the hits of a call come off the health once, and a
death is reported once. A shield lets nothing through before its head is open.
-/

namespace OpenHalfLife.Monsters

open Game FirstSight

set_option autoImplicit false

variable {E K : Type} [Field K] [LinearOrder K] [DecidableEq E]

structure DamageCall (E K : Type) [Field K] [LinearOrder K] where
  queue : DamageQueue E K
  multiplier : K
  response : E → DamageResponse

namespace DamageCall

def apply (call : DamageCall E K) (world : Bodies E K) : DamageOutcome E × Bodies E K :=
  applyDamageEffective world call.queue call.multiplier call.response

def cost (call : DamageCall E K) (world : Bodies E K) (target : E) : K :=
  (world target).cost call.queue call.response target

def struck (call : DamageCall E K) (world : Bodies E K) (target : E) : Struck × Body K :=
  strike call.queue call.multiplier call.response target (world target)

def runAll (world : Bodies E K) (calls : List (DamageCall E K)) : Bodies E K :=
  calls.foldl (fun world call => (call.apply world).2) world

/-- A call leaves a target as it was and reports nothing of it. -/
structure Silent (call : DamageCall E K) (world : Bodies E K) (target : E) : Prop where
  unchanged : (call.apply world).2 target = world target
  hurt : target ∉ (call.apply world).1.hurt
  events : ∀ event ∈ (call.apply world).1.events, event.entity ≠ target
  corpses : ∀ entry ∈ (call.apply world).1.corpses, entry.1 ≠ target

end DamageCall

structure Body.Ordinary (body : Body K) : Prop where
  shield : body.shield = none
  trail : body.trail = none

open DamageCall

/-- A call takes the hits on a living target off its health once, and reports them and its death once. -/
structure CountedOnce (call : DamageCall E K) (world : Bodies E K) (target : E) (actor : Actor K) : Prop where
  body : (call.apply world).2 target = { world target with
    actor := some { actor with
      health := actor.health - call.cost world target
      alive := decide (0 < actor.health - call.cost world target) } }
  hurt : (call.apply world).1.hurt.filter (fun entry => id entry = target) =
    if 0 < call.cost world target then [target] else []
  events : (call.apply world).1.events.filter (fun event => event.entity = target) =
    if actor.health - call.cost world target ≤ 0 then [⟨target, .died⟩] else []
  corpses : ∃ decision, (call.apply world).1.corpses.filter (fun entry => entry.1 = target) =
      (if actor.health - call.cost world target ≤ 0 then [(target, decision)] else []) ∧
    (0 < call.multiplier → (decision = .gib ↔ call.multiplier * actor.health < call.cost world target))
  silent : actor.health - call.cost world target ≤ 0 → ∀ calls : List (DamageCall E K),
    runAll (call.apply world).2 calls target = (call.apply world).2 target ∧
    ∀ later : DamageCall E K, later.Silent (runAll (call.apply world).2 calls) target

section Targets

variable {call : DamageCall E K} {world : Bodies E K} {target : E} {actor : Actor K}

variable [IsStrictOrderedRing K]

theorem DamageCall.apply_self (call : DamageCall E K) (world : Bodies E K) (target : E) :
    (call.apply world).2 target = (strike call.queue call.multiplier call.response target (world target)).2 :=
  (@reports_eq E K _ _ _ call.queue call.multiplier call.response target world _).1

theorem DamageCall.struck_unhurt
    (h : ¬(0 < call.cost world target ∧ ∃ actor, (world target).actor = some actor ∧ actor.alive = true)) :
    call.struck world target = (.unhurt, world target) := by
  by_cases hCost : 0 < call.cost world target
  · refine strike_no_actor fun actor hActor => Bool.eq_false_iff.mpr fun hAlive => ?_
    exact h ⟨hCost, actor, hActor, hAlive⟩
  · exact strike_no_cost (le_antisymm (not_lt.mp hCost) (loss_nonneg _ _ _))

theorem DamageCall.silent_of_struck (h : call.struck world target = (.unhurt, world target)) : call.Silent world target := by
  obtain ⟨hBody, hHurt, hEvents, hCorpses⟩ :=
    @reports_eq E K _ _ _ call.queue call.multiplier call.response target world _
  change strike _ _ _ _ _ = _ at h
  rw [h] at hBody hHurt hEvents hCorpses
  refine ⟨hBody, ?_, ?_, ?_⟩
  · intro hMem
    exact List.filter_eq_nil_iff.mp hHurt target hMem (decide_eq_true rfl)
  · intro event hEvent hSame
    exact List.filter_eq_nil_iff.mp hEvents event hEvent (decide_eq_true hSame)
  · intro entry hEntry hSame
    exact List.filter_eq_nil_iff.mp hCorpses entry hEntry (decide_eq_true hSame)

theorem DamageCall.runAll_dead (h : ∀ actor, (world target).actor = some actor → actor.alive = false)
    (calls : List (DamageCall E K)) : runAll world calls target = world target := by
  induction calls generalizing world with
  | nil => rfl
  | cons call calls ih =>
    have hSame : (call.apply world).2 target = world target :=
      (silent_of_struck (strike_no_actor h)).unchanged
    have hDead : ∀ actor, ((call.apply world).2 target).actor = some actor → actor.alive = false := by
      rwa [hSame]
    exact (ih hDead).trans hSame

omit [DecidableEq E] [IsStrictOrderedRing K] in
theorem bossIntake_ordinary {body : Body K} (h : body.Ordinary) (actor : Actor K) (total : K) :
    bossIntake body actor total = (.applied, body) := by
  obtain ⟨_, _, _, shield, trail⟩ := body
  obtain rfl : shield = none := h.shield
  obtain rfl : trail = none := h.trail
  rfl

def overkill (multiplier health total : K) : CorpseDecision :=
  if max health 0 * max multiplier 0 < total ∧ 0 < max health 0 * max multiplier 0 then .gib else .corpse

omit [DecidableEq E] in
theorem overkill_gib {multiplier health : K} (hHealth : 0 < health) (hMultiplier : 0 < multiplier) (total : K) :
    overkill multiplier health total = .gib ↔ multiplier * health < total := by
  rw [overkill, max_eq_left hHealth.le, max_eq_left hMultiplier.le, mul_comm health]
  have hThreshold : 0 < multiplier * health := mul_pos hMultiplier hHealth
  by_cases hMore : multiplier * health < total
  · rw [if_pos ⟨hMore, hThreshold⟩]
    exact ⟨fun _ => hMore, fun _ => rfl⟩
  · rw [if_neg fun h => hMore h.1]
    exact ⟨fun h => CorpseDecision.noConfusion h, fun h => absurd h hMore⟩

variable (call) in
theorem struck_ordinary (hBody : (world target).Ordinary) (hActor : (world target).actor = some actor)
    (hAlive : actor.alive = true) (hHealth : 0 < actor.health) :
    call.struck world target =
      (⟨decide (0 < call.cost world target),
        if actor.health - call.cost world target ≤ 0 then
          some (overkill call.multiplier actor.health (call.cost world target)) else none⟩,
        { world target with actor := some { actor with
          health := actor.health - call.cost world target
          alive := decide (0 < actor.health - call.cost world target) } }) := by
  by_cases hCost : 0 < call.cost world target
  · refine (strike_alive hCost hActor hAlive).trans ?_
    rw [bossIntake_ordinary hBody]
    change wound call.multiplier (call.cost world target) actor (world target) = _
    unfold wound
    dsimp only
    rw [decide_eq_true hCost]
    by_cases hDead : actor.health - call.cost world target ≤ 0
    · rw [if_pos ⟨hHealth, hDead⟩, if_pos hDead, decide_eq_false hDead.not_gt]
      rfl
    · rw [if_neg fun h => hDead h.2, if_neg hDead, decide_eq_true (not_le.mp hDead), hAlive]
  · have hNone : call.cost world target = 0 := le_antisymm (not_lt.mp hCost) (loss_nonneg _ _ _)
    refine (strike_no_cost hNone).trans ?_
    rw [hNone, sub_zero, decide_eq_false (lt_irrefl 0), if_neg hHealth.not_ge, decide_eq_true hHealth, ← hAlive]
    refine congrArg (Prod.mk _) ?_
    rw [← hActor]

theorem counted_once (hBody : (world target).Ordinary) (hActor : (world target).actor = some actor)
    (hAlive : actor.alive = true) (hHealth : 0 < actor.health) : CountedOnce call world target actor := by
  obtain ⟨hAfter, hHurt, hEvents, hCorpses⟩ :=
    @reports_eq E K _ _ _ call.queue call.multiplier call.response target world _
  have hStruck := struck_ordinary call hBody hActor hAlive hHealth
  unfold DamageCall.struck at hStruck
  rw [hStruck] at hAfter hHurt hEvents hCorpses
  constructor
  · exact hAfter
  · exact hHurt.trans (by simp only [decide_eq_true_eq])
  · refine hEvents.trans ?_
    split_ifs <;> rfl
  · refine ⟨overkill call.multiplier actor.health (call.cost world target), hCorpses.trans ?_, fun hMultiplier =>
      overkill_gib hHealth hMultiplier _⟩
    split_ifs <;> rfl
  · intro hDead calls
    have hAfterDead : ∀ actor, ((call.apply world).2 target).actor = some actor → actor.alive = false := by
      intro after hSame
      obtain rfl := Option.some.inj ((congrArg Body.actor hAfter).symm.trans hSame)
      exact decide_eq_false hDead.not_gt
    have hStays := runAll_dead hAfterDead calls
    refine ⟨hStays, fun later => silent_of_struck (strike_no_actor ?_)⟩
    rwa [hStays]

theorem changed_of_apply (h : (call.apply world).2 target ≠ world target) :
    target ∈ call.queue.events.map DamageEvent.target ∧ ∃ actor, (world target).actor = some actor ∧ actor.alive = true := by
  constructor
  · by_contra hMem
    exact h (silent_of_struck (unhurt_of_not_mem fun hFirst => hMem (mem_firsts.mp hFirst))).unchanged
  · by_contra hNone
    refine h (silent_of_struck (strike_no_actor fun actor hActor => ?_)).unchanged
    exact Bool.eq_false_iff.mpr fun hAlive => hNone ⟨actor, hActor, hAlive⟩

theorem hurt_sublist : (call.apply world).1.hurt.Sublist (targets call.queue) := by
  have hFilter : (call.apply world).1.hurt = (targets call.queue).filter fun target => (call.struck world target).1.hurt := by
    refine hurt_eq.trans ?_
    induction targets call.queue with
    | nil => rfl
    | cons target rest ih =>
      rw [List.flatMap_cons, ih, List.filter_cons]
      cases hHurt : (call.struck world target).1.hurt with
      | true => exact congrArg (· ++ _) (if_pos hHurt)
      | false => exact congrArg (· ++ _) (if_neg (Bool.eq_false_iff.mp hHurt))
  rw [hFilter]
  exact List.filter_sublist

end Targets

/-! ## A shielded target -/

/-- What may happen to a world with a shielded target. A shield may be put back to any progress, its own among them. -/
inductive ShieldStep (E K : Type) [Field K] [LinearOrder K]
  | damage (call : DamageCall E K)
  | syncCrystals (standing : Nat)
  | tick (dt : Stored K)
  | activate
  | restore (progress : ShieldProgress K)

def onShield (world : Bodies E K) (target : E) (change : NihilanthShield K → NihilanthShield K) : Bodies E K :=
  Function.update world target { world target with shield := (world target).shield.map change }

def shieldStep (target : E) (world : Bodies E K) : ShieldStep E K → Bodies E K
  | .damage call => (call.apply world).2
  | .syncCrystals standing => onShield world target fun shield => shield.syncCrystals standing
  | .tick dt => onShield world target fun shield => (shield.tick dt).2
  | .activate => onShield world target NihilanthShield.activate
  | .restore progress => onShield world target fun shield => shield.restore progress

section Shields

variable {world : Bodies E K} {target : E} {actor : Actor K} {shield : NihilanthShield K} {call : DamageCall E K}

omit [Field K] [LinearOrder K] in
theorem onShield_self (change : NihilanthShield K → NihilanthShield K) (h : (world target).shield = some shield) :
    onShield world target change target = { world target with shield := some (change shield) } := by
  rw [onShield, Function.update_self, h, Option.map_some]

omit [Field K] [LinearOrder K] in
theorem onShield_actor (change : NihilanthShield K → NihilanthShield K) :
    (onShield world target change target).actor = (world target).actor := by
  rw [onShield, Function.update_self]

variable [IsStrictOrderedRing K]

variable (call) in
theorem apply_shut (h : shield.Charged) (hShield : (world target).shield = some shield) (hShut : shield.exposed = false)
    (hActor : (world target).actor = some actor) (hAlive : actor.alive = true) :
    (call.apply world).2 target = { world target with
      shield := some { shield with reserve := shield.reserve - min shield.reserve (call.cost world target) } } := by
  refine (apply_self call world target).trans ?_
  by_cases hCost : 0 < call.cost world target
  · rw [strike_alive hCost hActor hAlive]
    obtain ⟨hReserve, hVerdict⟩ := NihilanthShield.absorb_shut h hShut hCost
    have hIntake : bossIntake (world target) actor (call.cost world target) = (.blocked, { world target with
        shield := some { shield with reserve := shield.reserve - min shield.reserve (call.cost world target) } }) := by
      unfold bossIntake
      rw [hShield, Option.map_some, Option.map_some, Option.getD_some, hReserve]
      cases hSame : (shield.absorb (call.cost world target)).1 with
      | absorbed => rfl
      | blocked => rfl
      | applied => exact absurd hSame hVerdict
    exact congrArg Prod.snd (congrArg (settle _ _ _) hIntake)
  · have hNone : call.cost world target = 0 := le_antisymm (not_lt.mp hCost) (loss_nonneg _ _ _)
    rw [strike_no_cost hNone, hNone, min_eq_right h.reserve_nonneg, sub_zero]
    dsimp only
    rw [← hShield]

omit [DecidableEq E] [IsStrictOrderedRing K] in
theorem bossIntake_shield (body : Body K) (actor : Actor K) (total : K) :
    (bossIntake body actor total).2.shield = body.shield.map fun shield => (shield.absorb total).2 := by
  unfold bossIntake
  dsimp only
  split
  · rfl
  · rfl
  · split
    · rfl
    · split <;> rfl

omit [DecidableEq E] [IsStrictOrderedRing K] in
theorem settle_shield (multiplier total : K) (actor : Actor K) (intake : Intake × Body K) :
    (settle multiplier total actor intake).2.shield = intake.2.shield := by
  obtain ⟨intake, body⟩ := intake
  cases intake with
  | blocked => rfl
  | spent => rfl
  | applied =>
    change (wound multiplier total actor body).2.shield = body.shield
    unfold wound
    dsimp only
    split_ifs <;> rfl

theorem apply_shield (h : shield.Charged) (hShield : (world target).shield = some shield) :
    ∃ after, ((call.apply world).2 target).shield = some after ∧ after.Charged := by
  rw [apply_self]
  by_cases hStruck : 0 < call.cost world target ∧ ∃ actor, (world target).actor = some actor ∧ actor.alive = true
  · obtain ⟨hCost, actor, hActor, hAlive⟩ := hStruck
    refine ⟨(shield.absorb (call.cost world target)).2, ?_, h.absorb _⟩
    rw [strike_alive hCost hActor hAlive, settle_shield, bossIntake_shield, hShield]
    rfl
  · exact ⟨shield, (congrArg (fun result => result.2.shield) (struck_unhurt hStruck)).trans hShield, h⟩

theorem shieldStep_charged (h : shield.Charged) (hShield : (world target).shield = some shield) (step : ShieldStep E K) :
    ∃ after, (shieldStep target world step target).shield = some after ∧ after.Charged := by
  cases step with
  | damage call => exact apply_shield h hShield
  | syncCrystals standing => exact ⟨_, congrArg Body.shield (onShield_self _ hShield), h.syncCrystals standing⟩
  | tick dt => exact ⟨_, congrArg Body.shield (onShield_self _ hShield), h.tick dt⟩
  | activate => exact ⟨_, congrArg Body.shield (onShield_self _ hShield), h.activate⟩
  | restore progress => exact ⟨_, congrArg Body.shield (onShield_self _ hShield), h.restore progress⟩

theorem run_charged (h : shield.Charged) (hShield : (world target).shield = some shield) (steps : List (ShieldStep E K)) :
    ∃ after, (steps.foldl (shieldStep target) world target).shield = some after ∧ after.Charged := by
  induction steps generalizing world shield with
  | nil => exact ⟨shield, hShield, h⟩
  | cons step steps ih =>
    obtain ⟨next, hNext, hCharged⟩ := shieldStep_charged h hShield step
    exact ih hCharged hNext

theorem exposed_of_health_lt (h : shield.Charged) (hShield : (world target).shield = some shield) {step : ShieldStep E K}
    {after : Actor K} (hActor : (world target).actor = some actor)
    (hAfter : (shieldStep target world step target).actor = some after) (hLess : after.health < actor.health) :
    shield.exposed = true := by
  by_contra hShut
  have hSame : (shieldStep target world step target).actor = (world target).actor := by
    cases step with
    | damage call =>
      by_cases hAlive : actor.alive = true
      · have hShutAfter := apply_shut call h hShield (Bool.eq_false_iff.mpr hShut) hActor hAlive
        exact (congrArg Body.actor hShutAfter).trans rfl
      · refine congrArg Body.actor (silent_of_struck (strike_no_actor fun other hOther => ?_)).unchanged
        obtain rfl := Option.some.inj (hActor.symm.trans hOther)
        exact Bool.eq_false_iff.mpr hAlive
    | syncCrystals standing => exact onShield_actor _
    | tick dt => exact onShield_actor _
    | activate => exact onShield_actor _
    | restore progress => exact onShield_actor _
  obtain rfl := Option.some.inj ((hSame.trans hActor).symm.trans hAfter)
  exact lt_irrefl _ hLess

/-- A shield after any steps: its reserve has its bounds, and until the head is open it takes what
it can of every hit and lets nothing through. -/
structure Guarded (world : Bodies E K) (target : E) (shield : NihilanthShield K) : Prop where
  reserve_nonneg : 0 ≤ shield.reserve
  reserve_le : shield.reserve ≤ shield.reserveCapacity
  shut : shield.exposed = false → ∀ actor, (world target).actor = some actor → actor.alive = true →
    ∀ call : DamageCall E K, (call.apply world).2 target = { world target with
      shield := some { shield with reserve := shield.reserve - min shield.reserve (call.cost world target) } }
  exposed : ∀ (step : ShieldStep E K) (actor after : Actor K), (world target).actor = some actor →
    (shieldStep target world step target).actor = some after → after.health < actor.health → shield.exposed = true

theorem NihilanthShield.Charged.guarded (h : shield.Charged) (hShield : (world target).shield = some shield) :
    Guarded world target shield :=
  ⟨h.reserve_nonneg, h.reserve_le, fun hShut _ hActor hAlive call => apply_shut call h hShield hShut hActor hAlive,
    fun _ _ _ hActor hAfter hLess => exposed_of_health_lt h hShield hActor hAfter hLess⟩

end Shields

def sampleHit (target : Nat) (amount : Rat) : DamageEvent Nat Rat := ⟨target, none, amount, ⟨0, 0, 0⟩, false, ⟨1⟩⟩

def sampleCall : DamageCall Nat Rat where
  queue := ⟨[sampleHit 0 3, sampleHit 1 5, sampleHit 0 4], by decide, by decide⟩
  multiplier := 2
  response _ := .ordinary

def sampleWorld : Bodies Nat Rat := fun target =>
  { actor := some ⟨⟨0, 0, 0⟩, 6, true⟩
    ai := none
    impervious := false
    shield := if target = 1 then some (.new 20 (.finite 1) 0) else none
    trail := none }

end OpenHalfLife.Monsters
