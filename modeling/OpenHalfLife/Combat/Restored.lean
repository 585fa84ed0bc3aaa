import Mathlib.Tactic.Linarith
import Mathlib.Data.Rat.Floor
import OpenHalfLife.Combat.Firing
import OpenHalfLife.Lib.Behaviour

/-! # A weapon after a load

A saved timer is a place on the clock of the weapon, and a loaded weapon begins
its clock anew. What a loaded weapon does is then what the saved one would have
done only if no timer was running against a clock that had moved.
-/

namespace OpenHalfLife.Combat

set_option autoImplicit false

open Responses

variable {K : Type*} [Field K] [LinearOrder K]

namespace FiringState

/-! ## Later ticks -/

structure Later (K : Type*) where
  dt : K
  input : WeaponInput
  found : Nat

structure Output (K : Type*) where
  action : WeaponAction K
  chargeDamage : Option K
  selfDamage : Option K
  clip : Nat
  pool : AmmoPool

def later [FloorRing K] (s : FiringState K × AmmoPool) (step : Later K) :
    Output K × FiringState K × AmmoPool :=
  let (action, weapon, pool) := s.1.tick step.dt step.input (s.2.add step.found)
  let (chargeDamage, weapon) := weapon.takeChargeDamage
  let (selfDamage, weapon) := weapon.takeSelfDamage
  (⟨action, chargeDamage, selfDamage, weapon.clip, pool⟩, weapon, pool)

/-! ## Weapons that differ in their clocks -/

def SameWait (now due now' due' : K) : Prop := ∀ d, 0 ≤ d → (due ≤ now + d ↔ due' ≤ now' + d)

inductive SameStage (now now' : K) : FireState K → FireState K → Prop
  | idle : SameStage now now' .idle .idle
  | holstered : SameStage now now' .holstered .holstered
  | firing {due due' : K} : SameWait now due now' due' → SameStage now now' (.firing due) (.firing due')
  | reloading {due due' : K} :
    SameWait now due now' due' → SameStage now now' (.reloading due) (.reloading due')
  | charging {since since' : K} :
    now - since = now' - since' → SameStage now now' (.charging since) (.charging since')

def Alike (s t : FiringState K) : Prop :=
  ∃ stage now beam, t = { s with state := stage, elapsed := now, beamAccum := beam } ∧
    SameStage s.elapsed now s.state stage

def TickedAlike (a b : Ticked K) : Prop := a.1 = b.1 ∧ Alike a.2.1 b.2.1 ∧ a.2.2 = b.2.2

def clocked (s : FiringState K) (now beam : K) : FiringState K := { s with elapsed := now, beamAccum := beam }

section Alike

variable {s t : FiringState K}

theorem alike_settled (s : FiringState K) (now beam : K) {stage stage' : FireState K}
    (h : SameStage s.elapsed now stage stage') :
    Alike { s with state := stage } { s.clocked now beam with state := stage' } := ⟨stage', now, beam, rfl, h⟩

theorem alike_clocked (s : FiringState K) (now beam : K) (h : s.state = .idle) : Alike s (s.clocked now beam) := by
  refine ⟨.idle, now, beam, ?_, ?_⟩
  · rw [clocked, ← h]
  · rw [h]
    exact .idle

theorem SameWait.now {now due now' due' : K} (h : SameWait now due now' due') : due ≤ now ↔ due' ≤ now' := by
  have hNow := h 0 le_rfl
  rwa [add_zero, add_zero] at hNow

theorem ticked_firing (s : FiringState K) (now beam : K) {due due' : K} (hState : s.state = .firing due)
    (hWait : SameWait s.elapsed due now due') (pool : AmmoPool) :
    TickedAlike (.empty, (s.tickFiring due).2, pool)
      (.empty, ({ s with state := .firing due', elapsed := now, beamAccum := beam }.tickFiring due').2, pool) := by
  refine ⟨rfl, ?_, rfl⟩
  unfold tickFiring
  simp only [hWait.now]
  split
  · exact alike_settled s now beam .idle
  · refine ⟨.firing due', now, beam, rfl, ?_⟩
    rw [hState]
    exact .firing hWait

theorem ticked_reloading (s : FiringState K) (now beam : K) {due due' : K} (hState : s.state = .reloading due)
    (hWait : SameWait s.elapsed due now due') (pool : AmmoPool) :
    TickedAlike (s.tickReloading due pool)
      ({ s with state := .reloading due', elapsed := now, beamAccum := beam }.tickReloading due' pool) := by
  have hBefore : s.elapsed < due ↔ now < due' := by rw [← not_le, ← not_le, hWait.now]
  unfold tickReloading
  simp only [hBefore]
  split
  · refine ⟨rfl, ⟨.reloading due', now, beam, rfl, ?_⟩, rfl⟩
    rw [hState]
    exact .reloading hWait
  · cases s.spec.clipSize with
    | none => exact ⟨rfl, alike_settled s now beam .idle, rfl⟩
    | some clipSize => exact ⟨rfl, ⟨.idle, now, beam, rfl, .idle⟩, rfl⟩

theorem ticked_charging (s : FiringState K) (now beam : K) {since since' : K} (hState : s.state = .charging since)
    (hHeld : s.elapsed - since = now - since') (input : WeaponInput) (pool : AmmoPool) :
    TickedAlike (s.tickCharging since input pool)
      ({ s with state := .charging since', elapsed := now, beamAccum := beam }.tickCharging since' input pool) := by
  unfold tickCharging
  dsimp only
  rw [hHeld]
  split
  · exact ⟨rfl, ⟨.idle, now, beam, rfl, .idle⟩, rfl⟩
  · split
    · refine ⟨rfl, ⟨.charging since', now, beam, rfl, ?_⟩, rfl⟩
      rw [hState]
      exact .charging hHeld
    · exact ⟨rfl, ⟨.idle, now, beam, rfl, .idle⟩, rfl⟩

variable [IsStrictOrderedRing K]

theorem SameWait.later {now due now' due' dt : K} (h : SameWait now due now' due') (hStep : 0 ≤ dt) :
    SameWait (now + dt) due (now' + dt) due' := by
  intro d hd
  rw [add_assoc, add_assoc]
  exact h (dt + d) (add_nonneg hStep hd)

theorem SameStage.later {now now' dt : K} {stage stage' : FireState K} (h : SameStage now now' stage stage')
    (hStep : 0 ≤ dt) : SameStage (now + dt) (now' + dt) stage stage' := by
  cases h with
  | idle => exact .idle
  | holstered => exact .holstered
  | firing hWait => exact .firing (hWait.later hStep)
  | reloading hWait => exact .reloading (hWait.later hStep)
  | charging hHeld => exact .charging (by linarith)

theorem sameWait_after (now now' wait : K) : SameWait now (now + wait) now' (now' + wait) := by
  intro d _
  rw [add_le_add_iff_left, add_le_add_iff_left]

theorem Alike.pass (h : Alike s t) (dt : K) : Alike (s.pass dt) (t.pass dt) := by
  obtain ⟨stage, now, beam, rfl, hStage⟩ := h
  have hStep : (0 : K) ≤ if 0 < dt then dt else 0 := by
    split
    · rename_i hPos
      exact le_of_lt hPos
    · exact le_rfl
  exact ⟨stage, _, _, rfl, hStage.later hStep⟩

theorem alike_cycling (s : FiringState K) (now beam cycleTime : K) :
    Alike (s.cycling cycleTime) ((s.clocked now beam).cycling cycleTime) :=
  alike_settled s now beam (.firing (sameWait_after _ _ _))

theorem ticked_shoot (s : FiringState K) (now beam : K) (hIdle : s.state = .idle) (action : WeaponAction K)
    (pool : AmmoPool) : TickedAlike (s.shoot action pool) ((s.clocked now beam).shoot action pool) := by
  have hAmmo : (s.clocked now beam).hasPrimaryAmmo pool = s.hasPrimaryAmmo pool := rfl
  unfold shoot
  rw [hAmmo]
  split
  · exact ⟨rfl, alike_clocked s now beam hIdle, rfl⟩
  · have hSize : (s.clocked now beam).spec.clipSize = s.spec.clipSize := rfl
    unfold consumePrimaryRound
    rw [hSize]
    cases s.spec.clipSize with
    | none => exact ⟨rfl, alike_cycling s now beam _, rfl⟩
    | some _ => exact ⟨rfl, alike_cycling { s with clip := s.clip - 1 } now beam _, rfl⟩

theorem ticked_firePrimary [FloorRing K] (s : FiringState K) (now beam : K) (hKind : s.spec.kind ≠ .beam)
    (hIdle : s.state = .idle) (pool : AmmoPool) :
    TickedAlike (s.firePrimary pool) ((s.clocked now beam).firePrimary pool) := by
  have hSame : (s.clocked now beam).spec = s.spec := rfl
  unfold firePrimary
  rw [hSame]
  cases hShot : s.spec.kind with
  | beam => exact (hKind hShot).elim
  | charge => exact ticked_shoot s now beam hIdle _ pool
  | melee => exact ticked_shoot s now beam hIdle _ pool
  | hitscan pellets spread => exact ticked_shoot s now beam hIdle _ pool
  | projectile speed => exact ticked_shoot s now beam hIdle _ pool

theorem ticked_alternate (s : FiringState K) (now beam : K) (hIdle : s.state = .idle)
    (secondary : SecondaryFire K) (pool : AmmoPool) :
    TickedAlike (s.alternate secondary pool) ((s.clocked now beam).alternate secondary pool) := by
  have hClip : (s.clocked now beam).clip = s.clip := rfl
  unfold alternate
  rw [hClip]
  split
  · split
    · exact ⟨rfl, alike_clocked s now beam hIdle, rfl⟩
    · exact ⟨rfl, alike_cycling s now beam _, rfl⟩
  · split
    · exact ⟨rfl, alike_clocked s now beam hIdle, rfl⟩
    · exact ⟨rfl, alike_cycling { s with clip := s.clip - 1 } now beam _, rfl⟩

theorem ticked_fireSecondary (s : FiringState K) (now beam : K) (hIdle : s.state = .idle) (pool : AmmoPool) :
    TickedAlike (s.fireSecondary pool) ((s.clocked now beam).fireSecondary pool) := by
  have hSame : (s.clocked now beam).spec = s.spec := rfl
  have hUnchanged : TickedAlike (.empty, s, pool) (.empty, s.clocked now beam, pool) :=
    ⟨rfl, alike_clocked s now beam hIdle, rfl⟩
  unfold fireSecondary
  rw [hSame]
  split
  · split
    · exact ⟨rfl, alike_clocked s now beam hIdle, rfl⟩
    · exact ⟨rfl, alike_settled s now beam (.charging (by rw [sub_self]; exact (sub_self _).symm)), rfl⟩
  · cases s.spec.secondary with
    | none => exact hUnchanged
    | some secondary => exact ticked_alternate s now beam hIdle secondary pool

theorem ticked_idle [FloorRing K] (s : FiringState K) (now beam : K) (hKind : s.spec.kind ≠ .beam)
    (hIdle : s.state = .idle) (input : WeaponInput) (pool : AmmoPool) :
    TickedAlike (s.tickIdle input pool) ((s.clocked now beam).tickIdle input pool) := by
  have hWants : (s.clocked now beam).wantsReload pool = s.wantsReload pool := rfl
  unfold tickIdle
  rw [hWants]
  split
  · exact ⟨rfl, alike_settled s now beam (.reloading (sameWait_after _ _ _)), rfl⟩
  · split
    · exact ticked_firePrimary s now beam hKind hIdle pool
    · split
      · exact ticked_fireSecondary s now beam hIdle pool
      · exact ⟨rfl, alike_clocked s now beam hIdle, rfl⟩

theorem Alike.tick [FloorRing K] (h : Alike s t) (hKind : s.spec.kind ≠ .beam) (dt : K) (input : WeaponInput)
    (pool : AmmoPool) : TickedAlike (s.tick dt input pool) (t.tick dt input pool) := by
  have hPass := h.pass dt
  unfold FiringState.tick
  dsimp only
  have hSpec : (s.pass dt).spec.kind ≠ .beam := hKind
  generalize s.pass dt = s at hPass hSpec
  generalize t.pass dt = t at hPass
  obtain ⟨stage, now, beam, rfl, hStage⟩ := hPass
  cases hState : s.state with
  | idle =>
    rw [hState] at hStage
    cases hStage
    have hIdle := ticked_idle s now beam hSpec hState input pool
    rwa [clocked, hState] at hIdle
  | holstered =>
    rw [hState] at hStage
    cases hStage
    dsimp only
    unfold tickHolstered
    split
    · refine ⟨rfl, ⟨.holstered, now, beam, rfl, ?_⟩, rfl⟩
      dsimp only
      rw [hState]
      exact .holstered
    · exact ⟨rfl, ⟨.idle, now, beam, rfl, .idle⟩, rfl⟩
  | firing due =>
    rw [hState] at hStage
    cases hStage with
    | firing hWait => exact ticked_firing s now beam hState hWait pool
  | reloading due =>
    rw [hState] at hStage
    cases hStage with
    | reloading hWait => exact ticked_reloading s now beam hState hWait pool
  | charging since =>
    rw [hState] at hStage
    cases hStage with
    | charging hHeld => exact ticked_charging s now beam hState hHeld input pool
  | beam =>
    rw [hState] at hStage
    cases hStage

end Alike

theorem TickedAlike.drained {a b : Ticked K} (h : TickedAlike a b) :
    (⟨a.1, a.2.1.pendingChargeDamage, a.2.1.pendingSelfDamage, a.2.1.clip, a.2.2⟩ : Output K) =
        ⟨b.1, b.2.1.pendingChargeDamage, b.2.1.pendingSelfDamage, b.2.1.clip, b.2.2⟩ ∧
      Alike a.2.1.takeChargeDamage.2.takeSelfDamage.2 b.2.1.takeChargeDamage.2.takeSelfDamage.2 := by
  obtain ⟨action, weapon, pool⟩ := a
  obtain ⟨action', weapon', pool'⟩ := b
  obtain ⟨hAction, ⟨stage, now, beam, hWeapon, hStage⟩, hPool⟩ := h
  dsimp only at hAction hWeapon hPool
  subst hAction hWeapon hPool
  exact ⟨rfl, ⟨stage, now, beam, rfl, hStage⟩⟩

def AlikeWith (spec : WeaponSpec K) (s t : FiringState K × AmmoPool) : Prop :=
  Sound spec s.1 ∧ Alike s.1 t.1 ∧ s.2 = t.2

section Loading

variable [IsStrictOrderedRing K] {spec : WeaponSpec K} {s : FiringState K}

theorem alikeWith_isBisimulation [FloorRing K] (hKind : spec.kind ≠ .beam) :
    IsBisimulation later (AlikeWith spec) where
  answer := by
    rintro ⟨s, pool⟩ ⟨t, _⟩ ⟨hSound, hAlike, rfl⟩ step
    have hKind' : s.spec.kind ≠ .beam := by rwa [hSound.spec]
    exact (hAlike.tick hKind' step.dt step.input (pool.add step.found)).drained.1
  next := by
    rintro ⟨s, pool⟩ ⟨t, _⟩ ⟨hSound, hAlike, rfl⟩ step
    have hKind' : s.spec.kind ≠ .beam := by rwa [hSound.spec]
    have hTick := hAlike.tick hKind' step.dt step.input (pool.add step.found)
    have hNext := hSound.tick hKind step.dt step.input (pool.add step.found)
    exact ⟨⟨hNext.spec, hNext.elapsed, hNext.clip, hNext.timed⟩, hTick.drained.2, hTick.2.2⟩

/-- No timer runs, or the clock has not moved since the weapon was made, or the timer is at the
beginning of the clock. -/
def Timeless (s : FiringState K) : Prop :=
  match s.state with
  | .firing due => s.elapsed = 0 ∨ due = 0
  | .reloading due => s.elapsed = 0 ∨ due = 0
  | .charging _ => s.elapsed = 0
  | _ => True

theorem Sound.alike_reloaded (h : Sound spec s) (hCharge : s.pendingChargeDamage = none)
    (hSelf : s.pendingSelfDamage = none) (hTimeless : s.Timeless) : Alike s s.reloaded := by
  have hWait (due : K) (hDue : s.elapsed = 0 ∨ due = 0) : SameWait s.elapsed due 0 due := by
    intro d hd
    rcases hDue with hClock | rfl
    · rw [hClock]
    · constructor
      · intro _
        linarith
      · intro _
        have hElapsed := h.elapsed
        linarith
  have hTimed := h.timed
  refine ⟨s.state, 0, spec.cycleTime, ?_, ?_⟩
  · rw [h.reloaded_eq, ← h.spec]
    unfold new
    rw [hCharge, hSelf]
  · unfold Timeless at hTimeless
    cases hState : s.state with
    | idle => exact .idle
    | holstered => exact .holstered
    | firing due =>
      rw [hState] at hTimeless
      exact .firing (hWait due hTimeless)
    | reloading due =>
      rw [hState] at hTimeless
      exact .reloading (hWait due hTimeless)
    | charging since =>
      rw [hState] at hTimeless
      have hClock : s.elapsed = 0 := hTimeless
      exact .charging (by rw [hClock])
    | beam =>
      rw [hState] at hTimed
      exact hTimed.elim

end Loading

/-! ## Telling a loaded weapon from the saved one -/

section Telling

variable {spec : WeaponSpec K} {s : FiringState K}

/-- The time after which `due` is reached. -/
def wait (now due : K) : K := max (due - now) 0

theorem elapsed_pass (s : FiringState K) {dt : K} (h : 0 ≤ dt) : (s.pass dt).elapsed = s.elapsed + dt := by
  have hStep : (if 0 < dt then dt else 0) = dt := by
    split
    · rfl
    · rename_i hPos
      exact le_antisymm h (not_lt.mp hPos)
  unfold pass
  dsimp only
  rw [hStep]

variable [FloorRing K]

theorem tick_of_firing {due : K} (hState : s.state = .firing due) (dt : K) (input : WeaponInput) (pool : AmmoPool) :
    s.tick dt input pool = (.empty, ((s.pass dt).tickFiring due).2, pool) := by
  have hPass : (s.pass dt).state = .firing due := hState
  unfold FiringState.tick
  dsimp only
  rw [hPass]
  rfl

theorem action_of_reloading {due dt : K} (hState : s.state = .reloading due) (hStep : 0 ≤ dt)
    (input : WeaponInput) (pool : AmmoPool) :
    (s.tick dt input pool).1 = if s.elapsed + dt < due then .empty else .playSequence .idle := by
  have hPass : (s.pass dt).state = .reloading due := hState
  unfold FiringState.tick
  dsimp only
  rw [hPass]
  unfold FiringState.tickReloading
  dsimp only
  rw [elapsed_pass s hStep]
  split
  · rfl
  · cases (s.pass dt).spec.clipSize <;> rfl

theorem action_of_charging {since dt : K} (hState : s.state = .charging since) (hStep : 0 ≤ dt)
    (pool : AmmoPool) :
    (s.tick dt { secondary := true } pool).1 =
      if gaussOverchargeSeconds ≤ s.elapsed + dt - since then .sound .overcharge else .empty := by
  have hPass : (s.pass dt).state = .charging since := hState
  unfold FiringState.tick
  dsimp only
  rw [hPass]
  unfold FiringState.tickCharging
  dsimp only
  rw [elapsed_pass s hStep]
  split
  · rfl
  · rfl

theorem action_of_idle (hState : s.state = .idle) (hKind : s.spec.kind ≠ .beam) (dt : K) (pool : AmmoPool) :
    (s.tick dt { primary := true } pool).1 ≠ .empty := by
  have hPass : (s.pass dt).state = .idle := hState
  have hShoot (action : WeaponAction K) (hAction : action ≠ .empty) :
      ((s.pass dt).shoot action pool).1 ≠ .empty := by
    unfold shoot
    split
    · exact nofun
    · exact hAction
  have hSpec : (s.pass dt).spec = s.spec := rfl
  unfold FiringState.tick
  dsimp only
  rw [hPass]
  change ((s.pass dt).firePrimary pool).1 ≠ .empty
  unfold FiringState.firePrimary
  rw [hSpec]
  cases hShot : s.spec.kind with
  | beam => exact (hKind hShot).elim
  | charge => exact hShoot _ nofun
  | melee => exact hShoot _ nofun
  | hitscan pellets spread => exact hShoot _ nofun
  | projectile speed => exact hShoot _ nofun

theorem same_action {t : FiringState K} {pool : AmmoPool} (h : Indistinguishable later (s, pool) (t, pool))
    (steps : List (Later K)) (step : Later K) :
    (later (after later (s, pool) steps) step).1.action = (later (after later (t, pool) steps) step).1.action :=
  congrArg Output.action (h.answer steps step)

theorem later_of_firing {due dt : K} (hState : s.state = .firing due) (hStep : 0 ≤ dt) (pool : AmmoPool) :
    (later (s, pool) ⟨dt, {}, 0⟩).2.1.state = (if due ≤ s.elapsed + dt then .idle else .firing due) ∧
      (later (s, pool) ⟨dt, {}, 0⟩).2.1.spec = s.spec := by
  unfold later
  dsimp only
  rw [tick_of_firing hState]
  unfold tickFiring
  dsimp only
  rw [elapsed_pass s hStep]
  split
  · exact ⟨rfl, rfl⟩
  · exact ⟨hState, rfl⟩

variable [IsStrictOrderedRing K]

omit [FloorRing K] in
theorem le_wait (now due : K) : due ≤ now + wait now due := by
  have h := le_max_left (due - now) 0
  unfold wait
  linarith

omit [FloorRing K] in
theorem wait_lt {now due : K} (hNow : 0 ≤ now) (hDue : 0 ≤ due) (h : ¬ (now = 0 ∨ due = 0)) :
    wait now due < due := by
  rw [not_or] at h
  have hPosNow := lt_of_le_of_ne hNow (Ne.symm h.1)
  have hPosDue := lt_of_le_of_ne hDue (Ne.symm h.2)
  exact max_lt (by linarith) hPosDue

theorem told_by_reload (hSound : Sound spec s) {due : K} (hState : s.state = .reloading due)
    (hClock : ¬ (s.elapsed = 0 ∨ due = 0)) (pool : AmmoPool) :
    ¬ Indistinguishable later (s, pool) (s.reloaded, pool) := by
  intro hSame
  have hDue : 0 ≤ due := by
    have hTimed := hSound.timed
    rw [hState] at hTimed
    exact hTimed
  have hStep : 0 ≤ wait s.elapsed due := le_max_right _ _
  have hReloaded : s.reloaded.state = .reloading due := by rw [hSound.reloaded_eq, hState]
  have hStart : s.reloaded.elapsed = 0 := by rw [hSound.reloaded_eq, new]
  have hAction : (s.tick (wait s.elapsed due) {} (pool.add 0)).1 =
      (s.reloaded.tick (wait s.elapsed due) {} (pool.add 0)).1 :=
    same_action hSame [] ⟨wait s.elapsed due, {}, 0⟩
  rw [action_of_reloading hState hStep, action_of_reloading hReloaded hStep, hStart, zero_add,
    if_neg (not_lt.mpr (le_wait s.elapsed due)), if_pos (wait_lt hSound.elapsed hDue hClock)] at hAction
  cases hAction

theorem told_by_trigger (hSound : Sound spec s) (hKind : spec.kind ≠ .beam) {due : K}
    (hState : s.state = .firing due) (hClock : ¬ (s.elapsed = 0 ∨ due = 0)) (pool : AmmoPool) :
    ¬ Indistinguishable later (s, pool) (s.reloaded, pool) := by
  intro hSame
  have hDue : 0 ≤ due := by
    have hTimed := hSound.timed
    rw [hState] at hTimed
    exact hTimed
  have hStep : 0 ≤ wait s.elapsed due := le_max_right _ _
  have hReloaded : s.reloaded.state = .firing due := by rw [hSound.reloaded_eq, hState]
  have hStart : s.reloaded.elapsed = 0 := by rw [hSound.reloaded_eq, new]
  obtain ⟨hIdle, hSpec⟩ := later_of_firing hState hStep pool
  rw [if_pos (le_wait s.elapsed due)] at hIdle
  obtain ⟨hFiring, -⟩ := later_of_firing hReloaded hStep pool
  rw [hStart, zero_add, if_neg (not_le.mpr (wait_lt hSound.elapsed hDue hClock))] at hFiring
  -- now the saved weapon is ready, and the loaded one is not
  have hAction := same_action hSame [⟨wait s.elapsed due, {}, 0⟩] ⟨0, { primary := true }, 0⟩
  have hEmpty := tick_of_firing hFiring 0 { primary := true }
    ((later (s.reloaded, pool) ⟨wait s.elapsed due, {}, 0⟩).2.2.add 0)
  refine action_of_idle hIdle (by rwa [hSpec, hSound.spec]) 0
    ((later (s, pool) ⟨wait s.elapsed due, {}, 0⟩).2.2.add 0) ?_
  exact hAction.trans (congrArg Prod.fst hEmpty)

theorem told_by_overcharge (hSound : Sound spec s) {since : K} (hState : s.state = .charging since)
    (hClock : s.elapsed ≠ 0) (pool : AmmoPool) : ¬ Indistinguishable later (s, pool) (s.reloaded, pool) := by
  intro hSame
  have hSince : 0 ≤ since := by
    have hTimed := hSound.timed
    rw [hState] at hTimed
    exact hTimed
  have hElapsed := lt_of_le_of_ne hSound.elapsed (Ne.symm hClock)
  have hReloaded : s.reloaded.state = .charging since := by rw [hSound.reloaded_eq, hState]
  have hStart : s.reloaded.elapsed = 0 := by rw [hSound.reloaded_eq, new]
  let dt := wait (s.elapsed - since) gaussOverchargeSeconds
  have hStep : 0 ≤ dt := le_max_right _ _
  have hDone := le_wait (s.elapsed - since) gaussOverchargeSeconds
  have hNotDone : dt - since < gaussOverchargeSeconds := by
    have hTen : (0 : K) < gaussOverchargeSeconds := by
      unfold gaussOverchargeSeconds
      norm_num
    have hMax : dt < gaussOverchargeSeconds + since := max_lt (by linarith) (by linarith)
    linarith
  have hAction : (s.tick dt { secondary := true } (pool.add 0)).1 =
      (s.reloaded.tick dt { secondary := true } (pool.add 0)).1 :=
    same_action hSame [] ⟨dt, { secondary := true }, 0⟩
  have hHeld : gaussOverchargeSeconds ≤ s.elapsed + dt - since := by linarith
  rw [action_of_charging hState hStep, action_of_charging hReloaded hStep, hStart, zero_add,
    if_pos hHeld, if_neg (not_le.mpr hNotDone)] at hAction
  cases hAction

/-- A loaded weapon does what the saved one would have done exactly when no timer was running
against a clock that had moved. -/
theorem reloaded_indistinguishable_iff (hReached : Reached spec s) (hKind : spec.kind ≠ .beam)
    (hCharge : s.pendingChargeDamage = none) (hSelf : s.pendingSelfDamage = none) (pool : AmmoPool) :
    Indistinguishable later (s, pool) (s.reloaded, pool) ↔ s.Timeless := by
  have hSound := sound_of_reached hKind hReached
  constructor
  · intro hSame
    unfold Timeless
    cases hState : s.state with
    | idle => trivial
    | holstered => trivial
    | beam => trivial
    | firing due => exact not_not.mp fun hClock => told_by_trigger hSound hKind hState hClock pool hSame
    | reloading due => exact not_not.mp fun hClock => told_by_reload hSound hState hClock pool hSame
    | charging since => exact not_not.mp fun hClock => told_by_overcharge hSound hState hClock pool hSame
  · intro hTimeless
    have hAlike := hSound.alike_reloaded hCharge hSelf hTimeless
    exact (alikeWith_isBisimulation hKind).indistinguishable ⟨hSound, hAlike, rfl⟩

end Telling

/-! ## A glock that is saved -/

def glock : WeaponSpec ℚ where
  id := .glock
  kind := .hitscan 1 0
  clipSize := some 17
  ammo := some .nineMillimeter
  cycleTime := 3 / 10
  reloadTime := 3 / 2
  secondary := none

def reserve : AmmoPool := ⟨.nineMillimeter, 0, 250, Nat.zero_le _⟩

def drawnGlock : FiringState ℚ := ((new glock).tick 1 { select := true } reserve).2.1.setClip 17

theorem reached_drawnGlock : Reached glock drawnGlock := .setClip 17 (.tick 1 { select := true } reserve .new)

theorem reloaded_indistinguishable_drawnGlock :
    Indistinguishable later (drawnGlock, reserve) (drawnGlock.reloaded, reserve) :=
  (reloaded_indistinguishable_iff reached_drawnGlock nofun rfl rfl reserve).mpr trivial

def firedGlock : FiringState ℚ := (drawnGlock.tick 0 { primary := true } reserve).2.1

theorem reloaded_cycles_longer : ¬ ∀ (spec : WeaponSpec ℚ) (s : FiringState ℚ) (pool : AmmoPool),
    Reached spec s → spec.kind ≠ .beam → s.pendingChargeDamage = none → s.pendingSelfDamage = none →
      Indistinguishable later (s, pool) (s.reloaded, pool) := by
  intro h
  have hReached : Reached glock firedGlock := .tick 0 { primary := true } reserve reached_drawnGlock
  have hSame := h glock firedGlock reserve hReached nofun rfl rfl
  have hAnswers := congrArg (List.map Output.action) (hSame [⟨1 / 2, {}, 0⟩, ⟨0, { primary := true }, 0⟩])
  have hSaved : (answers later (firedGlock, reserve) [⟨1 / 2, {}, 0⟩, ⟨0, { primary := true }, 0⟩]).map
      Output.action = [.empty, .hitscan 1 0] := by decide +kernel
  have hLoaded : (answers later (firedGlock.reloaded, reserve)
      [⟨1 / 2, {}, 0⟩, ⟨0, { primary := true }, 0⟩]).map Output.action = [.empty, .empty] := by decide +kernel
  rw [hSaved, hLoaded] at hAnswers
  revert hAnswers
  decide

end FiringState

end OpenHalfLife.Combat
