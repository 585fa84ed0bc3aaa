import OpenHalfLife.Combat.Weapons
import Mathlib.Algebra.Order.Field.Basic
import Mathlib.Algebra.Order.Floor.Defs
import Mathlib.Algebra.Order.Ring.Basic

/-! # The firing state of a weapon

Timers are places on a clock that each tick moves on. Times are exact; a step
that is not finite counts as one that is not positive, and both as none.
-/

namespace OpenHalfLife.Combat

set_option autoImplicit false

variable {K : Type*} [Field K] [LinearOrder K]

def gaussOverchargeSeconds : K := (10 : Nat)

def gaussOverchargeSelfDamage : K := (50 : Nat)

def gaussChargeDamageRange : K × K := ((25 : Nat), (200 : Nat))

/-- `f32::MAX` -/
def f32Max : K := (2 ^ 128 - 2 ^ 104 : Nat)

/-- `f32::MIN_POSITIVE` -/
def f32MinPositive : K := 1 / (2 ^ 126 : Nat)

inductive FireState (K : Type*)
  | idle
  | firing (due : K)
  | reloading (due : K)
  | charging (since : K)
  | beam
  | holstered
  deriving DecidableEq

structure FiringState (K : Type*) where
  spec : WeaponSpec K
  state : FireState K
  clip : Nat
  elapsed : K
  beamAccum : K
  pendingChargeDamage : Option K
  pendingSelfDamage : Option K

namespace FiringState

def new (spec : WeaponSpec K) : FiringState K where
  spec := spec
  state := .holstered
  clip := 0
  elapsed := 0
  beamAccum := spec.cycleTime
  pendingChargeDamage := none
  pendingSelfDamage := none

def setClip (s : FiringState K) (rounds : Nat) : FiringState K :=
  { s with clip := min rounds (s.spec.clipSize.getD 0) }

/-! ## The summary that is saved -/

def stateTagAndTimer (s : FiringState K) : Nat × K :=
  match s.state with
  | .idle => (0, 0)
  | .firing due => (1, due)
  | .reloading due => (2, due)
  | .charging since => (3, since)
  | .beam => (4, 0)
  | .holstered => (5, 0)

def restore (spec : WeaponSpec K) (clip stateTag : Nat) (timer : K) : FiringState K :=
  let timer := max timer 0
  let state := match stateTag with
    | 1 => .firing timer
    | 2 => .reloading timer
    | 3 => .charging timer
    | 4 => .beam
    | 5 => .holstered
    | _ => .idle
  { new spec with state := state }.setClip clip

/-! ## Damage outputs -/

def takeChargeDamage (s : FiringState K) : Option K × FiringState K :=
  (s.pendingChargeDamage, { s with pendingChargeDamage := none })

def takeSelfDamage (s : FiringState K) : Option K × FiringState K :=
  (s.pendingSelfDamage, { s with pendingSelfDamage := none })

def cancelTriggerActions (s : FiringState K) : FiringState K :=
  let state := match s.state with
    | .charging _ => .idle
    | .beam => .idle
    | state => state
  { s with state := state, pendingChargeDamage := none, pendingSelfDamage := none }

/-! ## Stages -/

abbrev Ticked (K : Type*) := WeaponAction K × FiringState K × AmmoPool

def tickHolstered (s : FiringState K) (input : WeaponInput) : WeaponAction K × FiringState K :=
  if input.select = false then (.empty, s)
  else (.playSequence .draw, { s with state := .idle })

def tickFiring (s : FiringState K) (due : K) : WeaponAction K × FiringState K :=
  (.empty, if due ≤ s.elapsed then { s with state := .idle } else s)

def tickReloading (s : FiringState K) (due : K) (pool : AmmoPool) : Ticked K :=
  if s.elapsed < due then (.empty, s, pool)
  else match s.spec.clipSize with
    | none => (.playSequence .idle, { s with state := .idle }, pool)
    | some clipSize =>
      let (taken, pool) := pool.takeUpTo (clipSize - s.clip)
      (.playSequence .idle, { s with clip := s.clip + taken, state := .idle }, pool)

/-- The remainder of `%` on values that are not negative. -/
def remainder [FloorRing K] (x y : K) : K := x - y * ⌊x / y⌋

def tickBeam [FloorRing K] (s : FiringState K) (input : WeaponInput) (pool : AmmoPool) : Ticked K :=
  if input.primary = false ∨ pool.isEmpty then (.playSequence .idle, { s with state := .idle }, pool)
  else
    let interval := max s.spec.cycleTime f32MinPositive
    let tolerance := interval / (100000 : Nat)
    if s.beamAccum + tolerance < interval then (.empty, s, pool)
    else
      let left := remainder (max (s.beamAccum - interval) 0) interval
      (.beamTick, { s with beamAccum := if interval ≤ left + tolerance then 0 else left },
        (pool.takeUpTo 1).2)

def tickCharging (s : FiringState K) (since : K) (input : WeaponInput) (pool : AmmoPool) : Ticked K :=
  let held := s.elapsed - since
  if gaussOverchargeSeconds ≤ held then
    (.sound .overcharge,
      { s with state := .idle, pendingSelfDamage := some gaussOverchargeSelfDamage }, pool)
  else if input.secondary then (.empty, s, pool)
  else
    let fraction := max 0 (min (held / gaussOverchargeSeconds) 1)
    let (low, high) : K × K := gaussChargeDamageRange
    (.hitscan 1 0,
      { s with state := .idle, pendingChargeDamage := some (low + fraction * (high - low)) },
      (pool.takeUpTo 1).2)

/-! ## The idle weapon -/

def wantsReload (s : FiringState K) (pool : AmmoPool) : Bool :=
  match s.spec.clipSize with
  | some clipSize => s.clip < clipSize && !pool.isEmpty
  | none => false

def hasPrimaryAmmo (s : FiringState K) (pool : AmmoPool) : Bool :=
  match s.spec.clipSize with
  | some _ => 0 < s.clip
  | none => s.spec.ammo.isNone || !pool.isEmpty

def consumePrimaryRound (s : FiringState K) (pool : AmmoPool) : FiringState K × AmmoPool :=
  match s.spec.clipSize with
  | some _ => ({ s with clip := s.clip - 1 }, pool)
  | none => (s, if s.spec.ammo.isSome then (pool.takeUpTo 1).2 else pool)

def actionForKind (kind : WeaponKind K) (id : WeaponId) : WeaponAction K :=
  match kind with
  | .melee => .melee
  | .hitscan pellets spread => .hitscan pellets spread
  | .projectile speed => .spawnProjectile id speed
  | .beam => .empty
  | .charge => .empty

def cycling (s : FiringState K) (cycleTime : K) : FiringState K :=
  { s with state := .firing (s.elapsed + max cycleTime 0) }

def shoot (s : FiringState K) (action : WeaponAction K) (pool : AmmoPool) : Ticked K :=
  if s.hasPrimaryAmmo pool = false then (.sound .dryFire, s, pool)
  else
    let (s, pool) := s.consumePrimaryRound pool
    (action, s.cycling s.spec.cycleTime, pool)

def firePrimary [FloorRing K] (s : FiringState K) (pool : AmmoPool) : Ticked K :=
  match s.spec.kind with
  | .beam =>
    if pool.isEmpty then (.sound .dryFire, s, pool)
    else { s with state := .beam }.tickBeam { primary := true } pool
  | .charge => s.shoot (.hitscan 1 0) pool
  | kind => s.shoot (actionForKind kind s.spec.id) pool

def alternate (s : FiringState K) (secondary : SecondaryFire K) (pool : AmmoPool) : Ticked K :=
  if secondary.ammo.isSome then
    if pool.isEmpty then (.sound .dryFire, s, pool)
    else (actionForKind secondary.kind s.spec.id, s.cycling secondary.cycleTime, (pool.takeUpTo 1).2)
  -- without ammunition of its own it draws on the clip
  else if s.clip = 0 then (.sound .dryFire, s, pool)
  else (actionForKind secondary.kind s.spec.id, { s with clip := s.clip - 1 }.cycling secondary.cycleTime, pool)

def fireSecondary (s : FiringState K) (pool : AmmoPool) : Ticked K :=
  match s.spec.kind with
  | .charge =>
    if s.spec.ammo.isSome ∧ pool.isEmpty then (.sound .dryFire, s, pool)
    else (.empty, { s with state := .charging s.elapsed }, pool)
  | _ =>
    match s.spec.secondary with
    | none => (.empty, s, pool)
    | some secondary => s.alternate secondary pool

def tickIdle [FloorRing K] (s : FiringState K) (input : WeaponInput) (pool : AmmoPool) : Ticked K :=
  if input.reload ∧ s.wantsReload pool then
    (.sound .reload, { s with state := .reloading (s.elapsed + max s.spec.reloadTime 0) }, pool)
  else if input.primary then s.firePrimary pool
  else if input.secondary then s.fireSecondary pool
  else (.empty, s, pool)

/-! ## Ticks -/

def advancePassive (s : FiringState K) (dt : K) (pool : AmmoPool) : FiringState K × AmmoPool :=
  let s := s.cancelTriggerActions
  let dt := if 0 < dt then dt else 0
  let s := { s with
    elapsed := min (s.elapsed + dt) f32Max
    beamAccum := min (s.beamAccum + dt) s.spec.cycleTime }
  match s.state with
  | .firing due => ((s.tickFiring due).2, pool)
  | .reloading due => (s.tickReloading due pool).2
  | _ => (s, pool)

def pass (s : FiringState K) (dt : K) : FiringState K :=
  let dt := if 0 < dt then dt else 0
  let beamAccum := s.beamAccum + dt
  { s with
    elapsed := s.elapsed + dt
    beamAccum := match s.state with
      | .beam => beamAccum
      | _ => min beamAccum s.spec.cycleTime }

def tick [FloorRing K] (s : FiringState K) (dt : K) (input : WeaponInput) (pool : AmmoPool) : Ticked K :=
  let s := s.pass dt
  match s.state with
  | .holstered =>
    let (action, s) := s.tickHolstered input
    (action, s, pool)
  | .firing due =>
    let (action, s) := s.tickFiring due
    (action, s, pool)
  | .reloading due => s.tickReloading due pool
  | .beam => s.tickBeam input pool
  | .charging since => s.tickCharging since input pool
  | .idle => s.tickIdle input pool

end FiringState

end OpenHalfLife.Combat

namespace OpenHalfLife.Combat

set_option autoImplicit false

/-! ## The states a weapon reaches -/

variable {K : Type*} [Field K] [LinearOrder K]

/-- The timer of a stage is a place on the clock; a weapon that fires no beam has no beam. -/
def FireState.Timed : FireState K → Prop
  | .firing due => 0 ≤ due
  | .reloading due => 0 ≤ due
  | .charging since => 0 ≤ since
  | .beam => False
  | _ => True

namespace FiringState

/-- The weapon that a save of `s` is loaded to. -/
def reloaded (s : FiringState K) : FiringState K :=
  restore s.spec s.clip s.stateTagAndTimer.1 s.stateTagAndTimer.2

inductive Reached [FloorRing K] (spec : WeaponSpec K) : FiringState K → Prop
  | new : Reached spec (new spec)
  | tick {s : FiringState K} (dt : K) (input : WeaponInput) (pool : AmmoPool) :
    Reached spec s → Reached spec (s.tick dt input pool).2.1
  | advancePassive {s : FiringState K} (dt : K) (pool : AmmoPool) :
    Reached spec s → Reached spec (s.advancePassive dt pool).1
  | setClip {s : FiringState K} (rounds : Nat) : Reached spec s → Reached spec (s.setClip rounds)
  | cancelTriggerActions {s : FiringState K} : Reached spec s → Reached spec s.cancelTriggerActions
  | takeChargeDamage {s : FiringState K} : Reached spec s → Reached spec s.takeChargeDamage.2
  | takeSelfDamage {s : FiringState K} : Reached spec s → Reached spec s.takeSelfDamage.2
  | reloaded {s : FiringState K} : Reached spec s → Reached spec s.reloaded

structure Sound (spec : WeaponSpec K) (s : FiringState K) : Prop where
  spec : s.spec = spec
  elapsed : 0 ≤ s.elapsed
  clip : s.clip ≤ s.spec.clipSize.getD 0
  timed : s.state.Timed

section Sound

variable {spec : WeaponSpec K} {s : FiringState K}

theorem Sound.withState (h : Sound spec s) {state : FireState K} (hTimed : state.Timed) :
    Sound spec { s with state := state } := ⟨h.spec, h.elapsed, h.clip, hTimed⟩

theorem Sound.withClip (h : Sound spec s) {clip : Nat} (hClip : clip ≤ s.spec.clipSize.getD 0) :
    Sound spec { s with clip := clip } := ⟨h.spec, h.elapsed, hClip, h.timed⟩

theorem sound_new : Sound spec (new spec) := ⟨rfl, le_rfl, Nat.zero_le _, trivial⟩

theorem Sound.cancelTriggerActions (h : Sound spec s) : Sound spec s.cancelTriggerActions := by
  refine ⟨h.spec, h.elapsed, h.clip, ?_⟩
  have hTimed := h.timed
  unfold FiringState.cancelTriggerActions
  cases hState : s.state with
  | charging since => trivial
  | beam => trivial
  | idle => trivial
  | holstered => trivial
  | firing due =>
    rw [hState] at hTimed
    exact hTimed
  | reloading due =>
    rw [hState] at hTimed
    exact hTimed

theorem Sound.tickFiring (h : Sound spec s) (due : K) : Sound spec (s.tickFiring due).2 := by
  unfold FiringState.tickFiring
  dsimp only
  split
  · exact h.withState trivial
  · exact h

theorem Sound.tickReloading (h : Sound spec s) (due : K) (pool : AmmoPool) :
    Sound spec (s.tickReloading due pool).2.1 := by
  unfold FiringState.tickReloading
  split
  · exact h
  · split
    · exact h.withState trivial
    · rename_i clipSize hSize
      suffices hFilled : s.clip + (pool.takeUpTo (clipSize - s.clip)).1 ≤ s.spec.clipSize.getD 0 from
        ⟨h.spec, h.elapsed, hFilled, trivial⟩
      have hClip := h.clip
      rw [hSize, Option.getD_some] at hClip ⊢
      have hTaken : (pool.takeUpTo (clipSize - s.clip)).1 ≤ clipSize - s.clip := Nat.min_le_left _ _
      omega

theorem Sound.tickCharging (h : Sound spec s) (since : K) (input : WeaponInput) (pool : AmmoPool) :
    Sound spec (s.tickCharging since input pool).2.1 := by
  unfold FiringState.tickCharging
  dsimp only
  split
  · exact ⟨h.spec, h.elapsed, h.clip, trivial⟩
  · split
    · exact h
    · exact ⟨h.spec, h.elapsed, h.clip, trivial⟩

theorem Sound.reloaded_eq (h : Sound spec s) : s.reloaded = { new spec with state := s.state, clip := s.clip } := by
  have hClip : min s.clip (s.spec.clipSize.getD 0) = s.clip := Nat.min_eq_left h.clip
  have hTimed := h.timed
  obtain ⟨rfl, -, -, -⟩ := h
  unfold reloaded restore stateTagAndTimer setClip
  cases hState : s.state with
  | idle => simp [new, hClip]
  | firing due =>
    rw [hState] at hTimed
    simp [new, hClip, max_eq_left (show 0 ≤ due from hTimed)]
  | reloading due =>
    rw [hState] at hTimed
    simp [new, hClip, max_eq_left (show 0 ≤ due from hTimed)]
  | charging since =>
    rw [hState] at hTimed
    simp [new, hClip, max_eq_left (show 0 ≤ since from hTimed)]
  | beam => simp [new, hClip]
  | holstered => simp [new, hClip]

theorem Sound.reloaded (h : Sound spec s) : Sound spec s.reloaded := by
  rw [h.reloaded_eq]
  exact ⟨rfl, le_rfl, h.spec ▸ h.clip, h.timed⟩

variable [IsStrictOrderedRing K]

theorem Sound.cycling (h : Sound spec s) (cycleTime : K) : Sound spec (s.cycling cycleTime) :=
  h.withState (add_nonneg h.elapsed (le_max_right _ _))

theorem Sound.pass (h : Sound spec s) (dt : K) : Sound spec (s.pass dt) := by
  refine ⟨h.spec, add_nonneg h.elapsed ?_, h.clip, h.timed⟩
  split
  · rename_i hPos
    exact le_of_lt hPos
  · exact le_rfl

theorem Sound.shoot (h : Sound spec s) (action : WeaponAction K) (pool : AmmoPool) :
    Sound spec (s.shoot action pool).2.1 := by
  unfold FiringState.shoot consumePrimaryRound
  split
  · exact h
  · cases s.spec.clipSize with
    | none => exact h.cycling _
    | some _ => exact (h.withClip (Nat.le_trans (Nat.sub_le _ _) h.clip)).cycling _

theorem Sound.firePrimary [FloorRing K] (h : Sound spec s) (hKind : spec.kind ≠ .beam) (pool : AmmoPool) :
    Sound spec (s.firePrimary pool).2.1 := by
  rw [← h.spec] at hKind
  unfold FiringState.firePrimary
  split
  · rename_i hBeam
    exact (hKind hBeam).elim
  · exact h.shoot _ _
  · exact h.shoot _ _

theorem Sound.alternate (h : Sound spec s) (secondary : SecondaryFire K) (pool : AmmoPool) :
    Sound spec (s.alternate secondary pool).2.1 := by
  have hFewer : Sound spec { s with clip := s.clip - 1 } := h.withClip (Nat.le_trans (Nat.sub_le _ _) h.clip)
  unfold FiringState.alternate
  split
  · split
    · exact h
    · exact h.cycling _
  · split
    · exact h
    · exact hFewer.cycling _

theorem Sound.fireSecondary (h : Sound spec s) (pool : AmmoPool) : Sound spec (s.fireSecondary pool).2.1 := by
  unfold FiringState.fireSecondary
  split
  · split
    · exact h
    · exact h.withState h.elapsed
  · split
    · exact h
    · exact h.alternate _ pool

theorem Sound.tickIdle [FloorRing K] (h : Sound spec s) (hKind : spec.kind ≠ .beam) (input : WeaponInput)
    (pool : AmmoPool) : Sound spec (s.tickIdle input pool).2.1 := by
  unfold FiringState.tickIdle
  split
  · exact h.withState (add_nonneg h.elapsed (le_max_right _ _))
  · split
    · exact h.firePrimary hKind pool
    · split
      · exact h.fireSecondary pool
      · exact h

theorem Sound.tick [FloorRing K] (h : Sound spec s) (hKind : spec.kind ≠ .beam) (dt : K) (input : WeaponInput)
    (pool : AmmoPool) : Sound spec (s.tick dt input pool).2.1 := by
  have hPass := h.pass dt
  unfold FiringState.tick
  dsimp only
  split
  · unfold tickHolstered
    split
    · exact hPass
    · exact hPass.withState trivial
  · exact hPass.tickFiring _
  · exact hPass.tickReloading _ pool
  · rename_i hBeam
    have hTimed := hPass.timed
    rw [hBeam] at hTimed
    exact hTimed.elim
  · exact hPass.tickCharging _ input pool
  · exact hPass.tickIdle hKind input pool

theorem Sound.advancePassive (h : Sound spec s) (dt : K) (pool : AmmoPool) :
    Sound spec (s.advancePassive dt pool).1 := by
  have hMax : (0 : K) ≤ f32Max := Nat.cast_nonneg _
  have hStep : (0 : K) ≤ if 0 < dt then dt else 0 := by
    split
    · rename_i hPos
      exact le_of_lt hPos
    · exact le_rfl
  have hCancelled := h.cancelTriggerActions
  have hPassed : Sound spec { s.cancelTriggerActions with
      elapsed := min (s.cancelTriggerActions.elapsed + if 0 < dt then dt else 0) f32Max
      beamAccum := min (s.cancelTriggerActions.beamAccum + if 0 < dt then dt else 0)
        s.cancelTriggerActions.spec.cycleTime } :=
    ⟨hCancelled.spec, le_min (add_nonneg hCancelled.elapsed hStep) hMax, hCancelled.clip, hCancelled.timed⟩
  unfold FiringState.advancePassive
  dsimp only
  split
  · exact hPassed.tickFiring _
  · exact hPassed.tickReloading _ pool
  · exact hPassed

theorem sound_of_reached [FloorRing K] (hKind : spec.kind ≠ .beam) (hReached : Reached spec s) : Sound spec s := by
  induction hReached with
  | new => exact sound_new
  | tick dt input pool _ ih => exact ih.tick hKind dt input pool
  | advancePassive dt pool _ ih => exact ih.advancePassive dt pool
  | setClip rounds _ ih => exact ih.withClip (Nat.min_le_right _ _)
  | cancelTriggerActions _ ih => exact ih.cancelTriggerActions
  | takeChargeDamage _ ih => exact ⟨ih.spec, ih.elapsed, ih.clip, ih.timed⟩
  | takeSelfDamage _ ih => exact ⟨ih.spec, ih.elapsed, ih.clip, ih.timed⟩
  | reloaded _ ih => exact ih.reloaded

end Sound

end FiringState

end OpenHalfLife.Combat
