import OpenHalfLife.Combat.Firing
import OpenHalfLife.Combat.Weapons

/-! # No round is lost

A round leaves the clip and the pool only as a shot, and each shot takes one.
How the clocks round is left open: they may be set to anything between calls.
-/

namespace OpenHalfLife.Combat

set_option autoImplicit false

variable {K : Type*} [Field K] [LinearOrder K]

def WeaponAction.IsShot : WeaponAction K → Prop
  | .hitscan _ _ => True
  | .melee => True
  | .spawnProjectile _ _ => True
  | .beamTick => True
  | _ => False

def FireState.retimed (due : K) : FireState K → FireState K
  | .firing _ => .firing due
  | .reloading _ => .reloading due
  | .charging _ => .charging due
  | state => state

abbrev Loaded (K : Type*) := FiringState K × AmmoPool

def Loaded.rounds (load : Loaded K) : Nat := load.1.clip + load.2.current

inductive FiringCall (K : Type*)
  | tick (dt : K) (input : WeaponInput)
  | advancePassive (dt : K)
  | cancelTriggerActions
  | add (amount : Nat)
  | round (due elapsed beamAccum : K)

namespace FiringCall

def perform [FloorRing K] (call : FiringCall K) (load : Loaded K) : Option (WeaponAction K) × Loaded K :=
  match call with
  | .tick dt input => (some (load.1.tick dt input load.2).1, (load.1.tick dt input load.2).2)
  | .advancePassive dt => (none, load.1.advancePassive dt load.2)
  | .cancelTriggerActions => (none, load.1.cancelTriggerActions, load.2)
  | .add amount => (none, load.1, load.2.add amount)
  | .round due elapsed beamAccum =>
    (none, { load.1 with state := load.1.state.retimed due, elapsed, beamAccum }, load.2)

def performAll [FloorRing K] (calls : List (FiringCall K)) (load : Loaded K) : Loaded K :=
  calls.foldl (fun load call => (call.perform load).2) load

def added (call : FiringCall K) (load : Loaded K) : Nat :=
  match call with
  | .add amount => min amount (load.2.capacity - load.2.current)
  | _ => 0

end FiringCall

/-- A weapon of the table with its pool: the clip holds what fits, and a charge or a beam has a cell. -/
structure Kept (id : WeaponId) (load : Loaded K) : Prop where
  same : load.1.spec = spec id
  clip_le : load.1.clip ≤ (spec id : WeaponSpec K).clipSize.getD 0
  charging : ∀ since, load.1.state = .charging since →
    ¬(spec id : WeaponSpec K).kind.Shoots ∧ load.2.isEmpty = false
  beam : load.1.state = .beam → ¬(spec id : WeaponSpec K).kind.Shoots

/-- What becomes of `rounds` rounds when `action` is taken. -/
structure Pays (id : WeaponId) (rounds : Nat) (action : Option (WeaponAction K)) (after : Loaded K) : Prop where
  clip_le : after.1.clip ≤ (spec id : WeaponSpec K).clipSize.getD 0
  shot : (∃ shot ∈ action, shot.IsShot) → (spec id : WeaponSpec K).UsesRounds → after.rounds + 1 = rounds
  free : (∃ shot ∈ action, shot.IsShot) → ¬(spec id : WeaponSpec K).UsesRounds → after.rounds = rounds
  other : (¬∃ shot ∈ action, shot.IsShot) → after.rounds = rounds

section Rounds

variable {id : WeaponId} {rounds : Nat} {after : Loaded K} {s : FiringState K} {pool : AmmoPool}
  {action : WeaponAction K}

def Fair (id : WeaponId) (rounds : Nat) (result : FiringState.Ticked K) : Prop :=
  Kept id result.2 ∧ Pays id rounds (some result.1) result.2

omit [LinearOrder K] in
theorem Kept.quiet (h : Kept id after) (hQuiet : ¬action.IsShot) (hRounds : after.rounds = rounds) :
    Fair id rounds (action, after) := by
  have hNone : ¬∃ shot ∈ some action, shot.IsShot := by
    rintro ⟨_, ⟨⟩, hShot⟩
    exact hQuiet hShot
  exact ⟨h, h.clip_le, fun hShot => absurd hShot hNone, fun hShot => absurd hShot hNone, fun _ => hRounds⟩

omit [LinearOrder K] in
theorem Kept.fires (h : Kept id after) (hShot : action.IsShot) (hUses : (spec id : WeaponSpec K).UsesRounds)
    (hRounds : after.rounds + 1 = rounds) : Fair id rounds (action, after) :=
  ⟨h, h.clip_le, fun _ _ => hRounds, fun _ hFree => absurd hUses hFree, fun hNone => absurd ⟨action, rfl, hShot⟩ hNone⟩

omit [LinearOrder K] in
theorem Kept.strikes (h : Kept id after) (hShot : action.IsShot) (hFree : ¬(spec id : WeaponSpec K).UsesRounds)
    (hRounds : after.rounds = rounds) : Fair id rounds (action, after) :=
  ⟨h, h.clip_le, fun _ hUses => absurd hUses hFree, fun _ _ => hRounds, fun hNone => absurd ⟨action, rfl, hShot⟩ hNone⟩

omit [LinearOrder K] in
theorem Kept.idle (h : Kept id (s, pool)) : Kept id ({ s with state := .idle }, pool) :=
  ⟨h.same, h.clip_le, nofun, nofun⟩

theorem takeOne_current (hPool : pool.isEmpty = false) : (pool.takeUpTo 1).2.current + 1 = pool.current := by
  have hSome : pool.current ≠ 0 := by simpa [AmmoPool.isEmpty] using hPool
  simp only [AmmoPool.takeUpTo]
  omega

omit [Field K] [LinearOrder K] in
theorem actionForKind_isShot {kind : WeaponKind K} (h : kind.Shoots) (id : WeaponId) :
    (FiringState.actionForKind kind id).IsShot := by
  cases kind with
  | melee => trivial
  | hitscan pellets spread => trivial
  | projectile speed => trivial
  | beam => exact h
  | charge => exact h

omit [LinearOrder K] in
theorem Kept.tickHolstered (h : Kept id (s, pool)) (input : WeaponInput) :
    Fair id (Loaded.rounds (s, pool)) ((s.tickHolstered input).1, (s.tickHolstered input).2, pool) := by
  unfold FiringState.tickHolstered
  split
  · exact h.quiet (·) rfl
  · exact h.idle.quiet (·) rfl

theorem Kept.cycled (h : Kept id (s, pool)) (due : K) :
    Kept id ((s.tickFiring due).2, pool) ∧
      Loaded.rounds ((s.tickFiring due).2, pool) = Loaded.rounds (s, pool) := by
  unfold FiringState.tickFiring
  dsimp only
  split
  · exact ⟨h.idle, rfl⟩
  · exact ⟨h, rfl⟩

theorem Kept.tickFiring (h : Kept id (s, pool)) (due : K) :
    Fair id (Loaded.rounds (s, pool)) ((s.tickFiring due).1, (s.tickFiring due).2, pool) :=
  (h.cycled due).1.quiet (·) (h.cycled due).2

theorem Kept.reload (h : Kept id (s, pool)) (due : K) :
    Kept id (s.tickReloading due pool).2 ∧ ¬(s.tickReloading due pool).1.IsShot ∧
      Loaded.rounds (s.tickReloading due pool).2 = Loaded.rounds (s, pool) := by
  unfold FiringState.tickReloading
  split
  · exact ⟨h, (·), rfl⟩
  · split
    · exact ⟨h.idle, (·), rfl⟩
    · rename_i clipSize hSize
      have hClip := h.clip_le
      have hSpec := h.same
      dsimp only at hSpec hClip
      rw [hSpec] at hSize
      rw [hSize, Option.getD_some] at hClip
      refine ⟨⟨h.same, ?_, nofun, nofun⟩, (·), ?_⟩
      · rw [hSize, Option.getD_some]
        exact (Nat.add_le_add_left (Nat.min_le_left _ _) _).trans (Nat.add_sub_cancel' hClip).le
      · simp only [Loaded.rounds, AmmoPool.takeUpTo]
        omega

theorem Kept.tickReloading (h : Kept id (s, pool)) (due : K) :
    Fair id (Loaded.rounds (s, pool)) (s.tickReloading due pool) := by
  obtain ⟨hKept, hQuiet, hRounds⟩ := h.reload due
  exact hKept.quiet hQuiet hRounds

omit [LinearOrder K] in
theorem Kept.feeds (hPooled : ¬(spec id : WeaponSpec K).kind.Shoots)
    (hPool : pool.isEmpty = false) (hShot : action.IsShot) (hAfter : Kept id after) (hClip : after.1.clip = s.clip)
    (hTaken : after.2 = (pool.takeUpTo 1).2) : Fair id (Loaded.rounds (s, pool)) (action, after) := by
  refine hAfter.fires hShot (.inr ((consistent_spec id).pooled hPooled).2) ?_
  have hOne := takeOne_current hPool
  simp only [Loaded.rounds, hClip, hTaken]
  omega

theorem Kept.tickBeam [FloorRing K] (h : Kept id (s, pool)) (hBeam : s.state = .beam) (input : WeaponInput) :
    Fair id (Loaded.rounds (s, pool)) (s.tickBeam input pool) := by
  unfold FiringState.tickBeam
  split
  · exact h.idle.quiet (·) rfl
  · rename_i hHeld
    have hPool : pool.isEmpty = false := by simpa using (not_or.mp hHeld).2
    dsimp only
    split
    · exact h.quiet (·) rfl
    · refine Kept.feeds (h.beam hBeam) hPool trivial ⟨h.same, h.clip_le, fun since hCharging => ?_, h.beam⟩ rfl rfl
      cases hBeam.symm.trans hCharging

theorem Kept.tickCharging (h : Kept id (s, pool)) {since : K} (hCharging : s.state = .charging since)
    (input : WeaponInput) : Fair id (Loaded.rounds (s, pool)) (s.tickCharging since input pool) := by
  obtain ⟨hPooled, hPool⟩ := h.charging since hCharging
  unfold FiringState.tickCharging
  dsimp only
  split
  · exact Kept.quiet ⟨h.same, h.clip_le, nofun, nofun⟩ (·) rfl
  · split
    · exact h.quiet (·) rfl
    · exact Kept.feeds hPooled hPool trivial ⟨h.same, h.clip_le, nofun, nofun⟩ rfl rfl

theorem Kept.shoot (h : Kept id (s, pool)) (hShot : action.IsShot) :
    Fair id (Loaded.rounds (s, pool)) (s.shoot action pool) := by
  obtain ⟨same, state, clip, elapsed, beamAccum, charge, self⟩ := s
  obtain rfl : same = spec id := h.same
  have hClip : clip ≤ (spec id : WeaponSpec K).clipSize.getD 0 := h.clip_le
  unfold FiringState.shoot FiringState.hasPrimaryAmmo FiringState.consumePrimaryRound
  dsimp only
  cases hSize : (spec id : WeaponSpec K).clipSize with
  | some clipSize =>
    dsimp only
    split
    · exact h.quiet (·) rfl
    · rename_i hLoaded
      have hLoaded : 0 < clip := by simpa [Nat.pos_iff_ne_zero] using hLoaded
      refine Kept.fires ⟨rfl, (Nat.sub_le _ _).trans hClip, nofun, nofun⟩ hShot (.inl (hSize ▸ rfl)) ?_
      simp only [Loaded.rounds, FiringState.cycling]
      omega
  | none =>
    dsimp only
    cases hAmmo : (spec id : WeaponSpec K).ammo with
    | some kind =>
      simp only [Option.isNone_some, Option.isSome_some, if_true, Bool.false_or]
      split
      · exact h.quiet (·) rfl
      · rename_i hPool
        have hOne := takeOne_current (Bool.eq_false_iff.mpr fun hEmpty => hPool (by rw [hEmpty]; rfl))
        refine Kept.fires ⟨rfl, hClip, nofun, nofun⟩ hShot (.inr (hAmmo ▸ rfl)) ?_
        simp only [Loaded.rounds, FiringState.cycling]
        omega
    | none =>
      simp only [Option.isNone_none, Option.isSome_none, Bool.true_or, Bool.true_eq_false, if_false,
        Bool.false_eq_true]
      exact Kept.strikes ⟨rfl, hClip, nofun, nofun⟩ hShot (by simp [WeaponSpec.UsesRounds, hSize, hAmmo]) rfl

theorem Kept.firePrimary [FloorRing K] (h : Kept id (s, pool)) :
    Fair id (Loaded.rounds (s, pool)) (s.firePrimary pool) := by
  have hSpec : s.spec = spec id := h.same
  unfold FiringState.firePrimary
  split
  · rename_i hKind
    rw [hSpec] at hKind
    have hBeam : ¬(spec id : WeaponSpec K).kind.Shoots := by
      rw [hKind]
      exact (·)
    split
    · exact h.quiet (·) rfl
    · have hOn : Kept id ({ s with state := .beam }, pool) := ⟨h.same, h.clip_le, nofun, fun _ => hBeam⟩
      exact hOn.tickBeam rfl _
  · exact h.shoot trivial
  · rename_i hBeam hCharge
    refine h.shoot (actionForKind_isShot ?_ _)
    cases hKind : s.spec.kind with
    | beam => exact hBeam hKind
    | charge => exact hCharge hKind
    | _ => trivial

theorem Kept.alternate (h : Kept id (s, pool)) {second : SecondaryFire K}
    (hSecond : second ∈ (spec id : WeaponSpec K).secondary) :
    Fair id (Loaded.rounds (s, pool)) (s.alternate second pool) := by
  obtain ⟨hShoots, hClipped⟩ := (consistent_spec id).alternate second hSecond
  have hShot := actionForKind_isShot hShoots s.spec.id
  unfold FiringState.alternate
  split
  · split
    · exact h.quiet (·) rfl
    · rename_i hPool
      have hOne := takeOne_current (Bool.eq_false_iff.mpr hPool)
      refine Kept.fires ⟨h.same, h.clip_le, nofun, nofun⟩ hShot (.inl hClipped) ?_
      simp only [Loaded.rounds, FiringState.cycling]
      omega
  · split
    · exact h.quiet (·) rfl
    · rename_i hLoaded
      refine Kept.fires ⟨h.same, (Nat.sub_le _ _).trans h.clip_le, nofun, nofun⟩ hShot (.inl hClipped) ?_
      simp only [Loaded.rounds, FiringState.cycling]
      omega

theorem Kept.fireSecondary (h : Kept id (s, pool)) : Fair id (Loaded.rounds (s, pool)) (s.fireSecondary pool) := by
  have hSpec : s.spec = spec id := h.same
  unfold FiringState.fireSecondary
  split
  · rename_i hKind
    rw [hSpec] at hKind
    have hCharge : ¬(spec id : WeaponSpec K).kind.Shoots := by
      rw [hKind]
      exact (·)
    split
    · exact h.quiet (·) rfl
    · rename_i hPool
      refine Kept.quiet ⟨h.same, h.clip_le, fun since hState => ⟨hCharge, ?_⟩, nofun⟩ (·) rfl
      rw [hSpec, not_and] at hPool
      exact Bool.eq_false_iff.mpr (hPool ((consistent_spec id).pooled hCharge).2)
  · split
    · exact h.quiet (·) rfl
    · rename_i second hSecond
      exact h.alternate (hSpec ▸ hSecond)

theorem Kept.tickIdle [FloorRing K] (h : Kept id (s, pool)) (input : WeaponInput) :
    Fair id (Loaded.rounds (s, pool)) (s.tickIdle input pool) := by
  unfold FiringState.tickIdle
  split
  · exact Kept.quiet ⟨h.same, h.clip_le, nofun, nofun⟩ (·) rfl
  · split
    · exact h.firePrimary
    · split
      · exact h.fireSecondary
      · exact h.quiet (·) rfl

theorem Kept.tick [FloorRing K] (h : Kept id (s, pool)) (dt : K) (input : WeaponInput) :
    Fair id (Loaded.rounds (s, pool)) (s.tick dt input pool) := by
  have hPass : Kept id (s.pass dt, pool) := ⟨h.same, h.clip_le, h.charging, h.beam⟩
  have hRounds : Loaded.rounds (s, pool) = Loaded.rounds (s.pass dt, pool) := rfl
  rw [hRounds]
  unfold FiringState.tick
  dsimp only
  split
  · exact hPass.tickHolstered input
  · exact hPass.tickFiring _
  · exact hPass.tickReloading _
  · rename_i hBeam
    exact hPass.tickBeam hBeam input
  · rename_i hCharging
    exact hPass.tickCharging hCharging input
  · exact hPass.tickIdle input

omit [LinearOrder K] in
theorem Kept.cancelTriggerActions (h : Kept id (s, pool)) : Kept id (s.cancelTriggerActions, pool) := by
  refine ⟨h.same, h.clip_le, fun since hState => ?_, fun hState => ?_⟩
  all_goals
    unfold FiringState.cancelTriggerActions at hState
    cases hStage : s.state <;> simp [hStage] at hState

theorem Kept.advancePassive (h : Kept id (s, pool)) (dt : K) :
    Kept id (s.advancePassive dt pool) ∧ Loaded.rounds (s.advancePassive dt pool) = Loaded.rounds (s, pool) := by
  have hCancelled := h.cancelTriggerActions
  have hRounds : Loaded.rounds (s, pool) = Loaded.rounds (s.cancelTriggerActions, pool) := rfl
  rw [hRounds]
  unfold FiringState.advancePassive
  generalize s.cancelTriggerActions = t at hCancelled ⊢
  have hPassed : Kept id ({ t with
      elapsed := min (t.elapsed + if 0 < dt then dt else 0) f32Max
      beamAccum := min (t.beamAccum + if 0 < dt then dt else 0) t.spec.cycleTime }, pool) :=
    ⟨hCancelled.same, hCancelled.clip_le, hCancelled.charging, hCancelled.beam⟩
  dsimp only
  split
  · exact hPassed.cycled _
  · obtain ⟨hKept, -, hSame⟩ := hPassed.reload _
    exact ⟨hKept, hSame⟩
  · exact ⟨hPassed, rfl⟩

omit [LinearOrder K] in
theorem Kept.silent (h : Kept id after) (hRounds : after.rounds = rounds) : Pays id rounds none after :=
  ⟨h.clip_le, nofun, nofun, fun _ => hRounds⟩

variable [FloorRing K] {load : Loaded K}

theorem Kept.perform (h : Kept id load) (call : FiringCall K) :
    Kept id (call.perform load).2 ∧
      Pays id (load.rounds + call.added load) (call.perform load).1 (call.perform load).2 := by
  obtain ⟨s, pool⟩ := load
  cases call with
  | tick dt input => exact h.tick dt input
  | advancePassive dt =>
    obtain ⟨hKept, hRounds⟩ := h.advancePassive dt
    exact ⟨hKept, hKept.silent hRounds⟩
  | cancelTriggerActions => exact ⟨h.cancelTriggerActions, h.cancelTriggerActions.silent rfl⟩
  | add amount =>
    have hKept : Kept id (s, pool.add amount) := by
      refine ⟨h.same, h.clip_le, fun since hState => ⟨(h.charging since hState).1, ?_⟩, h.beam⟩
      have hPool := (h.charging since hState).2
      simp only [AmmoPool.isEmpty, AmmoPool.add, beq_eq_false_iff_ne] at hPool ⊢
      omega
    exact ⟨hKept, hKept.silent (Nat.add_assoc _ _ _).symm⟩
  | round due elapsed beamAccum =>
    have hKept : Kept id ({ s with state := s.state.retimed due, elapsed, beamAccum }, pool) := by
      have hCharging := h.charging
      have hBeam := h.beam
      dsimp only at hCharging hBeam
      refine ⟨h.same, h.clip_le, fun since hState => ?_, fun hState => ?_⟩
      · cases hStage : s.state <;> simp only [FireState.retimed, hStage, reduceCtorEq] at hState
        exact hCharging _ hStage
      · cases hStage : s.state <;> simp only [FireState.retimed, hStage, reduceCtorEq] at hState
        exact hBeam hStage
    exact ⟨hKept, hKept.silent rfl⟩

theorem Kept.performAll (h : Kept id load) (calls : List (FiringCall K)) :
    Kept id (FiringCall.performAll calls load) := by
  induction calls generalizing load with
  | nil => exact h
  | cons call calls ih => exact ih (h.perform call).1

/-- Whatever is done to a weapon of the table that was loaded, the clip holds no more than it can, each shot takes
one round out of the clip or the pool of a weapon that uses any, and nothing else takes one. -/
theorem rounds_conserved (id : WeaponId) (loaded : Nat) (pool : AmmoPool) (done : List (FiringCall K))
    (call : FiringCall K) :
    let before := FiringCall.performAll done ((FiringState.new (spec id)).setClip loaded, pool)
    before.1.clip ≤ (spec id : WeaponSpec K).clipSize.getD 0 ∧
      Pays id (before.rounds + call.added before) (call.perform before).1 (call.perform before).2 := by
  have hStart : Kept id (((FiringState.new (spec id)).setClip loaded, pool) : Loaded K) :=
    ⟨rfl, Nat.min_le_right _ _, nofun, nofun⟩
  have hDone := hStart.performAll done
  exact ⟨hDone.clip_le, (hDone.perform call).2⟩

end Rounds

end OpenHalfLife.Combat
