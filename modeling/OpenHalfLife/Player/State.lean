import Mathlib.Algebra.Order.Floor.Defs
import Mathlib.Data.Fintype.Card
import OpenHalfLife.Physics.Hull
import OpenHalfLife.Player.Suit

/-! # The state of the player

A snapshot keeps the numbers of the state and of the voice as they were stored.
The state is clamped when it is restored and the voice is not, so the voice of a
player runs on stored numbers.
-/

namespace OpenHalfLife.Game.Stored

set_option autoImplicit false

variable {K : Type} [Field K] [LinearOrder K]

def isPositive : Stored K → Bool
  | .finite value => 0 < value
  | .infinite negative => !negative
  | .nan => false

def plus (value : Stored K) (other : K) : Stored K :=
  match value with
  | .finite value => .finite (value + other)
  | .infinite negative => .infinite negative
  | .nan => .nan

def times (value : Stored K) (factor : K) : Stored K :=
  match value with
  | .finite value => .finite (value * factor)
  | .infinite negative => if factor = 0 then .nan else .infinite (negative ^^ decide (factor < 0))
  | .nan => .nan

def negated : Stored K → Stored K
  | .finite value => .finite (-value)
  | .infinite negative => .infinite !negative
  | .nan => .nan

def atLeastZero : Stored K → Stored K
  | .finite value => .finite (max value 0)
  | .infinite false => .infinite false
  | .infinite true | .nan => .finite 0

def elapsed : Stored K → Bool
  | .finite value => value ≤ 0
  | .infinite negative => negative
  | .nan => false

end OpenHalfLife.Game.Stored

namespace OpenHalfLife.Player

open Game (Stored)

set_option autoImplicit false

/-! ## A voice on stored numbers -/

section Voices

variable {K : Type} [Field K] [LinearOrder K]

abbrev HeldVoice (K : Type) := SuitVoice (Stored K)

namespace HeldVoice

def new : HeldVoice K where
  remaining := Vector.replicate occasionCount (.finite 0)
  spacing := .finite 0
  raisedThisTick := 0

def tick (voice : HeldVoice K) : Stored K → HeldVoice K
  | .finite dt =>
    if dt ≤ 0 then voice
    else
      { remaining := voice.remaining.map fun remaining => (remaining.plus (-dt)).atLeastZero
        spacing := (voice.spacing.plus (-dt)).atLeastZero
        raisedThisTick := 0 }
  | _ => voice

theorem occasionIndex_lt (occasion : SuitOccasion) : (occasionIndex occasion).val < occasionCount :=
  (occasionIndex occasion).isLt

def ready (voice : HeldVoice K) (occasion : SuitOccasion) : Bool :=
  (voice.remaining.get (occasionIndex occasion)).elapsed

def raise (voice : HeldVoice K) (occasion : SuitOccasion) : HeldVoice K × Option (SuitEvent (Stored K)) :=
  if voice.ready occasion then
    let delay := voice.spacing.plus (voice.raisedThisTick * suitSpacingSeconds)
    ({ remaining := voice.remaining.set (occasionIndex occasion) (.finite suitCooldownSeconds) (occasionIndex_lt occasion)
       spacing := delay.plus suitSpacingSeconds
       raisedThisTick := min (voice.raisedThisTick + 1) 255 },
      some ⟨occasion, occasion.name, occasion.priority, delay⟩)
  else (voice, none)

end HeldVoice

def SuitVoice.held (voice : SuitVoice K) : HeldVoice K :=
  ⟨voice.remaining.map .finite, .finite voice.spacing, voice.raisedThisTick⟩

def SuitEvent.held (event : SuitEvent K) : SuitEvent (Stored K) :=
  ⟨event.occasion, event.name, event.priority, .finite event.delay⟩

theorem held_tick (voice : SuitVoice K) (dt : Stored K) : HeldVoice.tick voice.held dt = (voice.tick dt).held := by
  cases dt with
  | infinite negative => rfl
  | nan => rfl
  | finite dt =>
    unfold HeldVoice.tick SuitVoice.tick
    dsimp only
    split_ifs with hNone
    · rfl
    · simp only [SuitVoice.held, Vector.map_map, SuitVoice.mk.injEq, and_true]
      refine ⟨Vector.ext fun i hi => ?_, ?_⟩
      · simp only [Vector.getElem_map, Function.comp_apply, Stored.plus, Stored.atLeastZero, sub_eq_add_neg]
      · simp only [Stored.plus, Stored.atLeastZero, sub_eq_add_neg]

theorem held_ready (voice : SuitVoice K) (occasion : SuitOccasion) :
    HeldVoice.ready voice.held occasion = voice.ready occasion := by
  change (voice.remaining.map Stored.finite)[occasionIndex occasion].elapsed = voice.ready occasion
  simp only [SuitVoice.ready, Fin.getElem_fin, Vector.getElem_map, Stored.elapsed]

theorem held_raise (voice : SuitVoice K) (occasion : SuitOccasion) :
    HeldVoice.raise voice.held occasion = ((voice.raise occasion).1.held, (voice.raise occasion).2.map .held) := by
  unfold HeldVoice.raise SuitVoice.raise
  rw [held_ready]
  split_ifs with hOver
  · have hTimers : (voice.remaining.map Stored.finite).set (occasionIndex occasion) (.finite suitCooldownSeconds) =
        (voice.remaining.set (occasionIndex occasion) suitCooldownSeconds).map .finite := by
      refine Vector.ext fun i hi => ?_
      simp only [Vector.getElem_map, Vector.getElem_set]
      split <;> rfl
    rw [SuitVoice.held, hTimers]
    rfl
  · rfl

/-! ## The timers that are over -/

namespace HeldVoice

def overTimers (voice : HeldVoice K) : Finset (Fin occasionCount) :=
  Finset.univ.filter fun i => voice.remaining[i].elapsed

theorem card_overTimers_le (voice : HeldVoice K) : voice.overTimers.card ≤ occasionCount := by
  refine (Finset.card_le_univ _).trans ?_
  rw [Fintype.card_fin]

variable [IsStrictOrderedRing K]

theorem cooldown_not_elapsed : (Stored.finite (suitCooldownSeconds : K)).elapsed = false := by
  refine decide_eq_false (not_le.mpr ?_)
  unfold suitCooldownSeconds
  positivity

theorem card_overTimers_raise {voice : HeldVoice K} {occasion : SuitOccasion} (hReady : voice.ready occasion = true) :
    (voice.raise occasion).1.overTimers.card < voice.overTimers.card := by
  have hTimers : (voice.raise occasion).1.remaining =
      voice.remaining.set (occasionIndex occasion) (.finite suitCooldownSeconds) := by
    rw [raise, if_pos hReady]
  refine Finset.card_lt_card (Finset.ssubset_iff_of_subset (fun i hi => ?_) |>.mpr ⟨occasionIndex occasion, ?_, ?_⟩)
  · rw [overTimers, Finset.mem_filter] at hi ⊢
    refine ⟨hi.1, ?_⟩
    have hOver := hi.2
    rw [hTimers, Fin.getElem_fin, Vector.getElem_set] at hOver
    split_ifs at hOver with hSame
    · rw [cooldown_not_elapsed] at hOver
      cases hOver
    · exact hOver
  · exact Finset.mem_filter.mpr ⟨Finset.mem_univ _, hReady⟩
  · intro hi
    have hOver := (Finset.mem_filter.mp hi).2
    rw [hTimers, Fin.getElem_fin, Vector.getElem_set_self, cooldown_not_elapsed] at hOver
    cases hOver

end HeldVoice

end Voices

/-! ## Damage -/

inductive DamageKind
  | generic
  | fall
  | drown
  | burn
  | freeze
  | shock
  | acid
  | radiation
  | chemical
  | crush
  | blast
  deriving DecidableEq

namespace DamageKind

def bypassesArmor : DamageKind → Bool
  | fall | drown => true
  | _ => false

def suitOccasion : DamageKind → Option SuitOccasion
  | burn => some .heatDamage
  | shock => some .shockDamage
  | acid | chemical => some .chemicalDetected
  | radiation => some .radiationDetected
  | blast | crush => some .majorFracture
  | fall => some .minorFracture
  | drown => some .seekMedicalAttention
  | generic | freeze => none

end DamageKind

def burnBit : UInt32 := 8

def freezeBit : UInt32 := 16

def damageKindFromBits (bits : UInt32) : DamageKind :=
  if bits &&& burnBit ≠ 0 then .burn
  else if bits &&& freezeBit ≠ 0 then .freeze
  else .generic

structure DamageFlags where
  bits : UInt32
  deriving DecidableEq

namespace DamageFlags

def bit (kind : DamageKind) : UInt32 := 1 <<< UInt32.ofNat kind.ctorIdx

def insert (flags : DamageFlags) (kind : DamageKind) : DamageFlags := ⟨flags.bits ||| bit kind⟩

end DamageFlags

section Damage

variable {K : Type} [Field K] [LinearOrder K]

def armorDrainPerDamage : K := ((2 : Nat) : K) / ((5 : Nat) : K)

def healthShareOfDamage : K := 1 / ((5 : Nat) : K)

def damageCoveredPerArmor : K := ((2 : Nat) : K)

def safeFallSpeed : K := ((580 : Nat) : K)

def damagePerExcessFallSpeed : K := ((25 : Nat) : K) / ((111 : Nat) : K)

structure Absorbed (K : Type) where
  healthLoss : K
  armorLeft : K

def absorb (damage : Stored K) (armor : K) (kind : DamageKind) : Absorbed K :=
  match damage with
  | .finite damage =>
    if damage ≤ 0 then ⟨0, max armor 0⟩
    else
      let armor := max armor 0
      if kind.bypassesArmor ∨ armor ≤ 0 then ⟨damage, armor⟩
      else
        let drained := armor - armorDrainPerDamage * damage
        if 0 < drained then ⟨damage * healthShareOfDamage, drained⟩
        else ⟨max (damage - damageCoveredPerArmor * armor) 0, 0⟩
  | _ => ⟨0, max armor 0⟩

def fallDamage : Stored K → K
  | .finite speed => if speed ≤ safeFallSpeed then 0 else (speed - safeFallSpeed) * damagePerExcessFallSpeed
  | _ => 0

end Damage

/-! ## State -/

structure Flashlight (V : Type) where
  on : Bool
  charge : V

structure PlayerState (V : Type) where
  health : V
  armor : V
  suitEquipped : Bool
  flashlight : Flashlight V
  longjumpOwned : Bool
  waterlevel : Nat
  airTime : V
  damageFlags : DamageFlags
  dead : Bool

structure PlayerConfig (K : Type) where
  maxHealth : K
  maxArmor : K
  airCapacitySeconds : K
  drownIntervalSeconds : K
  drownDamage : K
  airRecoveryRate : K
  slimeDamagePerSecond : K
  lavaDamagePerSecond : K
  hurtIntervalSeconds : K
  healthCriticalFraction : K
  nearDeathFraction : K
  flashlightDrainPerSecond : K
  flashlightRechargePerSecond : K

def PlayerConfig.default {K : Type} [Field K] : PlayerConfig K where
  maxHealth := ((100 : Nat) : K)
  maxArmor := ((100 : Nat) : K)
  airCapacitySeconds := ((12 : Nat) : K)
  drownIntervalSeconds := 1
  drownDamage := ((5 : Nat) : K)
  airRecoveryRate := ((4 : Nat) : K)
  slimeDamagePerSecond := ((10 : Nat) : K)
  lavaDamagePerSecond := ((50 : Nat) : K)
  hurtIntervalSeconds := 1 / ((2 : Nat) : K)
  healthCriticalFraction := 1 / ((4 : Nat) : K)
  nearDeathFraction := 1 / ((10 : Nat) : K)
  flashlightDrainPerSecond := 1 / ((100 : Nat) : K)
  flashlightRechargePerSecond := 1 / ((200 : Nat) : K)

/-! ## What a tick reads -/

structure HurtInput (K : Type) where
  damagePerSecond : Stored K
  damageType : UInt32

def HurtInput.kind {K : Type} (hurt : HurtInput K) : DamageKind := damageKindFromBits hurt.damageType

def maxHurtVolumes : Nat := 16

structure PlayerInput (K : Type) where
  flashlightPressed : Bool
  hurt : List (HurtInput K)

inductive WaterLevel
  | dry
  | feet
  | waist
  | eyes
  deriving DecidableEq

def WaterLevel.asIndex : WaterLevel → Nat
  | dry => 0
  | feet => 1
  | waist => 2
  | eyes => 3

inductive LiquidKind
  | none
  | water
  | slime
  | lava
  deriving DecidableEq

def LiquidKind.fromContents (value : Int) : LiquidKind :=
  if value = -3 then .water
  else if value = -4 then .slime
  else if value = -5 then .lava
  else .none

structure PhysicsOutput (K : Type) where
  eye : Physics.Vec3 K
  waterLevel : WaterLevel
  liquid : LiquidKind
  landedSpeed : Option (Stored K)
  longJumped : Bool

def PhysicsOutput.isSubmerged {K : Type} (physics : PhysicsOutput K) : Bool := physics.waterLevel = .eyes

abbrev ContentsQuery (K : Type) := Physics.Vec3 K → Int

end OpenHalfLife.Player
