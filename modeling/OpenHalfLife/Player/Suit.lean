import Mathlib.Algebra.Order.Field.Rat
import Mathlib.Tactic.Linarith
import Mathlib.Data.List.Induction
import Mathlib.Tactic.NormNum
import Mathlib.Tactic.Positivity
import Mathlib.Tactic.Ring
import OpenHalfLife.Game.TrackTrain
import OpenHalfLife.Lib.Behaviour

/-! # The voice of the suit

An announcement is spoken some time after it is raised. A timer says how long
the last announcement still holds the voice, and a counter staggers what is
raised in one tick.
-/

namespace OpenHalfLife.Player

open Game (Stored)

set_option autoImplicit false

inductive SuitOccasion
  | suitEquipped
  | healthCritical
  | nearDeath
  | armorGone
  | armorRestored
  | chemicalDetected
  | radiationDetected
  | heatDamage
  | shockDamage
  | bloodLoss
  | majorFracture
  | minorFracture
  | internalBleeding
  | seekMedicalAttention
  | morphineAdministered
  | ammoPickup
  | weaponPickup
  | medkitPickup
  | powerRestored
  | ammunitionDepleted
  | longJumpActivated
  deriving DecidableEq

namespace SuitOccasion

def name : SuitOccasion → String
  | suitEquipped => "suit_equipped"
  | healthCritical => "health_critical"
  | nearDeath => "near_death"
  | armorGone => "armor_gone"
  | armorRestored => "armor_restored"
  | chemicalDetected => "chemical_detected"
  | radiationDetected => "radiation_detected"
  | heatDamage => "heat_damage"
  | shockDamage => "shock_damage"
  | bloodLoss => "blood_loss"
  | majorFracture => "major_fracture"
  | minorFracture => "minor_fracture"
  | internalBleeding => "internal_bleeding"
  | seekMedicalAttention => "seek_medical_attention"
  | morphineAdministered => "morphine_administered"
  | ammoPickup => "ammo_pickup"
  | weaponPickup => "weapon_pickup"
  | medkitPickup => "medkit_pickup"
  | powerRestored => "power_restored"
  | ammunitionDepleted => "ammunition_depleted"
  | longJumpActivated => "long_jump_activated"

def priority : SuitOccasion → Nat
  | nearDeath | healthCritical => 0
  | armorGone | chemicalDetected | radiationDetected | heatDamage | shockDamage
  | seekMedicalAttention => 1
  | bloodLoss | majorFracture | minorFracture | internalBleeding | morphineAdministered => 2
  | suitEquipped | longJumpActivated | armorRestored => 3
  | ammoPickup | weaponPickup | medkitPickup | powerRestored | ammunitionDepleted => 4

def all : List SuitOccasion :=
  [suitEquipped, healthCritical, nearDeath, armorGone, armorRestored, chemicalDetected,
    radiationDetected, heatDamage, shockDamage, bloodLoss, majorFracture, minorFracture,
    internalBleeding, seekMedicalAttention, morphineAdministered, ammoPickup, weaponPickup,
    medkitPickup, powerRestored, ammunitionDepleted, longJumpActivated]

end SuitOccasion

def occasionCount : Nat := 21

def occasionIndex (occasion : SuitOccasion) : Fin occasionCount :=
  ⟨occasion.ctorIdx % occasionCount, Nat.mod_lt _ (by decide)⟩

theorem all_occasionIndex (occasion : SuitOccasion) :
    SuitOccasion.all[(occasionIndex occasion).val]? = some occasion := by
  cases occasion <;> rfl

theorem occasionIndex_inj {a b : SuitOccasion} (h : occasionIndex a = occasionIndex b) : a = b := by
  have hSame := all_occasionIndex a
  rw [h, all_occasionIndex b] at hSame
  exact (Option.some.inj hSame).symm

variable {K : Type} [Field K] [LinearOrder K]

structure SuitEvent (K : Type) where
  occasion : SuitOccasion
  name : String
  priority : Nat
  delay : K

def suitSpacingSeconds : K := ((3 : Nat) : K) / ((2 : Nat) : K)

def suitCooldownSeconds : K := ((10 : Nat) : K)

structure SuitVoice (K : Type) where
  remaining : Vector K occasionCount
  spacing : K
  raisedThisTick : Nat

namespace SuitVoice

def new : SuitVoice K where
  remaining := Vector.replicate occasionCount 0
  spacing := 0
  raisedThisTick := 0

def tick (voice : SuitVoice K) : Stored K → SuitVoice K
  | .finite dt =>
    if dt ≤ 0 then voice
    else
      { remaining := voice.remaining.map fun remaining => max (remaining - dt) 0
        spacing := max (voice.spacing - dt) 0
        raisedThisTick := 0 }
  | _ => voice

def ready (voice : SuitVoice K) (occasion : SuitOccasion) : Bool :=
  voice.remaining[occasionIndex occasion] ≤ 0

def raise (voice : SuitVoice K) (occasion : SuitOccasion) : SuitVoice K × Option (SuitEvent K) :=
  if voice.ready occasion then
    let delay := voice.spacing + voice.raisedThisTick * suitSpacingSeconds
    ({ remaining := voice.remaining.set (occasionIndex occasion) suitCooldownSeconds
       spacing := delay + suitSpacingSeconds
       -- the counter is a byte that stops at its greatest value
       raisedThisTick := min (voice.raisedThisTick + 1) 255 },
      some ⟨occasion, occasion.name, occasion.priority, delay⟩)
  else (voice, none)

end SuitVoice

/-! ## Runs -/

inductive VoiceCall (K : Type)
  | tick (dt : Stored K)
  | raise (occasion : SuitOccasion)

structure Announcement (K : Type) where
  raisedAt : K
  event : SuitEvent K

namespace Announcement

def spokenAt (a : Announcement K) : K := a.raisedAt + a.event.delay

/-- The announcement is spoken as soon as it is raised and the one before it leaves the voice. -/
def OnTime (before : List (Announcement K)) (a : Announcement K) : Prop :=
  a.spokenAt =
    (before.getLast?.elim a.raisedAt fun last => max a.raisedAt (last.spokenAt + suitSpacingSeconds))

end Announcement

structure Spoken (K : Type) where
  voice : SuitVoice K
  clock : K
  log : List (Announcement K)

namespace Spoken

def fresh : Spoken K := ⟨.new, 0, []⟩

def passed : Stored K → K
  | .finite dt => max dt 0
  | _ => 0

def step (s : Spoken K) : VoiceCall K → Spoken K
  | .tick dt => { s with voice := s.voice.tick dt, clock := s.clock + passed dt }
  | .raise occasion =>
    { s with
      voice := (s.voice.raise occasion).1
      log := s.log ++ ((s.voice.raise occasion).2.map (⟨s.clock, ·⟩)).toList }

def run (calls : List (VoiceCall K)) : Spoken K := calls.foldl step fresh

/-- What is announced is on time, and no occasion is announced twice within its cooldown. -/
structure Orderly (log : List (Announcement K)) : Prop where
  onTime : Throughout Announcement.OnTime log
  cooled : log.Pairwise fun a b =>
    a.event.occasion = b.event.occasion → a.raisedAt + suitCooldownSeconds ≤ b.raisedAt

def Alone (before : List (VoiceCall K)) : VoiceCall K → Prop
  | .tick _ => True
  | .raise occasion =>
    (run before).voice.ready occasion → (run before).voice.raisedThisTick = 0

theorem run_snoc (calls : List (VoiceCall K)) (call : VoiceCall K) :
    run (calls ++ [call]) = (run calls).step call := by
  simp [run]

def freeAt (s : Spoken K) : K := s.log.getLast?.elim s.clock fun last => last.spokenAt + suitSpacingSeconds

/-- The timers of a voice say what the announcements made so far leave to wait for. -/
structure Timed (s : Spoken K) : Prop where
  spacing : s.voice.spacing = max (s.freeAt - s.clock) 0
  past : ∀ a ∈ s.log, a.raisedAt ≤ s.clock
  cooling : ∀ a ∈ s.log,
    a.raisedAt + suitCooldownSeconds - s.clock ≤ s.voice.remaining[occasionIndex a.event.occasion]

def announced (s : Spoken K) : VoiceCall K → List (Announcement K)
  | .tick _ => []
  | .raise occasion => ((s.voice.raise occasion).2.map fun event => ⟨s.clock, event⟩).toList

theorem log_step (s : Spoken K) (call : VoiceCall K) : (s.step call).log = s.log ++ s.announced call := by
  cases call with
  | tick dt => exact (List.append_nil _).symm
  | raise occasion => rfl

variable [IsStrictOrderedRing K] {s : Spoken K}

theorem max_sub_max {wait dt : K} (h : 0 ≤ dt) : max (max wait 0 - dt) 0 = max (wait - dt) 0 := by
  rcases le_total wait 0 with hOver | hLeft
  · rw [max_eq_right hOver, max_eq_right (by linarith), max_eq_right (by linarith)]
  · rw [max_eq_left hLeft]

omit [IsStrictOrderedRing K] in
theorem timed_fresh : (fresh : Spoken K).Timed where
  spacing := by simp [fresh, freeAt, SuitVoice.new]
  past := by simp [fresh]
  cooling := by simp [fresh]

theorem Timed.tick (h : s.Timed) (dt : Stored K) : (s.step (.tick dt)).Timed := by
  cases dt with
  | infinite negative => simpa [step, passed, SuitVoice.tick] using h
  | nan => simpa [step, passed, SuitVoice.tick] using h
  | finite dt =>
    rcases le_or_gt dt 0 with hNone | hPositive
    · have hSame : s.step (.tick (.finite dt)) = s := by
        simp [step, passed, SuitVoice.tick, hNone]
      rwa [hSame]
    have hStep : s.step (.tick (.finite dt)) =
        { s with
          voice :=
            { remaining := s.voice.remaining.map fun remaining => max (remaining - dt) 0
              spacing := max (s.voice.spacing - dt) 0
              raisedThisTick := 0 }
          clock := s.clock + dt } := by
      simp [step, passed, SuitVoice.tick, hPositive.le, not_le.mpr hPositive]
    rw [hStep]
    refine ⟨?_, fun a hMem => ?_, fun a hMem => ?_⟩
    · change max (s.voice.spacing - dt) 0 = max (freeAt { s with clock := s.clock + dt } - (s.clock + dt)) 0
      rw [h.spacing, max_sub_max hPositive.le]
      cases hLast : s.log.getLast? with
      | none =>
        rw [freeAt, freeAt, hLast]
        dsimp only [Option.elim]
        rw [sub_self, sub_self, zero_sub, max_eq_right (neg_nonpos.mpr hPositive.le), max_self]
      | some last =>
        rw [freeAt, freeAt, hLast]
        dsimp only [Option.elim]
        rw [sub_sub]
    · exact (h.past a hMem).trans (le_add_of_nonneg_right hPositive.le)
    · have hCooling := h.cooling a hMem
      simp only [Fin.getElem_fin, Vector.getElem_map] at hCooling ⊢
      exact le_max_of_le_left (by linarith)

omit [IsStrictOrderedRing K] in
theorem raise_ready {voice : SuitVoice K} {occasion : SuitOccasion} (h : voice.ready occasion = true) :
    voice.raise occasion =
      ({ remaining := voice.remaining.set (occasionIndex occasion) suitCooldownSeconds
         spacing := voice.spacing + voice.raisedThisTick * suitSpacingSeconds + suitSpacingSeconds
         raisedThisTick := min (voice.raisedThisTick + 1) 255 },
        some ⟨occasion, occasion.name, occasion.priority, voice.spacing + voice.raisedThisTick * suitSpacingSeconds⟩) :=
  if_pos h

theorem spacing_pos : (0 : K) < suitSpacingSeconds := by
  unfold suitSpacingSeconds
  positivity

def announcement (s : Spoken K) (occasion : SuitOccasion) : Announcement K :=
  ⟨s.clock, occasion, occasion.name, occasion.priority, s.voice.spacing + s.voice.raisedThisTick * suitSpacingSeconds⟩

theorem Timed.raise (h : s.Timed) {occasion : SuitOccasion} (hReady : s.voice.ready occasion = true) :
    (s.step (.raise occasion)).Timed := by
  have hStep : s.step (.raise occasion) =
      { voice :=
          { remaining := s.voice.remaining.set (occasionIndex occasion) suitCooldownSeconds
            spacing := s.voice.spacing + s.voice.raisedThisTick * suitSpacingSeconds + suitSpacingSeconds
            raisedThisTick := min (s.voice.raisedThisTick + 1) 255 }
        clock := s.clock
        log := s.log ++ [s.announcement occasion] } := by
    rw [step, raise_ready hReady]
    rfl
  have hSpacing : 0 ≤ s.voice.spacing := by
    rw [h.spacing]
    exact le_max_right _ _
  rw [hStep]
  refine ⟨?_, fun a hMem => ?_, fun a hMem => ?_⟩
  · have hStagger : 0 ≤ (s.voice.raisedThisTick : K) * suitSpacingSeconds :=
      mul_nonneg (Nat.cast_nonneg _) spacing_pos.le
    have hSpacingPos := @spacing_pos K _ _ _
    rw [freeAt, List.getLast?_append]
    change _ = max ((s.announcement occasion).spokenAt + suitSpacingSeconds - s.clock) 0
    rw [Announcement.spokenAt, announcement]
    dsimp only
    rw [max_eq_left (by linarith)]
    ring
  · rcases List.mem_append.mp hMem with hOld | hNew
    · exact h.past a hOld
    · rw [List.mem_singleton.mp hNew]
      exact le_rfl
  · by_cases hSame : a.event.occasion = occasion
    · have hPast : a.raisedAt ≤ s.clock := by
        rcases List.mem_append.mp hMem with hOld | hNew
        · exact h.past a hOld
        · rw [List.mem_singleton.mp hNew]
          exact le_rfl
      subst hSame
      simp only [Fin.getElem_fin, Vector.getElem_set_self]
      linarith
    · rcases List.mem_append.mp hMem with hOld | hNew
      · have hCooling := h.cooling a hOld
        have hOther : (occasionIndex occasion).val ≠ (occasionIndex a.event.occasion).val := fun hIndex =>
          hSame (occasionIndex_inj (Fin.ext hIndex)).symm
        simp only [Fin.getElem_fin, Vector.getElem_set_ne _ _ hOther] at hCooling ⊢
        exact hCooling
      · rw [List.mem_singleton.mp hNew] at hSame
        exact absurd rfl hSame

theorem Timed.step (h : s.Timed) (call : VoiceCall K) : (s.step call).Timed := by
  cases call with
  | tick dt => exact h.tick dt
  | raise occasion =>
    by_cases hReady : s.voice.ready occasion = true
    · exact h.raise hReady
    · have hSame : s.step (.raise occasion) = s := by
        rw [Spoken.step, SuitVoice.raise, if_neg hReady]
        exact congrArg (fun log => { s with log }) (List.append_nil _)
      rwa [hSame]

theorem timed_run (calls : List (VoiceCall K)) : (run calls).Timed := by
  induction calls using List.reverseRecOn with
  | nil => exact timed_fresh
  | append_singleton calls call ih =>
    rw [run_snoc]
    exact ih.step call

theorem onTime_iff (h : s.Timed) (occasion : SuitOccasion) :
    (s.announcement occasion).OnTime s.log ↔ s.voice.raisedThisTick = 0 := by
  have hWait : (s.log.getLast?.elim s.clock fun last => max s.clock (last.spokenAt + suitSpacingSeconds)) =
      s.clock + s.voice.spacing := by
    rw [h.spacing, freeAt]
    cases s.log.getLast? with
    | none => simp
    | some last =>
      dsimp only [Option.elim]
      rw [add_comm s.clock, max_add, sub_add_cancel, zero_add, max_comm]
  have hSpoken : (s.announcement occasion).spokenAt =
      s.clock + s.voice.spacing + s.voice.raisedThisTick * suitSpacingSeconds := by
    rw [Announcement.spokenAt, announcement, add_assoc]
  rw [Announcement.OnTime, hSpoken]
  change _ = (s.log.getLast?.elim s.clock fun last => max s.clock (last.spokenAt + suitSpacingSeconds)) ↔ _
  rw [hWait, add_eq_left, mul_eq_zero, Nat.cast_eq_zero]
  exact or_iff_left spacing_pos.ne'

theorem cooled_run (calls : List (VoiceCall K)) : (run calls).log.Pairwise fun a b =>
    a.event.occasion = b.event.occasion → a.raisedAt + suitCooldownSeconds ≤ b.raisedAt := by
  induction calls using List.reverseRecOn with
  | nil => exact .nil
  | append_singleton calls call ih =>
    rw [run_snoc, log_step]
    cases call with
    | tick dt => rwa [announced, List.append_nil]
    | raise occasion =>
      by_cases hReady : (run calls).voice.ready occasion = true
      · rw [announced, raise_ready hReady]
        refine List.pairwise_append.mpr ⟨ih, List.pairwise_singleton _ _, fun a hMem b hNew hSame => ?_⟩
        obtain rfl := List.mem_singleton.mp hNew
        have hCooling := (timed_run calls).cooling a hMem
        have hOccasion : a.event.occasion = occasion := hSame
        subst hOccasion
        have hOver : (run calls).voice.remaining[occasionIndex a.event.occasion] ≤ 0 := of_decide_eq_true hReady
        change a.raisedAt + suitCooldownSeconds ≤ (run calls).clock
        linarith
      · rw [announced, SuitVoice.raise, if_neg hReady]
        exact (List.append_nil _).symm ▸ ih

theorem orderly_iff_alone (calls : List (VoiceCall K)) : Orderly (run calls).log ↔ Throughout Alone calls := by
  have hOnTime : Throughout Announcement.OnTime (run calls).log ↔ Throughout Alone calls := by
    induction calls using List.reverseRecOn with
    | nil => exact ⟨fun _ => throughout_nil, fun _ => throughout_nil⟩
    | append_singleton calls call ih =>
      rw [throughout_append, ← ih, run_snoc, log_step]
      cases call with
      | tick dt =>
        rw [announced, List.append_nil]
        exact (and_iff_left trivial).symm
      | raise occasion =>
        by_cases hReady : (run calls).voice.ready occasion = true
        · rw [announced, raise_ready hReady]
          refine throughout_append.trans (and_congr_right fun _ => ?_)
          refine (onTime_iff (timed_run calls) occasion).trans ?_
          exact ⟨fun hFirst _ => hFirst, fun hAlone => hAlone hReady⟩
        · rw [announced, SuitVoice.raise, if_neg hReady]
          refine (iff_of_eq (congrArg _ (List.append_nil _))).trans ?_
          exact (and_iff_left fun h => absurd h hReady).symm
  exact ⟨fun h => hOnTime.mp h.onTime, fun h => ⟨hOnTime.mpr h, cooled_run calls⟩⟩

theorem orderly_of_two_ticks : Orderly (run [.raise .ammoPickup, .tick (.finite 1), .raise .bloodLoss] : Spoken ℚ).log ↔
    Throughout Alone [.raise .ammoPickup, .tick (.finite (1 : ℚ)), .raise .bloodLoss] :=
  orderly_iff_alone _

/-- Two announcements in one tick: the second is three seconds late instead of one and a half. -/
theorem not_orderly_burst : ¬Orderly (run [.raise .ammoPickup, .raise .bloodLoss] : Spoken ℚ).log := by
  intro h
  have hReady : (run [.raise .ammoPickup] : Spoken ℚ).voice.ready .bloodLoss = true := by decide
  have hLog : (run [.raise .ammoPickup, .raise .bloodLoss] : Spoken ℚ).log =
      (run [.raise .ammoPickup]).log ++ [(run [.raise .ammoPickup]).announcement .bloodLoss] := by
    change ((run [.raise .ammoPickup] : Spoken ℚ).step (.raise .bloodLoss)).log = _
    rw [log_step, announced, raise_ready hReady]
    rfl
  have hLate := h.onTime (run [.raise .ammoPickup]).log ((run [.raise .ammoPickup]).announcement .bloodLoss) [] hLog
  have hFirst := (onTime_iff (timed_run [.raise .ammoPickup]) .bloodLoss).mp hLate
  revert hFirst
  decide

end Spoken

end OpenHalfLife.Player
