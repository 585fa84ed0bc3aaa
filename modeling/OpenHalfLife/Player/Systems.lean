import Mathlib.Data.List.Induction
import Mathlib.Data.Rat.Floor
import OpenHalfLife.Player.State

/-! # The systems of the player -/

namespace OpenHalfLife.Player

open Game (Stored)

set_option autoImplicit false

set_option linter.dupNamespace false

inductive PlayerEvent (K : Type)
  | damaged (amount : Int) (kind : DamageKind)
  | died
  | suit (event : SuitEvent (Stored K))
  | flashlightToggled (on : Bool)
  | drowningStarted
  | surfaced
  | longJumped

def PlayerEvent.isDied {K : Type} : PlayerEvent K → Bool
  | .died => true
  | _ => false

def maxEventsPerTick : Nat := 64

section Clamped

variable {K : Type} [LinearOrder K]

def clamp (low high value : K) : K := max low (min value high)

theorem le_clamp (low high value : K) : low ≤ clamp low high value := le_max_left _ _

theorem clamp_le {low high : K} (h : low ≤ high) (value : K) : clamp low high value ≤ high :=
  max_le h (min_le_right _ _)

end Clamped

section

variable {K : Type} [Field K] [LinearOrder K]

def PlayerState.new (config : PlayerConfig K) : PlayerState K where
  health := config.maxHealth
  armor := 0
  suitEquipped := false
  flashlight := ⟨false, 1⟩
  longjumpOwned := false
  waterlevel := 0
  airTime := config.airCapacitySeconds
  damageFlags := ⟨0⟩
  dead := false

structure Player (K : Type) where
  state : PlayerState K
  config : PlayerConfig K
  voice : HeldVoice K
  hurtTimer : K
  drownTimer : K
  drowning : Bool
  wasSubmerged : Bool

def Player.new (config : PlayerConfig K) : Player K := ⟨.new config, config, .new, 0, 0, false, false⟩

/-- A player and the events it reports; the events for which there was no room are only counted. -/
structure Turn (K : Type) where
  player : Player K
  events : List (PlayerEvent K)
  dropped : Nat

variable [FloorRing K]

def displayAmount (lost : K) : Int := if lost ≤ 0 then 0 else min ⌈lost⌉ 32767

namespace Turn

def push (turn : Turn K) (event : PlayerEvent K) : Turn K :=
  if turn.events.length < maxEventsPerTick then { turn with events := turn.events ++ [event] }
  else { turn with dropped := turn.dropped + 1 }

def withState (turn : Turn K) (state : PlayerState K) : Turn K :=
  { turn with player := { turn.player with state := state } }

def truncate (turn : Turn K) : Turn K :=
  { turn with
    events := turn.events.take maxEventsPerTick
    dropped := turn.dropped + (turn.events.length - maxEventsPerTick) }

def raise (turn : Turn K) (occasion : SuitOccasion) : Turn K :=
  if turn.player.state.suitEquipped then
    let (voice, event) := turn.player.voice.raise occasion
    let raised := { turn with player := { turn.player with voice } }
    event.elim raised fun event => raised.push (.suit event)
  else turn

def equipSuit (turn : Turn K) : Turn K :=
  if turn.player.state.suitEquipped then turn
  else (turn.withState { turn.player.state with suitEquipped := true }).raise .suitEquipped

def giveLongJump (turn : Turn K) : Turn K :=
  if turn.player.state.longjumpOwned then turn
  else (turn.withState { turn.player.state with longjumpOwned := true }).raise .longJumpActivated

def addArmor (turn : Turn K) : Stored K → Turn K
  | .finite amount =>
    if !turn.player.state.suitEquipped ∨ amount ≤ 0 then turn
    else
      let state := turn.player.state
      let armor := clamp 0 turn.player.config.maxArmor (state.armor + amount)
      let charged := turn.withState { state with armor }
      if state.armor ≤ 0 ∧ 0 < armor then charged.raise .armorRestored else charged
  | _ => turn

def heal (turn : Turn K) : Stored K → Turn K
  | .finite amount =>
    if turn.player.state.dead ∨ amount ≤ 0 then turn
    else
      let state := turn.player.state
      (turn.withState { state with health := clamp 0 turn.player.config.maxHealth (state.health + amount) }).raise
        .medkitPickup
  | _ => turn

def checkHealthWarnings (turn : Turn K) : Turn K :=
  let state := turn.player.state
  if state.health ≤ 0 then
    if state.dead then turn else (turn.withState { state with dead := true }).push .died
  else
    let fraction := state.health / max turn.player.config.maxHealth 1
    if fraction ≤ turn.player.config.nearDeathFraction then turn.raise .nearDeath
    else if fraction ≤ turn.player.config.healthCriticalFraction then turn.raise .healthCritical
    else turn

def strike (turn : Turn K) (amount armor : K) (kind : DamageKind) : Turn K :=
  let state := turn.player.state
  let absorbed := absorb (.finite amount) armor kind
  let health := clamp 0 turn.player.config.maxHealth (state.health - absorbed.healthLoss)
  (turn.withState
    { state with
      armor := clamp 0 turn.player.config.maxArmor absorbed.armorLeft
      health
      damageFlags := state.damageFlags.insert kind }).push (.damaged (displayAmount (state.health - health)) kind)

def applyDamage (turn : Turn K) (kind : DamageKind) : Stored K → Turn K
  | .finite amount =>
    if turn.player.state.dead ∨ amount ≤ 0 then turn
    else
      let armor := if turn.player.state.suitEquipped then turn.player.state.armor else 0
      let struck := turn.strike amount armor kind
      let warned := if 0 < armor ∧ struck.player.state.armor ≤ 0 then struck.raise .armorGone else struck
      (kind.suitOccasion.elim warned warned.raise).checkHealthWarnings
  | _ => turn

def toggleFlashlight (turn : Turn K) : Turn K :=
  let state := turn.player.state
  if !state.suitEquipped then turn
  else if !state.flashlight.on ∧ state.flashlight.charge ≤ 0 then turn
  else
    (turn.withState { state with flashlight := { state.flashlight with on := !state.flashlight.on } }).push
      (.flashlightToggled !state.flashlight.on)

/-! ## A tick -/

def tickFlashlight (turn : Turn K) (dt : K) (input : PlayerInput K) : Turn K :=
  let turn := if input.flashlightPressed then turn.toggleFlashlight else turn
  let state := turn.player.state
  let config := turn.player.config
  if state.flashlight.on then
    let charge := clamp 0 1 (state.flashlight.charge - config.flashlightDrainPerSecond * dt)
    if charge ≤ 0 then
      (turn.withState { state with flashlight := ⟨false, charge⟩ }).push (.flashlightToggled false)
    else turn.withState { state with flashlight := ⟨true, charge⟩ }
  else
    turn.withState { state with
      flashlight := ⟨false, clamp 0 1 (state.flashlight.charge + config.flashlightRechargePerSecond * dt)⟩ }

def drown (turn : Turn K) (dt : K) : Turn K :=
  let begun :=
    if turn.player.drowning then turn
    else { turn with player := { turn.player with drowning := true, drownTimer := 0 } }.push .drowningStarted
  let timer := begun.player.drownTimer - dt
  if timer ≤ 0 then
    { begun with player := { begun.player with drownTimer := begun.player.config.drownIntervalSeconds } }.applyDamage
      .drown (.finite begun.player.config.drownDamage)
  else { begun with player := { begun.player with drownTimer := timer } }

def breathe (turn : Turn K) (dt : K) : Turn K :=
  let out := if turn.player.wasSubmerged then turn.push .surfaced else turn
  let state := out.player.state
  let config := out.player.config
  { out with player := { out.player with
      drowning := false
      drownTimer := 0
      state := { state with airTime := clamp 0 config.airCapacitySeconds (state.airTime + dt * config.airRecoveryRate) } } }

def tickAir (turn : Turn K) (dt : K) (physics : PhysicsOutput K) : Turn K :=
  let submerged := physics.isSubmerged
  let aired :=
    if submerged then
      let state := turn.player.state
      let holding := turn.withState { state with airTime := max (state.airTime - dt) 0 }
      if holding.player.state.airTime ≤ 0 then holding.drown dt else holding
    else turn.breathe dt
  { aired with player := { aired.player with wasSubmerged := submerged } }

def hurtBy (turn : Turn K) (interval : K) (hurt : HurtInput K) : Turn K :=
  let amount := hurt.damagePerSecond.times interval
  if amount.isPositive then turn.applyDamage hurt.kind amount
  else if amount.isNegative then turn.heal amount.negated
  else turn

def hurtByAll (turn : Turn K) (input : PlayerInput K) : Turn K :=
  let interval := turn.player.config.hurtIntervalSeconds
  (input.hurt.take maxHurtVolumes).foldl (fun turn hurt => turn.hurtBy interval hurt)
    { turn with player := { turn.player with hurtTimer := interval } }

def liquidRate (config : PlayerConfig K) : LiquidKind → K × DamageKind
  | .slime => (config.slimeDamagePerSecond, .acid)
  | .lava => (config.lavaDamagePerSecond, .burn)
  | .water | .none => (0, .generic)

def tickContactDamage (turn : Turn K) (dt : K) (input : PlayerInput K) (physics : PhysicsOutput K) : Turn K :=
  let timer := turn.player.hurtTimer - dt
  if 0 < timer then { turn with player := { turn.player with hurtTimer := timer } }
  else
    let interval := turn.player.config.hurtIntervalSeconds
    let hurt := turn.hurtByAll input
    if physics.waterLevel ≠ .dry then
      let (rate, kind) := liquidRate hurt.player.config physics.liquid
      if 0 < rate then hurt.applyDamage kind (.finite (rate * interval)) else hurt
    else hurt

def land (turn : Turn K) (speed : Stored K) : Turn K :=
  let damage := fallDamage speed
  if 0 < damage then turn.applyDamage .fall (.finite damage) else turn

def begin (player : Player K) (dt : K) (physics : PhysicsOutput K) : Turn K :=
  ⟨{ player with
      voice := player.voice.tick (.finite dt)
      state := { player.state with waterlevel := physics.waterLevel.asIndex } }, [], 0⟩

def advance (player : Player K) (dt : K) (input : PlayerInput K) (physics : PhysicsOutput K) (contents : ContentsQuery K) :
    Turn K :=
  let contacted := (((begin player dt physics).tickFlashlight dt input).tickAir dt physics).tickContactDamage dt input physics
  let landed := physics.landedSpeed.elim contacted contacted.land
  let jumped := if physics.longJumped then landed.push .longJumped else landed
  let warned :=
    if LiquidKind.fromContents (contents physics.eye) = .slime then jumped.raise .chemicalDetected else jumped
  warned.truncate

end Turn

def Player.tick (player : Player K) (dt : Stored K) (input : PlayerInput K) (physics : PhysicsOutput K)
    (contents : ContentsQuery K) : Turn K :=
  match dt with
  | .finite dt => if dt ≤ 0 then ⟨player, [], 0⟩ else Turn.advance player dt input physics contents
  | _ => ⟨player, [], 0⟩

/-! ## Snapshots -/

structure PlayerSnapshot (K : Type) where
  version : Nat
  state : PlayerState (Stored K)
  voice : HeldVoice K

def playerSnapshotVersion : Nat := 1

def PlayerState.stored (state : PlayerState K) : PlayerState (Stored K) :=
  { state with
    health := .finite state.health
    armor := .finite state.armor
    flashlight := ⟨state.flashlight.on, .finite state.flashlight.charge⟩
    airTime := .finite state.airTime }

namespace Player

def snapshot (player : Player K) : PlayerSnapshot K := ⟨playerSnapshotVersion, player.state.stored, player.voice⟩

def clampStored (value : Stored K) (high : K) : K := value.finiteOr 0 (clamp 0 (max high 0))

def restore (player : Player K) (snapshot : PlayerSnapshot K) : Player K :=
  let stored := snapshot.state
  let health := clampStored stored.health player.config.maxHealth
  { player with
    voice := snapshot.voice
    state :=
      { stored with
        health
        armor := clampStored stored.armor player.config.maxArmor
        airTime := clampStored stored.airTime player.config.airCapacitySeconds
        flashlight := ⟨stored.flashlight.on, clampStored stored.flashlight.charge 1⟩
        waterlevel := min stored.waterlevel 3
        dead := stored.dead || decide (health ≤ 0) } }

end Player

/-! ## Calls -/

inductive PlayerAct (K : Type)
  | applyDamage (amount : Stored K) (kind : DamageKind)
  | heal (amount : Stored K)
  | addArmor (amount : Stored K)
  | equipSuit
  | giveLongJump
  | toggleFlashlight

def Turn.act (turn : Turn K) : PlayerAct K → Turn K
  | .applyDamage amount kind => turn.applyDamage kind amount
  | .heal amount => turn.heal amount
  | .addArmor amount => turn.addArmor amount
  | .equipSuit => turn.equipSuit
  | .giveLongJump => turn.giveLongJump
  | .toggleFlashlight => turn.toggleFlashlight

inductive PlayerCall (K : Type)
  | tick (dt : Stored K) (input : PlayerInput K) (physics : PhysicsOutput K) (contents : ContentsQuery K)
  | act (act : PlayerAct K) (events : List (PlayerEvent K))
  | restore (snapshot : PlayerSnapshot K)

namespace Player

def call (player : Player K) : PlayerCall K → Player K
  | .tick dt input physics contents => (player.tick dt input physics contents).player
  | .act act events => (Turn.act ⟨player, events, 0⟩ act).player
  | .restore snapshot => player.restore snapshot

def run (config : PlayerConfig K) (calls : List (PlayerCall K)) : Player K := calls.foldl call (.new config)

end Player

end

/-! ## What a call keeps -/

section Steps

variable {K : Type} [Field K] [LinearOrder K]

structure PlayerConfig.PositiveMaxima (config : PlayerConfig K) : Prop where
  health : 0 < config.maxHealth
  armor : 0 < config.maxArmor
  air : 0 < config.airCapacitySeconds

structure InRange (config : PlayerConfig K) (state : PlayerState K) : Prop where
  health : 0 ≤ state.health ∧ state.health ≤ config.maxHealth
  armor : 0 ≤ state.armor ∧ state.armor ≤ config.maxArmor
  air : 0 ≤ state.airTime ∧ state.airTime ≤ config.airCapacitySeconds
  charge : 0 ≤ state.flashlight.charge ∧ state.flashlight.charge ≤ 1
  waterlevel : state.waterlevel ≤ 3
  dead : state.health = 0 → state.dead = true

namespace Turn

def alive (turn : Turn K) : Nat := if turn.player.state.dead then 0 else 1

def deaths (turn : Turn K) : Nat := turn.events.countP PlayerEvent.isDied

/-- The events reported, those the voice may still announce, and the death that may come. -/
def weight (turn : Turn K) : Nat := turn.events.length + turn.player.voice.overTimers.card + turn.alive

/-- A step that reports at most `cost` events besides announcements and the death. -/
structure Stepped (cost : Nat) (before after : Turn K) : Prop where
  config : after.player.config = before.player.config
  dead : before.player.state.dead = true → after.player.state.dead = true
  reported : before.weight + cost ≤ maxEventsPerTick →
    after.weight ≤ before.weight + cost ∧ after.dropped = before.dropped ∧
      after.deaths + after.alive = before.deaths + before.alive

structure Turned (cost : Nat) (before after : Turn K) : Prop extends Stepped cost before after where
  inRange : before.player.config.PositiveMaxima → InRange before.player.config before.player.state →
    InRange before.player.config after.player.state

variable {turn before middle after : Turn K} {cost more : Nat}

theorem Stepped.trans (h : Stepped cost before middle) (hNext : Stepped more middle after) :
    Stepped (cost + more) before after where
  config := hNext.config.trans h.config
  dead hDead := hNext.dead (h.dead hDead)
  reported hRoom := by
    obtain ⟨hWeight, hDropped, hDeaths⟩ := h.reported (by omega)
    obtain ⟨hNextWeight, hNextDropped, hNextDeaths⟩ := hNext.reported (by omega)
    exact ⟨by omega, hNextDropped.trans hDropped, hNextDeaths.trans hDeaths⟩

theorem Stepped.mono (h : Stepped cost before after) (hLe : cost ≤ more) : Stepped more before after where
  config := h.config
  dead := h.dead
  reported hRoom := by
    obtain ⟨hWeight, hRest⟩ := h.reported (by omega)
    exact ⟨by omega, hRest⟩

theorem Turned.trans (h : Turned cost before middle) (hNext : Turned more middle after) :
    Turned (cost + more) before after where
  toStepped := h.toStepped.trans hNext.toStepped
  inRange hMaxima hRange := by
    rw [← h.config] at hMaxima ⊢
    exact hNext.inRange hMaxima (h.config ▸ h.inRange (h.config ▸ hMaxima) hRange)

theorem Turned.mono (h : Turned cost before after) (hLe : cost ≤ more) : Turned more before after :=
  ⟨h.toStepped.mono hLe, h.inRange⟩

theorem stepped_of_same (hConfig : after.player.config = before.player.config)
    (hDead : after.player.state.dead = before.player.state.dead)
    (hVoice : after.player.voice = before.player.voice) (hEvents : after.events = before.events)
    (hDropped : after.dropped = before.dropped) : Stepped 0 before after where
  config := hConfig
  dead h := hDead.trans h
  reported _ := by
    rw [weight, weight, deaths, deaths, alive, alive, hEvents, hVoice, hDead]
    exact ⟨le_rfl, hDropped, rfl⟩

theorem turned_of_same (hState : after.player.state = before.player.state)
    (hConfig : after.player.config = before.player.config) (hVoice : after.player.voice = before.player.voice)
    (hEvents : after.events = before.events) (hDropped : after.dropped = before.dropped) : Turned 0 before after where
  toStepped := stepped_of_same hConfig (by rw [hState]) hVoice hEvents hDropped
  inRange _ hRange := hState ▸ hRange

theorem turned_rfl : Turned 0 turn turn := turned_of_same rfl rfl rfl rfl rfl

omit [Field K] [LinearOrder K] in
@[simp] theorem push_player (event : PlayerEvent K) : (turn.push event).player = turn.player := by
  unfold push
  split <;> rfl

omit [Field K] [LinearOrder K] in
theorem push_of_room {event : PlayerEvent K} (h : turn.events.length < maxEventsPerTick) :
    turn.push event = { turn with events := turn.events ++ [event] } := if_pos h

theorem turned_push {event : PlayerEvent K} (hEvent : event.isDied = false) : Turned 1 turn (turn.push event) where
  config := by rw [push_player]
  dead h := by rwa [push_player]
  reported hRoom := by
    rw [push_of_room (by unfold weight at hRoom; omega), weight, weight, deaths, deaths, List.length_append,
      List.countP_append, List.countP_singleton, hEvent]
    exact ⟨by simp only [List.length_singleton, alive]; omega, rfl, rfl⟩
  inRange _ hRange := by rwa [push_player]

theorem raise_of_ready {occasion : SuitOccasion} (hSuit : turn.player.state.suitEquipped = true)
    (hReady : turn.player.voice.ready occasion = true) :
    ∃ event, turn.raise occasion =
      Turn.push { turn with player := { turn.player with voice := (turn.player.voice.raise occasion).1 } } (.suit event) := by
  unfold raise
  rw [if_pos hSuit]
  unfold HeldVoice.raise
  rw [if_pos hReady]
  exact ⟨_, rfl⟩

theorem raise_of_not_ready {occasion : SuitOccasion} (hReady : turn.player.voice.ready occasion ≠ true) :
    turn.raise occasion = turn := by
  unfold raise
  split_ifs
  · rw [HeldVoice.raise, if_neg hReady]
    rfl
  · rfl

@[simp] theorem raise_state (occasion : SuitOccasion) : (turn.raise occasion).player.state = turn.player.state := by
  by_cases hReady : turn.player.voice.ready occasion = true
  case neg => rw [raise_of_not_ready hReady]
  cases hSuit : turn.player.state.suitEquipped with
  | false => rw [raise, if_neg (by rw [hSuit]; exact Bool.false_ne_true)]
  | true =>
    obtain ⟨event, hRaise⟩ := raise_of_ready hSuit hReady
    rw [hRaise, push_player]

theorem turned_withState {state : PlayerState K} (hDead : state.dead = turn.player.state.dead)
    (hRange : turn.player.config.PositiveMaxima → InRange turn.player.config turn.player.state →
      InRange turn.player.config state) : Turned 0 turn (turn.withState state) :=
  ⟨stepped_of_same rfl hDead rfl rfl rfl, hRange⟩

theorem checkHealthWarnings_state : turn.checkHealthWarnings.player.state =
    { turn.player.state with dead := turn.player.state.dead || decide (turn.player.state.health ≤ 0) } := by
  unfold checkHealthWarnings
  dsimp only
  by_cases hOver : turn.player.state.health ≤ 0
  · rw [if_pos hOver, decide_eq_true hOver, Bool.or_true]
    split_ifs with hDead
    · rw [← hDead]
    · rw [push_player]
      rfl
  · rw [if_neg hOver, decide_eq_false hOver, Bool.or_false]
    split_ifs
    · exact raise_state _
    · exact raise_state _
    · rfl

theorem turned_toggleFlashlight : Turned 1 turn turn.toggleFlashlight := by
  unfold toggleFlashlight
  dsimp only
  split_ifs
  · exact turned_rfl.mono (Nat.zero_le 1)
  · exact turned_rfl.mono (Nat.zero_le 1)
  · have hToggled : Turned 0 turn (turn.withState { turn.player.state with
        flashlight := { turn.player.state.flashlight with on := !turn.player.state.flashlight.on } }) :=
      turned_withState rfl fun _ h => ⟨h.health, h.armor, h.air, h.charge, h.waterlevel, h.dead⟩
    exact hToggled.trans (turned_push rfl)

theorem turned_breathe (dt : K) : Turned 1 turn (turn.breathe dt) := by
  unfold breathe
  dsimp only
  have hOut : Turned 1 turn (if turn.player.wasSubmerged then turn.push .surfaced else turn) := by
    split_ifs
    · exact turned_push rfl
    · exact turned_rfl.mono (Nat.zero_le 1)
  generalize (if turn.player.wasSubmerged then turn.push .surfaced else turn) = out at hOut ⊢
  refine hOut.trans (?_ : Turned 0 out _)
  exact ⟨stepped_of_same rfl rfl rfl rfl rfl, fun hMaxima h =>
    ⟨h.health, h.armor, ⟨le_clamp _ _ _, clamp_le hMaxima.air.le _⟩, h.charge, h.waterlevel, h.dead⟩⟩

theorem turned_truncate : Turned 0 turn turn.truncate where
  config := rfl
  dead h := h
  reported hRoom := by
    have hAll : turn.events.length ≤ maxEventsPerTick := by
      unfold weight at hRoom
      omega
    have hSame : turn.truncate = turn := by
      rw [truncate, List.take_of_length_le hAll, Nat.sub_eq_zero_of_le hAll]
      rfl
    rw [hSame]
    exact ⟨le_rfl, rfl, rfl⟩
  inRange _ hRange := hRange

variable [IsStrictOrderedRing K]

theorem turned_raise (occasion : SuitOccasion) : Turned 0 turn (turn.raise occasion) := by
  by_cases hReady : turn.player.voice.ready occasion = true
  case neg =>
    rw [raise_of_not_ready hReady]
    exact turned_rfl
  cases hSuit : turn.player.state.suitEquipped with
  | false =>
    rw [raise, if_neg (by rw [hSuit]; exact Bool.false_ne_true)]
    exact turned_rfl
  | true =>
    obtain ⟨event, hRaise⟩ := raise_of_ready hSuit hReady
    have hFewer := HeldVoice.card_overTimers_raise hReady
    rw [hRaise]
    refine ⟨⟨by rw [push_player], fun h => by rwa [push_player], fun hRoom => ?_⟩, fun _ hRange => by rwa [push_player]⟩
    unfold weight at hRoom ⊢
    rw [push_of_room (by dsimp only; omega), deaths, deaths, List.length_append, List.countP_append,
      List.countP_singleton]
    exact ⟨by simp only [List.length_singleton, alive] at hRoom ⊢; omega, rfl, rfl⟩

theorem turned_equipSuit : Turned 0 turn turn.equipSuit := by
  unfold equipSuit
  split_ifs
  · exact turned_rfl
  · have hGiven : Turned 0 turn (turn.withState { turn.player.state with suitEquipped := true }) :=
      turned_withState rfl fun _ h => ⟨h.health, h.armor, h.air, h.charge, h.waterlevel, h.dead⟩
    exact hGiven.trans (turned_raise _)

theorem turned_giveLongJump : Turned 0 turn turn.giveLongJump := by
  unfold giveLongJump
  split_ifs
  · exact turned_rfl
  · have hGiven : Turned 0 turn (turn.withState { turn.player.state with longjumpOwned := true }) :=
      turned_withState rfl fun _ h => ⟨h.health, h.armor, h.air, h.charge, h.waterlevel, h.dead⟩
    exact hGiven.trans (turned_raise _)

theorem turned_addArmor (amount : Stored K) : Turned 0 turn (turn.addArmor amount) := by
  cases amount with
  | infinite negative => exact turned_rfl
  | nan => exact turned_rfl
  | finite amount =>
    unfold addArmor
    dsimp only
    split_ifs
    · exact turned_rfl
    all_goals
      have hCharged : Turned 0 turn (turn.withState { turn.player.state with
          armor := clamp 0 turn.player.config.maxArmor (turn.player.state.armor + amount) }) :=
        turned_withState rfl fun hMaxima h =>
          ⟨h.health, ⟨le_clamp _ _ _, clamp_le hMaxima.armor.le _⟩, h.air, h.charge, h.waterlevel, h.dead⟩
    · exact hCharged.trans (turned_raise _)
    · exact hCharged

theorem turned_heal (amount : Stored K) : Turned 0 turn (turn.heal amount) := by
  cases amount with
  | infinite negative => exact turned_rfl
  | nan => exact turned_rfl
  | finite amount =>
    unfold heal
    dsimp only
    split_ifs with hNone
    · exact turned_rfl
    · obtain ⟨hAlive, hPositive⟩ := not_or.mp hNone
      have hHealed : Turned 0 turn (turn.withState { turn.player.state with
          health := clamp 0 turn.player.config.maxHealth (turn.player.state.health + amount) }) := by
        refine turned_withState rfl fun hMaxima h => ⟨⟨le_clamp _ _ _, clamp_le hMaxima.health.le _⟩, h.armor, h.air,
          h.charge, h.waterlevel, fun hZero => ?_⟩
        -- a player that is alive has health left, and more of it now
        have hHealth : 0 < turn.player.state.health := h.health.1.lt_of_ne fun hEq => hAlive (h.dead hEq.symm)
        exact absurd hZero (lt_max_of_lt_right (lt_min (add_pos hHealth (not_le.mp hPositive)) hMaxima.health)).ne'
      exact hHealed.trans (turned_raise _)

theorem stepped_checkHealthWarnings : Stepped 0 turn turn.checkHealthWarnings := by
  unfold checkHealthWarnings
  dsimp only
  split_ifs with hOver hDead
  · exact turned_rfl.toStepped
  · -- the death takes the place of the one that was still to come
    have hAlive : turn.alive = 1 := if_neg hDead
    refine ⟨by rw [push_player]; rfl, fun h => absurd h hDead, fun hRoom => ?_⟩
    unfold weight at hRoom ⊢
    rw [push_of_room (by dsimp only [withState]; omega), deaths, deaths, List.length_append, List.countP_append,
      List.countP_singleton, hAlive]
    exact ⟨by simp only [List.length_singleton, withState, alive, if_true]; omega, rfl, rfl⟩
  · exact (turned_raise _).toStepped
  · exact (turned_raise _).toStepped
  · exact turned_rfl.toStepped

theorem turned_tickFlashlight (dt : K) (input : PlayerInput K) : Turned 2 turn (turn.tickFlashlight dt input) := by
  unfold tickFlashlight
  dsimp only
  have hToggled : Turned 1 turn (if input.flashlightPressed then turn.toggleFlashlight else turn) := by
    split_ifs
    · exact turned_toggleFlashlight
    · exact turned_rfl.mono (Nat.zero_le 1)
  generalize (if input.flashlightPressed then turn.toggleFlashlight else turn) = toggled at hToggled ⊢
  have hCharge (on : Bool) (charge : K) : Turned 0 toggled (toggled.withState { toggled.player.state with
      flashlight := ⟨on, clamp 0 1 charge⟩ }) :=
    turned_withState rfl fun _ h =>
      ⟨h.health, h.armor, h.air, ⟨le_clamp _ _ _, clamp_le zero_le_one _⟩, h.waterlevel, h.dead⟩
  split_ifs
  · exact hToggled.trans ((hCharge false _).trans (turned_push rfl))
  · exact hToggled.trans ((hCharge true _).mono (Nat.zero_le 1))
  · exact hToggled.trans ((hCharge false _).mono (Nat.zero_le 1))

variable [FloorRing K]

omit [IsStrictOrderedRing K] in
theorem strike_player (amount armor : K) (kind : DamageKind) : (turn.strike amount armor kind).player =
    { turn.player with
      state :=
        { turn.player.state with
          armor := clamp 0 turn.player.config.maxArmor (absorb (.finite amount) armor kind).armorLeft
          health := clamp 0 turn.player.config.maxHealth
            (turn.player.state.health - (absorb (.finite amount) armor kind).healthLoss)
          damageFlags := turn.player.state.damageFlags.insert kind } } :=
  push_player _

omit [IsStrictOrderedRing K] in
theorem stepped_strike (amount armor : K) (kind : DamageKind) : Stepped 1 turn (turn.strike amount armor kind) := by
  unfold strike
  dsimp only
  refine Stepped.trans (?_ : Stepped 0 turn _) (turned_push rfl).toStepped
  exact stepped_of_same rfl rfl rfl rfl rfl

omit [FloorRing K] in
theorem turned_warned (before : Turn K) (gone : Prop) [Decidable gone] (occasion : Option SuitOccasion) :
    Turned 0 before (occasion.elim (if gone then before.raise .armorGone else before)
      (if gone then before.raise .armorGone else before).raise) := by
  have hGone : Turned 0 before (if gone then before.raise .armorGone else before) := by
    split_ifs
    · exact turned_raise _
    · exact turned_rfl
  cases occasion with
  | none => exact hGone
  | some occasion => exact hGone.trans (turned_raise occasion)

omit [IsStrictOrderedRing K] [FloorRing K] in
theorem warned_state (before : Turn K) (gone : Prop) [Decidable gone] (occasion : Option SuitOccasion) :
    (occasion.elim (if gone then before.raise .armorGone else before)
      (if gone then before.raise .armorGone else before).raise).player.state = before.player.state := by
  have hGone : (if gone then before.raise .armorGone else before).player.state = before.player.state := by
    split_ifs
    · exact raise_state _
    · rfl
  cases occasion with
  | none => exact hGone
  | some occasion => exact (raise_state occasion).trans hGone

theorem turned_applyDamage (kind : DamageKind) (amount : Stored K) : Turned 1 turn (turn.applyDamage kind amount) := by
  cases amount with
  | infinite negative => exact turned_rfl.mono (Nat.zero_le 1)
  | nan => exact turned_rfl.mono (Nat.zero_le 1)
  | finite amount =>
    unfold applyDamage
    dsimp only
    generalize (if turn.player.state.suitEquipped then turn.player.state.armor else 0) = armor
    split
    · exact turned_rfl.mono (Nat.zero_le 1)
    refine ⟨((stepped_strike amount armor kind).trans (turned_warned _ _ _).toStepped).trans
      stepped_checkHealthWarnings, fun hMaxima h => ?_⟩
    rw [checkHealthWarnings_state, warned_state, strike_player]
    exact ⟨⟨le_clamp _ _ _, clamp_le hMaxima.health.le _⟩, ⟨le_clamp _ _ _, clamp_le hMaxima.armor.le _⟩, h.air,
      h.charge, h.waterlevel, fun hZero => Bool.or_eq_true_iff.mpr (.inr (decide_eq_true hZero.le))⟩

theorem turned_drown (dt : K) : Turned 2 turn (turn.drown dt) := by
  unfold drown
  dsimp only
  have hBegun : Turned 1 turn (if turn.player.drowning then turn
      else Turn.push { turn with player := { turn.player with drowning := true, drownTimer := 0 } } .drowningStarted) := by
    split_ifs
    · exact turned_rfl.mono (Nat.zero_le 1)
    · refine Turned.trans (?_ : Turned 0 turn _) (turned_push rfl)
      exact turned_of_same rfl rfl rfl rfl rfl
  generalize (if turn.player.drowning then turn
    else Turn.push { turn with player := { turn.player with drowning := true, drownTimer := 0 } } .drowningStarted) =
      begun at hBegun ⊢
  split_ifs
  · refine hBegun.trans (Turned.trans (?_ : Turned 0 begun _) (turned_applyDamage _ _))
    exact turned_of_same rfl rfl rfl rfl rfl
  · refine (hBegun.trans (?_ : Turned 0 begun _)).mono (by omega)
    exact turned_of_same rfl rfl rfl rfl rfl

theorem turned_tickAir {dt : K} (hPositive : 0 < dt) (physics : PhysicsOutput K) : Turned 2 turn (turn.tickAir dt physics) := by
  unfold tickAir
  dsimp only
  have hHolding : Turned 0 turn
      (turn.withState { turn.player.state with airTime := max (turn.player.state.airTime - dt) 0 }) :=
    turned_withState rfl fun hMaxima h => ⟨h.health, h.armor,
      ⟨le_max_right _ _, max_le ((sub_le_self _ hPositive.le).trans h.air.2) hMaxima.air.le⟩, h.charge, h.waterlevel, h.dead⟩
  generalize turn.withState { turn.player.state with airTime := max (turn.player.state.airTime - dt) 0 } = holding at hHolding ⊢
  have hAired : Turned 2 turn (if physics.isSubmerged then
      if holding.player.state.airTime ≤ 0 then holding.drown dt else holding else turn.breathe dt) := by
    split_ifs
    · exact (hHolding.trans (turned_drown dt)).mono (by omega)
    · exact hHolding.mono (Nat.zero_le 2)
    · exact (turned_breathe dt).mono (by omega)
  generalize (if physics.isSubmerged then
    if holding.player.state.airTime ≤ 0 then holding.drown dt else holding else turn.breathe dt) = aired at hAired ⊢
  refine hAired.trans (?_ : Turned 0 aired _)
  exact turned_of_same rfl rfl rfl rfl rfl

theorem turned_hurtBy (interval : K) (hurt : HurtInput K) : Turned 1 turn (turn.hurtBy interval hurt) := by
  unfold hurtBy
  dsimp only
  split_ifs
  · exact turned_applyDamage _ _
  · exact (turned_heal _).mono (Nat.zero_le 1)
  · exact turned_rfl.mono (Nat.zero_le 1)

theorem turned_hurts (interval : K) (hurts : List (HurtInput K)) :
    Turned hurts.length turn (hurts.foldl (fun turn hurt => turn.hurtBy interval hurt) turn) := by
  induction hurts generalizing turn with
  | nil => exact turned_rfl
  | cons hurt hurts ih =>
    rw [List.foldl_cons, List.length_cons, Nat.add_comm]
    exact (turned_hurtBy interval hurt).trans ih

theorem turned_hurtByAll (input : PlayerInput K) : Turned maxHurtVolumes turn (turn.hurtByAll input) := by
  have hDue : Turned 0 turn
      { turn with player := { turn.player with hurtTimer := turn.player.config.hurtIntervalSeconds } } :=
    turned_of_same rfl rfl rfl rfl rfl
  refine (hDue.trans (turned_hurts turn.player.config.hurtIntervalSeconds (input.hurt.take maxHurtVolumes))).mono ?_
  rw [Nat.zero_add]
  exact List.length_take_le _ _

theorem turned_tickContactDamage (dt : K) (input : PlayerInput K) (physics : PhysicsOutput K) :
    Turned (maxHurtVolumes + 1) turn (turn.tickContactDamage dt input physics) := by
  unfold tickContactDamage
  dsimp only
  split_ifs with hEarly
  · refine Turned.mono (?_ : Turned 0 turn _) (Nat.zero_le _)
    exact turned_of_same rfl rfl rfl rfl rfl
  · exact (turned_hurtByAll input).trans (turned_applyDamage _ _)
  · exact (turned_hurtByAll input).mono (Nat.le_succ _)
  · exact (turned_hurtByAll input).mono (Nat.le_succ _)

theorem turned_land (speed : Stored K) : Turned 1 turn (turn.land speed) := by
  unfold land
  dsimp only
  split_ifs
  · exact turned_applyDamage _ _
  · exact turned_rfl.mono (Nat.zero_le 1)

theorem turned_act (act : PlayerAct K) : Turned 1 turn (turn.act act) := by
  cases act with
  | applyDamage amount kind => exact turned_applyDamage kind amount
  | heal amount => exact (turned_heal amount).mono (Nat.zero_le 1)
  | addArmor amount => exact (turned_addArmor amount).mono (Nat.zero_le 1)
  | equipSuit => exact turned_equipSuit.mono (Nat.zero_le 1)
  | giveLongJump => exact turned_giveLongJump.mono (Nat.zero_le 1)
  | toggleFlashlight => exact turned_toggleFlashlight

def tickCost : Nat := 2 + 2 + (maxHurtVolumes + 1) + 1 + 1

theorem turned_advance (player : Player K) {dt : K} (hPositive : 0 < dt) (input : PlayerInput K) (physics : PhysicsOutput K)
    (contents : ContentsQuery K) : Turned tickCost (begin player dt physics) (advance player dt input physics contents) := by
  unfold advance
  dsimp only
  have hContacted : Turned (2 + 2 + (maxHurtVolumes + 1)) (begin player dt physics)
      ((((begin player dt physics).tickFlashlight dt input).tickAir dt physics).tickContactDamage dt input physics) :=
    ((turned_tickFlashlight dt input).trans (turned_tickAir hPositive physics)).trans
      (turned_tickContactDamage dt input physics)
  generalize (((begin player dt physics).tickFlashlight dt input).tickAir dt physics).tickContactDamage dt input physics =
    contacted at hContacted ⊢
  have hLanded : Turned 1 contacted (physics.landedSpeed.elim contacted contacted.land) := by
    cases physics.landedSpeed with
    | none => exact turned_rfl.mono (Nat.zero_le 1)
    | some speed => exact turned_land speed
  generalize physics.landedSpeed.elim contacted contacted.land = landed at hLanded ⊢
  have hJumped : Turned 1 landed (if physics.longJumped then landed.push .longJumped else landed) := by
    split_ifs
    · exact turned_push rfl
    · exact turned_rfl.mono (Nat.zero_le 1)
  generalize (if physics.longJumped then landed.push .longJumped else landed) = jumped at hJumped ⊢
  have hWarned : Turned 0 jumped
      (if LiquidKind.fromContents (contents physics.eye) = .slime then jumped.raise .chemicalDetected else jumped) := by
    split_ifs
    · exact turned_raise _
    · exact turned_rfl
  exact (((hContacted.trans hLanded).trans hJumped).trans hWarned).trans turned_truncate

omit [IsStrictOrderedRing K] [FloorRing K] in
theorem weight_begin_le (player : Player K) (dt : K) (physics : PhysicsOutput K) :
    (begin player dt physics).weight + tickCost < maxEventsPerTick := by
  have hVoice : (begin player dt physics).player.voice.overTimers.card ≤ 21 := HeldVoice.card_overTimers_le _
  have hAlive : (begin player dt physics).alive ≤ 1 := by
    unfold alive
    split <;> omega
  have hEvents : (begin player dt physics).events.length = 0 := rfl
  unfold weight
  have hCost : tickCost = 23 := rfl
  have hCap : maxEventsPerTick = 64 := rfl
  omega

end Turn

end Steps

/-! ## Runs -/

section Runs

variable {K : Type} [Field K] [LinearOrder K] [FloorRing K]

/-- What a tick of a player reports: nothing is dropped, and the death is there if it is new. -/
structure Reported (player : Player K) (turn : Turn K) : Prop where
  room : turn.events.length < maxEventsPerTick
  dropped : turn.dropped = 0
  once : turn.deaths ≤ 1
  died : PlayerEvent.died ∈ turn.events ↔ player.state.dead = false ∧ turn.player.state.dead = true

omit [Field K] [LinearOrder K] [FloorRing K] in
theorem died_mem_iff (turn : Turn K) : PlayerEvent.died ∈ turn.events ↔ 0 < turn.deaths := by
  unfold Turn.deaths
  rw [List.countP_pos_iff]
  constructor
  · exact fun h => ⟨_, h, rfl⟩
  · rintro ⟨event, hMem, hDied⟩
    cases event with
    | died => exact hMem
    | damaged => cases hDied
    | suit => cases hDied
    | flashlightToggled => cases hDied
    | drowningStarted => cases hDied
    | surfaced => cases hDied
    | longJumped => cases hDied

omit [Field K] [LinearOrder K] [FloorRing K] in
theorem reported_still (player : Player K) : Reported player ⟨player, [], 0⟩ where
  room := Nat.zero_lt_succ 63
  dropped := rfl
  once := Nat.zero_le 1
  died := by
    refine ⟨fun h => absurd h List.not_mem_nil, fun h => ?_⟩
    rw [h.1] at h
    cases h.2

variable [IsStrictOrderedRing K]

theorem reported_tick (player : Player K) (dt : Stored K) (input : PlayerInput K) (physics : PhysicsOutput K)
    (contents : ContentsQuery K) : Reported player (player.tick dt input physics contents) := by
  cases dt with
  | infinite negative => exact reported_still player
  | nan => exact reported_still player
  | finite dt =>
    unfold Player.tick
    dsimp only
    split_ifs with hNone
    · exact reported_still player
    · have hTurned := Turn.turned_advance player (not_le.mp hNone) input physics contents
      have hRoom := Turn.weight_begin_le player dt physics
      obtain ⟨hWeight, hDropped, hDeaths⟩ := hTurned.reported hRoom.le
      generalize Turn.advance player dt input physics contents = turn at hTurned hWeight hDropped hDeaths ⊢
      have hBegun : (Turn.begin player dt physics).deaths = 0 := rfl
      rw [hBegun, Nat.zero_add] at hDeaths
      have hAlive : (Turn.begin player dt physics).alive = if player.state.dead then 0 else 1 := rfl
      rw [hAlive, Turn.alive] at hDeaths
      refine ⟨?_, hDropped, ?_, ?_⟩
      · unfold Turn.weight at hWeight hRoom
        omega
      · split_ifs at hDeaths <;> omega
      · rw [died_mem_iff]
        have hDead := hTurned.dead
        cases hBefore : player.state.dead with
        | true => simp_all
        | false => cases hAfter : turn.player.state.dead <;> simp_all

omit [FloorRing K] in
theorem inRange_new {config : PlayerConfig K} (hMaxima : config.PositiveMaxima) : InRange config (.new config) where
  health := ⟨hMaxima.health.le, le_rfl⟩
  armor := ⟨le_rfl, hMaxima.armor.le⟩
  air := ⟨hMaxima.air.le, le_rfl⟩
  charge := ⟨zero_le_one, le_rfl⟩
  waterlevel := Nat.zero_le 3
  dead hZero := absurd hZero hMaxima.health.ne'

omit [FloorRing K] [IsStrictOrderedRing K] in
theorem clampStored_mem (value : Stored K) {high : K} (h : 0 ≤ high) :
    0 ≤ Player.clampStored value high ∧ Player.clampStored value high ≤ high := by
  unfold Player.clampStored
  rw [max_eq_left h]
  cases value with
  | finite value => exact ⟨le_clamp _ _ _, clamp_le h _⟩
  | infinite negative => exact ⟨le_rfl, h⟩
  | nan => exact ⟨le_rfl, h⟩

omit [FloorRing K] in
theorem inRange_restore (player : Player K) (hMaxima : player.config.PositiveMaxima) (snapshot : PlayerSnapshot K) :
    InRange player.config (player.restore snapshot).state where
  health := clampStored_mem _ hMaxima.health.le
  armor := clampStored_mem _ hMaxima.armor.le
  air := clampStored_mem _ hMaxima.air.le
  charge := clampStored_mem _ zero_le_one
  waterlevel := min_le_right _ _
  dead hZero := by
    refine Bool.or_eq_true_iff.mpr (.inr (decide_eq_true ?_))
    exact (show Player.clampStored snapshot.state.health player.config.maxHealth = 0 from hZero).le

omit [FloorRing K] [IsStrictOrderedRing K] in
theorem clampStored_finite {value high : K} (h : 0 ≤ value ∧ value ≤ high) :
    Player.clampStored (.finite value) high = value := by
  change clamp 0 (max high 0) value = value
  rw [clamp, max_eq_left (h.1.trans h.2), min_eq_left h.2, max_eq_right h.1]

omit [FloorRing K] [IsStrictOrderedRing K] in
theorem restore_snapshot {player : Player K} (h : InRange player.config player.state) :
    player.restore player.snapshot = player := by
  have hHealth : Player.clampStored player.snapshot.state.health player.config.maxHealth = player.state.health :=
    clampStored_finite h.health
  have hArmor : Player.clampStored player.snapshot.state.armor player.config.maxArmor = player.state.armor :=
    clampStored_finite h.armor
  have hAir : Player.clampStored player.snapshot.state.airTime player.config.airCapacitySeconds = player.state.airTime :=
    clampStored_finite h.air
  have hCharge : Player.clampStored player.snapshot.state.flashlight.charge 1 = player.state.flashlight.charge :=
    clampStored_finite h.charge
  have hDead : (player.state.dead || decide (player.state.health ≤ 0)) = player.state.dead := by
    cases hDead : player.state.dead with
    | true => rfl
    | false =>
      refine decide_eq_false fun hOver => ?_
      rw [h.dead (le_antisymm hOver h.health.1)] at hDead
      cases hDead
  unfold Player.restore
  dsimp only
  rw [hHealth, hArmor, hAir, hCharge, show player.snapshot.state.dead = player.state.dead from rfl, hDead,
    show player.snapshot.state.waterlevel = player.state.waterlevel from rfl, min_eq_left h.waterlevel]
  rfl

structure Kept (before after : Player K) : Prop where
  config : after.config = before.config
  dead : before.state.dead = true → after.state.dead = true
  inRange : before.config.PositiveMaxima → InRange before.config before.state → InRange before.config after.state

omit [FloorRing K] [IsStrictOrderedRing K] in
theorem kept_of_turned {cost : Nat} {before after : Turn K} (h : Turn.Turned cost before after) :
    Kept before.player after.player :=
  ⟨h.config, h.dead, h.inRange⟩

omit [FloorRing K] [IsStrictOrderedRing K] in
theorem kept_begin (player : Player K) (dt : K) (physics : PhysicsOutput K) :
    Kept player (Turn.begin player dt physics).player := by
  refine ⟨rfl, fun h => h, fun _ h => ⟨h.health, h.armor, h.air, h.charge, ?_, h.dead⟩⟩
  change physics.waterLevel.asIndex ≤ 3
  cases physics.waterLevel <;> decide

omit [FloorRing K] [IsStrictOrderedRing K] in
theorem Kept.trans {before middle after : Player K} (h : Kept before middle) (hNext : Kept middle after) :
    Kept before after where
  config := hNext.config.trans h.config
  dead hDead := hNext.dead (h.dead hDead)
  inRange hMaxima hRange := by
    rw [← h.config] at hMaxima ⊢
    exact hNext.inRange hMaxima (h.config ▸ h.inRange (h.config ▸ hMaxima) hRange)

theorem kept_tick (player : Player K) (dt : Stored K) (input : PlayerInput K) (physics : PhysicsOutput K)
    (contents : ContentsQuery K) : Kept player (player.tick dt input physics contents).player := by
  have hStill : Kept player player := ⟨rfl, fun h => h, fun _ h => h⟩
  cases dt with
  | infinite negative => exact hStill
  | nan => exact hStill
  | finite dt =>
    unfold Player.tick
    dsimp only
    split_ifs with hNone
    · exact hStill
    · exact (kept_begin player dt physics).trans
        (kept_of_turned (Turn.turned_advance player (not_le.mp hNone) input physics contents))

theorem kept_act (player : Player K) (act : PlayerAct K) (events : List (PlayerEvent K)) :
    Kept player (player.call (.act act events)) :=
  kept_of_turned (Turn.turned_act act : Turn.Turned 1 ⟨player, events, 0⟩ _)

theorem dead_call {player : Player K} {call : PlayerCall K} (hCall : ∀ snapshot, call ≠ .restore snapshot)
    (hDead : player.state.dead = true) : (player.call call).state.dead = true := by
  cases call with
  | tick dt input physics contents => exact (kept_tick player dt input physics contents).dead hDead
  | act act events => exact (kept_act player act events).dead hDead
  | restore snapshot => exact absurd rfl (hCall snapshot)

theorem inRange_call {player : Player K} (hMaxima : player.config.PositiveMaxima) (h : InRange player.config player.state)
    (call : PlayerCall K) : (player.call call).config = player.config ∧ InRange player.config (player.call call).state := by
  cases call with
  | tick dt input physics contents =>
    have hKept := kept_tick player dt input physics contents
    exact ⟨hKept.config, hKept.inRange hMaxima h⟩
  | act act events =>
    have hKept := kept_act player act events
    exact ⟨hKept.config, hKept.inRange hMaxima h⟩
  | restore snapshot => exact ⟨rfl, inRange_restore player hMaxima snapshot⟩

omit [IsStrictOrderedRing K] in
theorem run_snoc (config : PlayerConfig K) (calls : List (PlayerCall K)) (call : PlayerCall K) :
    Player.run config (calls ++ [call]) = (Player.run config calls).call call := by
  rw [Player.run, List.foldl_append]
  rfl

theorem inRange_run {config : PlayerConfig K} (hMaxima : config.PositiveMaxima) (calls : List (PlayerCall K)) :
    (Player.run config calls).config = config ∧ InRange config (Player.run config calls).state := by
  induction calls using List.reverseRecOn with
  | nil => exact ⟨rfl, inRange_new hMaxima⟩
  | append_singleton calls call ih =>
    rw [run_snoc]
    generalize Player.run config calls = player at ih ⊢
    obtain ⟨rfl, hRange⟩ := ih
    exact inRange_call hMaxima hRange call

theorem in_range_and_deaths_reported {config : PlayerConfig K} (hMaxima : config.PositiveMaxima)
    (calls : List (PlayerCall K)) :
    InRange config (Player.run config calls).state ∧
      (∀ call : PlayerCall K, (∀ snapshot, call ≠ .restore snapshot) → (Player.run config calls).state.dead = true →
        (Player.run config (calls ++ [call])).state.dead = true) ∧
      ∀ (dt : Stored K) (input : PlayerInput K) (physics : PhysicsOutput K) (contents : ContentsQuery K),
        Reported (Player.run config calls) ((Player.run config calls).tick dt input physics contents) := by
  refine ⟨(inRange_run hMaxima calls).2, fun call hCall hDead => ?_, reported_tick _⟩
  rw [run_snoc]
  exact dead_call hCall hDead

structure SameClocks (player other : Player K) : Prop where
  hurtTimer : player.hurtTimer = other.hurtTimer
  drownTimer : player.drownTimer = other.drownTimer
  drowning : player.drowning = other.drowning
  wasSubmerged : player.wasSubmerged = other.wasSubmerged

omit [FloorRing K] [IsStrictOrderedRing K] in
theorem restore_congr {player other : Player K} (hConfig : other.config = player.config) (snapshot : PlayerSnapshot K) :
    (other.restore snapshot).state = (player.restore snapshot).state := by
  unfold Player.restore
  dsimp only
  rw [hConfig]

/-- A save of any run gives its state and its voice back to any player of the same config, and itself when saved again.
The receiver's clocks go on, so a run that restores its own save is undisturbed. -/
theorem saved_run_restored {config : PlayerConfig K} (hMaxima : config.PositiveMaxima) (calls before : List (PlayerCall K)) :
    let restored := Player.run config (before ++ [.restore (Player.run config calls).snapshot])
    restored.state = (Player.run config calls).state ∧ restored.voice = (Player.run config calls).voice ∧
      restored.snapshot = (Player.run config calls).snapshot ∧ SameClocks restored (Player.run config before) ∧
      Player.run config (calls ++ [.restore (Player.run config calls).snapshot]) = Player.run config calls := by
  obtain ⟨hConfig, hRange⟩ := inRange_run hMaxima calls
  have hOwn : (Player.run config calls).restore (Player.run config calls).snapshot = Player.run config calls :=
    restore_snapshot (hConfig.symm ▸ hRange)
  have hState : ((Player.run config before).restore (Player.run config calls).snapshot).state = (Player.run config calls).state := by
    rw [restore_congr ((inRange_run hMaxima before).1.trans hConfig.symm), hOwn]
  dsimp only
  rw [run_snoc, run_snoc]
  refine ⟨hState, rfl, ?_, ⟨rfl, rfl, rfl, rfl⟩, hOwn⟩
  exact congrArg (fun state => (⟨playerSnapshotVersion, state.stored, (Player.run config calls).voice⟩ : PlayerSnapshot K)) hState

omit [FloorRing K] in
theorem positiveMaxima_default : (PlayerConfig.default : PlayerConfig K).PositiveMaxima where
  health := Nat.cast_pos.mpr (by decide)
  armor := Nat.cast_pos.mpr (by decide)
  air := Nat.cast_pos.mpr (by decide)

end Runs

def deadlyFall : PhysicsOutput Rat := ⟨⟨0, 0, 0⟩, .dry, .none, some (.finite 2000), false⟩

theorem deadly_fall_reported :
    PlayerEvent.died ∈ ((Player.run .default []).tick (.finite 1) ⟨false, []⟩ deadlyFall fun _ => -1).events :=
  ((in_range_and_deaths_reported positiveMaxima_default []).2.2 _ _ _ _).died.mpr ⟨rfl, by decide +kernel⟩

theorem deadly_fall_restored :
    let fallen := Player.run PlayerConfig.default [.tick (.finite 1) ⟨false, []⟩ deadlyFall fun _ => -1]
    let restored := Player.run PlayerConfig.default ([.act .equipSuit []] ++ [.restore fallen.snapshot])
    restored.state = fallen.state ∧ restored.voice = fallen.voice ∧ restored.snapshot = fallen.snapshot ∧
      SameClocks restored (Player.run PlayerConfig.default [.act .equipSuit []]) ∧
      Player.run PlayerConfig.default ([.tick (.finite 1) ⟨false, []⟩ deadlyFall fun _ => -1] ++ [.restore fallen.snapshot]) =
        fallen :=
  saved_run_restored positiveMaxima_default [.tick (.finite 1) ⟨false, []⟩ deadlyFall fun _ => -1] [.act .equipSuit []]

end OpenHalfLife.Player
