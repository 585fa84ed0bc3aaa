import OpenHalfLife.Lib.Scalar
import OpenHalfLife.Lib.Behaviour
import Mathlib.Algebra.Order.Ring.Nat
import Mathlib.Data.List.Induction

/-! # Monster makers

When a maker spawns, and what it has spawned so far. A maker with a negative
count is never done, and counts its children until the counter overflows.
-/

namespace OpenHalfLife.Ai

set_option autoImplicit false

structure Spawner (K E : Type) where
  monstercount : Int32
  delay : K
  maxLiveChildren : UInt32
  active : Bool
  spawnedTotal : UInt32
  timer : K
  children : List E

namespace Spawner

variable {K E : Type}

def pruneDead (maker : Spawner K E) (isAlive : E → Bool) : Spawner K E :=
  { maker with children := maker.children.filter isAlive }

def restoreChild (maker : Spawner K E) (entity : E) : Spawner K E :=
  { maker with children := maker.children ++ [entity] }

/-- `none` for a maker that is never done. -/
def remaining (maker : Spawner K E) : Option Nat :=
  if maker.monstercount < 0 then none else some (maker.monstercount.toNatClampNeg - maker.spawnedTotal.toNat)

def hasRoom (maker : Spawner K E) : Bool :=
  maker.maxLiveChildren == 0 || decide (maker.children.length < maker.maxLiveChildren.toNat)

/-- `none` if the total overflows. -/
def noteSpawned (maker : Spawner K E) (entity : E) : Option (Spawner K E) :=
  if maker.spawnedTotal.toNat + 1 < 2 ^ 32 then
    let counted :=
      { maker with spawnedTotal := maker.spawnedTotal + 1, children := maker.children ++ [entity] }
    some (if counted.remaining = some 0 then { counted with active := false } else counted)
  else none

variable [Scalar K]

def new (monstercount : Int32) (delay : K) (maxLiveChildren : UInt32) (startOn : Bool) : Spawner K E where
  monstercount
  delay := Scalar.maximum delay 0
  maxLiveChildren
  active := startOn
  spawnedTotal := 0
  timer := 0
  children := []

def trigger (maker : Spawner K E) : Spawner K E :=
  { maker with active := !maker.active, timer := if maker.active then maker.timer else 0 }

def restoreCounters (maker : Spawner K E) (spawnedTotal : UInt32) (active : Bool) (timer : K) : Spawner K E :=
  let cap := maker.monstercount.toUInt32
  { maker with
    spawnedTotal := if maker.monstercount < 0 ∨ spawnedTotal ≤ cap then spawnedTotal else cap
    active
    timer := if Scalar.isFinite timer then Scalar.maximum timer 0 else 0 }

def elapsed (dt : K) : K := if Scalar.isFinite dt ∧ 0 < dt then dt else 0

def tick (maker : Spawner K E) (dt : K) (isAlive : E → Bool) : Bool × Spawner K E :=
  let maker := maker.pruneDead isAlive
  if !maker.active then (false, maker)
  else if maker.remaining = some 0 then (false, { maker with active := false })
  else if !maker.hasRoom then (false, maker)
  else
    let timer := maker.timer - elapsed dt
    if 0 < timer then (false, { maker with timer }) else (true, { maker with timer := maker.delay })

end Spawner

inductive MakerCall (K E : Type)
  | trigger
  | tick (dt : K) (isAlive : E → Bool) (child : E)
  | pruneDead (isAlive : E → Bool)
  | restoreCounters (spawnedTotal : UInt32) (active : Bool) (timer : K)
  | restoreChild (entity : E)

namespace Spawner

variable {K E : Type} [Scalar K]

def perform (maker : Spawner K E) : MakerCall K E → Option (Spawner K E)
  | .trigger => some maker.trigger
  | .tick dt isAlive child =>
    let (due, ticked) := maker.tick dt isAlive
    if due then ticked.noteSpawned child else some ticked
  | .pruneDead isAlive => some (maker.pruneDead isAlive)
  | .restoreCounters spawnedTotal active timer => some (maker.restoreCounters spawnedTotal active timer)
  | .restoreChild entity => some (maker.restoreChild entity)

def performAll (maker : Spawner K E) (calls : List (MakerCall K E)) : Option (Spawner K E) :=
  calls.foldlM perform maker

end Spawner

end OpenHalfLife.Ai

namespace OpenHalfLife.Ai.Spawner

set_option autoImplicit false

/-! ## What a maker makes

Quota and live children keep their bounds, and the total overflows at one
place only: a maker that is never done, with a total that was set to the last
number there is.
-/

variable {K E : Type} [Scalar K] {maker after : Spawner K E} {dt : K} {isAlive : E → Bool} {entity : E}

structure Due (maker : Spawner K E) (dt : K) (isAlive : E → Bool) : Prop where
  active : maker.active = true
  room : (maker.pruneDead isAlive).hasRoom = true
  timer : ¬0 < maker.timer - elapsed dt

def Overruns (maker : Spawner K E) : MakerCall K E → Prop
  | .tick dt isAlive _ => maker.monstercount < 0 ∧ maker.spawnedTotal.toNat + 1 = 2 ^ 32 ∧ maker.Due dt isAlive
  | _ => False

theorem tick_iff : (maker.tick dt isAlive).1 = true ↔ maker.remaining ≠ some 0 ∧ maker.Due dt isAlive := by
  have hRemaining : (maker.pruneDead isAlive).remaining = maker.remaining := rfl
  unfold tick
  simp only [hRemaining]
  constructor
  · intro h
    split_ifs at h with hActive hDone hRoom hTimer
    exact ⟨hDone, by simpa [pruneDead] using hActive, by simpa using hRoom, hTimer⟩
  · rintro ⟨hLeft, hActive, hRoom, hTimer⟩
    have hPruned : (maker.pruneDead isAlive).active = true := hActive
    have hLater : ¬0 < (maker.pruneDead isAlive).timer - elapsed dt := hTimer
    simp [hLeft, hRoom, hPruned, hLater]

omit [Scalar K] in
theorem remaining_eq_zero : maker.remaining = some 0 ↔
    0 ≤ maker.monstercount ∧ maker.monstercount.toNatClampNeg ≤ maker.spawnedTotal.toNat := by
  unfold remaining
  split <;> rename_i h
  · simp [Int32.not_le.mpr h]
  · simp [Int32.not_lt.mp h, Nat.sub_eq_zero_iff_le]

/-! ## The invariant -/

/-- Within the quota, and with no more live children of one kind than may live. -/
structure Kept (kind : E → Bool) (maker : Spawner K E) : Prop where
  total_le : 0 ≤ maker.monstercount → maker.spawnedTotal.toNat ≤ maker.monstercount.toNatClampNeg
  live_le : maker.maxLiveChildren ≠ 0 → maker.children.countP kind ≤ maker.maxLiveChildren.toNat

variable {kind : E → Bool}

theorem kept_new (monstercount : Int32) (delay : K) (maxLiveChildren : UInt32) (startOn : Bool) :
    (new monstercount delay maxLiveChildren startOn : Spawner K E).Kept kind where
  total_le _ := Nat.zero_le _
  live_le _ := Nat.zero_le _

omit [Scalar K] in
theorem Kept.pruneDead (h : maker.Kept kind) (isAlive : E → Bool) : (maker.pruneDead isAlive).Kept kind where
  total_le := h.total_le
  live_le hMax := (List.filter_sublist.countP_le).trans (h.live_le hMax)

theorem Kept.restoreCounters (h : maker.Kept kind) (spawnedTotal : UInt32) (active : Bool) (timer : K) :
    (maker.restoreCounters spawnedTotal active timer).Kept kind where
  total_le hCount := by
    have hCount : 0 ≤ maker.monstercount := hCount
    change (if _ ∨ _ then _ else _ : UInt32).toNat ≤ maker.monstercount.toNatClampNeg
    rw [← Int32.toNat_toUInt32_of_le hCount]
    split <;> rename_i hLe
    · exact hLe.resolve_left (Int32.not_lt.mpr hCount)
    · exact Nat.le_refl _
  live_le := h.live_le

theorem Kept.tick (h : maker.Kept kind) (dt : K) (isAlive : E → Bool) : (maker.tick dt isAlive).2.Kept kind := by
  have hPruned := h.pruneDead isAlive
  unfold Spawner.tick
  dsimp only
  split_ifs <;> exact ⟨hPruned.total_le, hPruned.live_le⟩

theorem tick_due (h : (maker.tick dt isAlive).1 = true) :
    (maker.tick dt isAlive).2 = { maker.pruneDead isAlive with timer := maker.delay } := by
  obtain ⟨hLeft, hActive, hRoom, hTimer⟩ := tick_iff.mp h
  have hRemaining : (maker.pruneDead isAlive).remaining = maker.remaining := rfl
  have hPruned : (maker.pruneDead isAlive).active = true := hActive
  have hLater : ¬0 < (maker.pruneDead isAlive).timer - elapsed dt := hTimer
  simp only [Spawner.tick, hPruned, hRemaining, hLeft, hRoom, hLater, Bool.not_true, Bool.false_eq_true, if_false]
  rfl

omit [Scalar K] in
theorem kept_noteSpawned (hLeft : maker.remaining ≠ some 0) (hRoom : maker.hasRoom = true)
    (hAfter : maker.noteSpawned entity = some after) : after.Kept kind := by
  unfold noteSpawned at hAfter
  split at hAfter <;> rename_i hFits
  · have hCounted : Kept kind { maker with
        spawnedTotal := maker.spawnedTotal + 1, children := maker.children ++ [entity] } := by
      refine ⟨fun hCount => ?_, fun hMax => ?_⟩
      · have hMore := mt remaining_eq_zero.mpr hLeft
        have hNext : (maker.spawnedTotal + 1).toNat = maker.spawnedTotal.toNat + 1 := by
          rw [UInt32.toNat_add]
          exact Nat.mod_eq_of_lt hFits
        change (maker.spawnedTotal + 1).toNat ≤ maker.monstercount.toNatClampNeg
        rw [hNext]
        by_contra hPast
        exact hMore ⟨hCount, by omega⟩
      · have hLess : maker.children.length < maker.maxLiveChildren.toNat := by
          simpa [hasRoom, show maker.maxLiveChildren ≠ 0 from hMax] using hRoom
        calc (maker.children ++ [entity]).countP kind
            ≤ (maker.children ++ [entity]).length := List.countP_le_length
          _ = maker.children.length + 1 := by rw [List.length_append, List.length_singleton]
          _ ≤ maker.maxLiveChildren.toNat := hLess
    obtain rfl := Option.some.inj hAfter
    split
    · exact ⟨hCounted.total_le, hCounted.live_le⟩
    · exact hCounted
  · cases hAfter

theorem Kept.perform (h : maker.Kept kind) {call : MakerCall K E}
    (hKind : ∀ entity, call = .restoreChild entity → kind entity = false)
    (hAfter : maker.perform call = some after) : after.Kept kind := by
  cases call with
  | trigger =>
    obtain rfl := Option.some.inj hAfter
    exact ⟨h.total_le, h.live_le⟩
  | tick dt isAlive child =>
    simp only [Spawner.perform] at hAfter
    split at hAfter <;> rename_i hDue
    · obtain ⟨hLeft, _, hRoom, _⟩ := tick_iff.mp hDue
      have hTicked := tick_due hDue
      rw [hTicked] at hAfter
      refine kept_noteSpawned ?_ ?_ hAfter
      · exact hLeft
      · exact hRoom
    · obtain rfl := Option.some.inj hAfter
      exact h.tick dt isAlive
  | pruneDead isAlive =>
    obtain rfl := Option.some.inj hAfter
    exact h.pruneDead isAlive
  | restoreCounters spawnedTotal active timer =>
    obtain rfl := Option.some.inj hAfter
    exact h.restoreCounters spawnedTotal active timer
  | restoreChild entity =>
    obtain rfl := Option.some.inj hAfter
    refine ⟨h.total_le, fun hMax => ?_⟩
    have hSame : (maker.children ++ [entity]).countP kind = maker.children.countP kind := by
      simp [List.countP_append, hKind entity rfl]
    exact hSame.trans_le (h.live_le hMax)

theorem Kept.perform_eq_none (h : maker.Kept kind) (call : MakerCall K E) :
    maker.perform call = none ↔ maker.Overruns call := by
  cases call with
  | tick dt isAlive child =>
    have hFull : (maker.tick dt isAlive).1 = true →
        ((maker.tick dt isAlive).2.noteSpawned child = none ↔ maker.spawnedTotal.toNat + 1 = 2 ^ 32) := by
      intro hDue
      have hLt := maker.spawnedTotal.toNat_lt
      rw [tick_due hDue, noteSpawned]
      change (if maker.spawnedTotal.toNat + 1 < 2 ^ 32 then _ else _) = none ↔ _
      split <;> simp <;> omega
    simp only [Spawner.perform, Overruns]
    constructor
    · intro hNone
      split at hNone <;> rename_i hDue
      · have hLast := (hFull hDue).mp hNone
        obtain ⟨hLeft, hDue⟩ := tick_iff.mp hDue
        refine ⟨Int32.not_le.mp fun hCount => ?_, hLast, hDue⟩
        have hTotal := h.total_le hCount
        have hBound := maker.monstercount.toNatClampNeg_lt
        omega
      · cases hNone
    · rintro ⟨hCount, hLast, hDue⟩
      have hTick : (maker.tick dt isAlive).1 = true := by
        refine tick_iff.mpr ⟨fun hDone => ?_, hDue⟩
        exact Int32.not_le.mpr hCount (remaining_eq_zero.mp hDone).1
      rw [if_pos hTick]
      exact (hFull hTick).mpr hLast
  | _ => exact ⟨nofun, False.elim⟩

/-! ## Runs -/

theorem performAll_append (maker : Spawner K E) (done : List (MakerCall K E)) (call : MakerCall K E) :
    maker.performAll (done ++ [call]) = (maker.performAll done).bind (·.perform call) := by
  simp only [performAll, List.foldlM_append, List.foldlM_cons, List.foldlM_nil, bind_pure]
  rfl

theorem Kept.performAll (h : maker.Kept kind) {calls : List (MakerCall K E)}
    (hKind : ∀ entity, .restoreChild entity ∈ calls → kind entity = false)
    (hAfter : maker.performAll calls = some after) : after.Kept kind := by
  induction calls using List.reverseRecOn generalizing after with
  | nil =>
    obtain rfl := Option.some.inj hAfter
    exact h
  | append_singleton done call ih =>
    rw [performAll_append, Option.bind_eq_some_iff] at hAfter
    obtain ⟨before, hBefore, hAfter⟩ := hAfter
    have hDone := ih (fun entity hMem => hKind entity (List.mem_append_left _ hMem)) hBefore
    refine hDone.perform (fun entity hCall => hKind entity ?_) hAfter
    rw [hCall]
    exact List.mem_concat_self

structure Sound (done : List (MakerCall K E)) (after : Spawner K E) : Prop where
  total_le : 0 ≤ after.monstercount → after.spawnedTotal.toNat ≤ after.monstercount.toNatClampNeg
  tick : ∀ dt isAlive, (after.tick dt isAlive).1 = true →
    after.remaining ≠ some 0 ∧ (after.pruneDead isAlive).hasRoom = true
  live_le : (∀ child ∈ after.children, .restoreChild child ∉ done) → after.maxLiveChildren ≠ 0 →
    after.children.length ≤ after.maxLiveChildren.toNat

open Classical in
theorem sound_performAll (monstercount : Int32) (delay : K) (maxLiveChildren : UInt32) (startOn : Bool)
    {done : List (MakerCall K E)} (h : performAll (new monstercount delay maxLiveChildren startOn) done = some after) :
    Sound done after := by
  have hKept : after.Kept fun child => decide (.restoreChild child ∉ done) :=
    (kept_new monstercount delay maxLiveChildren startOn).performAll
      (fun entity hMem => decide_eq_false (not_not_intro hMem)) h
  refine ⟨hKept.total_le, fun dt isAlive hDue => ?_, fun hNoted hMax => ?_⟩
  · obtain ⟨hLeft, _, hRoom, _⟩ := tick_iff.mp hDue
    exact ⟨hLeft, hRoom⟩
  · have hAll := List.countP_eq_length.mpr fun child hMem => decide_eq_true (hNoted child hMem)
    exact hAll.symm.trans_le (hKept.live_le hMax)

/-- A run of a maker keeps to its bounds and counts all it makes exactly if no child falls due that is one more than
a maker that is never done can count. -/
theorem sound_iff (monstercount : Int32) (delay : K) (maxLiveChildren : UInt32) (startOn : Bool)
    (calls : List (MakerCall K E)) :
    (∀ done later, calls = done ++ later →
      ∃ after, performAll (new monstercount delay maxLiveChildren startOn) done = some after ∧ Sound done after) ↔
      Throughout (fun done call => ∀ before,
        performAll (new monstercount delay maxLiveChildren startOn) done = some before → ¬before.Overruns call)
        calls := by
  constructor
  · intro h done call later hCalls before hBefore hOverruns
    obtain ⟨after, hAfter, -⟩ := h (done ++ [call]) later (by rw [hCalls, List.append_assoc]; rfl)
    have hKept : before.Kept fun _ => false :=
      (kept_new monstercount delay maxLiveChildren startOn).performAll (fun _ _ => rfl) hBefore
    rw [performAll_append, hBefore, Option.bind_some, (hKept.perform_eq_none call).mpr hOverruns] at hAfter
    cases hAfter
  · intro h done later hCalls
    suffices hSome : ∃ after, performAll (new monstercount delay maxLiveChildren startOn) done = some after by
      obtain ⟨after, hAfter⟩ := hSome
      exact ⟨after, hAfter, sound_performAll monstercount delay maxLiveChildren startOn hAfter⟩
    induction done using List.reverseRecOn generalizing later with
    | nil => exact ⟨_, rfl⟩
    | append_singleton done call ih =>
      obtain ⟨before, hBefore⟩ := ih (call :: later) (by rw [hCalls, List.append_assoc]; rfl)
      have hKept : before.Kept fun _ => false :=
        (kept_new monstercount delay maxLiveChildren startOn).performAll (fun _ _ => rfl) hBefore
      have hFits := h done call later (by rw [hCalls, List.append_assoc]; rfl) before hBefore
      rw [performAll_append, hBefore, Option.bind_some]
      exact Option.ne_none_iff_exists'.mp (mt (hKept.perform_eq_none call).mp hFits)

/-- A saved total that is the last number there is, for a maker that is never done. -/
theorem full_total_overruns : ¬∀ done later,
    [MakerCall.restoreCounters 4294967295 true 0, .tick 0 (fun _ => true) ()] = done ++ later →
      ∃ after, performAll (new (-1) 0 0 true : Spawner Rat Unit) done = some after ∧ Sound done after := by
  intro h
  obtain ⟨after, hAfter, -⟩ := h [.restoreCounters 4294967295 true 0, .tick 0 (fun _ => true) ()] [] rfl
  have hNone : performAll (new (-1) 0 0 true : Spawner Rat Unit)
      [.restoreCounters 4294967295 true 0, .tick 0 (fun _ => true) ()] = none := by decide +kernel
  rw [hNone] at hAfter
  cases hAfter

end OpenHalfLife.Ai.Spawner
