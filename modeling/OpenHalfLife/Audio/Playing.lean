import OpenHalfLife.Audio.Mixer
import Mathlib.Algebra.BigOperators.Group.List.Basic
import Mathlib.Algebra.Group.Prod
import Mathlib.Tactic.Ring
import Mathlib.Data.List.Basic

/-! # The unrolled signal

What a sound would be without loops: its frames up to the end of the loop, and
then the loop again and again; or all its frames, and then nothing.
-/

namespace OpenHalfLife.Audio

set_option autoImplicit false

/-! ## Going back by the loop -/

section Wrap

variable {K : Type} [Field K] [LinearOrder K] [IsStrictOrderedRing K] [FloorRing K] {start stop : Nat} {position step : K}

def loopIndex (start stop n : Nat) : Nat := if n < stop then n else start + (n - stop) % (stop - start)

theorem loopIndex_lt (h : start < stop) (n : Nat) : loopIndex start stop n < stop := by
  rw [loopIndex]
  split
  · assumption
  · have hMod := Nat.mod_lt (n - stop) (Nat.sub_pos_of_lt h)
    omega

theorem loopIndex_sub (h : start < stop) {n : Nat} (hN : stop ≤ n) :
    loopIndex start stop n = loopIndex start stop (n - (stop - start)) := by
  rw [loopIndex, if_neg (Nat.not_lt.mpr hN), loopIndex]
  split <;> rename_i hLess
  · rw [Nat.mod_eq_of_lt (by omega)]
    omega
  · rw [Nat.mod_eq_sub_mod (by omega)]
    congr 2
    omega

theorem loopIndex_succ (h : start < stop) (n : Nat) :
    loopIndex start stop (n + 1) =
      if loopIndex start stop n + 1 < stop then loopIndex start stop n + 1 else start := by
  induction n using Nat.strongRecOn with
  | ind n ih =>
    by_cases hN : stop ≤ n
    · have hEarlier := ih (n - (stop - start)) (by omega)
      rw [loopIndex_sub h hN, loopIndex_sub h (Nat.le_succ_of_le hN), ← hEarlier]
      congr 1
      omega
    · have hLess := Nat.lt_of_not_le hN
      rw [loopIndex, loopIndex, if_pos hLess]
      split
      · rfl
      · rw [show n + 1 - stop = 0 by omega, Nat.zero_mod, Nat.add_zero]

theorem wrap_of_le (hLoop : start < stop) (h : (stop : K) ≤ position) :
    wrap start stop position = wrap start stop (start + (position - stop)) := by
  rw [wrap, if_pos ⟨h, hLoop⟩]

theorem wrap_nonneg (h : 0 ≤ position) : 0 ≤ wrap start stop position := by
  fun_induction wrap start stop position with
  | case1 position hBack ih => exact ih (add_nonneg (Nat.cast_nonneg start) (sub_nonneg.mpr hBack.1))
  | case2 position hStay => exact h

theorem wrap_wrap_add (hLoop : start < stop) (hStep : 0 ≤ step) (position : K) :
    wrap start stop (wrap start stop position + step) = wrap start stop (position + step) := by
  fun_induction wrap start stop position with
  | case1 position hBack ih =>
    rw [ih, wrap_of_le hLoop (hBack.1.trans (le_add_of_nonneg_right hStep))]
    congr 1
    ring
  | case2 position hStay => rfl

omit [LinearOrder K] [IsStrictOrderedRing K] [FloorRing K] in
theorem back_eq (start stop : Nat) (position : K) :
    (start : K) + (position - stop) = position - ((stop - start : Int) : K) := by
  push_cast
  ring

theorem fract_wrap (position : K) : Int.fract (wrap start stop position) = Int.fract position := by
  fun_induction wrap start stop position with
  | case1 position hBack ih => rw [ih, back_eq, Int.fract_sub_intCast]
  | case2 position hStay => rfl

theorem floor_wrap (hLoop : start < stop) (h : 0 ≤ position) :
    ⌊wrap start stop position⌋.toNat = loopIndex start stop ⌊position⌋.toNat := by
  fun_induction wrap start stop position with
  | case1 position hBack ih =>
    have hFloor : (stop : Int) ≤ ⌊position⌋ := Int.le_floor.mpr (by exact_mod_cast hBack.1)
    have hEarlier := ih (add_nonneg (Nat.cast_nonneg start) (sub_nonneg.mpr hBack.1))
    rw [hEarlier, back_eq, Int.floor_sub_intCast, loopIndex_sub hLoop (show stop ≤ ⌊position⌋.toNat by omega)]
    congr 1
    omega
  | case2 position hStay =>
    have hLess : position < stop := not_le.mp fun hLe => hStay ⟨hLe, hLoop⟩
    have hFloor : ⌊position⌋ < (stop : Int) := Int.floor_lt.mpr (by exact_mod_cast hLess)
    have hNonneg : 0 ≤ ⌊position⌋ := Int.floor_nonneg.mpr h
    rw [loopIndex, if_pos (by omega)]

end Wrap

/-! ## The signal -/

section Signal

variable {K : Type} [Field K] [LinearOrder K]

def between (here next : K × K) (frac : K) : K × K :=
  (here.1 + (next.1 - here.1) * frac, here.2 + (next.2 - here.2) * frac)

namespace SoundBuffer

def sourceFrame (buffer : SoundBuffer K) (index : Nat) : K × K :=
  readFrame buffer.samples (max buffer.channels 1) index

def unrolledIndex (buffer : SoundBuffer K) (n : Nat) : Nat :=
  match buffer.loopRange with
  | some (start, stop) => loopIndex start stop n
  | none => min n (buffer.frameCount - 1)

def isOver (buffer : SoundBuffer K) (x : K) : Bool := buffer.loopRange.isNone && decide ((buffer.frameCount : K) ≤ x)

variable [FloorRing K]

def signal (buffer : SoundBuffer K) (x : K) : K × K :=
  if buffer.isOver x then 0
  else
    between (buffer.sourceFrame (buffer.unrolledIndex ⌊x⌋.toNat))
      (buffer.sourceFrame (buffer.unrolledIndex (⌊x⌋.toNat + 1))) (Int.fract x)

def nextIndex (buffer : SoundBuffer K) (index : Nat) : Nat :=
  if index + 1 < buffer.frameCount then index + 1
  else
    match buffer.loopRange with
    | some (start, _) => min start (buffer.frameCount - 1)
    | none => index

def played (buffer : SoundBuffer K) (x : K) : K × K :=
  if buffer.isOver x then 0
  else
    between (buffer.sourceFrame (buffer.unrolledIndex ⌊x⌋.toNat))
      (buffer.sourceFrame (buffer.nextIndex (buffer.unrolledIndex ⌊x⌋.toNat))) (Int.fract x)

def LoopInRange (buffer : SoundBuffer K) : Prop :=
  ∀ start stop, buffer.loopRange = some (start, stop) → start < stop ∧ stop ≤ buffer.frameCount

/-- Within the last frame of a loop that ends before the frames do, the frame after the loop is heard as little as
the first frame of the loop, by ears with these gains. -/
def Seamless (buffer : SoundBuffer K) (left right x : K) : Prop :=
  ∀ start stop, buffer.loopRange = some (start, stop) → stop < buffer.frameCount →
    loopIndex start stop ⌊x⌋.toNat + 1 = stop →
      Int.fract x = 0 ∨ ((buffer.sourceFrame stop).1 = (buffer.sourceFrame start).1 ∨ left = 0) ∧
        ((buffer.sourceFrame stop).2 = (buffer.sourceFrame start).2 ∨ right = 0)

variable {buffer : SoundBuffer K} {x left right : K}

theorem played_seam {start stop : Nat} (hRange : buffer.loopRange = some (start, stop))
    (hStop : stop < buffer.frameCount) (hSeam : loopIndex start stop ⌊x⌋.toNat + 1 = stop) (hLength : start < stop) :
    buffer.played x = between (buffer.sourceFrame (stop - 1)) (buffer.sourceFrame stop) (Int.fract x) ∧
      buffer.signal x = between (buffer.sourceFrame (stop - 1)) (buffer.sourceFrame start) (Int.fract x) := by
  have hOver : buffer.isOver x = false := by rw [isOver, hRange]; rfl
  have hSucc := loopIndex_succ hLength ⌊x⌋.toNat
  have hIndex : loopIndex start stop ⌊x⌋.toNat = stop - 1 := by omega
  simp only [played, signal, hOver, nextIndex, unrolledIndex, hRange, hSucc, hIndex]
  constructor
  · rw [if_neg Bool.false_ne_true, if_pos (by omega), Nat.sub_add_cancel (by omega)]
  · rw [if_neg Bool.false_ne_true, if_neg (by omega)]

theorem played_eq_signal (hLoop : buffer.LoopInRange)
    (hX : buffer.isOver x = false → buffer.loopRange = none → ⌊x⌋.toNat < buffer.frameCount)
    (hNone : ∀ start stop, buffer.loopRange = some (start, stop) → stop < buffer.frameCount →
      loopIndex start stop ⌊x⌋.toNat + 1 ≠ stop) :
    buffer.played x = buffer.signal x := by
  unfold played signal
  cases hOver : buffer.isOver x with
  | true => rfl
  | false =>
    rw [if_neg Bool.false_ne_true, if_neg Bool.false_ne_true]
    cases hRange : buffer.loopRange with
    | none =>
      have hFrames := hX hOver hRange
      have hNext : buffer.nextIndex (buffer.unrolledIndex ⌊x⌋.toNat) = buffer.unrolledIndex (⌊x⌋.toNat + 1) := by
        simp only [nextIndex, unrolledIndex, hRange]
        split <;> omega
      rw [hNext]
    | some range =>
      obtain ⟨start, stop⟩ := range
      obtain ⟨hLength, hFits⟩ := hLoop start stop hRange
      have hIndex := loopIndex_lt hLength ⌊x⌋.toNat
      have hSucc := loopIndex_succ hLength ⌊x⌋.toNat
      have hInside := hNone start stop hRange
      simp only [nextIndex, unrolledIndex, hRange, hSucc]
      by_cases hWithin : loopIndex start stop ⌊x⌋.toNat + 1 < stop
      · rw [if_pos (by omega), if_pos hWithin]
      · rw [if_neg (by omega), if_neg hWithin, min_eq_left (by omega)]

omit [LinearOrder K] [FloorRing K] in
theorem between_eq_iff {here next other frac gain : K} :
    (here + (next - here) * frac) * gain = (here + (other - here) * frac) * gain ↔
      frac = 0 ∨ next = other ∨ gain = 0 := by
  rw [← sub_eq_zero, show (here + (next - here) * frac) * gain - (here + (other - here) * frac) * gain =
    frac * ((next - other) * gain) by ring, mul_eq_zero, mul_eq_zero, sub_eq_zero]

theorem heard_eq_iff (hLoop : buffer.LoopInRange)
    (hX : buffer.isOver x = false → buffer.loopRange = none → ⌊x⌋.toNat < buffer.frameCount) :
    ((buffer.played x).1 * left = (buffer.signal x).1 * left ∧
        (buffer.played x).2 * right = (buffer.signal x).2 * right) ↔ buffer.Seamless left right x := by
  by_cases hSeam : ∃ start stop, buffer.loopRange = some (start, stop) ∧ stop < buffer.frameCount ∧
      loopIndex start stop ⌊x⌋.toNat + 1 = stop
  · obtain ⟨start, stop, hRange, hStop, hSeam⟩ := hSeam
    obtain ⟨hPlayed, hSignal⟩ := played_seam hRange hStop hSeam (hLoop start stop hRange).1
    rw [hPlayed, hSignal]
    refine (and_congr between_eq_iff between_eq_iff).trans (or_and_left.symm.trans ?_)
    constructor
    · intro h start' stop' hRange' _ _
      obtain ⟨rfl, rfl⟩ := Prod.mk.inj (Option.some.inj (hRange.symm.trans hRange'))
      exact h
    · exact fun h => h start stop hRange hStop hSeam
  · have hNone : ∀ start stop, buffer.loopRange = some (start, stop) → stop < buffer.frameCount →
        loopIndex start stop ⌊x⌋.toNat + 1 ≠ stop :=
      fun start stop hRange hStop hHere => hSeam ⟨start, stop, hRange, hStop, hHere⟩
    rw [played_eq_signal hLoop hX hNone]
    exact ⟨fun _ start stop hRange hStop hHere => absurd hHere (hNone start stop hRange hStop), fun _ => ⟨rfl, rfl⟩⟩

end SoundBuffer

end Signal

end OpenHalfLife.Audio

namespace OpenHalfLife.Audio

set_option autoImplicit false

/-! ## Playing a sound

What a channel adds to the blocks of a mixer depends on how many frames it has
played, and not on the blocks or on the other channels.
-/

section Playing

variable {K : Type} [Field K] [LinearOrder K] [IsStrictOrderedRing K] [FloorRing K] {sqrt : K → K}

namespace SoundBuffer

def home (buffer : SoundBuffer K) (x : K) : K :=
  match buffer.loopRange with
  | some (start, stop) => wrap start stop x
  | none => x

variable {buffer : SoundBuffer K} {x y step : K}

omit [IsStrictOrderedRing K] [FloorRing K] in
theorem isOver_mono (h : buffer.isOver x = true) (hLe : x ≤ y) : buffer.isOver y = true := by
  rw [isOver, Bool.and_eq_true, decide_eq_true_iff] at h ⊢
  exact ⟨h.1, h.2.trans hLe⟩

omit [IsStrictOrderedRing K] in
theorem played_of_over (h : buffer.isOver x = true) : buffer.played x = 0 := if_pos h

omit [IsStrictOrderedRing K] in
theorem floor_lt_frameCount (hX : 0 ≤ x) (hOver : buffer.isOver x = false) (hNone : buffer.loopRange = none) :
    ⌊x⌋.toNat < buffer.frameCount := by
  have hLess : x < buffer.frameCount := by
    rw [isOver, hNone] at hOver
    simpa using hOver
  have hFloor : ⌊x⌋ < (buffer.frameCount : Int) := Int.floor_lt.mpr (by exact_mod_cast hLess)
  have hNonneg : 0 ≤ ⌊x⌋ := Int.floor_nonneg.mpr hX
  omega

theorem home_home_add (hLoop : buffer.LoopInRange) (hStep : 0 ≤ step) (x : K) :
    buffer.home (buffer.home x + step) = buffer.home (x + step) := by
  unfold home
  cases hRange : buffer.loopRange with
  | none => rfl
  | some range => exact wrap_wrap_add (hLoop range.1 range.2 hRange).1 hStep x

theorem home_nonneg (hX : 0 ≤ x) : 0 ≤ buffer.home x := by
  unfold home
  cases buffer.loopRange with
  | none => exact hX
  | some range => exact wrap_nonneg hX

theorem fract_home (x : K) : Int.fract (buffer.home x) = Int.fract x := by
  unfold home
  cases buffer.loopRange with
  | none => rfl
  | some range => exact fract_wrap x

theorem floor_home (hLoop : buffer.LoopInRange) (hX : 0 ≤ x) (hOver : buffer.isOver x = false) :
    ⌊buffer.home x⌋.toNat = buffer.unrolledIndex ⌊x⌋.toNat ∧ buffer.unrolledIndex ⌊x⌋.toNat < buffer.frameCount := by
  unfold home unrolledIndex
  cases hRange : buffer.loopRange with
  | none =>
    have hFrames := floor_lt_frameCount hX hOver hRange
    dsimp only
    omega
  | some range =>
    obtain ⟨hLength, hFits⟩ := hLoop range.1 range.2 hRange
    exact ⟨floor_wrap hLength hX, (loopIndex_lt hLength _).trans_le hFits⟩

end SoundBuffer

namespace ActiveChannel

variable {origin channel : ActiveChannel K} {step x : K} {n : Nat} {gains : StereoGain K} {classGain : K}

theorem read_eq (hLoop : channel.buffer.LoopInRange) (hX : 0 ≤ x) (hOver : channel.buffer.isOver x = false)
    (hPosition : channel.position = channel.buffer.home x) : channel.read = channel.buffer.played x := by
  obtain ⟨hFloor, hFrames⟩ := SoundBuffer.floor_home hLoop hX hOver
  have hNonneg : 0 ≤ ⌊channel.buffer.home x⌋ := Int.floor_nonneg.mpr (SoundBuffer.home_nonneg hX)
  have hIdx : min (max 0 (min ⌊channel.position⌋ channel.buffer.frameCount)).toNat (channel.buffer.frameCount - 1) =
      channel.buffer.unrolledIndex ⌊x⌋.toNat := by
    rw [hPosition, ← hFloor]
    omega
  have hWhole : ((channel.buffer.unrolledIndex ⌊x⌋.toNat : Nat) : K) = (⌊channel.buffer.home x⌋ : K) := by
    rw [← hFloor, ← Int.cast_natCast, Int.toNat_of_nonneg hNonneg]
  have hFrac : clampTo 0 1 (channel.position - (channel.buffer.unrolledIndex ⌊x⌋.toNat : Nat)) = Int.fract x := by
    rw [hPosition, hWhole, Int.self_sub_floor, SoundBuffer.fract_home, clampTo,
      if_neg (not_lt.mpr (Int.fract_nonneg x)), if_neg (not_lt.mpr (Int.fract_lt_one x).le)]
  rw [SoundBuffer.played, hOver, if_neg Bool.false_ne_true]
  simp only [read, hIdx, hFrac]
  rfl

/-- A channel that has played so many frames of the sound it began with. -/
structure At (origin : ActiveChannel K) (step : K) (n : Nat) (channel : ActiveChannel K) : Prop where
  same : channel = { origin with position := channel.position, finished := false }
  home : origin.buffer.home channel.position = origin.buffer.home (n * step)
  nonneg : 0 ≤ channel.position

theorem At.buffer_eq (h : At origin step n channel) : channel.buffer = origin.buffer := by
  rw [h.same]

theorem At.seek (h : At origin step n channel) :
    channel.seek =
      if origin.buffer.isOver (n * step) then { channel with finished := true }
      else { channel with position := origin.buffer.home (n * step) } := by
  have hHome := h.home
  unfold ActiveChannel.seek SoundBuffer.isOver SoundBuffer.home
  unfold SoundBuffer.home at hHome
  rw [h.buffer_eq]
  cases hRange : origin.buffer.loopRange with
  | none =>
    rw [hRange] at hHome
    dsimp only at hHome ⊢
    rw [hHome, Option.isNone_none, Bool.true_and]
    by_cases hOver : (origin.buffer.frameCount : K) ≤ n * step
    · rw [if_pos hOver, if_pos (decide_eq_true hOver)]
    · rw [if_neg hOver, if_neg (by simpa using hOver), ← hHome, ← h.buffer_eq]
  | some range =>
    rw [hRange] at hHome
    dsimp only at hHome ⊢
    rw [hHome]
    rfl

def scaled (gains : StereoGain K) (classGain : K) (frame : K × K) : K × K :=
  (frame.1 * gains.left * classGain, frame.2 * gains.right * classGain)

omit [LinearOrder K] [IsStrictOrderedRing K] [FloorRing K] in
theorem scaled_zero : scaled gains classGain 0 = 0 := by
  simp [scaled]

theorem frames_open (hOpen : channel.seek.finished = false) (count frame : Nat) :
    channel.frames step gains (fun _ => classGain) (count + 1) frame =
      let rest := ActiveChannel.frames step gains (fun _ => classGain) count (frame + 1)
        { channel.seek with position := channel.seek.position + step }
      (scaled gains classGain channel.seek.read :: rest.1, rest.2) := by
  rw [ActiveChannel.frames]
  exact if_neg (ne_true_of_eq_false hOpen)

theorem At.frames (h : At origin step n channel) (hLoop : origin.buffer.LoopInRange) (hStep : 0 ≤ step)
    (count frame : Nat) :
    (∀ j < count, (channel.frames step gains (fun _ => classGain) count frame).1[j]?.getD 0 =
        scaled gains classGain (origin.buffer.played ((n + j : Nat) * step))) ∧
      ((channel.frames step gains (fun _ => classGain) count frame).2.finished = false ∧
          At origin step (n + count) (channel.frames step gains (fun _ => classGain) count frame).2 ∧
          (∀ j < count, origin.buffer.isOver ((n + j : Nat) * step) = false) ∨
        (channel.frames step gains (fun _ => classGain) count frame).2.finished = true ∧
          ∃ j < count, origin.buffer.isOver ((n + j : Nat) * step) = true) := by
  induction count generalizing n frame channel with
  | zero =>
    refine ⟨fun j hJ => absurd hJ (Nat.not_lt_zero j), Or.inl ⟨?_, h, fun j hJ => absurd hJ (Nat.not_lt_zero j)⟩⟩
    rw [ActiveChannel.frames, h.same]
  | succ count ih =>
    cases hOver : origin.buffer.isOver (n * step) with
    | true =>
      have hSeek : channel.seek = { channel with finished := true } := by rw [h.seek, hOver, if_pos rfl]
      rw [ActiveChannel.frames, hSeek]
      refine ⟨fun j hJ => ?_, Or.inr ⟨rfl, 0, Nat.zero_lt_succ count, hOver⟩⟩
      have hLater : (n : K) * step ≤ (n + j : Nat) * step :=
        mul_le_mul_of_nonneg_right (Nat.cast_le.mpr (Nat.le_add_right n j)) hStep
      rw [SoundBuffer.played_of_over (SoundBuffer.isOver_mono hOver hLater), scaled_zero]
      rfl
    | false =>
      have hSeek : channel.seek = { channel with position := origin.buffer.home (n * step) } := by
        rw [h.seek, hOver, if_neg Bool.false_ne_true]
      have hNext : At origin step (n + 1) { channel with position := origin.buffer.home (n * step) + step } := by
        refine ⟨?_, ?_, ?_⟩
        · rw [h.same]
        · rw [SoundBuffer.home_home_add hLoop hStep]
          push_cast
          ring_nf
        · exact add_nonneg (SoundBuffer.home_nonneg (mul_nonneg (Nat.cast_nonneg n) hStep)) hStep
      have hOpen : channel.seek.finished = false := by rw [hSeek, h.same]
      have hRead : channel.seek.read = origin.buffer.played (n * step) := by
        have hSame := h.buffer_eq
        rw [hSeek]
        rw [← hSame] at hLoop hOver ⊢
        exact read_eq hLoop (mul_nonneg (Nat.cast_nonneg n) hStep) hOver rfl
      obtain ⟨hAdded, hEnd⟩ := ih hNext (frame + 1)
      rw [frames_open hOpen, hRead, hSeek]
      dsimp only
      refine ⟨fun j hJ => ?_, ?_⟩
      · cases j with
        | zero => rfl
        | succ j =>
          rw [List.getElem?_cons_succ, hAdded j (Nat.lt_of_succ_lt_succ hJ), Nat.add_right_comm, Nat.add_assoc]
      · rcases hEnd with ⟨hFinished, hAt, hNot⟩ | ⟨hFinished, j, hJ, hAfter⟩
        · refine Or.inl ⟨hFinished, by rwa [Nat.add_right_comm, Nat.add_assoc] at hAt, fun j hJ => ?_⟩
          cases j with
          | zero => exact hOver
          | succ j =>
            have hThen := hNot j (Nat.lt_of_succ_lt_succ hJ)
            rwa [Nat.add_right_comm, Nat.add_assoc] at hThen
        · refine Or.inr ⟨hFinished, j + 1, Nat.succ_lt_succ hJ, ?_⟩
          rwa [Nat.add_right_comm, Nat.add_assoc] at hAfter

end ActiveChannel

end Playing

end OpenHalfLife.Audio
