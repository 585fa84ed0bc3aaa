import Mathlib.Data.Rat.Floor
import OpenHalfLife.Audio.Playing

/-! # Blocks

However the output is split into blocks, a channel adds the same frames to it,
until it is over and gone.
-/

namespace OpenHalfLife.Audio

set_option autoImplicit false

section Blocks

variable {K : Type} [Field K] [LinearOrder K] [IsStrictOrderedRing K] [FloorRing K] {sqrt : K → K}

omit [LinearOrder K] [IsStrictOrderedRing K] [FloorRing K] in
theorem getElem?_mixInto (out added : List (K × K)) (j : Nat) :
    (mixInto out added)[j]? = out[j]?.map (· + added[j]?.getD 0) := by
  induction out generalizing added j with
  | nil => cases added <;> simp [mixInto]
  | cons frame out ih =>
    cases added with
    | nil => simp [mixInto]
    | cons first added =>
      cases j with
      | zero => simp [mixInto]
      | succ j => simpa [mixInto] using ih added j

namespace Mixer

variable (sqrt) in
def block (mixer : Mixer K) (capacity : Nat) (channel : ActiveChannel K) : List (K × K) × Option (ActiveChannel K) :=
  if channel.finished ∨ channel.buffer.frameCount = 0 then ([], none)
  else
    let classGain := ramp (mixer.appliedClassVolume channel.channelClass) (mixer.classVolume channel.channelClass) capacity
    let (added, last) := channel.frames (mixer.step channel) (mixer.gains sqrt channel) classGain capacity 0
    (added, if last.finished then none else some last)

variable {mixer : Mixer K} {capacity : Nat} {channels : List (ActiveChannel K)} {out : List (K × K)}

theorem mix_snd : (mixer.mix sqrt capacity channels out).2 =
    channels.filterMap fun channel => (mixer.block sqrt capacity channel).2 := by
  induction channels generalizing out with
  | nil => rfl
  | cons channel channels ih =>
    rw [mix, List.filterMap_cons, block]
    split
    · exact ih
    · dsimp only
      rw [ih]
      split <;> rfl

theorem getElem?_mix (j : Nat) : (mixer.mix sqrt capacity channels out).1[j]? =
    out[j]?.map (· + (channels.map fun channel => (mixer.block sqrt capacity channel).1[j]?.getD 0).sum) := by
  induction channels generalizing out with
  | nil => simp [mix]
  | cons channel channels ih =>
    rw [mix, List.map_cons, List.sum_cons, block]
    split
    · rw [ih, List.getElem?_nil, Option.getD_none, zero_add]
    · dsimp only
      rw [ih, getElem?_mixInto, Option.map_map]
      congr 1
      funext frame
      exact add_assoc _ _ _

structure Steady (mixer : Mixer K) : Prop where
  master : mixer.appliedMasterVolume = mixer.masterVolume
  classes : mixer.appliedClassVolume = mixer.classVolume

omit [LinearOrder K] [IsStrictOrderedRing K] [FloorRing K] in
theorem ramp_same (gain : K) (blockFrames : Nat) : ramp gain gain blockFrames = fun _ => gain := by
  funext frame
  rw [ramp, sub_self, zero_mul, add_zero]

theorem Steady.renderFrames_snd (h : mixer.Steady) :
    (mixer.renderFrames sqrt capacity).2 =
      { mixer with channels := mixer.channels.filterMap fun channel => (mixer.block sqrt capacity channel).2 } := by
  rw [renderFrames, ← mix_snd]
  dsimp only
  split
  · rw [← h.master, ← h.classes]
  · rfl

def amplified (gain : K) (frame : K × K) : K × K := (frame.1 * gain, frame.2 * gain)

omit [LinearOrder K] [IsStrictOrderedRing K] [FloorRing K] in
theorem amplified_add (gain : K) (frame other : K × K) :
    amplified gain (frame + other) = amplified gain frame + amplified gain other :=
  Prod.ext (add_mul _ _ _) (add_mul _ _ _)

omit [LinearOrder K] [IsStrictOrderedRing K] [FloorRing K] in
theorem amplified_zero (gain : K) : amplified gain 0 = 0 := Prod.ext (zero_mul _) (zero_mul _)

omit [LinearOrder K] [IsStrictOrderedRing K] [FloorRing K] in
theorem length_mixInto (out added : List (K × K)) : (mixInto out added).length = out.length := by
  induction out generalizing added with
  | nil => cases added <;> rfl
  | cons frame out ih =>
    cases added with
    | nil => rfl
    | cons first added => exact congrArg (· + 1) (ih added)

theorem length_mix : (mixer.mix sqrt capacity channels out).1.length = out.length := by
  induction channels generalizing out with
  | nil => rfl
  | cons channel channels ih =>
    rw [mix]
    split
    · exact ih
    · exact ih.trans (length_mixInto _ _)

theorem renderFrames_fst : (mixer.renderFrames sqrt capacity).1 =
    (mixer.mix sqrt capacity mixer.channels (List.replicate capacity 0)).1.mapIdx fun frame =>
      amplified (ramp mixer.appliedMasterVolume mixer.masterVolume capacity frame) := by
  rw [renderFrames]
  dsimp only
  split <;> rfl

theorem length_renderFrames : (mixer.renderFrames sqrt capacity).1.length = capacity := by
  rw [renderFrames_fst, List.length_mapIdx, length_mix, List.length_replicate]

theorem Steady.getElem?_renderFrames (h : mixer.Steady) {j : Nat} (hJ : j < capacity) :
    (mixer.renderFrames sqrt capacity).1[j]? = some (amplified mixer.masterVolume
      (mixer.channels.map fun channel => (mixer.block sqrt capacity channel).1[j]?.getD 0).sum) := by
  rw [renderFrames_fst, h.master, ramp_same, List.getElem?_mapIdx, getElem?_mix, List.getElem?_replicate, if_pos hJ]
  simp only [Option.map_some, zero_add]

variable (sqrt) in
theorem length_renderAll (mixer : Mixer K) (capacities : List Nat) :
    (mixer.renderAll sqrt capacities).1.length = capacities.sum := by
  induction capacities generalizing mixer with
  | nil => rfl
  | cons capacity capacities ih =>
    rw [renderAll, List.sum_cons]
    dsimp only
    rw [List.length_append, length_renderFrames, ih]

/-! ## One channel more -/

variable (sqrt) in
def heard (mixer : Mixer K) (channel : ActiveChannel K) (frame : K × K) : K × K :=
  amplified mixer.masterVolume
    (ActiveChannel.scaled (mixer.gains sqrt channel) (mixer.classVolume channel.channelClass) frame)

def playing (mixer : Mixer K) (channels : List (ActiveChannel K)) : Mixer K := { mixer with channels }

omit [Field K] [LinearOrder K] [IsStrictOrderedRing K] [FloorRing K] in
theorem Steady.playing (h : mixer.Steady) (channels : List (ActiveChannel K)) : (mixer.playing channels).Steady :=
  ⟨h.master, h.classes⟩

omit [FloorRing K] in
theorem step_nonneg (mixer : Mixer K) (channel : ActiveChannel K) : 0 ≤ mixer.step channel :=
  mul_nonneg (div_nonneg (Nat.cast_nonneg _) (Nat.cast_nonneg _)) (le_max_right _ _)

variable {origin channel : ActiveChannel K} {n : Nat} {before after : List (ActiveChannel K)}

omit [IsStrictOrderedRing K] [FloorRing K] in
theorem heard_zero : mixer.heard sqrt origin 0 = 0 := by
  rw [heard, ActiveChannel.scaled_zero, amplified_zero]

omit [FloorRing K] in
theorem isOver_empty (hLoop : origin.buffer.LoopInRange) (hEmpty : origin.buffer.frameCount = 0) (k : Nat) :
    origin.buffer.isOver (k * mixer.step origin) = true := by
  have hNone : origin.buffer.loopRange = none := by
    cases hRange : origin.buffer.loopRange with
    | none => rfl
    | some range =>
      have hBad := hLoop range.1 range.2 hRange
      omega
  have hStart : (0 : K) ≤ k * mixer.step origin := mul_nonneg (Nat.cast_nonneg k) (step_nonneg mixer origin)
  rw [SoundBuffer.isOver, hNone, hEmpty, Nat.cast_zero, Option.isNone_none, Bool.true_and]
  exact decide_eq_true hStart

omit [FloorRing K] in
theorem isOver_later {j k : Nat} (h : origin.buffer.isOver (j * mixer.step origin) = true) (hLe : j ≤ k) :
    origin.buffer.isOver (k * mixer.step origin) = true :=
  SoundBuffer.isOver_mono h (mul_le_mul_of_nonneg_right (Nat.cast_le.mpr hLe) (step_nonneg mixer origin))

theorem Steady.block_eq (h : mixer.Steady) (hAt : origin.At (mixer.step origin) n channel)
    (hFrames : origin.buffer.frameCount ≠ 0) (capacity : Nat) :
    mixer.block sqrt capacity channel =
      let rest := channel.frames (mixer.step origin) (mixer.gains sqrt origin)
        (fun _ => mixer.classVolume origin.channelClass) capacity 0
      (rest.1, if rest.2.finished then none else some rest.2) := by
  have hOpen : ¬(channel.finished = true ∨ channel.buffer.frameCount = 0) := by
    rw [hAt.same]
    simpa using hFrames
  have hStep : mixer.step channel = mixer.step origin := by
    rw [hAt.same]
    rfl
  have hGains : mixer.gains sqrt channel = mixer.gains sqrt origin := by
    rw [hAt.same]
    rfl
  have hClass : channel.channelClass = origin.channelClass := by rw [hAt.same]
  rw [Mixer.block, if_neg hOpen, hStep, hGains, hClass, h.classes, ramp_same]

theorem Steady.block_fst (h : mixer.Steady) (hAt : origin.At (mixer.step origin) n channel)
    (hLoop : origin.buffer.LoopInRange) {j : Nat} (hJ : j < capacity) :
    amplified mixer.masterVolume ((mixer.block sqrt capacity channel).1[j]?.getD 0) =
      mixer.heard sqrt origin (origin.buffer.played ((n + j : Nat) * mixer.step origin)) := by
  by_cases hFrames : origin.buffer.frameCount = 0
  · have hSkip : channel.finished = true ∨ channel.buffer.frameCount = 0 := by
      rw [hAt.same]
      exact Or.inr hFrames
    rw [Mixer.block, if_pos hSkip, SoundBuffer.played_of_over (isOver_empty hLoop hFrames _), heard_zero,
      List.getElem?_nil, Option.getD_none, amplified_zero]
  · rw [h.block_eq hAt hFrames, heard, ← (hAt.frames hLoop (step_nonneg mixer origin) capacity 0).1 j hJ]

theorem Steady.block_snd (h : mixer.Steady) (hAt : origin.At (mixer.step origin) n channel)
    (hLoop : origin.buffer.LoopInRange) (capacity : Nat) :
    (∃ last, (mixer.block sqrt capacity channel).2 = some last ∧ origin.At (mixer.step origin) (n + capacity) last ∧
        ∀ j < capacity, origin.buffer.isOver ((n + j : Nat) * mixer.step origin) = false) ∨
      (mixer.block sqrt capacity channel).2 = none ∧
        (origin.buffer.frameCount = 0 ∨
          ∃ j < capacity, origin.buffer.isOver ((n + j : Nat) * mixer.step origin) = true) := by
  by_cases hFrames : origin.buffer.frameCount = 0
  · have hSkip : channel.finished = true ∨ channel.buffer.frameCount = 0 := by
      rw [hAt.same]
      exact Or.inr hFrames
    exact Or.inr ⟨by rw [Mixer.block, if_pos hSkip], Or.inl hFrames⟩
  · rw [h.block_eq hAt hFrames]
    rcases (hAt.frames hLoop (step_nonneg mixer origin) capacity 0).2 with ⟨hOpen, hEnd, hNot⟩ | ⟨hOver, hAfter⟩
    · exact Or.inl ⟨_, if_neg (ne_true_of_eq_false hOpen), hEnd, hNot⟩
    · exact Or.inr ⟨if_pos hOver, Or.inr hAfter⟩

variable (sqrt) in
/-- With one channel more the mix has its frames added to it, until it is over and gone. -/
structure Adds (mixer : Mixer K) (origin : ActiveChannel K) (value : Nat → K × K) (ended : Nat → Bool) (count : Nat)
    (whole rest : List (K × K) × Mixer K) : Prop where
  heard : ∀ k < count, whole.1[k]? = rest.1[k]?.map (· + mixer.heard sqrt origin (value k))
  removed : (∃ k < count, ended k = true) → whole.2.channels = rest.2.channels
  kept : origin.buffer.frameCount ≠ 0 → (∀ k < count, ended k = false) → ∃ before channel after,
    whole.2.channels = before ++ channel :: after ∧ rest.2.channels = before ++ after

variable (sqrt) in
theorem Steady.adds (h : mixer.Steady) (hLoop : origin.buffer.LoopInRange) (capacities : List Nat)
    (hAt : origin.At (mixer.step origin) n channel) (before after : List (ActiveChannel K)) :
    Adds sqrt mixer origin (fun k => origin.buffer.played ((n + k : Nat) * mixer.step origin))
      (fun k => origin.buffer.isOver ((n + k : Nat) * mixer.step origin)) capacities.sum
      ((mixer.playing (before ++ channel :: after)).renderAll sqrt capacities)
      ((mixer.playing (before ++ after)).renderAll sqrt capacities) := by
  induction capacities generalizing n channel before after with
  | nil => exact ⟨fun k hK => absurd hK (Nat.not_lt_zero k), fun ⟨k, hK, _⟩ => absurd hK (Nat.not_lt_zero k),
      fun _ _ => ⟨before, channel, after, rfl, rfl⟩⟩
  | cons capacity capacities ih =>
    have hFirst : ∀ k < capacity, ((mixer.playing (before ++ channel :: after)).renderFrames sqrt capacity).1[k]? =
        ((mixer.playing (before ++ after)).renderFrames sqrt capacity).1[k]?.map
          (· + mixer.heard sqrt origin (origin.buffer.played ((n + k : Nat) * mixer.step origin))) := by
      intro k hK
      rw [(h.playing _).getElem?_renderFrames hK, (h.playing _).getElem?_renderFrames hK, Option.map_some,
        ← h.block_fst hAt hLoop hK]
      change some (amplified mixer.masterVolume (List.map (fun channel => (mixer.block sqrt capacity channel).1[k]?.getD 0)
        (before ++ channel :: after)).sum) = some (amplified mixer.masterVolume
          (List.map (fun channel => (mixer.block sqrt capacity channel).1[k]?.getD 0) (before ++ after)).sum + _)
      rw [← amplified_add, List.map_append, List.map_cons, List.sum_append, List.sum_cons, List.map_append,
        List.sum_append, add_left_comm, add_comm]
    have hLength : ∀ channels, ((mixer.playing channels).renderFrames sqrt capacity).1.length = capacity :=
      fun channels => length_renderFrames
    have hNext : ∀ channels, ((mixer.playing channels).renderFrames sqrt capacity).2 =
        mixer.playing (channels.filterMap fun channel => (mixer.block sqrt capacity channel).2) :=
      fun channels => (h.playing channels).renderFrames_snd
    rw [renderAll, renderAll, List.sum_cons]
    dsimp only
    rw [hNext, hNext, List.filterMap_append, List.filterMap_append, List.filterMap_cons]
    rcases h.block_snd hAt hLoop capacity with ⟨last, hLast, hEnd, hNot⟩ | ⟨hGone, hOver⟩
    · rw [hLast]
      dsimp only
      have hLater := ih hEnd (before.filterMap fun channel => (mixer.block sqrt capacity channel).2)
        (after.filterMap fun channel => (mixer.block sqrt capacity channel).2)
      constructor
      · intro k hK
        by_cases hSoon : k < capacity
        · rw [List.getElem?_append_left (by rw [hLength]; exact hSoon),
            List.getElem?_append_left (by rw [hLength]; exact hSoon), hFirst k hSoon]
        · have hPast := Nat.not_lt.mp hSoon
          have hHeard := hLater.heard (k - capacity) (by omega)
          rw [Nat.add_assoc, Nat.add_sub_cancel' hPast] at hHeard
          rw [List.getElem?_append_right (by rw [hLength]; exact hPast),
            List.getElem?_append_right (by rw [hLength]; exact hPast), hLength, hLength]
          exact hHeard
      · rintro ⟨k, hK, hOver⟩
        have hPast : capacity ≤ k := Nat.not_lt.mp fun hSoon =>
          Bool.false_ne_true ((hNot k hSoon).symm.trans hOver)
        refine hLater.removed ⟨k - capacity, by omega, ?_⟩
        rw [Nat.add_assoc, Nat.add_sub_cancel' hPast]
        exact hOver
      · intro hFrames hPlaying
        refine hLater.kept hFrames fun k hK => ?_
        rw [Nat.add_assoc]
        exact hPlaying (capacity + k) (by omega)
    · rw [hGone]
      dsimp only
      have hSilent : ∀ k, capacity ≤ k → origin.buffer.isOver ((n + k : Nat) * mixer.step origin) = true := by
        intro k hK
        rcases hOver with hEmpty | ⟨j, hJ, hOver⟩
        · exact isOver_empty hLoop hEmpty _
        · exact isOver_later hOver (by omega)
      constructor
      · intro k hK
        by_cases hSoon : k < capacity
        · rw [List.getElem?_append_left (by rw [hLength]; exact hSoon),
            List.getElem?_append_left (by rw [hLength]; exact hSoon), hFirst k hSoon]
        · have hPast := Nat.not_lt.mp hSoon
          rw [List.getElem?_append_right (by rw [hLength]; exact hPast),
            List.getElem?_append_right (by rw [hLength]; exact hPast), hLength, hLength,
            SoundBuffer.played_of_over (hSilent k hPast), heard_zero]
          simp
      · exact fun _ => rfl
      · intro hFrames hPlaying
        obtain ⟨j, hJ, hOver⟩ := hOver.resolve_left hFrames
        exact absurd hOver (by rw [hPlaying j (by omega)]; exact Bool.false_ne_true)

/-! ## From the beginning -/

structure Fresh (origin : ActiveChannel K) : Prop where
  position : origin.position = 0
  finished : origin.finished = false

theorem Fresh.atStart (h : Fresh origin) (step : K) : origin.At step 0 origin where
  same := by rw [← h.finished]
  home := by rw [h.position, Nat.cast_zero, zero_mul]
  nonneg := h.position.ge

variable (sqrt) in
/-- The signal of a channel, as it is unrolled, is what it adds to a mix, however that is split into blocks. -/
def PlaysUnrolled (mixer : Mixer K) (origin : ActiveChannel K) (before after : List (ActiveChannel K))
    (capacities : List Nat) : Prop :=
  Adds sqrt mixer origin (fun k => origin.buffer.signal (k * mixer.step origin))
    (fun k => origin.buffer.isOver (k * mixer.step origin)) capacities.sum
    ((mixer.playing (before ++ origin :: after)).renderAll sqrt capacities)
    ((mixer.playing (before ++ after)).renderAll sqrt capacities)

variable (sqrt) in
theorem Steady.adds_played (h : mixer.Steady) (hFresh : Fresh origin) (hLoop : origin.buffer.LoopInRange)
    (before after : List (ActiveChannel K)) (capacities : List Nat) :
    Adds sqrt mixer origin (fun k => origin.buffer.played (k * mixer.step origin))
      (fun k => origin.buffer.isOver (k * mixer.step origin)) capacities.sum
      ((mixer.playing (before ++ origin :: after)).renderAll sqrt capacities)
      ((mixer.playing (before ++ after)).renderAll sqrt capacities) := by
  have hAdds := h.adds sqrt hLoop capacities (hFresh.atStart (mixer.step origin)) before after
  simpa only [Nat.zero_add] using hAdds

theorem Steady.heard_eq (h : mixer.Steady) (hFresh : Fresh origin) (hLoop : origin.buffer.LoopInRange)
    {capacities : List Nat} (hPlays : PlaysUnrolled sqrt mixer origin before after capacities) {k : Nat}
    (hK : k < capacities.sum) :
    mixer.heard sqrt origin (origin.buffer.played (k * mixer.step origin)) =
      mixer.heard sqrt origin (origin.buffer.signal (k * mixer.step origin)) := by
  have hLength := length_renderAll sqrt (mixer.playing (before ++ after)) capacities
  have hSignal := hPlays.heard k hK
  rw [(h.adds_played sqrt hFresh hLoop before after capacities).heard k hK, List.getElem?_eq_getElem (hLength ▸ hK),
    Option.map_some, Option.map_some, Option.some_inj] at hSignal
  exact add_left_cancel hSignal

/-- A sound that loops is heard as it is unrolled exactly if, at every frame that falls between the last frame of
the loop and its end, no ear tells the frame after the loop from the first frame of the loop. -/
theorem playsUnrolled_iff (h : mixer.Steady) (hFresh : Fresh origin) (hLoop : origin.buffer.LoopInRange)
    (before after : List (ActiveChannel K)) :
    (∀ capacities, PlaysUnrolled sqrt mixer origin before after capacities) ↔
      ∀ k : Nat, origin.buffer.Seamless
        ((mixer.gains sqrt origin).left * mixer.classVolume origin.channelClass * mixer.masterVolume)
        ((mixer.gains sqrt origin).right * mixer.classVolume origin.channelClass * mixer.masterVolume)
        (k * mixer.step origin) := by
  have hHeard : ∀ k : Nat, mixer.heard sqrt origin (origin.buffer.played (k * mixer.step origin)) =
      mixer.heard sqrt origin (origin.buffer.signal (k * mixer.step origin)) ↔ origin.buffer.Seamless
        ((mixer.gains sqrt origin).left * mixer.classVolume origin.channelClass * mixer.masterVolume)
        ((mixer.gains sqrt origin).right * mixer.classVolume origin.channelClass * mixer.masterVolume)
        (k * mixer.step origin) := by
    intro k
    have hStart : (0 : K) ≤ k * mixer.step origin := mul_nonneg (Nat.cast_nonneg k) (step_nonneg mixer origin)
    rw [← SoundBuffer.heard_eq_iff hLoop fun hOver hNone => SoundBuffer.floor_lt_frameCount hStart hOver hNone]
    simp only [heard, amplified, ActiveChannel.scaled, Prod.mk.injEq, mul_assoc]
  constructor
  · intro hPlays k
    exact (hHeard k).mp (h.heard_eq hFresh hLoop (hPlays [k + 1]) (Nat.lt_succ_self k))
  · intro hSeamless capacities
    have hAdds := h.adds_played sqrt hFresh hLoop before after capacities
    refine ⟨fun k hK => ?_, hAdds.removed, hAdds.kept⟩
    rw [hAdds.heard k hK, (hHeard k).mpr (hSeamless k)]

end Mixer

end Blocks

/-! ## A loop of two frames -/

def sampleChannel (samples : List ℚ) (loopRange : Option (Nat × Nat)) : ActiveChannel ℚ where
  channelClass := .auto
  buffer := ⟨1, 1, samples, loopRange⟩
  volume := 1
  pitch := 1
  spatial := none
  position := 0
  finished := false

def sampleMixer (deviceSampleRate : Nat) : Mixer ℚ where
  deviceSampleRate
  listener := ⟨⟨0, 0, 0⟩, ⟨1, 0, 0⟩⟩
  channels := []
  masterVolume := 1
  appliedMasterVolume := 1
  classVolume _ := 1
  appliedClassVolume _ := 1

theorem loopInRange_sample {samples : List ℚ} {start stop : Nat} (hLength : start < stop)
    (hFits : stop ≤ (sampleChannel samples (some (start, stop))).buffer.frameCount) :
    (sampleChannel samples (some (start, stop))).buffer.LoopInRange := by
  rintro _ _ ⟨⟩
  exact ⟨hLength, hFits⟩

/-- At the rate of the device a loop has no frame between frames. -/
theorem playsUnrolled_sample :
    Mixer.PlaysUnrolled id (sampleMixer 1) (sampleChannel [0, 3 / 10, 6 / 10, 9 / 10] (some (1, 3))) [] []
      [2, 0, 3] := by
  refine (Mixer.playsUnrolled_iff ⟨rfl, rfl⟩ ⟨rfl, rfl⟩ (loopInRange_sample (by decide) (by decide)) [] []).mpr
    (fun k start stop _ _ _ => Or.inl ?_) [2, 0, 3]
  have hStep : (sampleMixer 1).step (sampleChannel [0, 3 / 10, 6 / 10, 9 / 10] (some (1, 3))) = 1 := by decide +kernel
  rw [hStep, mul_one, Int.fract_natCast]

/-- At twice that rate the frame after the loop is heard. -/
theorem not_playsUnrolled_sample : ¬∀ capacities,
    Mixer.PlaysUnrolled id (sampleMixer 2) (sampleChannel [0, 1 / 2, 1] (some (0, 2))) [] [] capacities := by
  intro h
  have hSteady : (sampleMixer 2).Steady := ⟨rfl, rfl⟩
  have hHeard := hSteady.heard_eq ⟨rfl, rfl⟩ (loopInRange_sample (by decide) (by decide)) (h [4])
    (show 3 < [4].sum by decide)
  exact absurd hHeard (by decide +kernel)

end OpenHalfLife.Audio
