import Mathlib.Algebra.Order.Floor.Ring
import Mathlib.Tactic.Linarith
import OpenHalfLife.Lib.Scalar

/-! # The mixer

Channels are read at their own rates, between two frames by both, and added up
into blocks. A loop goes back to its start at its end.
-/

namespace OpenHalfLife.Audio

set_option autoImplicit false

inductive ChannelClass
  | auto
  | weapon
  | voice
  | item
  | body
  | stream
  | static
  deriving DecidableEq

structure SoundBuffer (K : Type) where
  channels : Nat
  sampleRate : Nat
  samples : List K
  loopRange : Option (Nat × Nat)

def SoundBuffer.frameCount {K : Type} (buffer : SoundBuffer K) : Nat :=
  if buffer.channels = 0 then 0 else min buffer.samples.length (2 ^ 32 - 1) / buffer.channels

structure Listener (K : Type) where
  position : Vec3 K
  right : Vec3 K

structure SoundSpatial (K : Type) where
  position : Vec3 K
  attenuation : K

structure StereoGain (K : Type) where
  left : K
  right : K

structure ActiveChannel (K : Type) where
  channelClass : ChannelClass
  buffer : SoundBuffer K
  volume : K
  pitch : K
  spatial : Option (SoundSpatial K)
  position : K
  finished : Bool

structure Mixer (K : Type) where
  deviceSampleRate : Nat
  listener : Listener K
  channels : List (ActiveChannel K)
  masterVolume : K
  appliedMasterVolume : K
  classVolume : ChannelClass → K
  appliedClassVolume : ChannelClass → K

section Spatial

variable {K : Type} [Field K] [LinearOrder K] (sqrt : K → K)

def clampTo (low high value : K) : K := if value < low then low else if high < value then high else value

def maxAudibleDistance : K := (1000 : Nat)

def distanceAttenuation (distance attenuation : K) : K :=
  if attenuation ≤ 0 then 1 else clampTo 0 1 (1 - distance / maxAudibleDistance * attenuation)

def equalPowerPan (pan : K) : StereoGain K :=
  let pan := clampTo (-1) 1 pan
  ⟨sqrt ((1 + -pan) / (2 : Nat)), sqrt ((1 + pan) / (2 : Nat))⟩

def spatialGain (listener : Listener K) (spatial : SoundSpatial K) (volume : K) : StereoGain K :=
  let dot (a b : Vec3 K) := a.x * b.x + a.y * b.y + a.z * b.z
  let delta : Vec3 K :=
    ⟨spatial.position.x - listener.position.x, spatial.position.y - listener.position.y,
      spatial.position.z - listener.position.z⟩
  let distance := sqrt (dot delta delta)
  let pan :=
    if distance < 1 / (1000000 : Nat) then 0
    else clampTo (-1) 1 (dot ⟨delta.x / distance, delta.y / distance, delta.z / distance⟩ listener.right)
  let gain := volume * distanceAttenuation distance spatial.attenuation
  ⟨(equalPowerPan sqrt pan).left * gain, (equalPowerPan sqrt pan).right * gain⟩

end Spatial

section Read

variable {K : Type} [Field K] [LinearOrder K]

def readFrame (samples : List K) (srcChannels frameIndex : Nat) : K × K :=
  let base := frameIndex * srcChannels
  if srcChannels = 1 then (samples[base]?.getD 0, samples[base]?.getD 0)
  else (samples[base]?.getD 0, samples[base + 1]?.getD 0)

def wrap [IsStrictOrderedRing K] [FloorRing K] (start stop : Nat) (position : K) : K :=
  if (stop : K) ≤ position ∧ start < stop then wrap start stop (start + (position - stop)) else position
  termination_by ⌊position⌋.toNat
  decreasing_by
    rename_i h
    have hLength : (start : K) + 1 ≤ stop := by exact_mod_cast h.2
    have hLess : ⌊(start : K) + (position - stop)⌋ ≤ ⌊position⌋ - 1 := by
      rw [← Int.floor_sub_one]
      exact Int.floor_le_floor (by linarith)
    have hOne : 1 ≤ ⌊position⌋ := Int.le_floor.mpr (by push_cast; linarith [h.1])
    omega

end Read

section Render

variable {K : Type} [Field K] [LinearOrder K] [IsStrictOrderedRing K] [FloorRing K] (sqrt : K → K)

namespace ActiveChannel

def seek (channel : ActiveChannel K) : ActiveChannel K :=
  match channel.buffer.loopRange with
  | some (start, stop) => { channel with position := wrap start stop channel.position }
  | none =>
    if (channel.buffer.frameCount : K) ≤ channel.position then { channel with finished := true } else channel

def read (channel : ActiveChannel K) : K × K :=
  let buffer := channel.buffer
  let frameCount := buffer.frameCount
  let srcChannels := max buffer.channels 1
  let idx := min (max 0 (min ⌊channel.position⌋ frameCount)).toNat (frameCount - 1)
  let frac := clampTo 0 1 (channel.position - idx)
  let nextIdx :=
    if idx + 1 < frameCount then idx + 1
    else
      match buffer.loopRange with
      | some (start, _) => min start (frameCount - 1)
      | none => idx
  let here := readFrame buffer.samples srcChannels idx
  let next := readFrame buffer.samples srcChannels nextIdx
  (here.1 + (next.1 - here.1) * frac, here.2 + (next.2 - here.2) * frac)

/-- What the channel adds to each frame of a block from `frame` on, until it is finished. -/
def frames (step : K) (gains : StereoGain K) (classGain : Nat → K) :
    Nat → Nat → ActiveChannel K → List (K × K) × ActiveChannel K
  | 0, _, channel => ([], channel)
  | count + 1, frame, channel =>
    let channel := channel.seek
    if channel.finished then ([], channel)
    else
      let added := (channel.read.1 * gains.left * classGain frame, channel.read.2 * gains.right * classGain frame)
      let (later, last) := frames step gains classGain count (frame + 1)
        { channel with position := channel.position + step }
      (added :: later, last)

end ActiveChannel

def mixInto : List (K × K) → List (K × K) → List (K × K)
  | out :: outs, added :: later => (out + added) :: mixInto outs later
  | outs, [] => outs
  | [], _ => []

namespace Mixer

def ramp (start stop : K) (blockFrames frame : Nat) : K :=
  start + (stop - start) * ((frame + 1 : Nat) / (blockFrames : Nat))

def step (mixer : Mixer K) (channel : ActiveChannel K) : K :=
  channel.buffer.sampleRate / mixer.deviceSampleRate * max channel.pitch 0

def gains (mixer : Mixer K) (channel : ActiveChannel K) : StereoGain K :=
  match channel.spatial with
  | some spatial => spatialGain sqrt mixer.listener spatial channel.volume
  | none => ⟨channel.volume, channel.volume⟩

def mix (mixer : Mixer K) (capacity : Nat) : List (ActiveChannel K) → List (K × K) → List (K × K) × List (ActiveChannel K)
  | [], out => (out, [])
  | channel :: channels, out =>
    if channel.finished ∨ channel.buffer.frameCount = 0 then mixer.mix capacity channels out
    else
      let classGain := ramp (mixer.appliedClassVolume channel.channelClass) (mixer.classVolume channel.channelClass) capacity
      let (added, last) :=
        channel.frames (mixer.step channel) (mixer.gains sqrt channel) classGain capacity 0
      let (out, left) := mixer.mix capacity channels (mixInto out added)
      (out, if last.finished then left else last :: left)

def renderFrames (mixer : Mixer K) (capacity : Nat) : List (K × K) × Mixer K :=
  let (out, channels) := mixer.mix sqrt capacity mixer.channels (List.replicate capacity 0)
  let master := ramp mixer.appliedMasterVolume mixer.masterVolume capacity
  let out := out.mapIdx fun frame pair => (pair.1 * master frame, pair.2 * master frame)
  if 0 < capacity then
    (out, { mixer with
      channels, appliedMasterVolume := mixer.masterVolume, appliedClassVolume := mixer.classVolume })
  else (out, { mixer with channels })

def render (mixer : Mixer K) (capacity : Nat) : List (K × K) × Mixer K :=
  let (out, mixer) := mixer.renderFrames sqrt capacity
  (out.map fun pair => (clampTo (-1) 1 pair.1, clampTo (-1) 1 pair.2), mixer)

def renderAll (mixer : Mixer K) : List Nat → List (K × K) × Mixer K
  | [] => ([], mixer)
  | capacity :: capacities =>
    let (out, mixer) := mixer.renderFrames sqrt capacity
    let (later, mixer) := mixer.renderAll capacities
    (out ++ later, mixer)

end Mixer

end Render

end OpenHalfLife.Audio
