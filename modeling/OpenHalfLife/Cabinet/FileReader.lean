import OpenHalfLife.Lib.Bytes
import OpenHalfLife.Lib.Machine
import Mathlib.Data.List.Infix
import Mathlib.Data.UInt

/-! # Volumes of a cabinet

The header of a volume says which files begin and end in it. Volumes are read
through a source that may fail at any moment and may give less than it was
asked for.
-/

namespace OpenHalfLife.Cabinet

set_option autoImplicit false

open Machine

inductive Limit
  | expandedBytesPerFile
  | totalExpandedBytes
  | volumes
  | volumeHops
  deriving DecidableEq, Repr

inductive Error
  | microsoftCabinet
  | badSignature
  | malformedVolumeHeader
  | offsetOutOfRange
  | truncatedVolume
  | invalidFile
  | volume
  | limitExceeded (limit : Limit)
  deriving DecidableEq, Repr

inductive HeaderLayout
  | v5
  | v6
  deriving DecidableEq, Repr

/-! ## Headers -/

def commonHeaderSize : Nat := 20

def noLastFileOffset : Nat := 0x7FFFFFFF

structure VolumeHeader where
  firstFileIndex : Nat
  lastFileIndex : Nat
  firstFileOffset : Nat
  firstFileSizeExpanded : Nat
  firstFileSizeCompressed : Nat
  lastFileOffset : Nat
  lastFileSizeExpanded : Nat
  lastFileSizeCompressed : Nat
  deriving DecidableEq, Repr

def le32 (bytes : List UInt8) (place : Nat) : Nat := fromLe ((bytes.drop place).take 4)

def le64Pair (bytes : List UInt8) (lowAt : Nat) : Nat :=
  le32 bytes lowAt + 2 ^ 32 * le32 bytes (lowAt + 4)

namespace VolumeHeader

def encodedSize : HeaderLayout → Nat
  | .v5 => 40
  | .v6 => 64

def parse (bytes : List UInt8) (layout : HeaderLayout) : Except Error VolumeHeader :=
  if bytes.length < encodedSize layout then .error .malformedVolumeHeader
  else match layout with
    | .v5 =>
      let lastFileOffset := le32 bytes 0x1C
      .ok {
        firstFileIndex := le32 bytes 0x08
        lastFileIndex := le32 bytes 0x0C
        firstFileOffset := le32 bytes 0x10
        firstFileSizeExpanded := le32 bytes 0x14
        firstFileSizeCompressed := le32 bytes 0x18
        lastFileOffset := if lastFileOffset = 0 then noLastFileOffset else lastFileOffset
        lastFileSizeExpanded := le32 bytes 0x20
        lastFileSizeCompressed := le32 bytes 0x24 }
    | .v6 => .ok {
        firstFileIndex := le32 bytes 0x08
        lastFileIndex := le32 bytes 0x0C
        firstFileOffset := le64Pair bytes 0x10
        firstFileSizeExpanded := le64Pair bytes 0x18
        firstFileSizeCompressed := le64Pair bytes 0x20
        lastFileOffset := le64Pair bytes 0x28
        lastFileSizeExpanded := le64Pair bytes 0x30
        lastFileSizeCompressed := le64Pair bytes 0x38 }

end VolumeHeader

def cabSignature : Nat := 0x28635349

def mscfSignature : Nat := 0x4643534D

def checkCommonHeader (bytes : List UInt8) : Except Error Unit :=
  let signature := le32 bytes 0
  if signature = cabSignature then .ok ()
  else if signature = mscfSignature then .error .microsoftCabinet
  else .error .badSignature

/-! ## Sources -/

structure VolumeError
  deriving DecidableEq, Repr

structure VolumeSource (σ : Type) where
  readAt : σ → Nat → Nat → Nat → Except VolumeError (List UInt8) × σ
  length_le (s : σ) (volume offset length : Nat) (bytes : List UInt8) :
    (readAt s volume offset length).1 = .ok bytes → bytes.length ≤ length

def VolumeSource.Reads {σ : Type} (source : VolumeSource σ) (volumes : Nat → List UInt8) : Prop :=
  ∀ s volume offset length bytes,
    (source.readAt s volume offset length).1 = .ok bytes → bytes <+: (volumes volume).drop offset

section Reading

variable {σ : Type} (source : VolumeSource σ)

def request (volume offset length : Nat) : Machine Error σ (List UInt8) :=
  .ofFun fun s => ((source.readAt s volume offset length).1.mapError fun _ => .volume,
    (source.readAt s volume offset length).2)

def readVolumeHeader (volume : Nat) (layout : HeaderLayout) : Machine Error σ VolumeHeader := do
  let common ← request source volume 0 commonHeaderSize
  rejectIf (common.length ≠ commonHeaderSize) .truncatedVolume
  ofExcept id (checkCommonHeader common)
  let target ← request source volume commonHeaderSize (VolumeHeader.encodedSize layout)
  rejectIf (target.length ≠ VolumeHeader.encodedSize layout) .malformedVolumeHeader
  ofExcept id (VolumeHeader.parse target layout)

end Reading

def headerOf (volumes : Nat → List UInt8) (layout : HeaderLayout) (volume : Nat) : Option VolumeHeader :=
  match VolumeHeader.parse (((volumes volume).drop commonHeaderSize).take
      (VolumeHeader.encodedSize layout)) layout with
  | .ok header => some header
  | .error _ => none

section Agreement

variable {σ : Type} {source : VolumeSource σ} {volumes : Nat → List UInt8}

theorem request_ensures (hReads : source.Reads volumes) (volume offset length : Nat) (s : σ) :
    Ensures (request source volume offset length) s
      (fun bytes _ => bytes <+: (volumes volume).drop offset ∧ bytes.length ≤ length)
      fun _ _ => True := by
  refine ensures_ofFun.mpr ⟨fun bytes t h => ?_, fun _ _ _ => trivial⟩
  have hRead : (source.readAt s volume offset length).1 = .ok bytes := by
    have hFirst := congrArg Prod.fst h
    dsimp only at hFirst
    cases hCall : (source.readAt s volume offset length).1 with
    | error e =>
      rw [hCall] at hFirst
      cases hFirst
    | ok read =>
      rw [hCall] at hFirst
      cases hFirst
      rfl
  exact ⟨hReads s volume offset length bytes hRead, source.length_le s volume offset length bytes hRead⟩

theorem readVolumeHeader_ensures (hReads : source.Reads volumes) (volume : Nat) (layout : HeaderLayout)
    (s : σ) :
    Ensures (readVolumeHeader source volume layout) s
      (fun header _ => headerOf volumes layout volume = some header) fun _ _ => True := by
  unfold readVolumeHeader
  rw [ensures_bind]
  refine (request_ensures hReads volume 0 commonHeaderSize s).mono ?_ fun _ _ _ => trivial
  rintro common t -
  rw [ensures_bind, ensures_rejectIf]
  refine ⟨fun _ => trivial, fun _ => ?_⟩
  rw [ensures_bind, ensures_ofExcept]
  refine ⟨fun _ _ => ?_, fun _ _ => trivial⟩
  rw [ensures_bind]
  refine (request_ensures hReads volume commonHeaderSize _ t).mono ?_ fun _ _ _ => trivial
  rintro target t' ⟨hTarget, -⟩
  rw [ensures_bind, ensures_rejectIf]
  refine ⟨fun _ => trivial, fun hWhole => ?_⟩
  rw [ensures_ofExcept]
  refine ⟨fun header hParse => ?_, fun _ _ => trivial⟩
  have hSame : ((volumes volume).drop commonHeaderSize).take (VolumeHeader.encodedSize layout) = target := by
    rw [← not_not.mp hWhole]
    exact (List.prefix_iff_eq_take.mp hTarget).symm
  rw [headerOf, hSame, hParse]

end Agreement

end OpenHalfLife.Cabinet

namespace OpenHalfLife.Cabinet

set_option autoImplicit false

/-! ## Reading a stored file

A file that is not compressed is read in chunks through a staging buffer. Its
bytes lie in one volume or go on in the next ones, and an obfuscated file is
decoded with a keystream that runs on from chunk to chunk.
-/

open Machine

/-! ## Obfuscation -/

def xorKey : UInt8 := 0xD5

def seedModulus : UInt32 := 0x47

/-- `(byte ^ KEY).rotate_right(2) - key`, on a wrapping byte. -/
def clearByte (byte : UInt8) (seed : UInt32) : UInt8 :=
  let turned := byte ^^^ xorKey
  ((turned >>> 2) ||| (turned <<< 6)) - (seed % seedModulus).toUInt8

def deobfuscate : List UInt8 → UInt32 → List UInt8
  | [], _ => []
  | byte :: bytes, seed => clearByte byte seed :: deobfuscate bytes (seed + 1)

/-! ## Descriptors -/

structure FileFlags where
  bits : UInt16
  deriving DecidableEq

namespace FileFlags

def isSplit (flags : FileFlags) : Bool := flags.bits &&& 1 != 0

def isObfuscated (flags : FileFlags) : Bool := flags.bits &&& 2 != 0

def isCompressed (flags : FileFlags) : Bool := flags.bits &&& 4 != 0

def isInvalid (flags : FileFlags) : Bool := flags.bits &&& 8 != 0

def withSplit (flags : FileFlags) : FileFlags := ⟨flags.bits ||| 1⟩

end FileFlags

structure FileDescriptor where
  nameOffset : UInt32
  flags : FileFlags
  expandedSize : UInt64
  compressedSize : UInt64
  dataOffset : UInt64
  volume : UInt16

namespace FileDescriptor

def isExtractable (descriptor : FileDescriptor) : Bool :=
  !descriptor.flags.isInvalid && descriptor.nameOffset != 0 && descriptor.dataOffset != 0

def storedSize (descriptor : FileDescriptor) : Nat :=
  if descriptor.flags.isCompressed then descriptor.compressedSize.toNat
  else descriptor.expandedSize.toNat

end FileDescriptor

structure Limits where
  maxExpandedBytesPerFile : Nat
  maxVolumes : Nat
  maxVolumeHops : Nat
  maxChunkBytes : Nat

structure FileSite where
  index : Nat
  fileCount : Nat
  major : Nat
  layout : HeaderLayout
  limits : Limits

structure Place where
  flags : FileFlags
  volume : Nat
  cursor : Nat
  volumeBytesLeft : Nat

structure FileReader where
  site : FileSite
  descriptor : FileDescriptor
  place : Place
  hops : Nat
  obfuscationSeed : UInt32
  storedLeft : Nat
  staging : List UInt8
  stagingPos : Nat
  written : Nat
  budget : Nat

/-! ## Volumes of a file -/

/-- An old cabinet does not record that a file is split; the sizes of the volume tell. -/
def inferSplit (site : FileSite) (descriptor : FileDescriptor) (header : VolumeHeader) (flags : FileFlags) :
    FileFlags :=
  if site.major = 5 ∧ flags.isSplit = false then
    let isLastInVolume := site.index + 1 < site.fileCount ∧ site.index = header.lastFileIndex ∧
      header.lastFileSizeCompressed ≠ descriptor.compressedSize.toNat
    let isFirstInVolume := 0 < site.index ∧ site.index = header.firstFileIndex ∧
      header.firstFileSizeCompressed ≠ descriptor.compressedSize.toNat
    if isLastInVolume ∨ isFirstInVolume then flags.withSplit else flags
  else flags

def portion (site : FileSite) (descriptor : FileDescriptor) (header : VolumeHeader) (flags : FileFlags) :
    Except Error (Nat × Nat × Nat) :=
  if flags.isSplit then
    if site.index = header.lastFileIndex ∧ header.lastFileOffset ≠ noLastFileOffset then
      .ok (header.lastFileOffset, header.lastFileSizeExpanded, header.lastFileSizeCompressed)
    else if site.index = header.firstFileIndex then
      .ok (header.firstFileOffset, header.firstFileSizeExpanded, header.firstFileSizeCompressed)
    else .error .malformedVolumeHeader
  else .ok (descriptor.dataOffset.toNat, descriptor.expandedSize.toNat, descriptor.compressedSize.toNat)

abbrev Reading (σ α : Type) := Machine Error (FileReader × σ) α

section Steps

variable {σ : Type} (source : VolumeSource σ)

def onSource {α : Type} (m : Machine Error σ α) : Reading σ α :=
  zoom Prod.snd (fun t s => (s.1, t)) id m

def modifyReader (f : FileReader → FileReader) : Reading σ PUnit := modify fun s => (f s.1, s.2)

def advanceVolume : Reading σ Unit := do
  let (r, _) ← get
  rejectIf (2 ^ 16 ≤ r.hops + 1) (.limitExceeded .volumeHops)
  modifyReader fun r => { r with hops := r.hops + 1 }
  rejectIf (r.site.limits.maxVolumeHops < r.hops + 1) (.limitExceeded .volumeHops)
  rejectIf (2 ^ 16 ≤ r.place.volume + 1) (.limitExceeded .volumes)
  modifyReader fun r => { r with place.volume := r.place.volume + 1 }
  rejectIf (r.site.limits.maxVolumes < r.place.volume + 1) (.limitExceeded .volumes)

def openVolume (volume : Nat) : Reading σ VolumeHeader := do
  let (r, _) ← get
  rejectIf (r.site.limits.maxVolumes < volume) (.limitExceeded .volumes)
  let header ← onSource (readVolumeHeader source volume r.site.layout)
  let flags := inferSplit r.site r.descriptor header r.place.flags
  modifyReader fun r => { r with place.flags := flags }
  let (offset, expanded, compressed) ← ofExcept id (portion r.site r.descriptor header flags)
  modifyReader fun r => { r with place :=
    ⟨flags, volume, offset, if flags.isCompressed then compressed else expanded⟩ }
  return header

def enterVolume : Reading σ Unit := do
  let (r, _) ← get
  if r.place.volumeBytesLeft = 0 then
    advanceVolume
    let (r, _) ← get
    let _ ← openVolume source r.place.volume
    let (r, _) ← get
    rejectIf (r.place.volumeBytesLeft = 0) .truncatedVolume

/-- Bytes written over the staging buffer from `filled` on. -/
def overwrite (staging : List UInt8) (filled : Nat) (bytes : List UInt8) : List UInt8 :=
  staging.take filled ++ bytes ++ staging.drop (filled + bytes.length)

/-- One request for stored bytes, of which `room` are still wanted. -/
def readPart (room : Nat) : Reading σ (List UInt8) := do
  enterVolume source
  let (r, _) ← get
  let wanted := min r.place.volumeBytesLeft room
  let bytes ← onSource (request source r.place.volume r.place.cursor wanted)
  rejectIf (bytes = []) .truncatedVolume
  modifyReader fun r => { r with staging := overwrite r.staging (r.staging.length - room) bytes }
  rejectIf (2 ^ 64 ≤ r.place.cursor + bytes.length) .offsetOutOfRange
  modifyReader fun r => { r with
    place.cursor := r.place.cursor + bytes.length
    place.volumeBytesLeft := r.place.volumeBytesLeft - bytes.length }
  return bytes

def readParts : Nat → Nat → Reading σ Unit
  | 0, _ => pure ()
  | rounds + 1, room => do
    if room = 0 then pure ()
    else
      let bytes ← readPart source room
      readParts rounds (room - bytes.length)

def readStored : Reading σ Unit := do
  let (r, _) ← get
  readParts source r.staging.length r.staging.length
  modifyReader fun r =>
    if r.place.flags.isObfuscated then
      { r with
        staging := deobfuscate r.staging r.obfuscationSeed
        obfuscationSeed := r.obfuscationSeed + UInt32.ofNat r.staging.length }
    else r

def FileReader.chunk (r : FileReader) : Nat := min r.storedLeft (max r.site.limits.maxChunkBytes 1)

def refill : Reading σ Bool := do
  let (r, _) ← get
  if r.storedLeft = 0 then return false
  else
    modifyReader fun s => { s with staging := List.replicate r.chunk 0 }
    readStored source
    modifyReader fun s => { s with stagingPos := 0, storedLeft := s.storedLeft - r.chunk }
    return true

def deliver (room : Nat) : Reading σ (List UInt8) := do
  let (r, _) ← get
  let bytes := (r.staging.drop r.stagingPos).take room
  modifyReader fun r => { r with stagingPos := r.stagingPos + bytes.length }
  rejectIf (r.site.limits.maxExpandedBytesPerFile < r.written + bytes.length)
    (.limitExceeded .expandedBytesPerFile)
  rejectIf (r.budget < bytes.length) (.limitExceeded .totalExpandedBytes)
  modifyReader fun r => { r with
    budget := r.budget - bytes.length
    written := r.written + bytes.length }
  return bytes

/-- The bytes of one call with room for `room`; no bytes at the end of the file. -/
def read (room : Nat) : Reading σ (List UInt8) := do
  if room = 0 then return []
  else
    let (r, _) ← get
    if r.stagingPos < r.staging.length then deliver room
    -- the second round of the loop finds the chunk there
    else if ← refill source then deliver room
    else return []

/-- Looks for the volume that has the file, which an old cabinet may name too low; a `u16`
counts the changes of volume. -/
def start : Nat → Reading σ Unit
  | 0 => throw (.limitExceeded .volumeHops)
  | hops + 1 => do
    let (r, _) ← get
    let header ← openVolume source r.place.volume
    if r.site.major ≤ 5 ∧ header.lastFileIndex < r.site.index then
      advanceVolume
      start hops
    else pure ()

end Steps

def opened (site : FileSite) (descriptor : FileDescriptor) (budget : Nat) : FileReader where
  site := site
  descriptor := descriptor
  place := ⟨descriptor.flags, descriptor.volume.toNat, 0, 0⟩
  hops := 0
  obfuscationSeed := 0
  storedLeft := descriptor.storedSize
  staging := []
  stagingPos := 0
  written := 0
  budget := budget

def openFile {σ : Type} (source : VolumeSource σ) (site : FileSite) (descriptor : FileDescriptor)
    (budget : Nat) (s : σ) : Except Error (FileReader × σ) :=
  if descriptor.isExtractable = false then .error .invalidFile
  else if site.limits.maxExpandedBytesPerFile < descriptor.expandedSize.toNat then
    .error (.limitExceeded .expandedBytesPerFile)
  else if budget < descriptor.expandedSize.toNat then .error (.limitExceeded .totalExpandedBytes)
  else if site.limits.maxVolumes < descriptor.volume.toNat then .error (.limitExceeded .volumes)
  else match (start source (2 ^ 16)).exec (opened site descriptor budget, s) with
    | (.ok _, s) => .ok s
    | (.error e, _) => .error e

end OpenHalfLife.Cabinet
