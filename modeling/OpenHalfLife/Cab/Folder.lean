import OpenHalfLife.Cab.Lzx
import OpenHalfLife.Lib.BlockStream

/-! # Streaming a cabinet folder and one file of it

A folder is decoded block by block, over the data blocks of its segments. The
inflater is a library of its own and stays a parameter, as do the volumes, the
cancellation and the memory for a block's output.
-/

namespace OpenHalfLife.Cab

open Machine

set_option autoImplicit false

def dataFixedLen : Nat := 8

def maxBlockUncompressed : Nat := 32768

def maxBlockCompressed : Nat := 32768 + 6144

structure Limits where
  maxBlocksPerFolder : Nat
  maxFolderUncompressedBytes : Nat
  maxLzxWindowBits : Nat
  deriving DecidableEq

inductive Compression
  | none
  | msZip
  | quantum
  | lzx (windowBits : Nat)
  | unknown
  deriving DecidableEq

structure FolderSegment where
  volume : Nat
  firstDataOffset : Nat
  dataBlockCount : Nat
  cabinetBytes : Nat
  dataReserveBytes : Nat
  deriving DecidableEq

structure FileEntry where
  folderOffset : UInt32
  uncompressedBytes : UInt32
  deriving DecidableEq

/-! ## Data blocks -/

structure DataHeader where
  checksum : Nat
  compressedBytes : Nat
  uncompressedBytes : Nat
  deriving DecidableEq

def DataHeader.parse (bytes : List UInt8) : Except CabError DataHeader :=
  if bytes.length < dataFixedLen then .error .truncated
  else
    let header : DataHeader :=
      ⟨fromLe (bytes.take 4), fromLe ((bytes.drop 4).take 2), fromLe ((bytes.drop 6).take 2)⟩
    if header.compressedBytes > maxBlockCompressed ∨ header.uncompressedBytes > maxBlockUncompressed then
      .error .limitExceeded
    else .ok header

def checksum : List UInt8 → Nat → Nat
  | a :: b :: c :: d :: data, sum => checksum data (sum ^^^ fromLe [a, b, c, d])
  | [a, b, c], sum => sum ^^^ (a.toNat * 2 ^ 16 ||| b.toNat * 2 ^ 8 ||| c.toNat)
  | [a, b], sum => sum ^^^ (a.toNat * 2 ^ 8 ||| b.toNat)
  | [a], sum => sum ^^^ a.toNat
  | [], sum => sum

/-- With a reserved area either reading of the checked span is accepted; a zero
checksum is not verified. -/
def verifyBlockChecksum (header : DataHeader) (reserve data : List UInt8) : Except CabError Bool :=
  if header.checksum = 0 then .ok false
  else
    let fields := toLe 2 header.compressedBytes ++ toLe 2 header.uncompressedBytes
    let sum := checksum fields (checksum data 0)
    if sum = header.checksum then .ok true
    else if reserve ≠ [] ∧ checksum reserve sum = header.checksum then .ok true
    else .error .checksumMismatch

/-! ## MSZIP blocks -/

inductive TinflStatus
  | done
  | hasMoreOutput
  /-- Any other status: the block is refused. -/
  | other
  deriving DecidableEq

def ringSize : Nat := maxBlockUncompressed

abbrev Ring := Vector UInt8 ringSize

/-- One call of the inflater: its state, the ring it wrote to, and how many
bytes it used and wrote. -/
structure Inflated (δ : Type) where
  state : δ
  window : Ring
  status : TinflStatus
  used : Nat
  written : Nat

structure Inflate (δ : Type) where
  fresh : δ
  init : δ → δ
  decompress : δ → List UInt8 → Ring → Nat → Inflated δ

/-- What a folder reader is given: the inflater, the volumes, the answers of the
cancellation to the polls in order, and whether memory is granted at a poll for
more output after some. -/
structure Env (δ : Type) where
  inflate : Inflate δ
  readAt : Nat → Nat → (length : Nat) → Except CabError (Vector UInt8 length)
  isCancelled : Nat → Bool
  reserves : Nat → Nat → Bool

structure MsZipDecoder (δ : Type) where
  state : δ
  window : Ring
  position : Nat

namespace MsZipDecoder

variable {δ : Type}

def new (inflate : Inflate δ) : MsZipDecoder δ := ⟨inflate.fresh, Vector.replicate ringSize 0, 0⟩

abbrev Method (δ : Type) := Machine (Stop CabError) (MsZipDecoder δ × List UInt8)

def extendFrom (window : List UInt8) (start stop : Nat) : Method δ Unit :=
  if start ≤ stop ∧ stop ≤ window.length then
    modify fun s => (s.1, s.2 ++ (window.drop start).take (stop - start))
  else fails .internal

def copyFromRing (reserves : Nat → Bool) (window : List UInt8) (start length : Nat) : Method δ Unit := do
  let (_, out) ← get
  if reserves out.length then
    let room ← subOrPanic ringSize start
    let first := min length room
    extendFrom window start (start + first)
    if first < length then extendFrom window 0 (length - first) else return ()
  else fails .limitExceeded

def copyWritten (reserves : Nat → Bool) (expected start written : Nat) : Method δ Unit := do
  if written > 0 then
    let (d, out) ← get
    let total ← addOrPanic 64 out.length written
    if total > expected then fails .decompressionFailed
    else
      copyFromRing reserves d.window.toList start written
      modify fun s => ({ s.1 with position := (start + written) % ringSize }, s.2)
  else return ()

def inflateTurn (inflate : Inflate δ) (reserves : Nat → Bool) (payload : List UInt8)
    (expected consumed : Nat) : Method δ (Nat ⊕ Unit) := do
  let (d, _) ← get
  let input ← sliceOrPanic payload consumed payload.length
  let inflated := inflate.decompress d.state input d.window d.position
  modify fun s => ({ s.1 with state := inflated.state, window := inflated.window }, s.2)
  if consumed + inflated.used ≥ 2 ^ 64 then fails .decompressionFailed
  else
    copyWritten reserves expected d.position inflated.written
    match inflated.status with
    | .done => return .inr ()
    | .hasMoreOutput =>
      if inflated.written = 0 then fails .decompressionFailed
      else return .inl (consumed + inflated.used)
    | .other => fails .decompressionFailed

def signature : List UInt8 := [0x43, 0x4B]

def decodeBlock (inflate : Inflate δ) (reserves : Nat → Bool) (input : List UInt8) (expected : Nat) :
    Method δ Unit := do
  modify fun s => (s.1, [])
  if expected > ringSize then fails .limitExceeded
  else if input.take 2 ≠ signature then fails .decompressionFailed
  else
    modify fun s => ({ s.1 with state := inflate.init s.1.state }, s.2)
    loopFrom (inflateTurn inflate reserves (input.drop 2) expected) (expected + 2) 0
    let (_, out) ← get
    if out.length ≠ expected then fails .decompressionFailed else return ()

end MsZipDecoder

/-! ## The blocks of a folder -/

inductive Decoder (δ : Type)
  | stored
  | msZip (decoder : MsZipDecoder δ)
  | lzx (decoder : LzxDecoder)

structure ExtractionStats where
  blocksRead : Nat
  checksumsVerified : Nat
  checksumsAbsent : Nat
  uncompressedBytes : Nat
  deriving DecidableEq

structure Blocks (δ : Type) where
  limits : Limits
  segments : List FolderSegment
  segment : Nat
  blocksLeft : Nat
  offset : Nat
  decoder : Decoder δ
  block : List UInt8
  blockPosition : Nat
  stats : ExtractionStats
  finished : Bool
  polls : Nat

namespace Blocks

variable {δ : Type}

abbrev Method (δ : Type) := Machine (Stop CabError) (Blocks δ)

def readWithin (env : Env δ) (segment : FolderSegment) (offset length : Nat) : Except CabError (List UInt8) :=
  if offset + length ≥ 2 ^ 64 then .error .outOfBounds
  else if offset + length > segment.cabinetBytes then .error .outOfBounds
  else (env.readAt segment.volume offset length).map Vector.toList

def poll (env : Env δ) : Method δ Unit := do
  let f ← get
  set { f with polls := f.polls + 1 }
  if env.isCancelled f.polls then fails .cancelled else return ()

def readReserve (env : Env δ) (segment : FolderSegment) (offset : Nat) : Method δ (List UInt8) := do
  if segment.dataReserveBytes > 0 then
    let offset ← addOrPanic 64 offset dataFixedLen
    ofExcept .error (readWithin env segment offset segment.dataReserveBytes)
  else return []

def countChecksum (verified : Bool) : Method δ Unit := do
  let f ← get
  if verified then
    let count ← addOrPanic 64 f.stats.checksumsVerified 1
    set { f with stats := { f.stats with checksumsVerified := count } }
  else
    let count ← addOrPanic 64 f.stats.checksumsAbsent 1
    set { f with stats := { f.stats with checksumsAbsent := count } }

def readData (env : Env δ) (segment : FolderSegment) : Method δ (DataHeader × List UInt8) := do
  let f ← get
  let raw ← ofExcept .error (readWithin env segment f.offset dataFixedLen)
  let header ← ofExcept .error (DataHeader.parse raw)
  let reserve ← readReserve env segment f.offset
  let offset ← addOrPanic 64 f.offset (dataFixedLen + segment.dataReserveBytes)
  let compressed ← ofExcept .error (readWithin env segment offset header.compressedBytes)
  let verified ← ofExcept .error (verifyBlockChecksum header reserve compressed)
  countChecksum verified
  return (header, compressed)

def decode (env : Env δ) (header : DataHeader) (compressed : List UInt8) : Method δ Unit := do
  let f ← get
  match f.decoder with
  | .stored =>
    if header.compressedBytes ≠ header.uncompressedBytes then fails .invalidField
    else set { f with block := compressed }
  | .msZip decoder =>
    let decoded := (MsZipDecoder.decodeBlock env.inflate (env.reserves f.polls) compressed
      header.uncompressedBytes).exec (decoder, f.block)
    set { f with decoder := .msZip decoded.2.1, block := decoded.2.2 }
    ofExcept id decoded.1
  | .lzx decoder =>
    if h : compressed.length < 2 ^ 63 then
      let decoded := (LzxDecoder.decodeBlock
        ⟨compressed, header.uncompressedBytes, env.reserves f.polls 0, h⟩).exec decoder
      set { f with decoder := (.lzx decoded.2 : Decoder δ), block := decoded.1.toOption.getD [] }
      ofExcept id (decoded.1.map fun _ => ())
    else throw .panic

def readBlock (env : Env δ) (segment : FolderSegment) : Method δ (Option Bool) := do
  let (header, compressed) ← readData env segment
  let f ← get
  let total ← addOrPanic 64 f.stats.uncompressedBytes header.uncompressedBytes
  if total > f.limits.maxFolderUncompressedBytes then fails .limitExceeded
  else
    decode env header compressed
    let f ← get
    let blocksRead ← addOrPanic 64 f.stats.blocksRead 1
    let blocksLeft ← subOrPanic f.blocksLeft 1
    set { f with
      blockPosition := 0
      stats := { f.stats with blocksRead := blocksRead, uncompressedBytes := total }
      blocksLeft := blocksLeft }
    let consumed := dataFixedLen + segment.dataReserveBytes + header.compressedBytes
    if f.offset + consumed ≥ 2 ^ 64 then fails .outOfBounds
    else
      modify fun f => { f with offset := f.offset + consumed }
      return if header.uncompressedBytes = 0 then none else some true

def nextSegment : Method δ (Option Bool) := do
  let f ← get
  let index ← addOrPanic 64 f.segment 1
  match f.segments[index]? with
  | none =>
    set { f with segment := index, finished := true }
    return some false
  | some segment =>
    set { f with
      segment := index
      blocksLeft := segment.dataBlockCount
      offset := segment.firstDataOffset }
    return none

def fillTurn (env : Env δ) : Method δ (Option Bool) := do
  let f ← get
  if f.finished then return some false
  else if f.blocksLeft = 0 then nextSegment
  else
    poll env
    match f.segments[f.segment]? with
    | none => fails .internal
    | some segment => readBlock env segment

def turnsLeft (f : Blocks δ) : Nat :=
  f.blocksLeft + ((f.segments.drop (f.segment + 1)).map fun segment => segment.dataBlockCount + 1).sum

def fillNextBlock (env : Env δ) : Method δ Bool := do
  let f ← get
  loop (fillTurn env) (f.turnsLeft + 2)

def held (f : Blocks δ) : Except (Stop CabError) (List UInt8) :=
  if f.blockPosition = f.block.length then .ok []
  else if f.block.length < f.blockPosition then .error .panic
  else .ok (f.block.drop f.blockPosition)

def drop (count : Nat) (f : Blocks δ) : Blocks δ := { f with blockPosition := f.blockPosition + count }

/-! A turn that finds no end of the folder uses up a block or a segment. -/

theorem held_drop {f : Blocks δ} {values : List UInt8} {n : Nat} (h : f.held = .ok values)
    (hLength : n ≤ values.length) : (f.drop n).held = .ok (values.drop n) := by
  rw [held] at h
  split at h
  · next hEnd =>
    cases h
    have hZero : n = 0 := by simpa using hLength
    simp [held, drop, hZero, hEnd]
  · split at h
    · cases h
    · cases h
      rw [List.length_drop] at hLength
      rw [held, drop]
      simp only [List.drop_drop]
      split
      · next hEnd => rw [hEnd, List.drop_length]
      · rw [if_neg (by omega)]

def Ahead (g f : Blocks δ) : Prop :=
  f.segments = g.segments ∧ f.segment = g.segment ∧ f.blocksLeft = g.blocksLeft

variable {env : Env δ} {g : Blocks δ}

theorem poll_ahead : Preserves (Ahead g) (poll env) := by
  intro f hf
  simp only [poll, ensures_bind, ensures_get, ensures_set, ensures_ite, fails, ensures_throw,
    ensures_pure]
  exact ⟨fun _ => hf, fun _ => hf⟩

theorem addOrPanic_ahead (a b : Nat) : Preserves (Ahead g) (addOrPanic 64 a b : Method δ Nat) := by
  apply Preserves.ite
  · exact preserves_throw _
  · exact preserves_pure _

theorem readReserve_ahead (segment : FolderSegment) (offset : Nat) :
    Preserves (Ahead g) (readReserve env segment offset) := by
  apply Preserves.ite
  · exact (addOrPanic_ahead _ _).bind fun _ => preserves_ofExcept _ _
  · exact preserves_pure _

theorem countChecksum_ahead (verified : Bool) : Preserves (Ahead g) (countChecksum verified) := by
  intro f hf
  rw [countChecksum, ensures_bind, ensures_get, ensures_ite]
  constructor
  · intro _
    rw [ensures_bind]
    exact (addOrPanic_ahead _ _ f hf).mono (fun _ _ _ => hf) fun _ _ h => h
  · intro _
    rw [ensures_bind]
    exact (addOrPanic_ahead _ _ f hf).mono (fun _ _ _ => hf) fun _ _ h => h

theorem readData_ahead (segment : FolderSegment) : Preserves (Ahead g) (readData env segment) :=
  preserves_get.bind fun _ => (preserves_ofExcept _ _).bind fun _ =>
    (preserves_ofExcept _ _).bind fun _ => (readReserve_ahead _ _).bind fun _ =>
    (addOrPanic_ahead _ _).bind fun _ => (preserves_ofExcept _ _).bind fun _ =>
    (preserves_ofExcept _ _).bind fun _ => (countChecksum_ahead _).bind fun _ => preserves_pure _

theorem decode_ahead (header : DataHeader) (compressed : List UInt8) :
    Preserves (Ahead g) (decode env header compressed) := by
  intro f hf
  rw [decode, ensures_bind, ensures_get]
  cases f.decoder with
  | stored =>
    dsimp only
    rw [ensures_ite]
    exact ⟨fun _ => hf, fun _ => hf⟩
  | msZip decoder =>
    dsimp only
    rw [ensures_bind, ensures_set]
    exact preserves_ofExcept _ _ _ hf
  | lzx decoder =>
    dsimp only
    split
    · rw [ensures_bind, ensures_set]
      exact preserves_ofExcept _ _ _ hf
    · exact hf

def Nearer (g f : Blocks δ) : Prop := f.turnsLeft < g.turnsLeft

theorem readBlock_nearer {f : Blocks δ} (segment : FolderSegment) (hAhead : Ahead g f)
    (hLeft : 0 < g.blocksLeft) :
    Ensures (readBlock env segment) f (fun _ t => Nearer g t) fun _ _ => True := by
  rw [readBlock, ensures_bind]
  apply (readData_ahead segment f hAhead).mono
  · rintro ⟨header, compressed⟩ f hAhead
    rw [ensures_bind, ensures_get, ensures_bind]
    apply (addOrPanic_ahead _ _ f hAhead).mono
    · intro total f' hAhead
      dsimp only
      rw [ensures_ite]
      refine ⟨fun _ => trivial, fun _ => ?_⟩
      rw [ensures_bind]
      apply (decode_ahead header compressed f' hAhead).mono
      · intro _ f' hAhead
        rw [ensures_bind, ensures_get, ensures_bind]
        apply (addOrPanic_ahead _ _ f' hAhead).mono
        · intro blocksRead f'' _
          obtain ⟨hSegments, hSegment, hBlocks⟩ := hAhead
          rw [ensures_bind, ensures_subOrPanic (by omega), ensures_bind, ensures_set]
          rw [ensures_ite]
          refine ⟨fun _ => trivial, fun _ => ?_⟩
          rw [ensures_bind, ensures_modify, ensures_pure]
          simp only [Nearer, turnsLeft, hSegments, hSegment]
          omega
        · exact fun _ _ _ => trivial
      · exact fun _ _ _ => trivial
    · exact fun _ _ _ => trivial
  · exact fun _ _ _ => trivial

theorem sum_drop_of_getElem? (values : List Nat) (index : Nat) {value : Nat} (h : values[index]? = some value) :
    (values.drop index).sum = value + (values.drop (index + 1)).sum := by
  obtain ⟨hIndex, rfl⟩ := List.getElem?_eq_some_iff.mp h
  rw [List.drop_eq_getElem_cons hIndex, List.sum_cons]

theorem nextSegment_nearer (g : Blocks δ) (hLeft : g.blocksLeft = 0) :
    Ensures nextSegment g (fun r t => r = some false ∨ Nearer g t) fun _ _ => True := by
  rw [nextSegment, ensures_bind, ensures_get, ensures_bind]
  by_cases hIndex : g.segment + 1 < 2 ^ 64
  · rw [ensures_addOrPanic hIndex]
    cases hSegment : g.segments[g.segment + 1]? with
    | none => exact .inl rfl
    | some segment =>
      right
      have hSum := sum_drop_of_getElem? (g.segments.map fun segment => segment.dataBlockCount + 1)
        (g.segment + 1) (by rw [List.getElem?_map, hSegment, Option.map_some])
      rw [← List.map_drop, ← List.map_drop] at hSum
      simp only [Nearer, turnsLeft]
      omega
  · rw [addOrPanic, if_pos (by omega)]
    trivial

theorem fillTurn_nearer (g : Blocks δ) :
    Ensures (fillTurn env) g (fun r t => r = some false ∨ Nearer g t) fun _ _ => True := by
  rw [fillTurn, ensures_bind, ensures_get, ensures_ite]
  refine ⟨fun _ => .inl rfl, fun _ => ?_⟩
  rw [ensures_ite]
  refine ⟨fun hLeft => nextSegment_nearer g hLeft, fun hLeft => ?_⟩
  rw [ensures_bind]
  apply (poll_ahead g ⟨rfl, rfl, rfl⟩).mono
  · intro _ f hAhead
    cases g.segments[g.segment]? with
    | none => trivial
    | some segment =>
      exact (readBlock_nearer segment hAhead (by omega)).mono (fun _ _ h => .inr h) fun _ _ h => h
  · exact fun _ _ _ => trivial

variable (env) in
theorem loop_nearer (fuel : Nat) (f : Blocks δ) :
    Ensures (loop (fillTurn env) fuel) f (fun more t => more = false ∨ Nearer f t) fun _ _ => True := by
  induction fuel generalizing f with
  | zero => trivial
  | succ fuel ih =>
    rw [loop, ensures_bind]
    apply (fillTurn_nearer f).mono
    · intro r t hTurn
      cases r with
      | none =>
        have hTurn : Nearer f t := hTurn.resolve_left (by simp)
        apply (ih t).mono
        · exact fun more u h => h.imp_right fun h => Nat.lt_trans h hTurn
        · exact fun _ _ h => h
      | some more =>
        cases more with
        | true => exact .inr (hTurn.resolve_left (by simp))
        | false => exact .inl rfl
    · exact fun _ _ _ => trivial

end Blocks

/-! ## Reading a folder -/

def blockStream {δ : Type} (env : Env δ) : BlockStream CabError (Blocks δ) UInt8 where
  held := Blocks.held
  drop := Blocks.drop
  fill := Blocks.fillNextBlock env
  left := Blocks.turnsLeft
  held_drop := Blocks.held_drop
  drop_zero _ := rfl
  drop_drop _ _ f := by simp only [Blocks.drop, Nat.add_assoc]
  left_drop _ _ := rfl
  left_fill {f t} h := by
    have hFill := (Blocks.loop_nearer env (f.turnsLeft + 2) f).of_ok (a := true) (t := t) h
    exact hFill.resolve_left (by decide)

structure FolderStream (δ : Type) where
  blocks : Blocks δ
  position : Nat

namespace FolderStream

variable {δ : Type} (env : Env δ)

abbrev Method (δ : Type) := Machine (Stop CabError) (FolderStream δ)

def newDecoder (compression : Compression) (limits : Limits) : Except (Stop CabError) (Decoder δ) :=
  match compression with
  | .none => .ok .stored
  | .msZip => .ok (.msZip (.new env.inflate))
  | .lzx windowBits => (LzxDecoder.new windowBits limits.maxLzxWindowBits).map .lzx
  | .quantum | .unknown => .error (.error .unsupported)

def new (compression : Compression) (limits : Limits) (segments : List FolderSegment) :
    Except (Stop CabError) (FolderStream δ) :=
  match segments with
  | [] => .error (.error .invalidField)
  | first :: _ => do
    let decoder ← newDecoder env compression limits
    if (segments.map FolderSegment.dataBlockCount).sum > limits.maxBlocksPerFolder then
      .error (.error .limitExceeded)
    else
      return {
        blocks := {
          limits := limits
          segments := segments
          segment := 0
          blocksLeft := first.dataBlockCount
          offset := first.firstDataOffset
          decoder := decoder
          block := []
          blockPosition := 0
          stats := ⟨0, 0, 0, 0⟩
          finished := false
          polls := 0 }
        position := 0 }

def onBlocks {α : Type} (m : Blocks.Method δ α) : Method δ α :=
  zoom FolderStream.blocks (fun blocks f => { f with blocks := blocks }) id m

/-- The loop of both reading and skipping, over the blocks; an error leaves the
position where it was. -/
def advance (count : Nat) : Method δ (List UInt8) := do
  let bytes ← onBlocks ((blockStream env).takeUpTo count)
  let f ← get
  let position ← addOrPanic 64 f.position bytes.length
  set { f with position := position }
  return bytes

/-- Fills a buffer of `want` bytes as far as the folder goes. -/
def read (want : Nat) : Method δ (List UInt8) := advance env want

def skip (count : Nat) : Method δ Nat := do
  let bytes ← advance env count
  return bytes.length

end FolderStream

structure FileStream (δ : Type) where
  folder : FolderStream δ
  remaining : Nat

namespace FileStream

variable {δ : Type} (env : Env δ)

abbrev Method (δ : Type) := Machine (Stop CabError) (FileStream δ)

/-- The skipped count is compared with the start of the file, not with the
distance to it. -/
def seek (file : FileEntry) : FolderStream.Method δ Unit := do
  let start := file.folderOffset.toNat
  let f ← get
  if f.position > start then fails .internal
  else
    let count ← subOrPanic start f.position
    let skipped ← FolderStream.skip env count
    let f ← get
    if f.position ≠ start ∨ skipped ≠ start then fails .outOfBounds else return ()

def seekTo (folder : FolderStream δ) (file : FileEntry) : Except (Stop CabError) (FileStream δ) :=
  match (seek env file).exec folder with
  | (.ok _, folder) => .ok ⟨folder, file.uncompressedBytes.toNat⟩
  | (.error stop, _) => .error stop

def onFolder {α : Type} (m : FolderStream.Method δ α) : Method δ α :=
  zoom FileStream.folder (fun folder f => { f with folder := folder }) id m

def read (want : Nat) : Method δ (List UInt8) := do
  let f ← get
  if f.remaining = 0 then return []
  else
    let bytes ← onFolder (FolderStream.read env (min f.remaining want))
    if bytes.length = 0 then fails .truncated
    else
      let remaining ← subOrPanic f.remaining bytes.length
      modify fun f => { f with remaining := remaining }
      return bytes

end FileStream

end OpenHalfLife.Cab
