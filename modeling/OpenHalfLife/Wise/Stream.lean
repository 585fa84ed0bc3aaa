import OpenHalfLife.Lib.Checked
import OpenHalfLife.Lib.Bytes
import OpenHalfLife.Lib.BlockStream

/-! # One compressed stream and its trailing checksum

`StreamReader` inflates one stream from a random-access source, a bounded chunk
at a time. Raw inflate itself is a byte transducer, and nobody cancels.
-/

namespace OpenHalfLife.Wise

open Machine

set_option autoImplicit false

inductive Limit
  | peHeaderBytes
  | sections
  | headerScanBytes
  | streams
  | compressedBytesPerStream
  | inflatedBytesPerStream
  | totalInflatedBytes
  | scriptBytes
  | fileRecords
  | pathBytes
  deriving DecidableEq, Repr

inductive WiseError
  | notExecutable
  | malformedExecutable
  | noOverlay
  | headerNotFound
  | zipVariantUnsupported
  | truncated
  | decompressionFailed
  | checksumMismatch
  | scriptMalformed
  | indexOutOfRange
  | noStreamForRecord
  | cancelled
  | sourceFailed
  | limitExceeded (limit : Limit)
  deriving DecidableEq, Repr

structure Limits where
  maxStreams : UInt32
  maxCompressedBytesPerStream : UInt64
  maxInflatedBytesPerStream : UInt64
  maxTotalInflatedBytes : UInt64
  maxScriptBytes : UInt64
  maxResyncSkip : UInt8
  maxChunkBytes : UInt64

def Limits.chunkBytes (limits : Limits) : Nat :=
  if limits.maxChunkBytes = 0 then 1 else limits.maxChunkBytes.toNat

theorem Limits.chunkBytes_pos (limits : Limits) : 0 < limits.chunkBytes := by
  unfold chunkBytes
  split
  · exact Nat.one_pos
  · rename_i hBytes
    have hPos := UInt64.pos_iff_ne_zero.mpr hBytes
    exact UInt64.lt_iff_toNat_lt.mp hPos

structure Crc32 where
  state : UInt32
  deriving DecidableEq, Repr

namespace Crc32

def polynomial : UInt32 := 0xEDB88320

def shiftBit (value : UInt32) : UInt32 :=
  if value &&& 1 = 1 then (value >>> 1) ^^^ polynomial else value >>> 1

/-- The entry `TABLE[index]`. -/
def tableAt (index : UInt32) : UInt32 := Nat.repeat shiftBit 8 index

def new : Crc32 := ⟨0xFFFFFFFF⟩

def update (crc : Crc32) (bytes : List UInt8) : Crc32 :=
  ⟨bytes.foldl (fun state byte => (state >>> 8) ^^^ tableAt ((state ^^^ byte.toUInt32) &&& 0xFF)) crc.state⟩

def finish (crc : Crc32) : UInt32 := crc.state ^^^ 0xFFFFFFFF

end Crc32

inductive ChecksumStatus
  | match_
  | mismatch
  | absent
  deriving DecidableEq, Repr

structure StreamMetrics where
  compressedOffset : Nat
  compressedLen : Nat
  inflatedLen : Nat
  computedCrc32 : UInt32
  storedCrc32 : UInt32
  checksum : ChecksumStatus
  deriving DecidableEq, Repr

def StreamMetrics.trailer (metrics : StreamMetrics) : Nat :=
  match metrics.checksum with
  | .absent => 0
  | _ => 4

def StreamMetrics.nextOffset {σ : Type} (metrics : StreamMetrics) : Machine (Stop WiseError) σ Nat := do
  let stop ← addOrPanic 64 metrics.compressedOffset metrics.compressedLen
  addOrPanic 64 stop metrics.trailer

class ImageSource (S : Type) where
  readAt (offset room : Nat) : Machine (Stop WiseError) S (List UInt8)

structure SliceSource where
  bytes : List UInt8

instance : ImageSource SliceSource where
  readAt offset room := do
    let source ← get
    return (source.bytes.drop offset).take room

/-- `?` turns an arithmetic overflow into `MalformedExecutable`. -/
def checkedAddBounded {σ : Type} (a b : Nat) : Machine (Stop WiseError) σ Nat :=
  if a + b ≥ 2 ^ 64 then throw (.error .malformedExecutable) else pure (a + b)

/-- `input` is the filled part of the staging buffer. -/
structure StreamReader (σ : Type) where
  state : σ
  limits : Limits
  start : Nat
  readCursor : Nat
  input : List UInt8
  inputPos : Nat
  consumed : Nat
  inflated : Nat
  crc : Crc32
  finished : Bool
  stalled : Bool

section Reader

variable {σ S α : Type}

def onReader (m : Machine (Stop WiseError) (StreamReader σ) α) :
    Machine (Stop WiseError) (StreamReader σ × S) α :=
  .zoom Prod.fst (fun reader s => (reader, s.2)) id m

def onSource (m : Machine (Stop WiseError) S α) : Machine (Stop WiseError) (StreamReader σ × S) α :=
  .zoom Prod.snd (fun source s => (s.1, source)) id m

namespace StreamReader

def new (inflater : Transducer σ) (offset : Nat) (limits : Limits) : StreamReader σ where
  state := inflater.init
  limits
  start := offset
  readCursor := offset
  input := []
  inputPos := 0
  consumed := 0
  inflated := 0
  crc := .new
  finished := false
  stalled := false

def restart (inflater : Transducer σ) (offset : Nat) (reader : StreamReader σ) : StreamReader σ :=
  { reader with
    state := inflater.init
    start := offset
    readCursor := offset
    input := []
    inputPos := 0
    consumed := 0
    inflated := 0
    crc := .new
    finished := false
    stalled := false }

def refill [ImageSource S] : Machine (Stop WiseError) (StreamReader σ × S) Bool := do
  let (reader, _) ← get
  let bytes ← onSource (ImageSource.readAt reader.readCursor reader.limits.chunkBytes)
  onReader (modify fun reader => { reader with input := bytes, inputPos := 0 })
  if bytes = [] then
    return false
  else
    let cursor ← checkedAddBounded reader.readCursor bytes.length
    onReader (modify fun reader => { reader with readCursor := cursor })
    return true

def fetch [ImageSource S] : Machine (Stop WiseError) (StreamReader σ × S) Unit := do
  let (reader, _) ← get
  if reader.inputPos = reader.input.length then
    let more ← refill
    rejectIf (more = false) (.error .truncated)
  else
    return ()

def stall : Machine (Stop WiseError) (StreamReader σ) Unit := do
  let reader ← get
  rejectIf (reader.stalled = true) (.error .decompressionFailed)
  set { reader with stalled := true, inputPos := reader.input.length }

/-- The end of a turn: the bytes `read` returns, or `none` for another turn. -/
def settle (piece : Transducer.Piece σ) :
    Machine (Stop WiseError) (StreamReader σ) (Option (List UInt8)) := do
  match piece.status with
  | .finished =>
    modify fun reader => { reader with finished := true }
    return some piece.given
  | .failed => throw (.error .decompressionFailed)
  | .paused =>
    if piece.given ≠ [] then
      return some piece.given
    else if piece.taken = 0 then
      stall
      return none
    else
      modify fun reader => { reader with stalled := false }
      return none

def inflate (inflater : Transducer σ) (room : Nat) :
    Machine (Stop WiseError) (StreamReader σ) (Option (List UInt8)) := do
  let reader ← get
  let piece := inflater.run reader.state (reader.input.drop reader.inputPos) room
  rejectIf (reader.inputPos + piece.taken ≥ 2 ^ 64) (.error .decompressionFailed)
  set { reader with state := piece.state, inputPos := reader.inputPos + piece.taken }
  let consumed ← checkedAddBounded reader.consumed piece.taken
  modify fun reader => { reader with consumed }
  rejectIf (consumed > reader.limits.maxCompressedBytesPerStream.toNat)
    (.error (.limitExceeded .compressedBytesPerStream))
  rejectIf (piece.given.length > room) (.error .decompressionFailed)
  let inflated ← checkedAddBounded reader.inflated piece.given.length
  modify fun reader => { reader with inflated }
  rejectIf (inflated > reader.limits.maxInflatedBytesPerStream.toNat)
    (.error (.limitExceeded .inflatedBytesPerStream))
  modify fun reader => { reader with crc := reader.crc.update piece.given }
  settle piece

def readTurn [ImageSource S] (inflater : Transducer σ) (room : Nat) :
    Machine (Stop WiseError) (StreamReader σ × S) (Option (List UInt8)) := do
  fetch
  onReader (inflate inflater room)

def readTurns : Nat := 2 ^ 66

/-- The bytes written to an output buffer of `room` bytes; none at the end of the stream. -/
def read [ImageSource S] (inflater : Transducer σ) (room : Nat) :
    Machine (Stop WiseError) (StreamReader σ × S) (List UInt8) := do
  let (reader, _) ← get
  if reader.finished = true ∨ room = 0 then
    return []
  else
    loop (readTurn inflater room) readTurns

def metrics (reader : StreamReader σ) (trailer : List UInt8) : StreamMetrics where
  compressedOffset := reader.start
  compressedLen := reader.consumed
  inflatedLen := reader.inflated
  computedCrc32 := reader.crc.finish
  storedCrc32 := if trailer.length = 4 then .ofNat (fromLe trailer) else 0
  checksum :=
    if trailer.length = 4 then
      if UInt32.ofNat (fromLe trailer) = reader.crc.finish then .match_ else .mismatch
    else
      .absent

def finish [ImageSource S] : Machine (Stop WiseError) (StreamReader σ × S) StreamMetrics := do
  let (reader, _) ← get
  rejectIf (reader.finished = false) (.error .truncated)
  let trailerAt ← checkedAddBounded reader.start reader.consumed
  let trailer ← onSource (ImageSource.readAt trailerAt 4)
  return reader.metrics trailer

section Preserves

/-! What every read of a source keeps, a reader over it keeps. -/

variable {I : S → Prop}

theorem preserves_onReader (m : Machine (Stop WiseError) (StreamReader σ) α) :
    Preserves (fun s : StreamReader σ × S => I s.2) (onReader m) :=
  (preserves_true m).zoom (fun _ _ => trivial) fun _ _ h _ => h

theorem preserves_onSource {m : Machine (Stop WiseError) S α} (h : Preserves I m) :
    Preserves (fun s : StreamReader σ × S => I s.2) (onSource m) :=
  h.zoom (fun _ hs => hs) fun _ _ _ ht => ht

theorem preserves_checkedAddBounded {τ : Type} {J : τ → Prop} (a b : Nat) :
    Preserves J (checkedAddBounded a b) := by
  unfold checkedAddBounded
  exact (preserves_throw _).ite (preserves_pure _)

variable [ImageSource S]

theorem preserves_refill (h : ∀ offset room, Preserves I (ImageSource.readAt offset room)) :
    Preserves (fun s : StreamReader σ × S => I s.2) refill := by
  apply preserves_get.bind
  rintro ⟨reader, _⟩
  apply (preserves_onSource (h _ _)).bind
  intro bytes
  apply (preserves_onReader _).bind
  intro _
  apply (preserves_pure _).ite
  apply (preserves_checkedAddBounded _ _).bind
  intro cursor
  exact (preserves_onReader _).bind fun _ => preserves_pure _

theorem preserves_fetch (h : ∀ offset room, Preserves I (ImageSource.readAt offset room)) :
    Preserves (fun s : StreamReader σ × S => I s.2) fetch := by
  apply preserves_get.bind
  rintro ⟨reader, _⟩
  apply Preserves.ite
  · exact (preserves_refill h).bind fun _ => preserves_rejectIf _ _
  · exact preserves_pure _

theorem preserves_read (h : ∀ offset room, Preserves I (ImageSource.readAt offset room))
    (inflater : Transducer σ) (room : Nat) :
    Preserves (fun s : StreamReader σ × S => I s.2) (read inflater room) := by
  apply preserves_get.bind
  rintro ⟨reader, _⟩
  apply (preserves_pure _).ite
  apply Preserves.loop
  exact (preserves_fetch h).bind fun _ => preserves_onReader _

theorem preserves_finish (h : ∀ offset room, Preserves I (ImageSource.readAt offset room)) :
    Preserves (fun s : StreamReader σ × S => I s.2) finish := by
  apply preserves_get.bind
  rintro ⟨reader, _⟩
  apply (preserves_rejectIf _ _).bind
  intro _
  apply (preserves_checkedAddBounded _ _).bind
  intro trailerAt
  exact (preserves_onSource (h _ _)).bind fun _ => preserves_pure _

end Preserves

end StreamReader

end Reader

end OpenHalfLife.Wise
