import OpenHalfLife.Cab.BitReader

/-! # The LZX decoder of a cabinet folder

Blocks of tokens or stored bytes fill a window; one call decodes one frame.
Everything but the bit reader persists from frame to frame, also through an
error. The window is a parameter of the decoding loops: the decoder runs them
on its ring buffer.
-/

namespace OpenHalfLife.Cab

open Machine

set_option autoImplicit false

def minWindowBits : Nat := 15

def maxWindowBits : Nat := 21

def frameSize : Nat := 32768

def numChars : Nat := 256

def lengthTreeElements : Nat := 249

def alignedTreeElements : Nat := 8

def pretreeElements : Nat := 20

def e8FrameLimit : Nat := 32768

inductive BlockType
  | verbatim
  | aligned
  | uncompressed
  deriving DecidableEq, Repr

structure Repeated where
  r0 : Nat
  r1 : Nat
  r2 : Nat
  deriving DecidableEq

structure LzxState where
  positionSlots : Nat
  basePosition : List Nat
  footerBits : List Nat
  mainLengths : List Nat
  lengthLengths : List Nat
  mainTable : Option HuffmanTable
  lengthTable : Option HuffmanTable
  alignedTable : Option HuffmanTable
  repeated : Repeated
  blockType : BlockType
  blockRemaining : Nat
  headerRead : Bool
  e8Translation : Bool
  e8FileSize : Nat
  deriving DecidableEq

abbrev Decoding := Machine (Stop CabError) (LzxState × BitReader)

def fails {σ α : Type} (error : CabError) : Machine (Stop CabError) σ α := throw (.error error)

def reading {α : Type} (m : BitReader.Reading α) : Decoding α := zoom Prod.snd (fun r s => (s.1, r)) id m

/-! ## Position slots -/

structure SlotTables where
  base : List Nat
  footer : List Nat
  position : Nat

def slotBits (slot : Nat) : Nat := if slot < 4 then 0 else min (slot / 2 - 1) (2 ^ 8 - 1)

def addSlot {σ : Type} (tables : SlotTables) (slot : Nat) : Machine (Stop CabError) σ SlotTables := do
  let span ← shlOrPanic 32 1 (slotBits slot)
  return ⟨tables.base ++ [tables.position], tables.footer ++ [slotBits slot],
    min (tables.position + span) (2 ^ 32 - 1)⟩

def slotTables {σ : Type} (slots : Nat) : Machine (Stop CabError) σ SlotTables :=
  (List.range slots).foldlM addSlot ⟨[], [], 0⟩

/-! ## Path lengths -/

abbrev Lengths := Machine (Stop CabError) (List Nat × BitReader)

def fromBits {α : Type} (m : BitReader.Reading α) : Lengths α := zoom Prod.snd (fun r s => (s.1, r)) id m

/-- The length a delta code gives the element at `index`, modulo 17. -/
def deltaLength (index code : Nat) : Lengths Nat := do
  let (lengths, _) ← get
  let previous ← getOrPanic lengths index
  let difference ← signedOrPanic 32 ((previous : Int) - code)
  let sum ← signedOrPanic 32 (difference + 17)
  let value := sum.tmod 17
  if 0 ≤ value ∧ value < 2 ^ 8 then return value.toNat else fails .internal

def fillRun (index stop run value : Nat) : Lengths Nat := do
  if index + run ≥ 2 ^ 64 then fails .decompressionFailed
  else if index + run > stop then fails .decompressionFailed
  else
    let (lengths, _) ← get
    let _ ← sliceOrPanic lengths index (index + run)
    modify fun s => (s.1.take index ++ List.replicate run value ++ s.1.drop (index + run), s.2)
    return index + run

def readLength (table : HuffmanTable) (stop index : Nat) : Lengths Nat := do
  let code ← fromBits (BitReader.decode table)
  if code ≤ 16 then
    let value ← deltaLength index code
    let (lengths, _) ← get
    let lengths ← setOrPanic lengths index value
    modify fun s => (lengths, s.2)
    addOrPanic 64 index 1
  else if code = 17 then
    let extra ← fromBits (BitReader.readBits 4)
    let run ← addOrPanic 64 4 extra
    fillRun index stop run 0
  else if code = 18 then
    let extra ← fromBits (BitReader.readBits 5)
    let run ← addOrPanic 64 20 extra
    fillRun index stop run 0
  else if code = 19 then
    let extra ← fromBits (BitReader.readBits 1)
    let run ← addOrPanic 64 4 extra
    let code ← fromBits (BitReader.decode table)
    if code > 16 then fails .decompressionFailed
    else
      let value ← deltaLength index code
      fillRun index stop run value
  else fails .decompressionFailed

def readFields (width count : Nat) : BitReader.Reading (List Nat) :=
  (List.range count).foldlM (fun fields _ => do
    let field ← BitReader.readBits width
    if field < 2 ^ 8 then return fields ++ [field] else fails .internal) []

def readLengths (start stop : Nat) : Lengths Unit := do
  let pretree ← fromBits (readFields 4 pretreeElements)
  let table ← HuffmanTable.new pretree
  iterate (fun index => do
    if index < stop then
      let next ← readLength table stop index
      return some next
    else return none) (stop + 1) start

def onMainLengths {α : Type} (m : Lengths α) : Decoding α :=
  zoom (fun s => (s.1.mainLengths, s.2)) (fun t s => ({ s.1 with mainLengths := t.1 }, t.2)) id m

def onLengthLengths {α : Type} (m : Lengths α) : Decoding α :=
  zoom (fun s => (s.1.lengthLengths, s.2)) (fun t s => ({ s.1 with lengthLengths := t.1 }, t.2)) id m

def modifyState (f : LzxState → LzxState) : Decoding Unit := modify fun s => (f s.1, s.2)

def readMainAndLengthTrees : Decoding Unit := do
  let (s, _) ← get
  let mainElements := numChars + 8 * s.positionSlots
  onMainLengths (readLengths 0 numChars)
  onMainLengths (readLengths numChars mainElements)
  let (s, _) ← get
  let table ← HuffmanTable.new s.mainLengths
  modifyState fun s => { s with mainTable := some table }
  onLengthLengths (readLengths 0 lengthTreeElements)
  let (s, _) ← get
  let table ← HuffmanTable.new s.lengthLengths
  modifyState fun s => { s with lengthTable := some table }

/-! ## Block headers -/

def storedOffset (data : List UInt8) (cursor : Nat) : Decoding (Nat × Nat) := do
  let stop ← addOrPanic 64 cursor 4
  if stop > data.length then fails .decompressionFailed
  else
    let offset := fromLe ((data.drop cursor).take 4)
    if offset = 0 then fails .decompressionFailed else return (offset, stop)

def readStoredHeader : Decoding Unit := do
  reading BitReader.alignToWord
  let position ← reading BitReader.alignedBytePosition
  let (_, r) ← get
  let (r0, cursor) ← storedOffset r.data position
  let (r1, cursor) ← storedOffset r.data cursor
  let (r2, cursor) ← storedOffset r.data cursor
  modifyState fun s => { s with repeated := ⟨r0, r1, r2⟩ }
  reading (BitReader.resumeAt cursor)

def blockTypeOf : Nat → Decoding BlockType
  | 1 => return .verbatim
  | 2 => return .aligned
  | 3 => return .uncompressed
  | _ => fails .decompressionFailed

def readBlockHeader : Decoding Unit := do
  let code ← reading (BitReader.readBits 3)
  let blockType ← blockTypeOf code
  modifyState fun s => { s with blockType := blockType }
  let size ← reading BitReader.readU24
  modifyState fun s => { s with blockRemaining := size }
  match blockType with
  | .aligned => do
    let aligned ← reading (readFields 3 alignedTreeElements)
    let table ← HuffmanTable.new aligned
    modifyState fun s => { s with alignedTable := some table }
    readMainAndLengthTrees
  | .verbatim => readMainAndLengthTrees
  | .uncompressed => readStoredHeader

/-! ## Tokens -/

inductive Token
  | literal (byte : UInt8)
  | copy (offset length : Nat)
  deriving DecidableEq

def readMatchLength (lengthTable : Option HuffmanTable) (header : Nat) : Decoding Nat := do
  if header = 7 then
    match lengthTable with
    | none => fails .decompressionFailed
    | some table => do
      let length ← reading (BitReader.decode table)
      let length ← addOrPanic 64 length 7
      addOrPanic 64 length 2
  else addOrPanic 64 header 2

/-- A slot's base plus `extra`, which must fit 32 bits. -/
def addFormatted (base extra : Nat) : Decoding Nat :=
  if base + extra ≥ 2 ^ 32 then fails .decompressionFailed else pure (base + extra)

def readFormatted (alignedTable : Option HuffmanTable) (slot : Nat) : Decoding Nat := do
  let (s, _) ← get
  let footer ← getOrPanic s.footerBits slot
  if s.blockType = .aligned ∧ footer > 3 then
    let width ← subOrPanic footer 3
    let verbatim ← reading (BitReader.readBits width)
    let verbatim ← shlOrPanic 32 verbatim 3
    match alignedTable with
    | none => fails .decompressionFailed
    | some table => do
      let aligned ← reading (BitReader.decode table)
      let base ← getOrPanic s.basePosition slot
      let sum ← addFormatted base verbatim
      addFormatted sum aligned
  else
    let verbatim ← reading (BitReader.readBits footer)
    let base ← getOrPanic s.basePosition slot
    addFormatted base verbatim

def readMatchOffset (alignedTable : Option HuffmanTable) (slot : Nat) : Decoding Nat := do
  let (s, _) ← get
  let r := s.repeated
  if slot = 0 then return r.r0
  else if slot = 1 then
    modifyState fun s => { s with repeated := ⟨r.r1, r.r0, r.r2⟩ }
    return r.r1
  else if slot = 2 then
    modifyState fun s => { s with repeated := ⟨r.r2, r.r1, r.r0⟩ }
    return r.r2
  else
    let formatted ← readFormatted alignedTable slot
    if formatted < 2 then fails .decompressionFailed
    else
      modifyState fun s => { s with repeated := ⟨formatted - 2, r.r0, r.r1⟩ }
      return formatted - 2

def readExtraLength : BitReader.Reading Nat := do
  if (← BitReader.readBits 1) ≠ 0 then
    if (← BitReader.readBits 1) ≠ 0 then
      if (← BitReader.readBits 1) ≠ 0 then BitReader.readBits 15
      else
        let extra ← BitReader.readBits 12
        let extra ← addOrPanic 32 extra 1024
        addOrPanic 32 extra 256
    else
      let extra ← BitReader.readBits 10
      addOrPanic 32 extra 256
  else BitReader.readBits 8

def readToken (main : HuffmanTable) (lengthTable alignedTable : Option HuffmanTable) : Decoding Token := do
  let element ← reading (BitReader.decode main)
  if element < numChars then return .literal (UInt8.ofNat element)
  else
    let symbol ← subOrPanic element numChars
    let matchLength ← readMatchLength lengthTable (symbol % 8)
    let slot := symbol / 8
    let (s, _) ← get
    if slot ≥ s.positionSlots then fails .decompressionFailed
    else
      let offset ← readMatchOffset alignedTable slot
      if matchLength = 257 then
        let extra ← reading readExtraLength
        if 257 + extra ≥ 2 ^ 64 then fails .decompressionFailed else return .copy offset (257 + extra)
      else return .copy offset matchLength

/-! ## The window -/

/-- Where decoded bytes go and matches are copied from. -/
class Output (ω : Type) where
  pushByte : UInt8 → Machine (Stop CabError) ω Unit
  copyMatch : Nat → Nat → Machine (Stop CabError) ω Unit

structure Window where
  bytes : List UInt8
  mask : Nat
  position : Nat
  total : Nat
  deriving DecidableEq

namespace Window

def pushByte (byte : UInt8) : Machine (Stop CabError) Window Unit := do
  let w ← get
  let bytes ← setOrPanic w.bytes w.position byte
  let next ← addOrPanic 64 w.position 1
  let total ← addOrPanic 64 w.total 1
  set { w with bytes := bytes, position := next &&& w.mask, total := total }

def copyByte (offset : Nat) : Machine (Stop CabError) Window Unit := do
  let w ← get
  let ahead ← addOrPanic 64 w.position w.bytes.length
  let source ← subOrPanic ahead offset
  let byte ← getOrPanic w.bytes (source &&& w.mask)
  pushByte byte

def copyMatch (offset length : Nat) : Machine (Stop CabError) Window Unit := do
  let w ← get
  if offset = 0 ∨ offset > w.bytes.length ∨ offset > w.total then fails .decompressionFailed
  else (List.range length).forM fun _ => copyByte offset

instance : Output Window := ⟨pushByte, copyMatch⟩

end Window

/-! ## Frames -/

section Frames

variable {ω : Type}

abbrev Framing (ω : Type) := Machine (Stop CabError) ((LzxState × BitReader) × ω)

def decoding {α : Type} (m : Decoding α) : Framing ω α := zoom Prod.fst (fun t s => (t, s.2)) id m

def output {α : Type} (m : Machine (Stop CabError) ω α) : Framing ω α :=
  zoom Prod.snd (fun w s => (s.1, w)) id m

variable [Output ω]

def decodeToken (main : HuffmanTable) (lengthTable alignedTable : Option HuffmanTable) (remaining : Nat) :
    Framing ω (Option Nat) := do
  if remaining > 0 then
    match ← decoding (readToken main lengthTable alignedTable) with
    | .literal byte => do
      output (Output.pushByte byte)
      let remaining ← subOrPanic remaining 1
      return some remaining
    | .copy offset length => do
      -- No match may span a frame or block boundary.
      if length > remaining then fails .decompressionFailed
      else
        output (Output.copyMatch offset length)
        let remaining ← subOrPanic remaining length
        return some remaining
  else return none

def decodeTokensWith (todo : Nat) (main : HuffmanTable) (lengthTable alignedTable : Option HuffmanTable) :
    Framing ω Unit :=
  iterate (decodeToken main lengthTable alignedTable) (todo + 1) todo

/-- The trees are moved out of the state while tokens are decoded, and back
whatever the result. -/
def decodeTokens (todo : Nat) : Framing ω Unit := do
  let ((s, _), _) ← get
  match s.mainTable with
  | none => fails .decompressionFailed
  | some main => do
    decoding (modifyState fun s => { s with mainTable := none, lengthTable := none, alignedTable := none })
    let result ← attempt (decodeTokensWith todo main s.lengthTable s.alignedTable)
    decoding (modifyState fun t => { t with
      mainTable := some main
      lengthTable := s.lengthTable
      alignedTable := s.alignedTable })
    ofExcept id result

def copyStored (todo : Nat) : Framing ω Unit := do
  let ((_, r), _) ← get
  if r.bits ≠ 0 then fails .internal
  else if r.bytePosition + todo ≥ 2 ^ 64 then fails .outOfBounds
  else if r.bytePosition + todo > r.data.length then fails .decompressionFailed
  else
    ((r.data.drop r.bytePosition).take todo).forM fun byte => output (Output.pushByte byte)
    decoding (reading (BitReader.resumeAt (r.bytePosition + todo)))

def finishStoredBlock : BitReader.Reading Unit := do
  let r ← get
  if r.bytePosition % 2 ≠ 0 then
    let position ← addOrPanic 64 r.bytePosition 1
    BitReader.resumeAt position
  else return ()

def readStreamHeader : Decoding Unit := do
  let (s, _) ← get
  if s.headerRead then return ()
  else
    modifyState fun s => { s with headerRead := true }
    let translated ← reading (BitReader.readBits 1)
    if translated = 1 then
      let high ← reading (BitReader.readBits 16)
      let low ← reading (BitReader.readBits 16)
      let high ← shlOrPanic 32 high 16
      modifyState fun s => { s with e8FileSize := high ||| low, e8Translation := true }
    else return ()

def startBlock : Decoding Unit := do
  let (s, _) ← get
  if s.blockRemaining = 0 then
    readBlockHeader
    let (s, _) ← get
    if s.blockRemaining = 0 then fails .decompressionFailed else return ()
  else return ()

def finishSpan (todo : Nat) : Decoding Unit := do
  let (s, _) ← get
  let remaining ← subOrPanic s.blockRemaining todo
  modifyState fun s => { s with blockRemaining := remaining }
  if remaining = 0 ∧ s.blockType = .uncompressed then reading finishStoredBlock else return ()

def decodeBytes : BlockType → Nat → Framing ω Unit
  | .uncompressed, todo => copyStored todo
  | _, todo => decodeTokens todo

def decodeSpan (expected produced : Nat) : Framing ω (Option Nat) := do
  if produced < expected then
    decoding startBlock
    let ((s, _), _) ← get
    let todo := min (expected - produced) s.blockRemaining
    decodeBytes s.blockType todo
    let produced ← addOrPanic 64 produced todo
    decoding (finishSpan todo)
    return some produced
  else return none

def decodeFrame (expected : Nat) : Framing ω Unit := do
  decoding readStreamHeader
  iterate (decodeSpan expected) (expected + 1) 0

end Frames

/-! ## The call translation -/

def e8Target (value current fileSize : Int) : Machine (Stop CabError) (List UInt8) Int :=
  if value ≥ 0 then signedOrPanic 64 (value - current) else signedOrPanic 64 (value + fileSize)

/-- The displacement at `index`, made relative again. -/
def e8Displacement (chunkOffset fileSize : Int) (index : Nat) :
    Machine (Stop CabError) (List UInt8) Unit := do
  let current ← signedOrPanic 64 (chunkOffset + index)
  let bytes ← sliceOrPanic (← get) (index + 1) (index + 5)
  let value := Int.bmod (fromLe bytes) (2 ^ 32)
  let lowest ← signedOrPanic 64 (-current)
  if value ≥ lowest ∧ value < fileSize then
    let displacement ← e8Target value current fileSize
    if -2 ^ 31 ≤ displacement ∧ displacement < 2 ^ 31 then
      modify fun frame => frame.take (index + 1) ++ toLe 4 (displacement % 2 ^ 32).toNat ++
        frame.drop (index + 5)
    else return ()
  else return ()

def e8Turn (chunkOffset fileSize : Int) (limit index : Nat) :
    Machine (Stop CabError) (List UInt8) (Option Nat) := do
  if index < limit then
    let byte ← getOrPanic (← get) index
    if byte ≠ 0xE8 then
      let next ← addOrPanic 64 index 1
      return some next
    else if index ≥ 2 ^ 63 then return none
    else
      e8Displacement chunkOffset fileSize index
      let next ← addOrPanic 64 index 5
      return some next
  else return none

def e8Reverse {σ : Type} (frame : List UInt8) (chunkOffset fileSize : Nat) :
    Machine (Stop CabError) σ (List UInt8) := do
  if frame.length ≤ 10 then return frame
  else
    let limit ← subOrPanic frame.length 10
    if chunkOffset ≥ 2 ^ 63 then return frame
    else onLocal (iterate (e8Turn chunkOffset fileSize limit) (frame.length + 1) 0) frame

/-! ## The decoder -/

structure LzxDecoder where
  state : LzxState
  window : Window
  framesDone : Nat

/-- The payload of one data block. `reserves` tells whether memory for the frame
is granted; no slice is longer than the address space allows. -/
structure Call where
  input : List UInt8
  expected : Nat
  reserves : Bool
  input_lt : input.length < 2 ^ 63

namespace LzxDecoder

abbrev Method := Machine (Stop CabError) LzxDecoder

def create (windowBits maxLzxWindowBits : Nat) : Machine (Stop CabError) Unit LzxDecoder := do
  if windowBits < minWindowBits ∨ windowBits > maxWindowBits ∨ windowBits > maxLzxWindowBits then
    fails .unsupported
  else
    let windowSize ← shlOrPanic 64 1 windowBits
    let positionSlots := 2 * windowBits
    let tables ← slotTables positionSlots
    let mask ← subOrPanic windowSize 1
    return {
      state := {
        positionSlots := positionSlots
        basePosition := tables.base
        footerBits := tables.footer
        mainLengths := List.replicate (numChars + 8 * positionSlots) 0
        lengthLengths := List.replicate lengthTreeElements 0
        mainTable := none
        lengthTable := none
        alignedTable := none
        repeated := ⟨1, 1, 1⟩
        blockType := .verbatim
        blockRemaining := 0
        headerRead := false
        e8Translation := false
        e8FileSize := 0 }
      window := ⟨List.replicate windowSize 0, mask, 0, 0⟩
      framesDone := 0 }

def new (windowBits maxLzxWindowBits : Nat) : Except (Stop CabError) LzxDecoder :=
  ((create windowBits maxLzxWindowBits).exec ()).1

def inFrame {α : Type} (input : List UInt8) (m : Framing Window α) : Method α :=
  zoom (fun d => ((d.state, BitReader.new input), d.window))
    (fun t d => { d with state := t.1.1, window := t.2 }) id m

def windowSpan (frameStart expected : Nat) : Method (List UInt8) := do
  let d ← get
  let room ← subOrPanic d.window.bytes.length frameStart
  let first := min expected room
  let stop ← addOrPanic 64 frameStart first
  let head ← sliceOrPanic d.window.bytes frameStart stop
  if first < expected then
    let rest ← subOrPanic expected first
    let tail ← sliceOrPanic d.window.bytes 0 rest
    return head ++ tail
  else return head

def decodeRaw (call : Call) : Method (List UInt8) := do
  let d ← get
  let frameStart := d.window.position
  inFrame call.input (decodeFrame call.expected)
  if call.reserves then windowSpan frameStart call.expected else fails .limitExceeded

def translate (expected : Nat) (frame : List UInt8) : Method (List UInt8) := do
  let d ← get
  if d.state.e8Translation ∧ d.framesDone < e8FrameLimit then
    let chunkOffset ← subOrPanic d.window.total expected
    e8Reverse frame chunkOffset d.state.e8FileSize
  else return frame

def decodeBlock (call : Call) : Method (List UInt8) := do
  if call.expected > frameSize then fails .limitExceeded
  else if call.expected = 0 then return []
  else
    let raw ← decodeRaw call
    let frame ← translate call.expected raw
    let d ← get
    let framesDone ← addOrPanic 64 d.framesDone 1
    modify fun d => { d with framesDone := framesDone }
    return frame

def run : List Call → LzxDecoder → List (Except (Stop CabError) (List UInt8)) × LzxDecoder
  | [], d => ([], d)
  | call :: calls, d =>
    let (result, d') := (decodeBlock call).exec d
    let (results, d'') := run calls d'
    (result :: results, d'')

end LzxDecoder

end OpenHalfLife.Cab
