import OpenHalfLife.Lib.Checked
import OpenHalfLife.Lib.Bytes

/-! # The LZX bit stream and its Huffman tables

Words of 16 bits, low byte first, whose bits are consumed from the most
significant end of a 32-bit buffer. A table is built from path lengths only.
-/

namespace OpenHalfLife.Cab

open Machine

set_option autoImplicit false

inductive CabError
  | truncated
  | outOfBounds
  | invalidField
  | limitExceeded
  | checksumMismatch
  | decompressionFailed
  | unsupported
  | cancelled
  | sourceFailed
  | internal
  deriving DecidableEq, Repr

def maxCodeBits : Nat := 16

structure HuffmanTable where
  counts : List Nat
  symbols : List Nat
  deriving DecidableEq

namespace HuffmanTable

variable {σ : Type}

abbrev Build (σ α : Type) := Machine (Stop CabError) σ α

def countLength (counts : List Nat) (length : Nat) : Build σ (List Nat) := do
  if length > maxCodeBits then throw (.error .decompressionFailed)
  else
    let count ← getOrPanic counts length
    let count ← addOrPanic 16 count 1
    setOrPanic counts length count

def subscribe (left : Int) (count : Nat) : Build σ Int := do
  let left ← signedOrPanic 32 (Int.bmod (left * 2) (2 ^ 32) - count)
  if left < 0 then throw (.error .decompressionFailed) else return left

def nextOffset (offsets : List Nat) (count : Nat × Nat) : Build σ (List Nat) := do
  let offset ← getOrPanic offsets count.2
  let offset ← addOrPanic 64 offset count.1
  setOrPanic offsets (count.2 + 1) offset

structure Placement where
  symbols : List Nat
  cursor : List Nat

def place (placement : Placement) (length : Nat × Nat) : Build σ Placement := do
  if length.1 ≠ 0 then
    let slot ← getOrPanic placement.cursor length.1
    if length.2 ≥ 2 ^ 16 then throw (.error .internal)
    else
      let symbols ← setOrPanic placement.symbols slot length.2
      let next ← addOrPanic 64 slot 1
      let cursor ← setOrPanic placement.cursor length.1 next
      return ⟨symbols, cursor⟩
  else return placement

def new (lengths : List Nat) : Build σ HuffmanTable := do
  let counts ← lengths.foldlM countLength (List.replicate (maxCodeBits + 1) 0)
  let counts ← setOrPanic counts 0 0
  -- Over-subscribed lengths are rejected, under-subscribed ones are not.
  let _ ← (counts.drop 1).foldlM subscribe 1
  let offsets ← (counts.zipIdx.drop 1).foldlM nextOffset (List.replicate (maxCodeBits + 2) 0)
  let total ← getOrPanic offsets (maxCodeBits + 1)
  let placement ← lengths.zipIdx.foldlM place ⟨List.replicate total 0, offsets⟩
  return ⟨counts, placement.symbols⟩

end HuffmanTable

structure BitReader where
  data : List UInt8
  bytePosition : Nat
  buffer : Nat
  bits : Nat
  overrunWords : Nat
  deriving DecidableEq

namespace BitReader

abbrev Reading := Machine (Stop CabError) BitReader

def maxOverrunWords : Nat := 4

def new (data : List UInt8) : BitReader := ⟨data, 0, 0, 0, 0⟩

def advance : Reading Nat := do
  let r ← get
  let position ← addOrPanic 64 r.bytePosition 1
  set { r with bytePosition := position }
  return position

def countOverrun : Reading Unit := do
  let r ← get
  let words ← addOrPanic 32 r.overrunWords 1
  set { r with overrunWords := words }
  if words > maxOverrunWords then throw (.error .decompressionFailed) else return ()

def nextByte : Reading Nat := do
  let r ← get
  match r.data[r.bytePosition]? with
  | some byte => do
    let _ ← advance
    return byte.toNat
  | none => do
    let position ← advance
    if position % 2 = 0 then countOverrun
    return 0

def fillWord : Reading Unit := do
  let low ← nextByte
  let high ← nextByte
  let r ← get
  let shift ← subOrPanic 16 r.bits
  let word ← shlOrPanic 32 (low + 256 * high) shift
  let bits ← addOrPanic 32 r.bits 16
  set { r with buffer := r.buffer ||| word, bits := bits }

def fill (count : Nat) : Reading Unit := do
  assertOrPanic (count ≤ 17)
  iterate (fun _ : Unit => do
    let r ← get
    if r.bits < count then
      fillWord
      return some ()
    else return none) (count + 1) ()

def readBits (count : Nat) : Reading Nat := do
  if count = 0 then return 0
  else
    fill count
    let r ← get
    let shift ← subOrPanic 32 count
    let value ← shrOrPanic 32 r.buffer shift
    let buffer ← shlOrPanic 32 r.buffer count
    let bits ← subOrPanic r.bits count
    set { r with buffer := buffer, bits := bits }
    return value

def readU24 : Reading Nat := do
  let high ← readBits 8
  let middle ← readBits 8
  let low ← readBits 8
  let high ← shlOrPanic 32 high 16
  let middle ← shlOrPanic 32 middle 8
  return high ||| middle ||| low

def alignToWord : Reading Unit := do
  let r ← get
  let remainder := r.bits % 16
  let _ ← readBits (if remainder = 0 then 16 else remainder)

def alignedBytePosition : Reading Nat := do
  let r ← get
  if r.bits % 16 ≠ 0 then throw (.error .internal)
  else if r.bytePosition < r.bits / 8 then throw (.error .internal)
  else return r.bytePosition - r.bits / 8

def resumeAt (position : Nat) : Reading Unit :=
  modify fun r => { r with bytePosition := position, buffer := 0, bits := 0 }

/-- One length of the canonical code after another, `code` and `first` as 32-bit values. -/
def decodeFrom (symbols : List Nat) : List Nat → Nat → Nat → Nat → Reading Nat
  | [], _, _, _ => throw (.error .decompressionFailed)
  | count :: counts, code, first, index => do
    let bit ← readBits 1
    let code := code ||| bit
    if code < first then throw (.error .decompressionFailed)
    else if code - first < count then
      let slot ← addOrPanic 64 index (code - first)
      match symbols[slot]? with
      | some symbol => return symbol
      | none => throw (.error .decompressionFailed)
    else
      let index ← addOrPanic 64 index count
      let next ← addOrPanic 32 first count
      let first ← shlOrPanic 32 next 1
      let code ← shlOrPanic 32 code 1
      decodeFrom symbols counts code first index

def decode (table : HuffmanTable) : Reading Nat :=
  decodeFrom table.symbols (table.counts.drop 1) 0 0 0

end BitReader

end OpenHalfLife.Cab
