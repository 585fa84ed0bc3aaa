import Mathlib.Algebra.Ring.Nat
import OpenHalfLife.Lib.Chunked
import Mathlib.Tactic.Common

/-! # Exploding an imploded stream

A two-byte header, then literals and length/distance pairs up to an end code.
The decoder takes a chunk of input at a time, undoes a token it cannot
complete, and stops when one more token could outgrow the caller's budget.
-/

namespace OpenHalfLife.Isz

set_option autoImplicit false

inductive Limit
  | expandedBytesPerEntry
  | totalExpandedBytes
  deriving DecidableEq

inductive IszError
  | notFound
  | splitArchiveUnsupported
  | limitExceeded (limit : Limit)
  | outOfRange
  | truncated
  | invalidInput
  | decompressionFailed
  | sizeMismatch
  | cancelled
  | source
  deriving DecidableEq

def maxBits : Nat := 13

def maxWindow : Nat := 4096

def maxMatch : Nat := 518

def endCode : Nat := 519

def minDictionaryCode : Nat := 4

def maxDictionaryCode : Nat := 6

instance : NeZero maxWindow := ⟨by decide⟩

/-! ## Codebooks -/

def literalCodeLengths : List (Nat × Nat) :=
  [(11, 1), (12, 8), (8, 1), (7, 1), (12, 2), (7, 1), (12, 12), (13, 1), (12, 5), (4, 1), (10, 1), (8, 1),
   (12, 1), (10, 1), (12, 1), (10, 1), (8, 1), (7, 2), (8, 1), (9, 1), (7, 1), (6, 1), (7, 1), (8, 1),
   (7, 1), (6, 1), (7, 4), (8, 1), (7, 2), (8, 2), (12, 1), (11, 1), (7, 1), (9, 1), (11, 1), (12, 1),
   (6, 1), (7, 1), (6, 2), (5, 1), (7, 1), (8, 2), (6, 1), (11, 1), (9, 1), (6, 1), (7, 1), (6, 2),
   (7, 1), (11, 1), (6, 3), (7, 1), (9, 1), (8, 1), (9, 2), (11, 1), (8, 1), (11, 1), (9, 1), (12, 1),
   (8, 1), (12, 1), (5, 1), (6, 3), (5, 1), (6, 3), (5, 1), (11, 1), (7, 1), (5, 1), (6, 1), (5, 2),
   (6, 1), (10, 1), (5, 4), (8, 1), (7, 1), (8, 2), (10, 1), (11, 2), (12, 3), (13, 48), (12, 48), (13, 1),
   (12, 1), (13, 3), (12, 1), (13, 3), (12, 1), (13, 4), (12, 1), (13, 3), (12, 3), (13, 11)]

def lengthCodeLengths : List (Nat × Nat) := [(2, 1), (3, 3), (4, 3), (5, 4), (6, 3), (7, 2)]

def distanceCodeLengths : List (Nat × Nat) := [(2, 1), (4, 2), (5, 4), (6, 15), (7, 26), (8, 16)]

def lengthBase : Vector Nat 16 := #v[3, 2, 4, 5, 6, 7, 8, 9, 10, 12, 16, 24, 40, 72, 136, 264]

def lengthExtra : Vector Nat 16 := #v[0, 0, 0, 0, 0, 0, 0, 0, 1, 2, 3, 4, 5, 6, 7, 8]

structure Huffman where
  count : List Nat
  symbol : List Nat

def construct (runs : List (Nat × Nat)) : Huffman :=
  let lengths := runs.flatMap fun (bits, repeats) => List.replicate repeats bits
  let count := lengths.foldl (fun count bits => count.modify bits (· + 1)) (List.replicate (maxBits + 1) 0)
  let offsets := (List.range' 1 maxBits).foldl
    (fun offsets bits => offsets.set (bits + 1) (offsets.getD bits 0 + count.getD bits 0))
    (List.replicate (maxBits + 2) 0)
  let placed := lengths.zipIdx.foldl
    (fun (offsets, symbol) (bits, index) =>
      if bits ≠ 0 then (offsets.modify bits (· + 1), symbol.set (offsets.getD bits 0) index)
      else (offsets, symbol))
    (offsets, List.replicate lengths.length 0)
  ⟨count, placed.2⟩

def literalCodes : Huffman := construct literalCodeLengths

def lengthCodes : Huffman := construct lengthCodeLengths

def distanceCodes : Huffman := construct distanceCodeLengths

/-! ## Bits -/

inductive TokenStop
  | needMoreInput
  | failed
  deriving DecidableEq

structure BitReader where
  input : List UInt8
  position : Nat
  buffer : UInt32
  count : Nat

abbrev Partial (α : Type) := Reading BitReader TokenStop α

namespace BitReader

/-- Takes whole bytes until there are `need` bits. -/
def refill (r : BitReader) (need : Nat) : Except TokenStop BitReader :=
  if r.count < need then
    match r.input[r.position]? with
    | none => .error .needMoreInput
    | some byte =>
      refill { r with
        position := r.position + 1
        buffer := r.buffer ||| byte.toUInt32 <<< UInt32.ofNat r.count
        count := r.count + 8 } need
  else .ok r
termination_by need - r.count

def take (need : Nat) : Partial Nat := fun r => do
  let r ← r.refill need
  let value := r.buffer &&& (1 <<< UInt32.ofNat need - 1)
  return (value.toNat, { r with buffer := r.buffer >>> UInt32.ofNat need, count := r.count - need })

/-- Codes are stored inverted. One that is still below `first` cannot occur in a
complete codebook, nor can one of more than `maxBits` bits. -/
def decodeFrom (codes : Huffman) (code first index : Nat) : List Nat → Partial Nat
  | [] => throw .failed
  | bits :: longer => do
    let bit ← take 1
    let code := code ||| if bit = 0 then 1 else 0
    let count := codes.count.getD bits 0
    if code < first + count then
      if index + code < first then throw .failed
      else match codes.symbol[index + code - first]? with
        | some symbol => return symbol
        | none => throw .failed
    else decodeFrom codes (code <<< 1) ((first + count) <<< 1) (index + count) longer

def decode (codes : Huffman) : Partial Nat := decodeFrom codes 0 0 0 (List.range' 1 maxBits)

end BitReader

/-! ## The decoder -/

structure Progress where
  consumed : Nat
  finished : Bool
  deriving DecidableEq

structure Explode where
  codedLiterals : Bool
  distanceBits : Nat
  window : Vector UInt8 maxWindow
  windowPosition : Fin maxWindow
  totalOutput : Nat
  savedBuffer : UInt32
  savedCount : Nat
  headerRead : Bool
  finished : Bool

namespace Explode

open BitReader

def new : Explode := ⟨false, 0, Vector.replicate maxWindow 0, 0, 0, 0, 0, false, false⟩

def push (e : Explode) (byte : UInt8) : Explode :=
  { e with
    window := e.window.set e.windowPosition byte
    windowPosition := e.windowPosition + 1
    totalOutput := min (e.totalOutput + 1) (2 ^ 64 - 1) }

def save (e : Explode) (r : BitReader) : Explode := { e with savedBuffer := r.buffer, savedCount := r.count }

def copyBytes (e : Explode) (distance : Nat) : Nat → List UInt8 × Explode
  | 0 => ([], e)
  | length + 1 =>
    let byte := e.window.get (Fin.ofNat maxWindow (e.windowPosition + maxWindow - distance))
    let (pushed, e) := copyBytes (e.push byte) distance length
    (byte :: pushed, e)

def copy (e : Explode) (distance length : Nat) : Partial (Option (List UInt8 × Explode)) :=
  if e.totalOutput < distance ∨ maxWindow < distance then throw .failed
  else return some (e.copyBytes distance length)

def literalSymbol (e : Explode) : Partial Nat := if e.codedLiterals then decode literalCodes else take 8

def literal (e : Explode) : Partial (Option (List UInt8 × Explode)) := do
  let literal ← e.literalSymbol
  if literal < 256 then return some ([UInt8.ofNat literal], e.push (UInt8.ofNat literal))
  else throw .failed

def pair (e : Explode) : Partial (Option (List UInt8 × Explode)) := do
  let lengthSymbol ← decode lengthCodes
  let index := Fin.ofNat 16 lengthSymbol
  let extra ← take (lengthExtra.get index)
  let length := lengthBase.get index + extra
  if length = endCode then return none
  else
    let shift := if length = 2 then 2 else e.distanceBits
    let distanceSymbol ← decode distanceCodes
    let low ← take shift
    e.copy ((distanceSymbol <<< shift ||| low) + 1) length

/-- The bytes pushed, or `none` at the end code. -/
def token (e : Explode) : Partial (Option (List UInt8 × Explode)) := do
  let flag ← take 1
  if flag = 0 then e.literal else e.pair

def header (e : Explode) : Partial Explode := do
  let literalFlag ← take 8
  let dictionary ← take 8
  if 1 < literalFlag then throw .failed
  else if dictionary < minDictionaryCode ∨ maxDictionaryCode < dictionary then throw .failed
  else return { e with codedLiterals := literalFlag = 1, distanceBits := dictionary, headerRead := true }

end Explode

/-! ## Reading bit by bit -/

def BitReader.left (r : BitReader) : Nat := r.count + 8 * (r.input.length - r.position)

def BitReader.within (front rest : List UInt8) (r : BitReader) : BitReader :=
  { r with input := front ++ r.input ++ rest, position := front.length + r.position }

def BitReader.Over (input : List UInt8) (r : BitReader) : Prop := r.input = input ∧ r.position ≤ input.length

def bitFeed : Feed UInt8 BitReader TokenStop :=
  ⟨BitReader.within, BitReader.Over, BitReader.left, .needMoreInput⟩

namespace BitReader

variable {need : Nat} {r r' : BitReader} {value : Nat} {input : List UInt8}

theorem refill_steady (need : Nat) (front rest : List UInt8) (r : BitReader) : match r.refill need with
    | .ok r' => (r.within front rest).refill need = .ok (r'.within front rest)
    | .error e => (e = .needMoreInput → rest = []) → (r.within front rest).refill need = .error e := by
  fun_induction refill r need with
  | case1 r hCount hNone =>
    intro hRest
    rw [refill, if_pos (show (r.within front rest).count < need from hCount)]
    simp [within, hRest, hNone, List.getElem?_append_right]
  | case2 r hCount byte hSome ih =>
    have hByte : (r.within front rest).input[(r.within front rest).position]? = some byte := by
      obtain ⟨hBound, -⟩ := List.getElem?_eq_some_iff.mp hSome
      simp [within, List.append_assoc, List.getElem?_append_right, List.getElem?_append_left hBound, hSome]
    have hUnfold : (r.within front rest).refill need = (BitReader.within front rest
        { r with
          position := r.position + 1
          buffer := r.buffer ||| byte.toUInt32 <<< UInt32.ofNat r.count
          count := r.count + 8 }).refill need := by
      rw [refill, if_pos (show (r.within front rest).count < need from hCount), hByte]
      rfl
    rw [hUnfold]
    exact ih
  | case3 r hCount =>
    rw [refill, if_neg (show ¬ (r.within front rest).count < need from hCount)]

theorem refill_spends (need : Nat) (r : BitReader) : match r.refill need with
    | .ok r' => r'.left = r.left ∧ need ≤ r'.count
    | .error e => e = .needMoreInput → r.left < need := by
  fun_induction refill r need with
  | case1 r hCount hNone =>
    intro _
    have := List.getElem?_eq_none_iff.mp hNone
    rw [left]
    omega
  | case2 r hCount byte hSome ih =>
    obtain ⟨hBound, -⟩ := List.getElem?_eq_some_iff.mp hSome
    generalize refill _ _ = result at ih ⊢
    cases result with
    | ok r' =>
      simp only [left] at ih ⊢
      omega
    | error e =>
      intro hShort
      have := ih hShort
      simp only [left] at this ⊢
      omega
  | case3 r hCount => exact ⟨rfl, by omega⟩

theorem refill_over (h : r.Over input) (hRefill : r.refill need = .ok r') : r'.Over input := by
  fun_induction refill r need with
  | case1 => cases hRefill
  | case2 r hCount byte hSome ih =>
    obtain ⟨hBound, -⟩ := List.getElem?_eq_some_iff.mp hSome
    exact ih ⟨h.1, by rw [← h.1]; exact hBound⟩ hRefill
  | case3 =>
    cases hRefill
    exact h

theorem take_run (need : Nat) (r : BitReader) : (take need).run r = match r.refill need with
    | .ok r => .ok ((r.buffer &&& (1 <<< UInt32.ofNat need - 1)).toNat,
        { r with buffer := r.buffer >>> UInt32.ofNat need, count := r.count - need })
    | .error e => .error e := by
  unfold take StateT.run
  beta_reduce
  cases r.refill need <;> rfl

theorem take_steady (need : Nat) : bitFeed.Steady (take need) := by
  intro front rest r
  have h := refill_steady need front rest r
  simp only [take_run]
  cases hRefill : r.refill need with
  | ok r' =>
    rw [hRefill] at h
    simp only [bitFeed, h]
    rfl
  | error e =>
    rw [hRefill] at h
    intro hRest
    simp only [bitFeed, h hRest]

theorem take_spends (need : Nat) : bitFeed.Spends need (take need) := by
  intro r
  have h := refill_spends need r
  simp only [take_run]
  cases hRefill : r.refill need with
  | ok r' =>
    rw [hRefill] at h
    simp only [bitFeed, left] at h ⊢
    omega
  | error e =>
    rw [hRefill] at h
    exact h

theorem take_left (h : (take need).run r = .ok (value, r')) : r'.left + need = r.left := by
  have hSpends := refill_spends need r
  rw [take_run] at h
  cases hRefill : r.refill need with
  | ok s =>
    rw [hRefill] at h hSpends
    cases h
    simp only [left] at hSpends ⊢
    omega
  | error e =>
    rw [hRefill] at h
    cases h

theorem take_over (need : Nat) (input : List UInt8) : Feed.Keeps (Over input) (take need) := by
  intro r value r' hOver h
  rw [take_run] at h
  cases hRefill : r.refill need with
  | ok s =>
    have hNext := refill_over hOver hRefill
    rw [hRefill] at h
    cases h
    exact hNext
  | error e =>
    rw [hRefill] at h
    cases h

theorem take_regular (need : Nat) : bitFeed.Regular need (take need) :=
  ⟨take_steady need, take_spends need, take_over need⟩

theorem decodeFrom_regular (codes : Huffman) (lengths : List Nat) (code first index : Nat) :
    bitFeed.Regular lengths.length (decodeFrom codes code first index lengths) := by
  induction lengths generalizing code first index with
  | nil => exact Feed.regular_throw (by decide)
  | cons bits longer ih =>
    rw [List.length_cons, Nat.add_comm]
    apply (take_regular 1).bind
    intro bit
    apply Feed.Regular.ite
    · apply Feed.Regular.ite
      · exact (Feed.regular_throw (by decide)).mono (Nat.zero_le _)
      · split
        · exact (Feed.regular_pure _).mono (Nat.zero_le _)
        · exact (Feed.regular_throw (by decide)).mono (Nat.zero_le _)
    · exact ih _ _ _

theorem decode_regular (codes : Huffman) : bitFeed.Regular maxBits (decode codes) :=
  decodeFrom_regular codes (List.range' 1 maxBits) 0 0 0

end BitReader

namespace Explode

open BitReader

theorem literal_regular (e : Explode) : bitFeed.Regular (maxBits + 0) e.literal := by
  apply Feed.Regular.bind
  · apply Feed.Regular.ite
    · exact decode_regular literalCodes
    · exact (take_regular 8).mono (by decide)
  · intro literal
    apply Feed.Regular.ite
    · exact Feed.regular_pure _
    · exact Feed.regular_throw (by decide)

theorem lengthExtra_le (index : Fin 16) : lengthExtra.get index ≤ 8 := by
  revert index
  decide

theorem copy_regular (e : Explode) (distance length : Nat) : bitFeed.Regular 0 (e.copy distance length) := by
  apply Feed.Regular.ite
  · exact Feed.regular_throw (by decide)
  · exact Feed.regular_pure _

theorem pair_regular (e : Explode) :
    bitFeed.Regular (maxBits + (8 + (maxBits + (max 2 e.distanceBits + 0)))) e.pair := by
  apply (decode_regular lengthCodes).bind
  intro lengthSymbol
  apply ((take_regular _).mono (lengthExtra_le _)).bind
  intro extra
  apply Feed.Regular.ite
  · exact (Feed.regular_pure _).mono (Nat.zero_le _)
  · apply (decode_regular distanceCodes).bind
    intro distanceSymbol
    apply Feed.Regular.bind
    · apply (take_regular _).mono
      split <;> omega
    · intro low
      exact copy_regular e _ _

theorem token_rest_regular (e : Explode) (flag : Nat) :
    bitFeed.Regular (2 * maxBits + 8 + max 2 e.distanceBits) (if flag = 0 then e.literal else e.pair) := by
  apply Feed.Regular.ite
  · exact e.literal_regular.mono (by omega)
  · exact e.pair_regular.mono (by omega)

theorem token_regular (e : Explode) :
    bitFeed.Regular (1 + (2 * maxBits + 8 + max 2 e.distanceBits)) e.token :=
  (take_regular 1).bind e.token_rest_regular

theorem token_left_lt {e : Explode} {r r' : BitReader} {a : Option (List UInt8 × Explode)}
    (h : e.token.run r = .ok (a, r')) : r'.left < r.left := by
  obtain ⟨flag, s, hFlag, hRest⟩ := Feed.run_bind_eq_ok.mp h
  have hTake := take_left hFlag
  have hSpends := (e.token_rest_regular flag).spends s
  simp only [hRest, bitFeed] at hSpends
  omega

theorem header_regular (e : Explode) : bitFeed.Regular (8 + (8 + 0)) e.header := by
  apply (take_regular 8).bind
  intro literalFlag
  apply (take_regular 8).bind
  intro dictionary
  apply Feed.Regular.ite
  · exact Feed.regular_throw (by decide)
  · apply Feed.Regular.ite
    · exact Feed.regular_throw (by decide)
    · exact Feed.regular_pure _

/-! ## Decoding a chunk -/

structure Decoded where
  result : Except IszError Progress
  explode : Explode
  out : List UInt8

def suspend (last : Bool) : Except IszError Progress :=
  if last then .error .decompressionFailed else .ok ⟨0, false⟩

def decodeLoop (e : Explode) (r : BitReader) (last : Bool) (out : List UInt8) (outBudget : Nat) : Decoded :=
  if outBudget < out.length + maxMatch then ⟨.ok ⟨r.position, false⟩, e.save r, out⟩
  else match _h : e.token.run r with
    | .ok (none, r') => ⟨.ok ⟨r'.position, true⟩, { e with finished := true }.save r', out⟩
    | .ok (some (pushed, e'), r') => (e'.save r').decodeLoop r' last (out ++ pushed) outBudget
    | .error .failed => ⟨.error .decompressionFailed, e, out⟩
    | .error .needMoreInput =>
      if last then ⟨.error .decompressionFailed, e, out⟩ else ⟨.ok ⟨r.position, false⟩, e.save r, out⟩
termination_by r.left
decreasing_by exact token_left_lt ‹_›

def decode (e : Explode) (input : List UInt8) (last : Bool) (out : List UInt8) (outBudget : Nat) : Decoded :=
  if outBudget < maxMatch then ⟨.error .invalidInput, e, out⟩
  else if e.finished then ⟨.ok ⟨0, true⟩, e, out⟩
  else
    let r : BitReader := ⟨input, 0, e.savedBuffer, e.savedCount⟩
    if e.headerRead then e.decodeLoop r last out outBudget
    else match e.header.run r with
      | .ok (e', r') => (e'.save r').decodeLoop r' last out outBudget
      | .error .failed => ⟨.error .decompressionFailed, e, out⟩
      | .error .needMoreInput => ⟨suspend last, e, out⟩

end Explode

end OpenHalfLife.Isz
