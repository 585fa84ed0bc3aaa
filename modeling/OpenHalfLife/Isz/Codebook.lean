import Mathlib.Algebra.Order.BigOperators.Group.Multiset
import OpenHalfLife.Isz.Explode
import OpenHalfLife.Lib.Canonical

/-! # The codebooks of the exploder are canonical

The codes stand in the stream with every bit inverted. A codebook is built from
runs of equal path lengths, without a check.
-/

namespace OpenHalfLife.Isz

open Canonical

set_option autoImplicit false

variable {runs : List (Nat × Nat)} {lengths : List Nat}

def runLengths (runs : List (Nat × Nat)) : List Nat := runs.flatMap fun (bits, repeats) => List.replicate repeats bits

/-! ## Building a codebook -/

theorem modify_map_range (n i : Nat) (f : Nat → Nat) :
    ((List.range n).map f).modify i (· + 1) = (List.range n).map fun j => if j = i then f j + 1 else f j := by
  apply List.ext_getElem
  · simp
  · intro j hj _
    simp [List.getElem_modify, eq_comm]

theorem counted (lengths : List Nat) :
    lengths.foldl (fun count bits => count.modify bits (· + 1)) (List.replicate (maxBits + 1) 0) =
      (List.range (maxBits + 1)).map lengths.count := by
  induction lengths using List.reverseRecOn with
  | nil => decide
  | append_singleton lengths length ih =>
    rw [List.foldl_append, ih, List.foldl_cons, List.foldl_nil, modify_map_range]
    refine List.map_congr_left fun l _ => ?_
    by_cases hl : l = length
    · rw [if_pos hl, hl, List.count_append, List.count_singleton_self]
    · rw [if_neg hl, List.count_append, List.count_singleton, if_neg (by simpa using Ne.symm hl), Nat.add_zero]

theorem getD_map_range {f : Nat → Nat} {n i : Nat} (h : i < n) : ((List.range n).map f).getD i 0 = f i := by
  simp [List.getD_eq_getElem?_getD, h]

theorem offset (lengths : List Nat) :
    (List.range' 1 maxBits).foldl
      (fun offsets bits => offsets.set (bits + 1)
        (offsets.getD bits 0 + ((List.range (maxBits + 1)).map lengths.count).getD bits 0))
      (List.replicate (maxBits + 2) 0) = (List.range (maxBits + 2)).map (below lengths) := by
  have hSteps (n : Nat) (hn : n ≤ maxBits) : (List.range' 1 n).foldl
      (fun offsets bits => offsets.set (bits + 1)
        (offsets.getD bits 0 + ((List.range (maxBits + 1)).map lengths.count).getD bits 0))
      (List.replicate (maxBits + 2) 0) =
        (List.range (maxBits + 2)).map fun l => if l ≤ n + 1 then below lengths l else 0 := by
    induction n with
    | zero =>
      apply List.ext_getElem
      · simp
      · intro l hl _
        simp only [List.range'_zero, List.foldl_nil, List.getElem_replicate, List.getElem_map, List.getElem_range]
        split
        · have hCases : l = 0 ∨ l = 1 := by omega
          rcases hCases with rfl | rfl <;> simp [below, tally]
        · rfl
    | succ n ih =>
      rw [List.range'_concat, List.foldl_append, ih (by omega), List.foldl_cons, List.foldl_nil, mul_comm, mul_one,
        getD_map_range (by omega), getD_map_range (by omega), set_map_range]
      refine List.map_congr_left fun l _ => ?_
      have hTally : tally lengths (1 + n) = lengths.count (1 + n) := by rw [tally, if_neg (by omega)]
      rw [if_pos (by omega), ← hTally, ← below_succ, Function.update_apply]
      by_cases hl : l = 1 + n + 1
      · rw [if_pos hl, if_pos (by omega), hl]
      · rw [if_neg hl]
        by_cases hLe : l ≤ n + 1
        · rw [if_pos hLe, if_pos (by omega)]
        · rw [if_neg hLe, if_neg (by omega)]
  rw [hSteps maxBits le_rfl]
  refine List.map_congr_left fun l hl => ?_
  rw [if_pos (by simpa [Nat.lt_succ_iff] using hl)]

theorem below_le_length (h : ∀ length ∈ lengths, length ≤ maxBits) : below lengths (maxBits + 1) ≤ lengths.length := by
  have hCount : ∑ l ∈ Finset.range (maxBits + 1), lengths.count l = lengths.length := by
    have hMem : ∀ length ∈ (lengths : Multiset Nat), length ∈ Finset.range (maxBits + 1) :=
      fun length hMem => Finset.mem_range.mpr (Nat.lt_succ_of_le (h length hMem))
    simpa using Multiset.sum_count_eq_card hMem
  have hBelow (l : Nat) : below lengths l ≤ ∑ j ∈ Finset.range l, lengths.count j := by
    induction l with
    | zero => simp [below]
    | succ l ih =>
      have hTally : tally lengths l ≤ lengths.count l := by
        rw [tally]
        split <;> omega
      rw [below_succ, Finset.sum_range_succ]
      omega
  exact (hBelow _).trans_eq hCount

structure Placed (lengths : List Nat) (placed : Nat) (state : List Nat × List Nat) : Prop where
  offsets : state.1 = (List.range (maxBits + 2)).map (slotAfter lengths placed)
  length : state.2.length = lengths.length
  slots : ∀ symbol ∈ symbols lengths, symbol < placed → state.2[slot lengths symbol]? = some symbol

def place (state : List Nat × List Nat) (entry : Nat × Nat) : List Nat × List Nat :=
  if entry.1 ≠ 0 then (state.1.modify entry.1 (· + 1), state.2.set (state.1.getD entry.1 0) entry.2)
  else (state.1, state.2)

theorem Placed.place {placed : Nat} {state : List Nat × List Nat} (h : Placed lengths placed state)
    (hShort : ∀ length ∈ lengths, length ≤ maxBits) (hPlaced : placed < lengths.length) :
    Placed lengths (placed + 1) (place state (len lengths placed, placed)) := by
  obtain ⟨offsets, symbol⟩ := state
  obtain ⟨rfl, hLength, hSlots⟩ := h
  dsimp only at hLength hSlots
  have hLen : len lengths placed ≤ maxBits := len_le hShort placed
  by_cases hZero : len lengths placed = 0
  · rw [Isz.place, if_neg (not_not.mpr hZero)]
    refine ⟨List.map_congr_left fun l _ => ?_, hLength, fun other hOther hLess => ?_⟩
    · rw [slotAfter_succ, if_neg fun h => h.1 hZero]
    · have hNe : other ≠ placed := by
        rintro rfl
        exact (mem_symbols.mp hOther).2 hZero
      exact hSlots other hOther (by omega)
  · have hSymbol : placed ∈ symbols lengths := mem_symbols.mpr ⟨hPlaced, hZero⟩
    have hRoom := (slot_lt hSymbol (Nat.lt_succ_of_le hLen)).trans_le (below_le_length hShort)
    rw [Isz.place, if_pos hZero]
    dsimp only
    rw [getD_map_range (by omega), slotAfter_len hSymbol, modify_map_range]
    refine ⟨List.map_congr_left fun l _ => ?_, by simpa using hLength, fun other hOther hLess => ?_⟩
    · rw [slotAfter_succ]
      by_cases hl : l = len lengths placed
      · rw [if_pos hl, if_pos ⟨hZero, hl⟩]
      · rw [if_neg hl, if_neg fun h => hl h.2]
    · dsimp only
      by_cases hSame : other = placed
      · subst hSame
        rw [List.getElem?_set_self (by omega)]
      · rw [List.getElem?_set_ne fun hSlot => hSame (slot_inj hOther hSymbol hSlot.symm)]
        exact hSlots other hOther (by omega)

structure OfLengths (lengths : List Nat) (codes : Huffman) : Prop where
  count_eq : codes.count = (List.range (maxBits + 1)).map lengths.count
  slots : ∀ symbol ∈ symbols lengths, codes.symbol[slot lengths symbol]? = some symbol

theorem construct_ofLengths (h : ∀ length ∈ runLengths runs, length ≤ maxBits) :
    OfLengths (runLengths runs) (construct runs) := by
  have hSteps (n : Nat) (hn : n ≤ (runLengths runs).length) : Placed (runLengths runs) n
      (((runLengths runs).zipIdx.take n).foldl place
        ((List.range (maxBits + 2)).map (below (runLengths runs)), List.replicate (runLengths runs).length 0)) := by
    induction n with
    | zero => exact ⟨List.map_congr_left fun l _ => by simp [slotAfter], by simp, fun _ _ hLess => absurd hLess (Nat.not_lt_zero _)⟩
    | succ n ih =>
      have hLen : len (runLengths runs) n = (runLengths runs)[n] := by
        rw [len, List.getD_eq_getElem?_getD, List.getElem?_eq_getElem (by omega), Option.getD_some]
      rw [List.take_add_one, List.foldl_append, List.getElem?_zipIdx, List.getElem?_eq_getElem (by omega), Option.map_some,
        Option.toList_some, List.foldl_cons, List.foldl_nil, Nat.zero_add, ← hLen]
      exact (ih (by omega)).place h (by omega)
  have hPlaced := hSteps _ le_rfl
  have hAll : (runLengths runs).zipIdx.take (runLengths runs).length = (runLengths runs).zipIdx :=
    List.take_of_length_le (by simp)
  rw [hAll] at hPlaced
  have hConstruct : construct runs = ⟨(List.range (maxBits + 1)).map (runLengths runs).count,
      ((runLengths runs).zipIdx.foldl place
        ((List.range (maxBits + 2)).map (below (runLengths runs)), List.replicate (runLengths runs).length 0)).2⟩ := by
    rw [← offset, ← counted]
    rfl
  rw [hConstruct]
  exact ⟨rfl, fun symbol hMem => hPlaced.slots symbol hMem (mem_symbols.mp hMem).1⟩

/-! ## The bits a reader takes -/

namespace BitReader

def lowBits : Nat → Nat → List Bool
  | 0, _ => []
  | count + 1, v => decide (v % 2 = 1) :: lowBits count (v / 2)

def stream (r : BitReader) : List Bool :=
  lowBits r.count r.buffer.toNat ++ (r.input.drop r.position).flatMap fun byte => lowBits 8 byte.toNat

/-- The buffer holds nothing but the bits that were counted. -/
def Ready (r : BitReader) : Prop := r.buffer.toNat < 2 ^ r.count

theorem new_ready (input : List UInt8) : (BitReader.mk input 0 0 0).Ready :=
  Nat.one_pos

variable {r : BitReader} {codes : Huffman}

def shifted (r : BitReader) : BitReader := { r with buffer := r.buffer >>> UInt32.ofNat 1, count := r.count - 1 }

theorem shifted_buffer (r : BitReader) : r.shifted.buffer.toNat = r.buffer.toNat / 2 := by
  rw [shifted, UInt32.toNat_shiftRight]
  exact Nat.shiftRight_eq_div_pow _ 1

theorem stream_shifted {count : Nat} (h : r.Ready) (hCount : r.count = count + 1) :
    r.shifted.Ready ∧ r.stream = decide (r.buffer.toNat % 2 = 1) :: r.shifted.stream := by
  have hShort : r.shifted.count = count := by rw [shifted, hCount, Nat.add_sub_cancel]
  constructor
  · rw [Ready, shifted_buffer, hShort]
    rw [Ready, hCount, pow_succ] at h
    omega
  · rw [stream, stream, shifted_buffer, hShort, hCount, lowBits, List.cons_append]
    rfl

theorem low_bit (buffer : UInt32) : (buffer &&& (1 <<< UInt32.ofNat 1 - 1)).toNat = (decide (buffer.toNat % 2 = 1)).toNat := by
  have hMask : (1 <<< UInt32.ofNat 1 - 1 : UInt32).toNat = 1 := by decide
  rw [UInt32.toNat_and, hMask, Nat.and_one_is_mod]
  rcases Nat.mod_two_eq_zero_or_one buffer.toNat with hBit | hBit <;> rw [hBit] <;> rfl

theorem take_held {count : Nat} (h : r.Ready) (hCount : r.count = count + 1) :
    ∃ head t, r.stream = head :: t.stream ∧ (take 1).run r = .ok (head.toNat, t) ∧ t.Ready := by
  obtain ⟨hReady, hStream⟩ := stream_shifted h hCount
  refine ⟨_, _, hStream, ?_, hReady⟩
  rw [take_run, refill, if_neg (by omega)]
  dsimp only
  rw [low_bit]
  rfl

theorem refill_byte {byte : UInt8} (h : r.Ready) (hCount : r.count = 0) (hByte : r.input[r.position]? = some byte) :
    ∃ t, r.refill 1 = .ok t ∧ t.refill 1 = .ok t ∧ t.Ready ∧ t.count = 8 ∧ t.stream = r.stream := by
  have hEmpty : r.buffer = 0 := by
    rw [Ready, hCount, pow_zero, Nat.lt_one_iff] at h
    exact UInt32.toNat_inj.mp h
  have hBuffer : (r.buffer ||| byte.toUInt32 <<< UInt32.ofNat r.count).toNat = byte.toNat := by
    rw [hEmpty, hCount]
    simp
  refine ⟨{ r with
    position := r.position + 1
    buffer := r.buffer ||| byte.toUInt32 <<< UInt32.ofNat r.count
    count := r.count + 8 }, ?_, ?_, ?_, by dsimp only; omega, ?_⟩
  · rw [refill, if_pos (by omega), hByte]
    dsimp only
    rw [refill, if_neg (by dsimp only; omega)]
  · rw [refill, if_neg (by dsimp only; omega)]
  · rw [Ready]
    dsimp only
    rw [hBuffer, hCount]
    exact byte.toNat_lt
  · obtain ⟨hLength, hHere⟩ := List.getElem?_eq_some_iff.mp hByte
    rw [stream, stream]
    dsimp only
    rw [hBuffer, hCount, List.drop_eq_getElem_cons hLength, hHere, List.flatMap_cons]
    rfl

theorem take_bit (h : r.Ready) : match r.stream with
    | [] => (take 1).run r = .error .needMoreInput
    | head :: rest => ∃ t, (take 1).run r = .ok (head.toNat, t) ∧ t.Ready ∧ t.stream = rest := by
  cases hCount : r.count with
  | succ count =>
    obtain ⟨head, t, hStream, hTake, hReady⟩ := take_held h hCount
    rw [hStream]
    exact ⟨t, hTake, hReady, rfl⟩
  | zero =>
    cases hByte : r.input[r.position]? with
    | none =>
      have hEnd : r.stream = [] := by
        rw [stream, hCount, List.drop_eq_nil_of_le (List.getElem?_eq_none_iff.mp hByte)]
        rfl
      rw [hEnd]
      dsimp only
      rw [take_run, refill, if_pos (by omega), hByte]
    | some byte =>
      obtain ⟨t, hRefill, hSame, hReady, hEight, hStream⟩ := refill_byte h hCount hByte
      obtain ⟨head, u, hHead, hTake, hNext⟩ := take_held hReady hEight
      rw [take_run, hSame] at hTake
      rw [← hStream, hHead]
      refine ⟨u, ?_, hNext, rfl⟩
      rw [take_run, hRefill]
      exact hTake

theorem decodeFrom_spec {longer : List Nat} {c first index : Nat} (h : r.Ready) (hFirst : first ≤ 2 * c) :
    match (decodeFrom codes (2 * c) first index longer).run r with
    | .ok (symbol, t) => t.Ready ∧ Lookup codes.symbol symbol (t.stream.map not)
        (scan (longer.map fun bits => codes.count.getD bits 0) (2 * c) first index (r.stream.map not))
    | .error _ => ∀ symbol rest, ¬Lookup codes.symbol symbol rest
        (scan (longer.map fun bits => codes.count.getD bits 0) (2 * c) first index (r.stream.map not)) := by
  induction longer generalizing c first index r with
  | nil =>
    rw [decodeFrom]
    exact fun symbol rest hFound => by simp [scan, Lookup] at hFound
  | cons bits longer ih =>
    have hTake := take_bit h
    rw [decodeFrom, StateT.run_bind, List.map_cons]
    cases hStream : r.stream with
    | nil =>
      rw [hStream] at hTake
      rw [hTake]
      exact fun symbol rest hFound => by simp [scan, Lookup] at hFound
    | cons head rest =>
      rw [hStream] at hTake
      obtain ⟨t, hTake, hReady, rfl⟩ := hTake
      have hBit : (if head.toNat = 0 then 1 else 0) = (!head).toNat := by cases head <;> rfl
      rw [hTake, List.map_cons, scan]
      dsimp only [Bind.bind, Except.bind]
      rw [hBit, or_bit]
      by_cases hFound : 2 * c + (!head).toNat - first < codes.count.getD bits 0
      · have hSlot : index + (2 * c + (!head).toNat) - first = index + (2 * c + (!head).toNat - first) := by omega
        rw [if_pos (by omega), if_neg (by omega), if_pos hFound, hSlot]
        cases hSymbol : codes.symbol[index + (2 * c + (!head).toNat - first)]? with
        | some symbol => exact ⟨hReady, _, rfl, hSymbol⟩
        | none =>
          rintro symbol rest ⟨slot, hSame, hSome⟩
          obtain ⟨rfl, -⟩ := Prod.mk.inj (Option.some.inj hSame)
          rw [hSymbol] at hSome
          cases hSome
      · rw [if_neg (by omega), if_neg hFound, Nat.shiftLeft_eq, Nat.shiftLeft_eq, pow_one, Nat.mul_comm _ 2,
          Nat.mul_comm _ 2]
        exact ih hReady (by omega)

theorem decode_spec {lengths : List Nat} (hCodes : OfLengths lengths codes) (h : r.Ready) :
    match (decode codes).run r with
    | .ok (symbol, t) => t.Ready ∧
        Lookup codes.symbol symbol (t.stream.map not) (scan (tallies lengths 1 maxBits) 0 0 0 (r.stream.map not))
    | .error _ => ∀ symbol rest,
        ¬Lookup codes.symbol symbol rest (scan (tallies lengths 1 maxBits) 0 0 0 (r.stream.map not)) := by
  have hCounts : (List.range' 1 maxBits).map (fun bits => codes.count.getD bits 0) = tallies lengths 1 maxBits := by
    refine List.map_congr_left fun l hl => ?_
    obtain ⟨hLow, hHigh⟩ := List.mem_range'_1.mp hl
    rw [hCodes.count_eq, getD_map_range (by omega), tally, if_neg (by omega)]
  have hSpec := @decodeFrom_spec r codes (List.range' 1 maxBits) 0 0 0 h le_rfl
  rw [hCounts] at hSpec
  exact hSpec

theorem decodes {lengths : List Nat} (hShort : ∀ length ∈ lengths, length ≤ maxBits) (hFits : Fits lengths)
    (hCodes : OfLengths lengths codes) :
    Decodes lengths (fun symbol => (codeBits lengths symbol).map not) Ready stream (fun _ => True) (decode codes).run := by
  have hTwice (bits : List Bool) : (bits.map not).map not = bits := by
    rw [List.map_map, Bool.involutive_not.comp_self, List.map_id]
  have hInverted (bits stream : List Bool) : bits.map not <+: stream ↔ bits <+: stream.map not := by
    constructor
    · intro h
      exact hTwice bits ▸ h.map not
    · intro h
      exact hTwice stream ▸ h.map not
  constructor
  · intro r h symbol hSymbol hCode
    have hSpec := decode_spec hCodes h
    rw [scan_code hFits hSymbol (len_le hShort symbol) ((hInverted _ _).mp hCode)] at hSpec
    have hFound := hCodes.slots symbol hSymbol
    cases hRun : (decode codes).run r with
    | error e =>
      rw [hRun] at hSpec
      exact absurd ⟨_, rfl, hFound⟩ (hSpec symbol _)
    | ok found =>
      rw [hRun] at hSpec
      obtain ⟨hReady, slot, hSlot, hSome⟩ := hSpec
      obtain ⟨rfl, hRest⟩ := Prod.mk.inj (Option.some.inj hSlot)
      rw [hFound, Option.some.injEq] at hSome
      refine ⟨found.2, by rw [hSome], hReady, ?_⟩
      rw [← List.map_drop] at hRest
      rw [← hTwice (stream found.2), ← hRest, hTwice]
  · intro r h hCode
    have hSpec := decode_spec hCodes h
    rw [scan_none hFits fun symbol hSymbol hPrefix => hCode symbol hSymbol ((hInverted _ _).mpr hPrefix)] at hSpec
    cases hRun : (decode codes).run r with
    | error e => exact ⟨e, rfl, trivial⟩
    | ok found =>
      rw [hRun] at hSpec
      obtain ⟨-, slot, hSlot, -⟩ := hSpec
      cases hSlot

end BitReader

end OpenHalfLife.Isz
