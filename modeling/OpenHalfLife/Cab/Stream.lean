import OpenHalfLife.Cab.ReaderSafety

/-! # The bits an LZX reader takes

What a reader can still take is a list of bits: those left in its buffer, the
words of the data, and the few words of zeros that may follow them.
-/

namespace OpenHalfLife.Cab

open Machine Canonical

set_option autoImplicit false

namespace BitReader

def byteAt (data : List UInt8) (position : Nat) : Nat := (data[position]?.map UInt8.toNat).getD 0

def wordAt (data : List UInt8) (position : Nat) : Nat := byteAt data position + 256 * byteAt data (position + 1)

/-- The words from a position on, with the number of those past the data that may still be taken. -/
def words (data : List UInt8) (position allowed : Nat) : List Bool :=
  if data.length ≤ 2 * (position / 2) + 1 then
    match allowed with
    | 0 => []
    | allowed + 1 => bitsOf 16 (wordAt data position) ++ words data (position + 2) allowed
  else bitsOf 16 (wordAt data position) ++ words data (position + 2) allowed
termination_by (allowed, data.length - position)

def stream (r : BitReader) : List Bool :=
  bitsOf r.bits (r.buffer / 2 ^ (32 - r.bits)) ++ words r.data r.bytePosition (maxOverrunWords - r.overrunWords)

structure Ready (r : BitReader) : Prop where
  sound : r.Sound
  clean : 2 ^ (32 - r.bits) ∣ r.buffer

theorem new_ready {data : List UInt8} (h : data.length < 2 ^ 63) : (new data).Ready :=
  ⟨new_sound h, dvd_zero _⟩

def overrun (data : List UInt8) (position : Nat) : Nat := if data.length ≤ position ∧ position % 2 = 1 then 1 else 0

theorem byteAt_lt (data : List UInt8) (position : Nat) : byteAt data position < 2 ^ 8 := by
  rw [byteAt]
  cases data[position]? with
  | none => decide
  | some byte => exact byte.toNat_lt

theorem nextByte_spec {r : BitReader} (hOverrun : r.overrunWords ≤ maxOverrunWords) (hPosition : r.bytePosition < 2 ^ 64 - 1) :
    Ensures nextByte r
      (fun byte t => byte = byteAt r.data r.bytePosition ∧ t = { r with
        bytePosition := r.bytePosition + 1, overrunWords := r.overrunWords + overrun r.data r.bytePosition } ∧
        r.overrunWords + overrun r.data r.bytePosition ≤ maxOverrunWords)
      fun stop _ => stop = .error .decompressionFailed ∧
        maxOverrunWords < r.overrunWords + overrun r.data r.bytePosition := by
  rw [nextByte, ensures_bind, ensures_get]
  cases hByte : r.data[r.bytePosition]? with
  | some byte =>
    have hLength : r.bytePosition < r.data.length := (List.getElem?_eq_some_iff.mp hByte).1
    have hNone : overrun r.data r.bytePosition = 0 := by rw [overrun, if_neg (by omega)]
    simp only [advance, ensures_bind, ensures_get]
    rw [ensures_addOrPanic (by omega)]
    exact ⟨by simp [byteAt, hByte], by simp [hNone], by omega⟩
  | none =>
    have hLength : r.data.length ≤ r.bytePosition := List.getElem?_eq_none_iff.mp hByte
    have hZero : (0 : Nat) = byteAt r.data r.bytePosition := by simp [byteAt, hByte]
    simp only [advance, ensures_bind, ensures_get]
    rw [ensures_addOrPanic (by omega)]
    simp only [ensures_set, ensures_pure]
    split
    · rename_i hEven
      have hOne : overrun r.data r.bytePosition = 1 := by rw [overrun, if_pos ⟨hLength, by omega⟩]
      simp only [ensures_bind, countOverrun, ensures_get]
      rw [ensures_addOrPanic (by simp only [maxOverrunWords] at hOverrun; omega)]
      simp only [ensures_set, ensures_ite, ensures_throw, ensures_pure, hOne]
      exact ⟨fun hMany => ⟨trivial, hMany⟩, fun hFew => ⟨hZero, trivial, by omega⟩⟩
    · rename_i hOdd
      have hNone : overrun r.data r.bytePosition = 0 := by rw [overrun, if_neg (by omega)]
      simp only [ensures_pure, hNone, Nat.add_zero]
      exact ⟨hZero, trivial, hOverrun⟩

theorem words_cons {data : List UInt8} {position left : Nat}
    (h : overrun data position + overrun data (position + 1) ≤ left) :
    words data position left = bitsOf 16 (wordAt data position) ++
      words data (position + 2) (left - (overrun data position + overrun data (position + 1))) := by
  rw [words.eq_def]
  split
  · rename_i hPast
    have hOne : overrun data position + overrun data (position + 1) = 1 := by
      simp only [overrun]
      split <;> split <;> omega
    rw [hOne] at h ⊢
    cases left with
    | zero => omega
    | succ left => rfl
  · rename_i hInside
    have hNone : overrun data position + overrun data (position + 1) = 0 := by
      simp only [overrun]
      split <;> split <;> omega
    rw [hNone, Nat.sub_zero]

theorem words_nil {data : List UInt8} {position left : Nat}
    (h : left < overrun data position + overrun data (position + 1)) : words data position left = [] := by
  have hPast : data.length ≤ 2 * (position / 2) + 1 := by
    simp only [overrun] at h
    split at h <;> split at h <;> omega
  have hNone : left = 0 := by
    simp only [overrun] at h
    split at h <;> split at h <;> omega
  rw [words.eq_def, if_pos hPast, hNone]

theorem wordAt_lt (data : List UInt8) (position : Nat) : wordAt data position < 2 ^ 16 := by
  have hLow := byteAt_lt data position
  have hHigh := byteAt_lt data (position + 1)
  rw [wordAt]
  omega

theorem fillWord_spec {r : BitReader} (h : r.Ready) (hBits : r.bits = 0) :
    Ensures fillWord r (fun _ t => t.Ready ∧ t.bits = 16 ∧ t.stream = r.stream)
      fun stop _ => stop = .error .decompressionFailed ∧ r.stream = [] := by
  have hPosition := h.sound.position_lt
  have hAllowed := h.sound.overrun_le
  have hLe := h.sound.position_le
  have hEmpty : r.buffer = 0 := by
    have hClean := h.clean
    rw [hBits] at hClean
    exact Nat.eq_zero_of_dvd_of_lt hClean h.sound.buffer_lt
  have hStream : r.stream = words r.data r.bytePosition (maxOverrunWords - r.overrunWords) := by
    rw [stream, hBits]
    rfl
  rw [fillWord, ensures_bind]
  refine (nextByte_spec hAllowed (by omega)).mono ?_ ?_
  · rintro low _ ⟨rfl, rfl, hFirst⟩
    rw [ensures_bind]
    refine (nextByte_spec hFirst (show r.bytePosition + 1 < 2 ^ 64 - 1 by omega)).mono ?_ ?_
    · rintro high _ ⟨rfl, rfl, hSecond⟩
      have hWord := wordAt_lt r.data r.bytePosition
      simp only [ensures_bind, ensures_get, hBits, hEmpty]
      rw [ensures_subOrPanic (by omega), ensures_shlOrPanic (by omega), ensures_addOrPanic (by omega), ensures_set]
      have hBuffer : 0 ||| (byteAt r.data r.bytePosition + 256 * byteAt r.data (r.bytePosition + 1)) * 2 ^ (16 - 0) %
          2 ^ 32 = wordAt r.data r.bytePosition * 2 ^ 16 := by
        rw [Nat.zero_or, wordAt] at *
        omega
      rw [hBuffer]
      refine ⟨⟨⟨by dsimp only; omega, ?_, hSecond, ?_, h.sound.length_lt⟩, ?_⟩, rfl, ?_⟩
      · dsimp only
        omega
      · simp only [overrun]
        split <;> split <;> omega
      · exact Nat.dvd_mul_left _ _
      · rw [hStream, words_cons (by dsimp only at hSecond; omega), stream]
        dsimp only
        rw [Nat.mul_div_cancel _ (by decide), Nat.zero_add]
        congr 2
        omega
    · rintro stop _ ⟨rfl, hMany⟩
      refine ⟨rfl, ?_⟩
      rw [hStream]
      exact words_nil (by dsimp only at hMany; omega)
  · rintro stop _ ⟨rfl, hMany⟩
    refine ⟨rfl, ?_⟩
    rw [hStream]
    exact words_nil (by omega)

theorem fill_spec {r : BitReader} (h : r.Ready) :
    Ensures (fill 1) r (fun _ t => t.Ready ∧ 0 < t.bits ∧ t.stream = r.stream)
      fun stop _ => stop = .error .decompressionFailed ∧ r.stream = [] := by
  rw [fill, ensures_bind, ensures_assertOrPanic (by decide)]
  refine ensures_iterate (fun _ t => t.Ready ∧ t.stream = r.stream) (fun _ t => 1 - t.bits) ?_ _ _ _ ⟨h, rfl⟩ (by omega)
  rintro _ t ⟨hReady, hStream⟩
  rw [ensures_bind, ensures_get, ensures_ite]
  refine ⟨fun hShort => ?_, fun hEnough => ⟨hReady, by omega, hStream⟩⟩
  rw [ensures_bind]
  refine (fillWord_spec hReady (by omega)).mono ?_ ?_
  · rintro _ u ⟨hReady', hBits, hSame⟩
    exact ⟨⟨hReady', hSame.trans hStream⟩, by omega⟩
  · rintro stop u ⟨hStop, hEnd⟩
    exact ⟨hStop, hStream ▸ hEnd⟩

theorem stream_shift {r : BitReader} (h : r.Ready) {bits : Nat} (hBits : r.bits = bits + 1) :
    Ready { r with buffer := r.buffer * 2 % 2 ^ 32, bits := bits } ∧
      r.stream = decide (r.buffer / 2 ^ 31 = 1) ::
        stream { r with buffer := r.buffer * 2 % 2 ^ 32, bits := bits } := by
  have hLe := h.sound.bits_le
  have hTop : r.buffer / 2 ^ 31 < 2 := by
    have := h.sound.buffer_lt
    omega
  obtain ⟨kept, hKept⟩ := h.clean
  rw [hBits] at hKept hLe
  have hScale : 2 ^ (32 - bits) = 2 * 2 ^ (32 - (bits + 1)) := by
    rw [← pow_succ']
    congr 1
    omega
  have hPower : 2 ^ 31 = 2 ^ (32 - (bits + 1)) * 2 ^ bits := by
    rw [← pow_add]
    congr 1
    omega
  have hKeptTop : kept / 2 ^ bits = r.buffer / 2 ^ 31 := by
    rw [hKept, hPower, Nat.mul_div_mul_left _ _ (by positivity)]
  -- the bits that stay are the low ones of those that were held
  have hShifted : r.buffer * 2 % 2 ^ 32 = 2 ^ (32 - bits) * (kept % 2 ^ bits) := by
    have hDouble : 2 ^ 32 = 2 ^ (32 - bits) * 2 ^ bits := by
      rw [← pow_add]
      congr 1
      omega
    rw [hDouble, ← Nat.mul_mod_mul_left, hScale, hKept]
    congr 1
    ring
  refine ⟨⟨⟨by dsimp only; omega, Nat.mod_lt _ (by decide), h.sound.overrun_le, h.sound.position_le, h.sound.length_lt⟩,
    ⟨_, hShifted⟩⟩, ?_⟩
  rw [stream, stream, hBits]
  dsimp only
  rw [hShifted, Nat.mul_div_cancel_left _ (by positivity), bitsOf_succ, List.cons_append]
  have hHeld : r.buffer / 2 ^ (32 - (bits + 1)) = kept := by
    rw [hKept, Nat.mul_div_cancel_left _ (by positivity)]
  have hLow : bitsOf bits kept = bitsOf bits (kept % 2 ^ bits) := by
    have hSplit := bitsOf_add_mul bits (kept % 2 ^ bits) (kept / 2 ^ bits)
    rwa [Nat.mul_comm, Nat.mod_add_div] at hSplit
  rw [hHeld, hKeptTop, hLow, Nat.mod_eq_of_lt hTop]

theorem readBit_spec {r : BitReader} (h : r.Ready) :
    Ensures (readBits 1) r
      (fun bit t => ∃ head, r.stream = head :: t.stream ∧ bit = head.toNat ∧ t.Ready)
      fun stop _ => stop = .error .decompressionFailed ∧ r.stream = [] := by
  rw [readBits, if_neg (by decide), ensures_bind]
  refine (fill_spec h).mono ?_ fun _ _ h => h
  rintro _ t ⟨hReady, hBits, hStream⟩
  obtain ⟨bits, hBits⟩ : ∃ bits, t.bits = bits + 1 := ⟨t.bits - 1, by omega⟩
  obtain ⟨hNext, hHead⟩ := stream_shift hReady hBits
  simp only [ensures_bind, ensures_get]
  rw [ensures_subOrPanic (by decide), ensures_shrOrPanic (by decide), ensures_shlOrPanic (by decide),
    ensures_subOrPanic (by omega), ensures_set]
  simp only [hBits, Nat.add_sub_cancel, pow_one]
  refine ⟨_, hStream ▸ hHead, ?_, hNext⟩
  have hTop : t.buffer / 2 ^ 31 < 2 := by
    have := hReady.sound.buffer_lt
    omega
  have hCases : t.buffer / 2 ^ 31 = 0 ∨ t.buffer / 2 ^ 31 = 1 := by omega
  change t.buffer / 2 ^ 31 = _
  rcases hCases with hBit | hBit <;> rw [hBit] <;> rfl

/-! ## Codes -/

theorem decodeFrom_spec {symbols counts : List Nat} {c first index : Nat} {r : BitReader} (h : r.Ready)
    (hCounts : counts.length ≤ 16) (hCode : c < 2 ^ (16 - counts.length)) (hFirst : first ≤ 2 * c)
    (hSmall : ∀ count ∈ counts, count < 2 ^ 16) (hIndex : index + 2 ^ 16 * counts.length < 2 ^ 32) :
    Ensures (decodeFrom symbols counts (2 * c) first index) r
      (fun symbol t => Lookup symbols symbol t.stream (scan counts (2 * c) first index r.stream) ∧ t.Ready)
      fun stop _ => stop = .error .decompressionFailed ∧
        ∀ symbol rest, ¬Lookup symbols symbol rest (scan counts (2 * c) first index r.stream) := by
  induction counts generalizing c first index r with
  | nil => exact ⟨rfl, by simp [scan, Lookup]⟩
  | cons count counts ih =>
    rw [List.length_cons] at hCounts hCode hIndex
    rw [List.forall_mem_cons] at hSmall
    have hPower : 2 ^ (16 - (counts.length + 1)) ≤ 2 ^ 15 := Nat.pow_le_pow_right (by decide) (by omega)
    rw [decodeFrom, ensures_bind]
    refine (readBit_spec h).mono ?_ ?_
    · rintro _ t ⟨head, hStream, rfl, hReady⟩
      have hBit := head.toNat_lt
      rw [or_bit, if_neg (by omega), hStream, scan]
      split
      · rename_i hFound
        rw [ensures_bind, ensures_addOrPanic (by omega)]
        cases hSymbol : symbols[index + (2 * c + head.toNat - first)]? with
        | some symbol => exact ⟨⟨_, rfl, hSymbol⟩, hReady⟩
        | none =>
          refine ⟨rfl, ?_⟩
          rintro symbol rest ⟨slot, hSlot, hSome⟩
          obtain ⟨rfl, -⟩ := Prod.mk.inj (Option.some.inj hSlot)
          rw [hSymbol] at hSome
          cases hSome
      · rename_i hMissed
        have hDouble : 2 ^ (16 - counts.length) = 2 * 2 ^ (16 - (counts.length + 1)) := by
          rw [← pow_succ']
          congr 1
          omega
        rw [ensures_bind, ensures_addOrPanic (by omega), ensures_bind, ensures_addOrPanic (by omega), ensures_bind,
          ensures_shlOrPanic (by decide), ensures_bind, ensures_shlOrPanic (by decide),
          Nat.mod_eq_of_lt (by omega), Nat.mod_eq_of_lt (by omega), pow_one, Nat.mul_comm _ 2, Nat.mul_comm _ 2]
        exact ih hReady (by omega) (by omega) (by omega) hSmall.2 (by omega)
    · rintro stop _ ⟨rfl, hEnd⟩
      exact ⟨rfl, by simp [hEnd, scan, Lookup]⟩

variable {lengths : List Nat} {table : HuffmanTable} {r : BitReader}

theorem decode_spec (hLengths : lengths.length < 2 ^ 16) (hTable : HuffmanTable.OfLengths lengths table) (h : r.Ready) :
    Ensures (decode table) r
      (fun symbol t => Lookup table.symbols symbol t.stream (scan (tallies lengths 1 maxCodeBits) 0 0 0 r.stream) ∧ t.Ready)
      fun stop _ => stop = .error .decompressionFailed ∧
        ∀ symbol rest, ¬Lookup table.symbols symbol rest (scan (tallies lengths 1 maxCodeBits) 0 0 0 r.stream) := by
  have hCounts : table.counts.drop 1 = tallies lengths 1 maxCodeBits := by
    rw [hTable.counts_eq, HuffmanTable.drop_counts]
  have hLength : (tallies lengths 1 maxCodeBits).length = 16 := by simp [tallies, maxCodeBits]
  rw [decode, hCounts]
  refine @decodeFrom_spec table.symbols _ 0 0 0 r h hLength.le ?_ le_rfl ?_ ?_
  · rw [hLength]
    decide
  · intro count hCount
    obtain ⟨l, -, rfl⟩ := List.mem_map.mp hCount
    exact (HuffmanTable.tally_le lengths l).trans_lt hLengths
  · rw [hLength]
    decide

def decoded (table : HuffmanTable) (r : BitReader) : Except (Stop CabError) (Nat × BitReader) :=
  match (decode table).exec r with
  | (.ok symbol, t) => .ok (symbol, t)
  | (.error stop, _) => .error stop

theorem decodes (hLengths : lengths.length < 2 ^ 16) (hShort : ∀ length ∈ lengths, length ≤ maxCodeBits)
    (hFits : Fits lengths) (hTable : HuffmanTable.OfLengths lengths table) :
    Decodes lengths (codeBits lengths) Ready stream (· = .error .decompressionFailed) (decoded table) := by
  constructor
  · intro r h symbol hSymbol hCode
    have hScan := scan_code hFits hSymbol (len_le hShort symbol) hCode
    have hFound := hTable.slots symbol hSymbol
    have hSpec := decode_spec hLengths hTable h
    rw [hScan] at hSpec
    have hSucceeds : Ensures (decode table) r (fun found t => Lookup table.symbols found t.stream
        (some (slot lengths symbol, r.stream.drop (len lengths symbol))) ∧ t.Ready) fun _ _ => False :=
      hSpec.mono (fun _ _ h => h) fun _ _ hFail => hFail.2 symbol _ ⟨_, rfl, hFound⟩
    obtain ⟨found, t, hExec, ⟨slot, hSlot, hSome⟩, hReady⟩ := hSucceeds.exists_ok
    obtain ⟨rfl, hRest⟩ := Prod.mk.inj (Option.some.inj hSlot)
    rw [hFound, Option.some.injEq] at hSome
    exact ⟨t, by rw [decoded, hExec, hSome], hReady, hRest.symm⟩
  · intro r h hCode
    have hSpec := decode_spec hLengths hTable h
    rw [scan_none hFits hCode] at hSpec
    have hStops : Ensures (decode table) r (fun _ _ => False) fun stop _ => stop = .error .decompressionFailed := by
      refine hSpec.mono (fun _ _ hFound => ?_) fun _ _ hFail => hFail.1
      obtain ⟨⟨_, hSlot, _⟩, _⟩ := hFound
      cases hSlot
    obtain ⟨stop, t, hExec, hStop⟩ := hStops.exists_error
    exact ⟨stop, by rw [decoded, hExec], hStop⟩

end BitReader

end OpenHalfLife.Cab
