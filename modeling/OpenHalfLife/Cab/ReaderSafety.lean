import OpenHalfLife.Cab.Tables

/-! # The bit reader never overflows

A request of at most 17 bits always fits: the buffer is refilled only while it
holds 16 bits or fewer. The position runs at most a few words past the data.
-/

namespace OpenHalfLife.Cab

open Machine

set_option autoImplicit false

namespace BitReader

/-- The buffer is a 32-bit value, and every word read past the data was counted;
a stored block may have added one byte of padding. -/
structure Sound (r : BitReader) : Prop where
  bits_le : r.bits ≤ 32
  buffer_lt : r.buffer < 2 ^ 32
  overrun_le : r.overrunWords ≤ maxOverrunWords
  position_le : r.bytePosition / 2 ≤ r.data.length / 2 + r.overrunWords + 1
  length_lt : r.data.length < 2 ^ 63

def Dropped (_ : BitReader) : Prop := True

theorem new_sound {data : List UInt8} (h : data.length < 2 ^ 63) : (new data).Sound :=
  ⟨Nat.zero_le _, by simp [new], Nat.zero_le _, by simp [new], h⟩

theorem Sound.position_lt {r : BitReader} (h : r.Sound) : r.bytePosition < 2 ^ 63 + 16 := by
  have := h.overrun_le
  have := h.position_le
  have := h.length_lt
  simp only [maxOverrunWords] at *
  omega

theorem nextByte_ensures {r : BitReader} (h : r.Sound) :
    Ensures nextByte r (fun byte t => t.Sound ∧ byte < 2 ^ 8 ∧ t.bits = r.bits ∧ t.buffer = r.buffer)
      fun stop t => stop.IsError ∧ t.Dropped := by
  have hPosition := h.position_lt
  have hLe := h.position_le
  have hOverrun := h.overrun_le
  rw [nextByte, ensures_bind, ensures_get]
  split
  · rename_i byte hByte
    have hLength : r.bytePosition < r.data.length := (List.getElem?_eq_some_iff.mp hByte).1
    simp only [advance, ensures_bind, ensures_get]
    rw [ensures_addOrPanic (by omega)]
    refine ⟨⟨h.bits_le, h.buffer_lt, h.overrun_le, ?_, h.length_lt⟩, byte.toNat_lt, rfl, rfl⟩
    dsimp only
    omega
  · simp only [advance, ensures_bind, ensures_get]
    rw [ensures_addOrPanic (by omega)]
    simp only [ensures_set, ensures_pure]
    split
    · rename_i hEven
      simp only [ensures_bind, countOverrun, ensures_get]
      rw [ensures_addOrPanic (by simp only [maxOverrunWords] at hOverrun; omega)]
      simp only [ensures_set, ensures_ite, ensures_throw, ensures_pure]
      refine ⟨fun _ => ⟨trivial, trivial⟩, fun hWords => ?_⟩
      refine ⟨⟨h.bits_le, h.buffer_lt, by dsimp only; omega, ?_, h.length_lt⟩, by decide, trivial, trivial⟩
      dsimp only
      omega
    · rename_i hOdd
      simp only [ensures_pure]
      refine ⟨⟨h.bits_le, h.buffer_lt, h.overrun_le, ?_, h.length_lt⟩, by decide, trivial, trivial⟩
      dsimp only
      omega

theorem fillWord_ensures {r : BitReader} (h : r.Sound) (hBits : r.bits ≤ 16) :
    Ensures fillWord r (fun _ t => t.Sound ∧ t.bits = r.bits + 16)
      fun stop t => stop.IsError ∧ t.Dropped := by
  rw [fillWord, ensures_bind]
  refine (nextByte_ensures h).mono ?_ fun _ _ h => h
  rintro low t ⟨hSound, hLow, hSame, hBuffer⟩
  rw [ensures_bind]
  refine (nextByte_ensures hSound).mono ?_ fun _ _ h => h
  rintro high u ⟨hSound', hHigh, hSame', hBuffer'⟩
  have hBitsEq : u.bits = r.bits := hSame'.trans hSame
  simp only [ensures_bind, ensures_get]
  rw [ensures_subOrPanic (by omega), ensures_shlOrPanic (by omega), ensures_addOrPanic (by omega)]
  refine ⟨⟨by dsimp only; omega, ?_, hSound'.overrun_le, hSound'.position_le, hSound'.length_lt⟩,
    by dsimp only; omega⟩
  exact Nat.or_lt_two_pow hSound'.buffer_lt (Nat.mod_lt _ (by decide))

theorem fill_ensures {r : BitReader} (h : r.Sound) {count : Nat} (hCount : count ≤ 17) :
    Ensures (fill count) r (fun _ t => t.Sound ∧ count ≤ t.bits) fun stop t => stop.IsError ∧ t.Dropped := by
  rw [fill, ensures_bind, ensures_assertOrPanic hCount]
  refine ensures_iterate (fun _ t => t.Sound) (fun _ t => count - t.bits) ?_ _ _ _ h (by omega)
  intro _ t hSound
  rw [ensures_bind, ensures_get, ensures_ite]
  refine ⟨fun hShort => ?_, fun hEnough => ⟨hSound, by omega⟩⟩
  rw [ensures_bind]
  refine (fillWord_ensures hSound (by omega)).mono ?_ fun _ _ h => h
  rintro _ u ⟨hSound', hBits⟩
  exact ⟨hSound', by omega⟩

theorem readBits_safe {count : Nat} (hCount : count ≤ 17) :
    Safe Sound Dropped (· < 2 ^ count) (readBits count) := by
  intro r h
  rw [readBits, ensures_ite]
  refine ⟨fun hZero => ⟨h, by simp [hZero]⟩, fun hPositive => ?_⟩
  rw [ensures_bind]
  refine (fill_ensures h hCount).mono ?_ fun _ _ h => h
  rintro _ t ⟨hSound, hBits⟩
  have hBuffer := hSound.buffer_lt
  have hBitsLe := hSound.bits_le
  simp only [ensures_bind, ensures_get]
  rw [ensures_subOrPanic (by omega), ensures_shrOrPanic (by omega), ensures_shlOrPanic (by omega),
    ensures_subOrPanic hBits]
  refine ⟨⟨by dsimp only; omega, Nat.mod_lt _ (by decide), hSound.overrun_le, hSound.position_le,
    hSound.length_lt⟩, ?_⟩
  -- The top `count` bits of a 32-bit value.
  rw [Nat.div_lt_iff_lt_mul (by positivity), ← pow_add, Nat.add_sub_cancel' (by omega)]
  exact hBuffer

theorem readU24_safe : Safe Sound Dropped (fun _ => True) readU24 := by
  refine (readBits_safe (by decide)).bind fun high _ => ?_
  refine (readBits_safe (by decide)).bind fun middle _ => ?_
  refine (readBits_safe (by decide)).bind fun low _ => ?_
  intro r h
  rw [ensures_bind, ensures_shlOrPanic (by decide), ensures_bind, ensures_shlOrPanic (by decide)]
  exact ⟨h, trivial⟩

theorem alignToWord_safe : Safe Sound Dropped (fun _ => True) alignToWord := by
  refine safe_get fun r h => ?_
  have hCount : (if r.bits % 16 = 0 then 16 else r.bits % 16) ≤ 17 := by
    split <;> omega
  exact ((readBits_safe hCount).bind (Q := fun _ => True) fun _ _ => safe_pure trivial) r h

theorem alignedBytePosition_safe : Safe Sound Dropped (· < 2 ^ 63 + 16) alignedBytePosition := by
  refine safe_get fun r h => ?_
  have hPosition := h.position_lt
  rw [ensures_ite, ensures_ite]
  exact ⟨fun _ => ⟨trivial, trivial⟩, fun _ => ⟨fun _ => ⟨trivial, trivial⟩, fun _ => ⟨h, by omega⟩⟩⟩

theorem resumeAt_sound {r : BitReader} (h : r.Sound) {position : Nat}
    (hPosition : position ≤ r.data.length + 1) :
    Sound { r with bytePosition := position, buffer := 0, bits := 0 } :=
  ⟨Nat.zero_le _, by simp, h.overrun_le, by dsimp only; omega, h.length_lt⟩

end BitReader

namespace HuffmanTable

/-- Few enough symbols that no sum over the counts comes near a width. -/
structure Sound (table : HuffmanTable) : Prop where
  counts_length : table.counts.length = maxCodeBits + 1
  counts_le : ∀ count ∈ table.counts, count ≤ 2 ^ 12
  symbols_lt : ∀ symbol ∈ table.symbols, symbol < 2 ^ 16

end HuffmanTable

namespace BitReader

/-- The first code of the next length stays below `2 ^ 13` times the number of
codes so far, `scale`. -/
theorem decodeFrom_safe {symbols counts : List Nat} (hSymbols : ∀ symbol ∈ symbols, symbol < 2 ^ 16)
    (hCounts : ∀ count ∈ counts, count ≤ 2 ^ 12) (code first index scale : Nat)
    (hScale : scale * 2 ^ counts.length ≤ 2 ^ 16) (hFirst : first ≤ 2 ^ 12 * (2 * scale - 2))
    (hPositive : 0 < scale) (hIndex : index + 2 ^ 12 * counts.length ≤ 2 ^ 17) :
    Safe Sound Dropped (· < 2 ^ 16) (decodeFrom symbols counts code first index) := by
  induction counts generalizing code first index scale with
  | nil => exact safe_error fun _ _ => trivial
  | cons count counts ih =>
    rw [List.length_cons] at hScale hIndex
    rw [List.forall_mem_cons] at hCounts
    have hSmall : scale ≤ 2 ^ 16 := by
      calc scale ≤ scale * 2 ^ (counts.length + 1) := Nat.le_mul_of_pos_right _ (by positivity)
        _ ≤ 2 ^ 16 := hScale
    have hCount := hCounts.1
    rw [decodeFrom]
    refine (readBits_safe (by decide)).bind fun bit _ => ?_
    refine Safe.ite (fun _ => safe_error fun _ _ => trivial) fun _ => Safe.ite ?_ ?_
    · intro hDelta r h
      rw [ensures_bind, ensures_addOrPanic (by omega)]
      split
      · rename_i symbol hSymbol
        exact ⟨h, hSymbols symbol (List.mem_of_getElem? hSymbol)⟩
      · exact ⟨trivial, trivial⟩
    · intro _ r h
      rw [ensures_bind, ensures_addOrPanic (by omega), ensures_bind, ensures_addOrPanic (by omega),
        ensures_bind, ensures_shlOrPanic (by decide), ensures_bind, ensures_shlOrPanic (by decide)]
      refine ih hCounts.2 _ _ _ (2 * scale) ?_ ?_ (by omega) (by omega) r h
      · calc 2 * scale * 2 ^ counts.length = scale * 2 ^ (counts.length + 1) := by ring
          _ ≤ 2 ^ 16 := hScale
      · rw [Nat.mod_eq_of_lt (by omega)]
        omega

theorem decode_safe {table : HuffmanTable} (h : table.Sound) :
    Safe Sound Dropped (· < 2 ^ 16) (decode table) := by
  have hLength : (table.counts.drop 1).length = 16 := by
    rw [List.length_drop, h.counts_length, maxCodeBits]
  refine decodeFrom_safe h.symbols_lt ?_ 0 0 0 1 ?_ (by decide) (by decide) ?_
  · intro count hCount
    exact h.counts_le count (List.mem_of_mem_drop hCount)
  · rw [hLength]
    decide
  · rw [hLength]
    decide

end BitReader

namespace HuffmanTable

variable {σ : Type}

theorem OfLengths.sound {lengths : List Nat} {table : HuffmanTable} (h : OfLengths lengths table)
    (hLength : lengths.length ≤ 2 ^ 12) : table.Sound := by
  refine ⟨by simp [h.counts_eq, maxCodeBits], fun count hCount => ?_, h.symbols_lt⟩
  rw [h.counts_eq] at hCount
  obtain ⟨l, -, rfl⟩ := List.mem_map.mp hCount
  exact (tally_le lengths l).trans hLength

theorem new_safe {lengths : List Nat} (h : lengths.length ≤ 2 ^ 12) {I K : σ → Prop}
    (hKept : ∀ s, I s → K s) : Safe I K Sound (new lengths) := by
  intro s hs
  refine (new_ensures (by omega)).mono ?_ ?_
  · rintro table _ ⟨rfl, -, hTable⟩
    exact ⟨hs, hTable.sound h⟩
  · rintro stop _ ⟨rfl, rfl, -⟩
    exact ⟨trivial, hKept _ hs⟩

end HuffmanTable

end OpenHalfLife.Cab
