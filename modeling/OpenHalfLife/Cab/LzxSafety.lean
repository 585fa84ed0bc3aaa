import OpenHalfLife.Cab.Lzx
import OpenHalfLife.Cab.ReaderSafety

/-! # The decoder never overflows below 2^20-byte windows

Every read asks for at most 17 bits as long as no position slot has a longer
footer. The state keeps its shape through errors, so this holds for any list
of calls.
-/

namespace OpenHalfLife.Cab

open Machine HuffmanTable

set_option autoImplicit false

/-! ## Path lengths -/

def LengthsKept (size : Nat) (s : List Nat × BitReader) : Prop :=
  s.1.length = size ∧ ∀ length ∈ s.1, length ≤ 16

def LengthsSound (size : Nat) (s : List Nat × BitReader) : Prop := LengthsKept size s ∧ s.2.Sound

section Lengths

variable {size : Nat}

theorem fromBits_safe {α : Type} {P : α → Prop} {m : BitReader.Reading α}
    (h : Safe BitReader.Sound BitReader.Dropped P m) :
    Safe (LengthsSound size) (LengthsKept size) P (fromBits m) :=
  h.zoom (fun _ hs => hs.2) (fun _ _ hs ht => ⟨hs.1, ht⟩) fun _ _ hs _ => hs.1

theorem lengths_error {α : Type} {P : α → Prop} (error : CabError) :
    Safe (LengthsSound size) (LengthsKept size) P (fails error : Lengths α) :=
  safe_error fun _ hs => hs.1

theorem deltaLength_safe {index code : Nat} (hIndex : index < size) (hCode : code ≤ 16) :
    Safe (LengthsSound size) (LengthsKept size) (· ≤ 16) (deltaLength index code) := by
  refine safe_get fun s hs => ?_
  obtain ⟨lengths, r⟩ := s
  have hLength : index < lengths.length := by rw [hs.1.1]; exact hIndex
  have hPrevious : lengths[index] ≤ 16 := hs.1.2 _ (List.getElem_mem hLength)
  rw [ensures_bind, ensures_getOrPanic hLength, ensures_bind,
    ensures_signedOrPanic (by constructor <;> omega), ensures_bind,
    ensures_signedOrPanic (by constructor <;> omega)]
  generalize hSum : (lengths[index] : Int) - (code : Int) + 17 = sum
  have hMod : sum.tmod 17 = sum % 17 := Int.tmod_eq_emod_of_nonneg (by omega)
  rw [hMod, if_pos (by omega)]
  exact ⟨hs, by omega⟩

theorem fillRun_safe {index stop run value : Nat} (hStop : stop ≤ size) (hValue : value ≤ 16)
    (hRun : 0 < run) :
    Safe (LengthsSound size) (LengthsKept size) (index < ·) (fillRun index stop run value) := by
  refine Safe.ite (fun _ => lengths_error _) fun _ => Safe.ite (fun _ => lengths_error _) fun hFits => ?_
  refine safe_get fun s hs => ?_
  obtain ⟨lengths, r⟩ := s
  have hLength : lengths.length = size := hs.1.1
  dsimp only
  rw [ensures_bind, ensures_sliceOrPanic (by omega), ensures_bind, ensures_modify]
  refine ⟨⟨⟨?_, ?_⟩, hs.2⟩, by omega⟩
  · simp only [List.length_append, List.length_take, List.length_replicate, List.length_drop]
    omega
  · intro length hMem
    rcases List.mem_append.mp hMem with hMem | hMem
    · rcases List.mem_append.mp hMem with hMem | hMem
      · exact hs.1.2 length (List.mem_of_mem_take hMem)
      · rwa [List.eq_of_mem_replicate hMem]
    · exact hs.1.2 length (List.mem_of_mem_drop hMem)

theorem addOrPanic_safe {σ : Type} {I K : σ → Prop} {width a b : Nat} (h : a + b < 2 ^ width) :
    Safe I K (· = a + b) (addOrPanic width a b : Machine (Stop CabError) σ Nat) := by
  intro s hs
  rw [ensures_addOrPanic h]
  exact ⟨hs, rfl⟩

theorem readLength_safe {table : HuffmanTable} (hTable : table.Sound) {stop index : Nat}
    (hStop : stop ≤ size) (hSize : size ≤ 2 ^ 12) (hIndex : index < stop) :
    Safe (LengthsSound size) (LengthsKept size) (index < ·) (readLength table stop index) := by
  refine (fromBits_safe (BitReader.decode_safe hTable)).bind fun code _ => ?_
  refine Safe.ite (fun hCode => ?_) fun _ => Safe.ite ?_ fun _ => Safe.ite ?_ fun _ => Safe.ite ?_ ?_
  · refine (deltaLength_safe (by omega) hCode).bind fun value hValue => safe_get fun s hs => ?_
    obtain ⟨lengths, r⟩ := s
    have hLength : lengths.length = size := hs.1.1
    dsimp only
    rw [ensures_bind, ensures_setOrPanic (by omega), ensures_bind, ensures_modify,
      ensures_addOrPanic (by omega)]
    refine ⟨⟨⟨by simpa using hLength, ?_⟩, hs.2⟩, by omega⟩
    intro length hMem
    rcases List.mem_or_eq_of_mem_set hMem with hMem | rfl
    · exact hs.1.2 length hMem
    · exact hValue
  · intro _
    refine (fromBits_safe (BitReader.readBits_safe (by decide))).bind fun extra hExtra => ?_
    refine (addOrPanic_safe (by omega)).bind fun run hRun => ?_
    exact fillRun_safe hStop (by decide) (by omega)
  · intro _
    refine (fromBits_safe (BitReader.readBits_safe (by decide))).bind fun extra hExtra => ?_
    refine (addOrPanic_safe (by omega)).bind fun run hRun => ?_
    exact fillRun_safe hStop (by decide) (by omega)
  · intro _
    refine (fromBits_safe (BitReader.readBits_safe (by decide))).bind fun extra hExtra => ?_
    refine (addOrPanic_safe (by omega)).bind fun run hRun => ?_
    refine (fromBits_safe (BitReader.decode_safe hTable)).bind fun code _ => ?_
    refine Safe.ite (fun _ => lengths_error _) fun hCode => ?_
    refine (deltaLength_safe (by omega) (by omega)).bind fun value hValue => ?_
    exact fillRun_safe hStop hValue (by omega)
  · intro _
    exact lengths_error _

theorem readFields_safe {width count : Nat} (hWidth : width ≤ 17) :
    Safe BitReader.Sound BitReader.Dropped (·.length = count) (readFields width count) := by
  intro r hr
  refine ensures_foldlM (fun done fields t => t.Sound ∧ fields.length = done.length) ?_ ⟨hr, rfl⟩ ?_
  · rintro done index fields t - ⟨ht, hFields⟩
    refine ((BitReader.readBits_safe hWidth).bind (Q := fun next => next.length = done.length + 1)
      fun field _ => Safe.ite (fun _ => safe_pure ?_) fun _ => safe_error fun _ _ => trivial) t ht |>.mono
      ?_ fun _ _ h => h
    · simp [hFields]
    · rintro next u ⟨hu, hNext⟩
      exact ⟨hu, by simp [hNext]⟩
  · rintro fields t ⟨ht, hFields⟩
    exact ⟨ht, by simpa using hFields⟩

theorem readLengths_safe {start stop : Nat} (hStop : stop ≤ size) (hSize : size ≤ 2 ^ 12) :
    Safe (LengthsSound size) (LengthsKept size) (fun _ => True) (readLengths start stop) := by
  refine (fromBits_safe (readFields_safe (by decide))).bind fun pretree hPretree => ?_
  refine (new_safe (by rw [hPretree]; decide) fun _ hs => hs.1).bind fun table hTable => ?_
  refine Safe.iterate (fun _ => True) (fun index => stop - index) trivial ?_ _ _ trivial (by omega)
  intro index _
  refine Safe.ite (fun hIndex => ?_) fun _ => safe_pure (by simp)
  refine (readLength_safe hTable hStop hSize hIndex).bind fun next hNext => safe_pure ?_
  intro b' hb'
  cases hb'
  exact ⟨trivial, by omega⟩

end Lengths

/-! ## Headers and tokens -/

/-- The shape of the state; `footer_le` is what only the smaller windows have. -/
structure LzxState.Sound (s : LzxState) : Prop where
  slots_le : s.positionSlots ≤ 42
  base_length : s.basePosition.length = s.positionSlots
  footer_length : s.footerBits.length = s.positionSlots
  footer_le : ∀ footer ∈ s.footerBits, footer ≤ 17
  main_length : s.mainLengths.length = numChars + 8 * s.positionSlots
  main_le : ∀ length ∈ s.mainLengths, length ≤ 16
  length_length : s.lengthLengths.length = lengthTreeElements
  length_le : ∀ length ∈ s.lengthLengths, length ≤ 16
  mainTable : ∀ table, s.mainTable = some table → table.Sound
  lengthTable : ∀ table, s.lengthTable = some table → table.Sound
  alignedTable : ∀ table, s.alignedTable = some table → table.Sound
  e8_lt : s.e8FileSize < 2 ^ 32

/-- Safe decoding steps that keep a property of the state, the reader's aside. -/
abbrev SafeDecoding {α : Type} (G : LzxState → Prop) (P : α → Prop) (m : Decoding α) : Prop :=
  Safe (fun s => G s.1 ∧ s.2.Sound) (fun s => G s.1) P m

section Headers

variable {α : Type} {P : α → Prop} {G : LzxState → Prop}

theorem reading_safe {m : BitReader.Reading α} (h : Safe BitReader.Sound BitReader.Dropped P m) :
    SafeDecoding G P (reading m) :=
  h.zoom (fun _ hs => hs.2) (fun _ _ hs ht => ⟨hs.1, ht⟩) fun _ _ hs _ => hs.1

theorem decoding_error (error : CabError) : SafeDecoding G P (fails error : Decoding α) :=
  safe_error fun _ hs => hs.1

theorem modifyState_safe {f : LzxState → LzxState} (h : ∀ s, G s → G (f s)) :
    SafeDecoding G (fun _ => True) (modifyState f) :=
  safe_modify (fun s hs => ⟨h s.1 hs.1, hs.2⟩) trivial

theorem onMainLengths_safe {m : Lengths α} (slots : Nat)
    (h : Safe (LengthsSound (numChars + 8 * slots)) (LengthsKept (numChars + 8 * slots)) P m) :
    Safe (fun s => (s.1.Sound ∧ s.2.Sound) ∧ s.1.positionSlots = slots) (fun s => s.1.Sound) P
      (onMainLengths m) := by
  have hUpdate {s : LzxState × BitReader} {t : List Nat × BitReader} (hs : s.1.Sound)
      (hSlots : s.1.positionSlots = slots) (ht : LengthsKept (numChars + 8 * slots) t) :
      LzxState.Sound { s.1 with mainLengths := t.1 } :=
    { hs with main_length := hSlots ▸ ht.1, main_le := ht.2 }
  refine h.zoom ?_ ?_ ?_
  · rintro s ⟨hs, rfl⟩
    exact ⟨⟨hs.1.main_length, hs.1.main_le⟩, hs.2⟩
  · rintro s t ⟨hs, hSlots⟩ ht
    exact ⟨⟨hUpdate hs.1 hSlots ht.1, ht.2⟩, hSlots⟩
  · rintro s t ⟨hs, hSlots⟩ ht
    exact hUpdate hs.1 hSlots ht

theorem onLengthLengths_safe {m : Lengths α}
    (h : Safe (LengthsSound lengthTreeElements) (LengthsKept lengthTreeElements) P m) :
    SafeDecoding LzxState.Sound P (onLengthLengths m) := by
  have hUpdate {s : LzxState × BitReader} {t : List Nat × BitReader} (hs : s.1.Sound)
      (ht : LengthsKept lengthTreeElements t) : LzxState.Sound { s.1 with lengthLengths := t.1 } :=
    { hs with length_length := ht.1, length_le := ht.2 }
  exact h.zoom (fun s hs => ⟨⟨hs.1.length_length, hs.1.length_le⟩, hs.2⟩)
    (fun s t hs ht => ⟨hUpdate hs.1 ht.1, ht.2⟩) fun s t hs ht => hUpdate hs.1 ht

theorem readMainAndLengthTrees_safe : SafeDecoding LzxState.Sound (fun _ => True) readMainAndLengthTrees := by
  refine safe_get fun s hs => ?_
  obtain ⟨s, r⟩ := s
  have hSlots := hs.1.slots_le
  have hSize : numChars + 8 * s.positionSlots ≤ 2 ^ 12 := by
    rw [numChars]
    dsimp only at hSlots
    omega
  dsimp only
  -- Both reads of the main tree keep the number of slots.
  rw [ensures_bind]
  refine (onMainLengths_safe s.positionSlots (readLengths_safe (by omega) hSize) (s, r) ⟨hs, rfl⟩).mono ?_
    fun _ _ h => h
  rintro _ t ⟨ht, -⟩
  rw [ensures_bind]
  refine (onMainLengths_safe s.positionSlots (readLengths_safe le_rfl hSize) t ht).mono ?_ fun _ _ h => h
  rintro _ ⟨u, r'⟩ ⟨⟨hu, hSame⟩, -⟩
  have hLength : u.mainLengths.length ≤ 2 ^ 12 := by
    have hMain := hu.1.main_length
    dsimp only at hMain hSame
    rw [hMain, hSame]
    exact hSize
  rw [ensures_bind, ensures_get]
  refine (Safe.bind (new_safe hLength fun _ hs => hs.1) fun table hTable => ?_) (u, r') hu
  refine Safe.bind (modifyState_safe ?_) fun _ _ => ?_
  · intro s hs
    exact { hs with mainTable := fun t ht => Option.some.inj ht ▸ hTable }
  refine (onLengthLengths_safe (readLengths_safe le_rfl (by decide))).bind fun _ _ => ?_
  refine safe_get fun v hv => ?_
  have hLengths : v.1.lengthLengths.length ≤ 2 ^ 12 := by
    rw [hv.1.length_length]
    decide
  refine (Safe.bind (new_safe hLengths fun _ hs => hs.1) fun table hTable => ?_) v hv
  refine modifyState_safe fun s hs => ?_
  exact { hs with lengthTable := fun t ht => Option.some.inj ht ▸ hTable }

theorem storedOffset_ensures {s : LzxState} {r : BitReader} (hs : s.Sound ∧ r.Sound) {cursor : Nat}
    (h : cursor < 2 ^ 63 + 16) :
    Ensures (storedOffset r.data cursor) (s, r)
      (fun offset t => t = (s, r) ∧ offset.2 ≤ r.data.length)
      fun stop t => stop.IsError ∧ t.1.Sound := by
  rw [storedOffset, ensures_bind, ensures_addOrPanic (by omega), ensures_ite]
  refine ⟨fun _ => ⟨trivial, hs.1⟩, fun hStop => ?_⟩
  rw [ensures_ite]
  exact ⟨fun _ => ⟨trivial, hs.1⟩, fun _ => ⟨rfl, by dsimp only; omega⟩⟩

theorem readStoredHeader_safe : SafeDecoding LzxState.Sound (fun _ => True) readStoredHeader := by
  refine (reading_safe BitReader.alignToWord_safe).bind fun _ _ => ?_
  refine (reading_safe BitReader.alignedBytePosition_safe).bind fun position hPosition => ?_
  refine safe_get fun s hs => ?_
  obtain ⟨s, r⟩ := s
  have hLength : r.data.length < 2 ^ 63 := hs.2.length_lt
  dsimp only
  rw [ensures_bind]
  refine (storedOffset_ensures hs hPosition).mono ?_ fun _ _ h => h
  rintro ⟨r0, cursor⟩ _ ⟨rfl, hCursor⟩
  dsimp only at hCursor ⊢
  rw [ensures_bind]
  refine (storedOffset_ensures hs (by omega)).mono ?_ fun _ _ h => h
  rintro ⟨r1, cursor'⟩ _ ⟨rfl, hCursor'⟩
  dsimp only at hCursor' ⊢
  rw [ensures_bind]
  refine (storedOffset_ensures hs (by omega)).mono ?_ fun _ _ h => h
  rintro ⟨r2, cursor''⟩ _ ⟨rfl, hCursor''⟩
  dsimp only at hCursor'' ⊢
  rw [ensures_bind, modifyState, ensures_modify, reading, ensures_zoom, BitReader.resumeAt, ensures_modify]
  exact ⟨⟨{ hs.1 with }, BitReader.resumeAt_sound hs.2 (by dsimp only; omega)⟩, trivial⟩

theorem blockTypeOf_safe (code : Nat) : SafeDecoding G (fun _ => True) (blockTypeOf code) := by
  unfold blockTypeOf
  split
  · exact safe_pure trivial
  · exact safe_pure trivial
  · exact safe_pure trivial
  · exact decoding_error _

theorem readBlockHeader_safe : SafeDecoding LzxState.Sound (fun _ => True) readBlockHeader := by
  refine (reading_safe (BitReader.readBits_safe (by decide))).bind fun code _ => ?_
  refine Safe.bind (blockTypeOf_safe code) fun blockType _ => ?_
  refine Safe.bind (modifyState_safe fun s hs => ?_) fun _ _ => ?_
  · exact { hs with }
  refine (reading_safe BitReader.readU24_safe).bind fun size _ => ?_
  refine Safe.bind (modifyState_safe fun s hs => ?_) fun _ _ => ?_
  · exact { hs with }
  cases blockType with
  | aligned =>
    refine (reading_safe (readFields_safe (by decide))).bind fun aligned hAligned => ?_
    refine Safe.bind (new_safe (by rw [hAligned]; decide) fun _ hs => hs.1) fun table hTable => ?_
    refine Safe.bind (modifyState_safe ?_) fun _ _ => readMainAndLengthTrees_safe
    intro s hs
    exact { hs with alignedTable := fun t ht => Option.some.inj ht ▸ hTable }
  | verbatim => exact readMainAndLengthTrees_safe
  | uncompressed => exact readStoredHeader_safe

end Headers

section Tokens

variable {main : HuffmanTable} {lengthTable alignedTable : Option HuffmanTable} {G : LzxState → Prop}

theorem readMatchLength_safe (hLength : ∀ table, lengthTable = some table → table.Sound) {header : Nat}
    (hHeader : header < 8) : SafeDecoding G (0 < ·) (readMatchLength lengthTable header) := by
  refine Safe.ite (fun _ => ?_) fun _ => ?_
  · cases lengthTable with
    | none => exact decoding_error _
    | some table =>
      refine (reading_safe (BitReader.decode_safe (hLength table rfl))).bind fun length hValue => ?_
      refine (addOrPanic_safe (by omega)).bind fun length' hLength' => ?_
      exact (addOrPanic_safe (by omega)).mono fun sum hSum => by omega
  · exact (addOrPanic_safe (by omega)).mono fun sum hSum => by omega

theorem addFormatted_safe (base extra : Nat) : SafeDecoding G (fun _ => True) (addFormatted base extra) :=
  Safe.ite (fun _ => decoding_error _) fun _ => safe_pure trivial

theorem readExtraLength_safe :
    Safe BitReader.Sound BitReader.Dropped (· < 2 ^ 16) readExtraLength := by
  refine (BitReader.readBits_safe (by decide)).bind fun _ _ => Safe.ite (fun _ => ?_) fun _ => ?_
  · refine (BitReader.readBits_safe (by decide)).bind fun _ _ => Safe.ite (fun _ => ?_) fun _ => ?_
    · refine (BitReader.readBits_safe (by decide)).bind fun _ _ => Safe.ite (fun _ => ?_) fun _ => ?_
      · exact (BitReader.readBits_safe (by decide)).mono fun _ h => by omega
      · refine (BitReader.readBits_safe (by decide)).bind fun extra hExtra => ?_
        intro r hr
        rw [ensures_bind, ensures_addOrPanic (by omega), ensures_addOrPanic (by omega)]
        exact ⟨hr, by omega⟩
    · refine (BitReader.readBits_safe (by decide)).bind fun extra hExtra => ?_
      intro r hr
      rw [ensures_addOrPanic (by omega)]
      exact ⟨hr, by omega⟩
  · exact (BitReader.readBits_safe (by decide)).mono fun _ h => by omega

variable (hSound : ∀ s, G s → s.Sound)

include hSound

theorem readFormatted_safe (hAligned : ∀ table, alignedTable = some table → table.Sound) {slot : Nat}
    {s : LzxState} {r : BitReader} (hs : G s ∧ r.Sound) (hSlot : slot < s.positionSlots) :
    Ensures (readFormatted alignedTable slot) (s, r) (fun _ t => (G t.1 ∧ t.2.Sound) ∧ True)
      fun stop t => stop.IsError ∧ G t.1 := by
  have hFooter : slot < s.footerBits.length := by rw [(hSound s hs.1).footer_length]; exact hSlot
  have hBase : slot < s.basePosition.length := by rw [(hSound s hs.1).base_length]; exact hSlot
  have hWidth : s.footerBits[slot] ≤ 17 := (hSound s hs.1).footer_le _ (List.getElem_mem hFooter)
  rw [readFormatted, ensures_bind, ensures_get]
  dsimp only
  rw [ensures_bind, ensures_getOrPanic hFooter, ensures_ite]
  refine ⟨fun hCondition => ?_, fun _ => ?_⟩
  · rw [ensures_bind, ensures_subOrPanic (by omega)]
    refine (Safe.bind (reading_safe (BitReader.readBits_safe (by omega))) fun verbatim _ => ?_) (s, r) hs
    intro t ht
    rw [ensures_bind, ensures_shlOrPanic (by decide)]
    cases alignedTable with
    | none => exact decoding_error _ t ht
    | some table =>
      refine (Safe.bind (reading_safe (BitReader.decode_safe (hAligned table rfl))) fun aligned _ => ?_) t ht
      intro u hu
      rw [ensures_bind, ensures_getOrPanic hBase]
      exact ((addFormatted_safe _ _).bind fun sum _ => addFormatted_safe sum aligned) u hu
  · refine (Safe.bind (reading_safe (BitReader.readBits_safe hWidth)) fun verbatim _ => ?_) (s, r) hs
    intro t ht
    rw [ensures_bind, ensures_getOrPanic hBase]
    exact addFormatted_safe _ _ t ht

variable (hRepeats : ∀ (s : LzxState) (repeated : Repeated), G s → G { s with repeated := repeated })

include hRepeats

theorem readMatchOffset_safe (hAligned : ∀ table, alignedTable = some table → table.Sound) {slot : Nat}
    {s : LzxState} {r : BitReader} (hs : G s ∧ r.Sound) (hSlot : slot < s.positionSlots) :
    Ensures (readMatchOffset alignedTable slot) (s, r) (fun _ t => (G t.1 ∧ t.2.Sound) ∧ True)
      fun stop t => stop.IsError ∧ G t.1 := by
  have hRepeated (repeated : Repeated) (offset : Nat) : SafeDecoding G (fun _ => True) (do
      modifyState fun s => { s with repeated := repeated }
      return offset) :=
    Safe.bind (modifyState_safe fun s hs => hRepeats s repeated hs) fun _ _ => safe_pure trivial
  rw [readMatchOffset, ensures_bind, ensures_get]
  dsimp only
  rw [ensures_ite]
  refine ⟨fun _ => ⟨hs, trivial⟩, fun _ => ?_⟩
  rw [ensures_ite]
  refine ⟨fun _ => hRepeated _ _ (s, r) hs, fun _ => ?_⟩
  rw [ensures_ite]
  refine ⟨fun _ => hRepeated _ _ (s, r) hs, fun _ => ?_⟩
  rw [ensures_bind]
  refine (readFormatted_safe hSound hAligned hs hSlot).mono ?_ fun _ _ h => h
  rintro formatted t ⟨ht, -⟩
  exact (Safe.ite (fun _ => decoding_error _) fun _ => hRepeated _ _) t ht

def Token.Advances : Token → Prop
  | .literal _ => True
  | .copy _ length => 0 < length

theorem readToken_safe (hMain : main.Sound) (hLength : ∀ table, lengthTable = some table → table.Sound)
    (hAligned : ∀ table, alignedTable = some table → table.Sound) :
    SafeDecoding G Token.Advances (readToken main lengthTable alignedTable) := by
  refine (reading_safe (BitReader.decode_safe hMain)).bind fun element _ => ?_
  refine Safe.ite (fun _ => safe_pure trivial) fun hElement => ?_
  intro s hs
  rw [ensures_bind, ensures_subOrPanic (by omega)]
  generalize element - numChars = symbol
  have hHeader : symbol % 8 < 8 := Nat.mod_lt _ (by decide)
  refine (Safe.bind (readMatchLength_safe hLength hHeader) fun length hPositive => ?_) s hs
  refine safe_get fun t ht => ?_
  obtain ⟨t, r⟩ := t
  dsimp only
  rw [ensures_ite]
  refine ⟨fun _ => decoding_error _ _ ht, fun hSlot => ?_⟩
  have hLess : symbol / 8 < t.positionSlots := by omega
  rw [ensures_bind]
  refine (readMatchOffset_safe hSound hRepeats hAligned ht hLess).mono ?_ fun _ _ h => h
  rintro offset u ⟨hu, -⟩
  rw [ensures_ite]
  refine ⟨fun _ => ?_, fun _ => ⟨hu, hPositive⟩⟩
  rw [ensures_bind]
  refine (reading_safe readExtraLength_safe u hu).mono ?_ fun _ _ h => h
  rintro extra v ⟨hv, -⟩
  rw [ensures_ite]
  exact ⟨fun _ => decoding_error _ v hv, fun _ => ⟨hv, by simp only [Token.Advances]; omega⟩⟩

end Tokens

/-! ## The window -/

namespace Window

/-- A ring of `size` bytes, which holds at least one frame. -/
structure Sound (size : Nat) (w : Window) : Prop where
  length_eq : w.bytes.length = size
  mask_eq : w.mask + 1 = size
  position_lt : w.position < size
  frame_le : frameSize ≤ size
  size_le : size ≤ 2 ^ 21

variable {size : Nat}

/-- What a completed write of `count` bytes leaves. -/
structure Wrote (size : Nat) (w : Window) (count : Nat) (w' : Window) : Prop where
  sound : w'.Sound size
  total_eq : w'.total = w.total + count

theorem pushByte_ensures {w : Window} (h : w.Sound size) (hTotal : w.total + 1 < 2 ^ 64) (byte : UInt8)
    {E : Stop CabError → Window → Prop} : Ensures (pushByte byte) w (fun _ w' => w.Wrote size 1 w') E := by
  have hPosition := h.position_lt
  have hLength := h.length_eq
  have hSize := h.size_le
  have hMask := h.mask_eq
  simp only [pushByte, ensures_bind, ensures_get]
  rw [ensures_setOrPanic (by omega), ensures_addOrPanic (by omega), ensures_addOrPanic hTotal]
  refine ⟨⟨by simpa using hLength, hMask, ?_, h.frame_le, hSize⟩, rfl⟩
  exact lt_of_le_of_lt Nat.and_le_right (by omega)

theorem copyByte_ensures {w : Window} (h : w.Sound size) (hTotal : w.total + 1 < 2 ^ 64) {offset : Nat}
    (hOffset : offset ≤ size) {E : Stop CabError → Window → Prop} :
    Ensures (copyByte offset) w (fun _ w' => w.Wrote size 1 w') E := by
  have hPosition := h.position_lt
  have hLength := h.length_eq
  have hSize := h.size_le
  have hMask := h.mask_eq
  have hSource (source : Nat) : source &&& w.mask < w.bytes.length :=
    lt_of_le_of_lt Nat.and_le_right (by omega)
  rw [copyByte, ensures_bind, ensures_get, ensures_bind, ensures_addOrPanic (by omega), ensures_bind,
    ensures_subOrPanic (by omega), ensures_bind, ensures_getOrPanic (hSource _)]
  exact pushByte_ensures h hTotal _

theorem copyMatch_ensures {w : Window} (h : w.Sound size) {offset length : Nat}
    (hTotal : w.total + length < 2 ^ 64) :
    Ensures (copyMatch offset length) w (fun _ w' => w.Wrote size length w')
      fun stop w' => stop.IsError ∧ w' = w := by
  have hSize := h.length_eq
  rw [copyMatch, ensures_bind, ensures_get, ensures_ite]
  refine ⟨fun _ => ⟨trivial, rfl⟩, fun hOffset => ?_⟩
  refine ensures_forM (fun done w' => w.Wrote size done.length w') ?_ ⟨h, rfl⟩ ?_
  · rintro done index w' hPrefix ⟨hSound, hWritten⟩
    have hDone := hPrefix.length_le
    rw [List.length_append, List.length_singleton, List.length_range] at hDone
    refine (copyByte_ensures hSound (by omega) (by omega)).mono ?_ fun _ _ h => h
    rintro _ w'' ⟨hSound', hWritten'⟩
    refine ⟨hSound', ?_⟩
    rw [hWritten', hWritten, List.length_append, List.length_singleton, Nat.add_assoc]
  · intro w' hWrote
    rwa [List.length_range] at hWrote

end Window

/-! ## Frames -/

def FrameSound (size : Nat) (G : LzxState → Prop) (x : (LzxState × BitReader) × Window) : Prop :=
  (G x.1.1 ∧ x.1.2.Sound) ∧ x.2.Sound size

/-- A frame that failed: the state stays, and the window got at most the bytes up to `goal`. -/
def FrameKept (size : Nat) (G : LzxState → Prop) (goal : Nat) (x : (LzxState × BitReader) × Window) :
    Prop :=
  G x.1.1 ∧ x.2.Sound size ∧ x.2.total ≤ goal

section Frames

variable {α : Type} {P : α → Prop} {G : LzxState → Prop} {size goal : Nat}

theorem decoding_ensures {m : Decoding α} (h : SafeDecoding G P m) {x : (LzxState × BitReader) × Window}
    (hx : FrameSound size G x) (hTotal : x.2.total ≤ goal) :
    Ensures (decoding m) x (fun a y => FrameSound size G y ∧ y.2 = x.2 ∧ P a)
      fun stop y => stop.IsError ∧ FrameKept size G goal y := by
  rw [decoding, ensures_zoom]
  refine (h x.1 hx.1).mono ?_ ?_
  · rintro a t ⟨ht, ha⟩
    exact ⟨⟨ht, hx.2⟩, rfl, ha⟩
  · rintro stop t ⟨hError, ht⟩
    exact ⟨hError, ht, hx.2, hTotal⟩

theorem output_ensures {m : Machine (Stop CabError) Window Unit} {x : (LzxState × BitReader) × Window}
    {count : Nat} (hx : FrameSound size G x) (hTotal : x.2.total ≤ goal)
    (h : Ensures m x.2 (fun _ w => x.2.Wrote size count w) fun stop w => stop.IsError ∧ w = x.2) :
    Ensures (output m) x
      (fun _ y => FrameSound size G y ∧ y.1 = x.1 ∧ y.2.total = x.2.total + count)
      fun stop y => stop.IsError ∧ FrameKept size G goal y := by
  rw [output, ensures_zoom]
  refine h.mono ?_ ?_
  · rintro _ w ⟨hSound, hWritten⟩
    exact ⟨⟨hx.1, hSound⟩, rfl, hWritten⟩
  · rintro stop w ⟨hError, rfl⟩
    exact ⟨hError, hx.1.1, hx.2, hTotal⟩

variable (hSound : ∀ s, G s → s.Sound)
  (hRepeats : ∀ (s : LzxState) (repeated : Repeated), G s → G { s with repeated := repeated })

include hSound hRepeats

theorem decodeTokensWith_ensures {main : HuffmanTable} {lengthTable alignedTable : Option HuffmanTable}
    (hMain : main.Sound) (hLength : ∀ table, lengthTable = some table → table.Sound)
    (hAligned : ∀ table, alignedTable = some table → table.Sound) {todo : Nat}
    {x : (LzxState × BitReader) × Window} (hx : FrameSound size G x) (hGoal : x.2.total + todo = goal)
    (hLimit : goal < 2 ^ 63) :
    Ensures (decodeTokensWith todo main lengthTable alignedTable) x
      (fun _ y => FrameSound size G y ∧ y.2.total = goal) fun stop y => stop.IsError ∧ FrameKept size G goal y := by
  refine ensures_iterate (fun remaining y => FrameSound size G y ∧ y.2.total + remaining = goal)
    (fun remaining _ => remaining) ?_ _ _ _ ⟨hx, hGoal⟩ (by omega)
  rintro remaining y ⟨hy, hLeft⟩
  rw [decodeToken, ensures_ite]
  refine ⟨fun hPositive => ?_, fun hZero => ⟨hy, by omega⟩⟩
  rw [ensures_bind]
  refine (decoding_ensures (readToken_safe hSound hRepeats hMain hLength hAligned) hy (by omega)).mono ?_
    fun _ _ h => h
  rintro token z ⟨hz, hSame, hAdvances⟩
  cases token with
  | literal byte =>
    rw [ensures_bind]
    refine (output_ensures hz (by rw [hSame]; omega)
      (Window.pushByte_ensures hz.2 (by rw [hSame]; omega) byte)).mono ?_ fun _ _ h => h
    rintro _ u ⟨hu, -, hWritten⟩
    rw [ensures_bind, ensures_subOrPanic (by omega)]
    exact ⟨⟨hu, by rw [hWritten, hSame]; omega⟩, by omega⟩
  | copy offset length =>
    have hAdvances : 0 < length := hAdvances
    dsimp only
    rw [ensures_ite]
    refine ⟨fun _ => ⟨trivial, hz.1.1, hz.2, by rw [hSame]; omega⟩, fun hFits => ?_⟩
    rw [ensures_bind]
    refine (output_ensures hz (by rw [hSame]; omega)
      (Window.copyMatch_ensures hz.2 (by rw [hSame]; omega))).mono ?_ fun _ _ h => h
    rintro _ u ⟨hu, -, hWritten⟩
    rw [ensures_bind, ensures_subOrPanic (by omega)]
    exact ⟨⟨hu, by rw [hWritten, hSame]; omega⟩, by omega⟩

end Frames

section Spans

variable {size goal remaining : Nat} {blockType : BlockType}

/-- The state inside one block, whose remainder changes only after each span. -/
def LzxState.Within (remaining : Nat) (blockType : BlockType) (s : LzxState) : Prop :=
  s.Sound ∧ s.blockRemaining = remaining ∧ s.blockType = blockType

theorem decodeTokens_ensures {todo : Nat} {x : (LzxState × BitReader) × Window}
    (hx : FrameSound size (LzxState.Within remaining blockType) x) (hGoal : x.2.total + todo = goal)
    (hLimit : goal < 2 ^ 63) :
    Ensures (decodeTokens todo) x
      (fun _ y => FrameSound size (LzxState.Within remaining blockType) y ∧ y.2.total = goal)
      fun stop y => stop.IsError ∧ FrameKept size (LzxState.Within remaining blockType) goal y := by
  obtain ⟨⟨s, r⟩, w⟩ := x
  obtain ⟨⟨⟨hs, hRemaining, hType⟩, hr⟩, hw⟩ := hx
  rw [decodeTokens, ensures_bind, ensures_get]
  dsimp only at hs hRemaining hType hr hw hGoal ⊢
  split
  · exact ⟨trivial, ⟨hs, hRemaining, hType⟩, hw, by dsimp only; omega⟩
  · rename_i main hMain
    rw [ensures_bind, decoding, ensures_zoom, modifyState, ensures_modify, ensures_bind, ensures_attempt]
    have hMoved : FrameSound size (LzxState.Within remaining blockType)
        (({ s with mainTable := none, lengthTable := none, alignedTable := none }, r), w) :=
      ⟨⟨⟨{ hs with mainTable := by simp, lengthTable := by simp, alignedTable := by simp },
        hRemaining, hType⟩, hr⟩, hw⟩
    have hBack {t : LzxState} (ht : LzxState.Within remaining blockType t) :
        LzxState.Within remaining blockType { t with
          mainTable := some main
          lengthTable := s.lengthTable
          alignedTable := s.alignedTable } :=
      ⟨{ ht.1 with
        mainTable := fun table hTable => Option.some.inj hTable ▸ hs.mainTable main hMain
        lengthTable := hs.lengthTable
        alignedTable := hs.alignedTable }, ht.2⟩
    refine (decodeTokensWith_ensures (fun s hs => hs.1) (fun s repeated hs => ⟨{ hs.1 with }, hs.2⟩)
      (hs.mainTable main hMain) hs.lengthTable hs.alignedTable hMoved hGoal hLimit).mono ?_ ?_
    · rintro _ ⟨⟨t, r'⟩, w'⟩ ⟨⟨⟨ht, hr'⟩, hw'⟩, hTotal⟩
      rw [ensures_bind, decoding, ensures_zoom, modifyState, ensures_modify]
      exact ⟨⟨⟨hBack ht, hr'⟩, hw'⟩, hTotal⟩
    · rintro stop ⟨⟨t, r'⟩, w'⟩ ⟨hError, ht, hw', hTotal⟩
      rw [ensures_bind, decoding, ensures_zoom, modifyState, ensures_modify]
      exact ⟨hError, hBack ht, hw', hTotal⟩

theorem copyStored_ensures {todo : Nat} {x : (LzxState × BitReader) × Window}
    (hx : FrameSound size (LzxState.Within remaining blockType) x) (hGoal : x.2.total + todo = goal)
    (hLimit : goal < 2 ^ 63) :
    Ensures (copyStored todo) x
      (fun _ y => FrameSound size (LzxState.Within remaining blockType) y ∧ y.2.total = goal ∧
        y.1.2.bytePosition ≤ y.1.2.data.length)
      fun stop y => stop.IsError ∧ FrameKept size (LzxState.Within remaining blockType) goal y := by
  obtain ⟨⟨s, r⟩, w⟩ := x
  have hKept {y : (LzxState × BitReader) × Window} (h : y = ((s, r), w)) :
      FrameKept size (LzxState.Within remaining blockType) goal y := by
    subst h
    exact ⟨hx.1.1, hx.2, by dsimp only at hGoal ⊢; omega⟩
  rw [copyStored, ensures_bind, ensures_get]
  dsimp only at hGoal ⊢
  rw [ensures_ite]
  refine ⟨fun _ => ⟨trivial, hKept rfl⟩, fun _ => ?_⟩
  rw [ensures_ite]
  refine ⟨fun _ => ⟨trivial, hKept rfl⟩, fun _ => ?_⟩
  rw [ensures_ite]
  refine ⟨fun _ => ⟨trivial, hKept rfl⟩, fun hStored => ?_⟩
  rw [ensures_bind]
  have hLength : ((r.data.drop r.bytePosition).take todo).length = todo := by
    rw [List.length_take, List.length_drop]
    omega
  refine ensures_forM (fun done y => FrameSound size (LzxState.Within remaining blockType) y ∧
    y.1 = (s, r) ∧ y.2.total = w.total + done.length) ?_ ⟨hx, rfl, rfl⟩ ?_
  · rintro done byte y hPrefix ⟨hy, hSame, hTotal⟩
    have hDone := hPrefix.length_le
    rw [List.length_append, List.length_singleton, hLength] at hDone
    refine (output_ensures hy (by omega) (Window.pushByte_ensures hy.2 (by omega) byte)).mono ?_
      fun _ _ h => h
    rintro _ z ⟨hz, hSame', hTotal'⟩
    refine ⟨hz, hSame'.trans hSame, ?_⟩
    rw [hTotal', hTotal, List.length_append, List.length_singleton, Nat.add_assoc]
  · rintro ⟨⟨s', r'⟩, w'⟩ ⟨hy, hSame, hTotal⟩
    cases hSame
    dsimp only at hTotal
    rw [decoding, ensures_zoom, reading, ensures_zoom, BitReader.resumeAt, ensures_modify]
    refine ⟨⟨⟨hy.1.1, BitReader.resumeAt_sound hy.1.2 (by dsimp only; omega)⟩, hy.2⟩, ?_, ?_⟩
    · dsimp only
      omega
    · dsimp only
      omega

theorem startBlock_ensures {s : LzxState × BitReader} (hs : s.1.Sound ∧ s.2.Sound) :
    Ensures startBlock s (fun _ t => (t.1.Sound ∧ t.2.Sound) ∧ 0 < t.1.blockRemaining)
      fun stop t => stop.IsError ∧ t.1.Sound := by
  obtain ⟨s, r⟩ := s
  rw [startBlock, ensures_bind, ensures_get]
  dsimp only
  rw [ensures_ite]
  refine ⟨fun _ => ?_, fun hNonzero => ⟨hs, by dsimp only; omega⟩⟩
  rw [ensures_bind]
  refine (readBlockHeader_safe (s, r) hs).mono ?_ fun _ _ h => h
  rintro _ ⟨t, r'⟩ ⟨ht, -⟩
  rw [ensures_bind, ensures_get]
  dsimp only
  rw [ensures_ite]
  exact ⟨fun _ => ⟨trivial, ht.1⟩, fun hNonzero => ⟨ht, by dsimp only; omega⟩⟩

theorem finishStoredBlock_ensures {r : BitReader} (hr : r.Sound)
    (hPosition : r.bytePosition ≤ r.data.length) :
    Ensures finishStoredBlock r (fun _ t => t.Sound) fun stop t => stop.IsError ∧ t.Dropped := by
  have hLength := hr.length_lt
  rw [finishStoredBlock, ensures_bind, ensures_get, ensures_ite]
  refine ⟨fun _ => ?_, fun _ => hr⟩
  rw [ensures_bind, ensures_addOrPanic (by omega), BitReader.resumeAt, ensures_modify]
  exact BitReader.resumeAt_sound hr (by omega)

theorem finishSpan_ensures {todo : Nat} {s : LzxState × BitReader}
    (hs : s.1.Within remaining blockType ∧ s.2.Sound) (hTodo : todo ≤ remaining)
    (hPosition : blockType = .uncompressed → s.2.bytePosition ≤ s.2.data.length) :
    Ensures (finishSpan todo) s (fun _ t => t.1.Sound ∧ t.2.Sound)
      fun stop t => stop.IsError ∧ t.1.Sound := by
  obtain ⟨s, r⟩ := s
  obtain ⟨⟨hState, hRemaining, hType⟩, hr⟩ := hs
  dsimp only at hRemaining hType hr hState hPosition
  rw [finishSpan, ensures_bind, ensures_get]
  dsimp only
  rw [ensures_bind, ensures_subOrPanic (by omega), ensures_bind, modifyState, ensures_modify, ensures_ite]
  have hSpent : LzxState.Sound { s with blockRemaining := s.blockRemaining - todo } := { hState with }
  refine ⟨fun hStored => ?_, fun _ => ⟨hSpent, hr⟩⟩
  rw [reading, ensures_zoom]
  refine (finishStoredBlock_ensures hr (hPosition (hType.symm.trans hStored.2))).mono ?_ ?_
  · intro _ r' hr'
    exact ⟨hSpent, hr'⟩
  · rintro stop r' ⟨hError, -⟩
    exact ⟨hError, hSpent⟩

theorem decodeBytes_ensures {todo : Nat} {x : (LzxState × BitReader) × Window}
    (hx : FrameSound size (LzxState.Within remaining blockType) x) (hGoal : x.2.total + todo = goal)
    (hLimit : goal < 2 ^ 63) :
    Ensures (decodeBytes blockType todo) x
      (fun _ y => FrameSound size (LzxState.Within remaining blockType) y ∧ y.2.total = goal ∧
        (blockType = .uncompressed → y.1.2.bytePosition ≤ y.1.2.data.length))
      fun stop y => stop.IsError ∧ FrameKept size (LzxState.Within remaining blockType) goal y := by
  cases blockType with
  | uncompressed =>
    refine (copyStored_ensures hx hGoal hLimit).mono ?_ fun _ _ h => h
    rintro _ y ⟨hy, hTotal, hPosition⟩
    exact ⟨hy, hTotal, fun _ => hPosition⟩
  | verbatim =>
    refine (decodeTokens_ensures hx hGoal hLimit).mono ?_ fun _ _ h => h
    rintro _ y ⟨hy, hTotal⟩
    exact ⟨hy, hTotal, by simp⟩
  | aligned =>
    refine (decodeTokens_ensures hx hGoal hLimit).mono ?_ fun _ _ h => h
    rintro _ y ⟨hy, hTotal⟩
    exact ⟨hy, hTotal, by simp⟩

theorem readStreamHeader_safe : SafeDecoding LzxState.Sound (fun _ => True) readStreamHeader := by
  refine safe_get fun s hs => ?_
  obtain ⟨s, r⟩ := s
  dsimp only
  rw [ensures_ite]
  refine ⟨fun _ => ⟨hs, trivial⟩, fun _ => ?_⟩
  refine (Safe.bind (modifyState_safe (G := LzxState.Sound) fun s hs => ?_) fun _ _ => ?_) (s, r) hs
  · exact { hs with }
  refine (reading_safe (BitReader.readBits_safe (by decide))).bind fun translated _ => ?_
  refine Safe.ite (fun _ => ?_) fun _ => safe_pure trivial
  refine (reading_safe (BitReader.readBits_safe (by decide))).bind fun high _ => ?_
  refine (reading_safe (BitReader.readBits_safe (by decide))).bind fun low hLow => ?_
  intro t ht
  rw [ensures_bind, ensures_shlOrPanic (by decide)]
  refine modifyState_safe (G := LzxState.Sound) (fun s hs => ?_) t ht
  refine { hs with e8_lt := Nat.or_lt_two_pow (Nat.mod_lt _ (by decide)) ?_ }
  omega

theorem decodeSpan_ensures {expected produced : Nat} {x : (LzxState × BitReader) × Window}
    (hx : FrameSound size LzxState.Sound x) (hGoal : x.2.total + (expected - produced) = goal)
    (hProduced : produced ≤ expected) (hExpected : expected < 2 ^ 63) (hLimit : goal < 2 ^ 63) :
    Ensures (decodeSpan expected produced) x
      (fun next y => FrameSound size LzxState.Sound y ∧ match next with
        | some produced' => y.2.total + (expected - produced') = goal ∧ produced' ≤ expected ∧
          produced < produced'
        | none => y.2.total = goal)
      fun stop y => stop.IsError ∧ FrameKept size LzxState.Sound goal y := by
  rw [decodeSpan, ensures_ite]
  refine ⟨fun hMore => ?_, fun hDone => ⟨hx, by dsimp only; omega⟩⟩
  rw [ensures_bind, decoding, ensures_zoom]
  refine (startBlock_ensures hx.1).mono ?_ ?_
  · rintro _ ⟨t, r'⟩ ⟨ht, hPositive⟩
    rw [ensures_bind, ensures_get]
    dsimp only at ht hPositive ⊢
    have hInside : FrameSound size (LzxState.Within t.blockRemaining t.blockType) ((t, r'), x.2) :=
      ⟨⟨⟨ht.1, rfl, rfl⟩, ht.2⟩, hx.2⟩
    -- The span ends where the frame or the block ends.
    generalize hTodo : min (expected - produced) t.blockRemaining = todo
    have hTodoLe : todo ≤ t.blockRemaining := by omega
    have hSpan : ((t, r'), x.2).2.total + todo = x.2.total + todo := rfl
    rw [ensures_bind]
    refine (decodeBytes_ensures hInside hSpan (by omega)).mono ?_ ?_
    · rintro _ y ⟨hy, hTotal, hPosition⟩
      rw [ensures_bind, ensures_addOrPanic (by omega), ensures_bind, decoding, ensures_zoom]
      refine (finishSpan_ensures hy.1 hTodoLe hPosition).mono ?_ ?_
      · intro _ u hu
        exact ⟨⟨hu, hy.2⟩, by dsimp only; omega, by omega, by omega⟩
      · rintro stop u ⟨hError, hu⟩
        exact ⟨hError, hu, hy.2, by dsimp only; omega⟩
    · rintro stop y ⟨hError, hState, hWindow, hTotal⟩
      exact ⟨hError, hState.1, hWindow, by omega⟩
  · rintro stop t ⟨hError, ht⟩
    exact ⟨hError, ht, hx.2, by dsimp only; omega⟩

theorem decodeFrame_ensures {expected : Nat} {x : (LzxState × BitReader) × Window}
    (hx : FrameSound size LzxState.Sound x) (hGoal : x.2.total + expected = goal) (hLimit : goal < 2 ^ 63) :
    Ensures (decodeFrame expected) x
      (fun _ y => FrameSound size LzxState.Sound y ∧ y.2.total = goal)
      fun stop y => stop.IsError ∧ FrameKept size LzxState.Sound goal y := by
  rw [decodeFrame, ensures_bind]
  refine (decoding_ensures readStreamHeader_safe hx (by omega)).mono ?_ fun _ _ h => h
  rintro _ y ⟨hy, hSame, -⟩
  refine ensures_iterate (fun produced y => FrameSound size LzxState.Sound y ∧
    y.2.total + (expected - produced) = goal ∧ produced ≤ expected) (fun produced _ => expected - produced)
    ?_ _ _ _ ⟨hy, by rw [hSame]; omega, Nat.zero_le _⟩ (by omega)
  rintro produced z ⟨hz, hLeft, hProduced⟩
  refine (decodeSpan_ensures hz hLeft hProduced (by omega) hLimit).mono ?_ fun _ _ h => h
  rintro next u ⟨hu, hNext⟩
  cases next with
  | some produced' => exact ⟨⟨hu, hNext.1, hNext.2.1⟩, by omega⟩
  | none => exact ⟨hu, hNext⟩

end Spans

/-! ## The call translation -/

section Translation

theorem e8Displacement_ensures {chunkOffset fileSize : Nat} {index : Nat} {frame : List UInt8}
    (hOffset : chunkOffset + frame.length < 2 ^ 63) (hSize : fileSize < 2 ^ 32)
    (hIndex : index + 5 ≤ frame.length) {E : Stop CabError → List UInt8 → Prop} :
    Ensures (e8Displacement chunkOffset fileSize index) frame
      (fun _ frame' => frame'.length = frame.length) E := by
  rw [e8Displacement, ensures_bind, ensures_signedOrPanic (by constructor <;> omega), ensures_bind,
    ensures_get, ensures_bind, ensures_sliceOrPanic (by omega)]
  generalize hBytes : fromLe ((frame.drop (index + 1)).take (index + 5 - (index + 1))) = raw
  have hLow : -2 ^ 31 ≤ Int.bmod raw (2 ^ 32) := by
    have := Int.le_bmod (x := raw) (m := 2 ^ 32) (by decide)
    omega
  have hHigh : Int.bmod raw (2 ^ 32) < 2 ^ 31 := by
    have := Int.bmod_lt (x := raw) (m := 2 ^ 32) (by decide)
    omega
  generalize Int.bmod raw (2 ^ 32) = value at hLow hHigh
  rw [ensures_bind, ensures_signedOrPanic (by constructor <;> omega), ensures_ite]
  refine ⟨fun hRange => ?_, fun _ => rfl⟩
  have hTarget {Q : Int → List UInt8 → Prop} (hQ : ∀ target, Q target frame) :
      Ensures (e8Target value (chunkOffset + index) fileSize) frame Q E := by
    rw [e8Target, ensures_ite]
    constructor
    · intro _
      rw [ensures_signedOrPanic (by constructor <;> omega)]
      exact hQ _
    · intro _
      rw [ensures_signedOrPanic (by constructor <;> omega)]
      exact hQ _
  rw [ensures_bind]
  refine hTarget fun target => ?_
  rw [ensures_ite]
  refine ⟨fun _ => ?_, fun _ => rfl⟩
  rw [ensures_modify]
  simp only [List.length_append, List.length_take, List.length_drop, length_toLe]
  omega

-- A use of the lemma must not run the reads on an unknown frame.
attribute [local irreducible] e8Displacement

theorem e8Turn_ensures {chunkOffset fileSize limit index : Nat} {frame : List UInt8}
    (hOffset : chunkOffset + frame.length < 2 ^ 63) (hSize : fileSize < 2 ^ 32)
    (hLimit : limit + 10 = frame.length) {E : Stop CabError → List UInt8 → Prop} :
    Ensures (e8Turn chunkOffset fileSize limit index) frame
      (fun next frame' => frame'.length = frame.length ∧
        ∀ index', next = some index' → index < index' ∧ index < frame.length) E := by
  have hOne : index < limit → index + 1 < 2 ^ 64 := by omega
  have hFive : index < limit → index + 5 < 2 ^ 64 := by omega
  have hTurn (hIndex : index < limit) :
      Ensures (e8Displacement chunkOffset fileSize index) frame
        (fun _ frame' => frame'.length = frame.length) E :=
    e8Displacement_ensures hOffset hSize (by omega)
  rw [e8Turn, ensures_ite]
  constructor
  · intro hIndex
    rw [ensures_bind, ensures_get, ensures_bind, ensures_getOrPanic (by omega), ensures_ite]
    constructor
    · intro _
      rw [ensures_bind, ensures_addOrPanic (hOne hIndex)]
      refine ⟨rfl, fun index' hNext => ?_⟩
      cases hNext
      omega
    · intro _
      rw [ensures_ite]
      refine ⟨fun _ => ⟨rfl, by simp⟩, fun _ => ?_⟩
      rw [ensures_bind]
      apply (hTurn hIndex).mono
      · intro _ frame' hLength
        rw [ensures_bind, ensures_addOrPanic (hFive hIndex)]
        refine ⟨hLength, fun index' hNext => ?_⟩
        cases hNext
        omega
      · exact fun _ _ h => h
  · intro _
    exact ⟨rfl, by simp⟩

theorem e8Reverse_ensures {σ : Type} {s : σ} {frame : List UInt8} {chunkOffset fileSize : Nat}
    (hOffset : chunkOffset + frame.length < 2 ^ 63) (hSize : fileSize < 2 ^ 32)
    {E : Stop CabError → σ → Prop} :
    Ensures (e8Reverse frame chunkOffset fileSize) s
      (fun frame' t => t = s ∧ frame'.length = frame.length) E := by
  rw [e8Reverse, ensures_ite]
  refine ⟨fun _ => ⟨rfl, rfl⟩, fun hLong => ?_⟩
  rw [ensures_bind, ensures_subOrPanic (by omega), ensures_ite]
  refine ⟨fun _ => ⟨rfl, rfl⟩, fun _ => ?_⟩
  rw [ensures_onLocal]
  refine ensures_iterate (fun _ frame' => frame'.length = frame.length)
    (fun index _ => frame.length - index) ?_ _ _ _ rfl (by omega)
  intro index frame' hLength
  refine (e8Turn_ensures (by rwa [hLength]) hSize (by omega)).mono ?_ fun _ _ h => h
  rintro next frame'' ⟨hLength', hNext⟩
  cases next with
  | some index' => exact ⟨hLength'.trans hLength, by have := hNext index' rfl; omega⟩
  | none => exact ⟨rfl, hLength'.trans hLength⟩

end Translation

/-! ## The decoder -/

namespace LzxDecoder

/-- What holds between calls, which expected `spent` bytes so far. -/
structure Sound (size spent : Nat) (d : LzxDecoder) : Prop where
  state : d.state.Sound
  window : d.window.Sound size
  total_le : d.window.total ≤ spent
  frames_le : d.framesDone ≤ spent

variable {size spent : Nat}

theorem windowSpan_ensures {d : LzxDecoder} (h : d.window.Sound size) {frameStart expected : Nat}
    (hStart : frameStart < size) (hExpected : expected ≤ frameSize) {E : Stop CabError → LzxDecoder → Prop} :
    Ensures (windowSpan frameStart expected) d
      (fun frame d' => d' = d ∧ frame.length = expected) E := by
  have hLength := h.length_eq
  have hSize := h.size_le
  have hFrame := h.frame_le
  rw [windowSpan, ensures_bind, ensures_get, ensures_bind, ensures_subOrPanic (by omega)]
  generalize hFirst : min expected (d.window.bytes.length - frameStart) = first
  have hStop : frameStart + first < 2 ^ 64 := by omega
  rw [ensures_bind, ensures_addOrPanic hStop, ensures_bind, ensures_sliceOrPanic (by omega), ensures_ite]
  constructor
  · intro hWraps
    rw [ensures_bind, ensures_subOrPanic (by omega), ensures_bind, ensures_sliceOrPanic (by omega)]
    refine ⟨rfl, ?_⟩
    simp only [List.length_append, List.length_take, List.length_drop]
    omega
  · intro hWhole
    refine ⟨rfl, ?_⟩
    simp only [List.length_take, List.length_drop]
    omega

theorem decodeRaw_ensures {call : Call} {d : LzxDecoder} (h : d.Sound size spent)
    (hExpected : call.expected ≤ frameSize) (hLimit : spent + call.expected < 2 ^ 63) :
    Ensures (decodeRaw call) d
      (fun frame d' => d'.Sound size (spent + call.expected) ∧ d'.framesDone ≤ spent ∧
        d'.window.total = d.window.total + call.expected ∧ frame.length = call.expected)
      fun stop d' => stop.IsError ∧ d'.Sound size (spent + call.expected) := by
  have hTotal := h.total_le
  have hFrames := h.frames_le
  rw [decodeRaw, ensures_bind, ensures_get, ensures_bind, inFrame, ensures_zoom]
  have hFrame : FrameSound size LzxState.Sound ((d.state, BitReader.new call.input), d.window) :=
    ⟨⟨h.state, BitReader.new_sound call.input_lt⟩, h.window⟩
  have hGoal : d.window.total + call.expected < 2 ^ 63 := by omega
  apply (decodeFrame_ensures hFrame rfl hGoal).mono
  · rintro _ y ⟨hy, hDone⟩
    dsimp only at hDone
    have hAfter : Sound size (spent + call.expected) { d with state := y.1.1, window := y.2 } := by
      constructor
      · exact hy.1.1
      · exact hy.2
      · dsimp only
        omega
      · dsimp only
        omega
    rw [ensures_ite]
    refine ⟨fun _ => ?_, fun _ => ⟨trivial, hAfter⟩⟩
    apply (windowSpan_ensures hy.2 h.window.position_lt hExpected).mono
    · rintro frame _ ⟨rfl, hLength⟩
      exact ⟨hAfter, hFrames, hDone, hLength⟩
    · exact fun _ _ h => h
  · rintro stop y ⟨hError, hState, hWindow, hDone⟩
    refine ⟨hError, hState, hWindow, ?_, ?_⟩
    · dsimp only at hDone ⊢
      omega
    · dsimp only
      omega

theorem translate_ensures {expected : Nat} {frame : List UInt8} {d : LzxDecoder} (h : d.Sound size spent)
    (hTotal : expected ≤ d.window.total) (hLength : frame.length = expected) (hLimit : spent < 2 ^ 63)
    {E : Stop CabError → LzxDecoder → Prop} :
    Ensures (translate expected frame) d (fun frame' d' => d' = d ∧ frame'.length = frame.length) E := by
  have hSpent := h.total_le
  rw [translate, ensures_bind, ensures_get, ensures_ite]
  refine ⟨fun _ => ?_, fun _ => ⟨rfl, rfl⟩⟩
  rw [ensures_bind, ensures_subOrPanic hTotal]
  have hOffset : d.window.total - expected + frame.length < 2 ^ 63 := by omega
  exact e8Reverse_ensures hOffset h.state.e8_lt

theorem Sound.mono {spent' : Nat} {d : LzxDecoder} (h : d.Sound size spent) (hSpent : spent ≤ spent') :
    d.Sound size spent' :=
  { h with total_le := h.total_le.trans hSpent, frames_le := h.frames_le.trans hSpent }

theorem decodeBlock_ensures {d : LzxDecoder} (h : d.Sound size spent) (hLimit : spent + frameSize < 2 ^ 63)
    (call : Call) :
    Ensures (decodeBlock call) d (fun _ d' => d'.Sound size (spent + frameSize))
      fun stop d' => stop.IsError ∧ d'.Sound size (spent + frameSize) := by
  rw [decodeBlock, ensures_ite]
  refine ⟨fun _ => ⟨trivial, h.mono (Nat.le_add_right _ _)⟩, fun hExpected => ?_⟩
  rw [ensures_ite]
  refine ⟨fun _ => h.mono (Nat.le_add_right _ _), fun hPositive => ?_⟩
  have hSpent : spent + call.expected ≤ spent + frameSize := by omega
  rw [ensures_bind]
  apply (decodeRaw_ensures h (Nat.le_of_not_lt hExpected) (by omega)).mono
  · rintro raw d' ⟨hd', hFrames, hTotal, hLength⟩
    rw [ensures_bind]
    have hWritten : call.expected ≤ d'.window.total := by omega
    apply (translate_ensures hd' hWritten hLength (by omega)).mono
    · rintro frame d'' ⟨rfl, -⟩
      have hDone : d''.framesDone + 1 < 2 ^ 64 := by omega
      rw [ensures_bind, ensures_get, ensures_bind, ensures_addOrPanic hDone, ensures_bind, ensures_modify]
      refine Sound.mono ?_ hSpent
      exact { hd' with frames_le := by dsimp only; omega }
    · exact fun _ _ h => h
  · rintro stop d' ⟨hError, hd'⟩
    exact ⟨hError, hd'.mono hSpent⟩

/-- A call that returned: bytes or an error, not a failed check. -/
def Returned (result : Except (Stop CabError) (List UInt8)) : Prop :=
  ∀ stop, result = .error stop → stop.IsError

theorem run_returned {calls : List Call} {d : LzxDecoder} (h : d.Sound size spent)
    (hLimit : spent + calls.length * frameSize < 2 ^ 63) : ∀ result ∈ (run calls d).1, Returned result := by
  induction calls generalizing d spent with
  | nil => simp [run]
  | cons call calls ih =>
    rw [List.length_cons, Nat.succ_mul] at hLimit
    have hCall := decodeBlock_ensures h (by omega) call
    rw [run]
    rcases hExec : (decodeBlock call).exec d with ⟨result, d'⟩
    -- The next call meets a whole decoder after an error too.
    have hAfter : d'.Sound size (spent + frameSize) ∧ Returned result := by
      cases result with
      | ok frame => exact ⟨hCall.of_ok hExec, fun stop h => by cases h⟩
      | error stop =>
        have hStop := hCall.of_error hExec
        refine ⟨hStop.2, fun stop' h => ?_⟩
        cases h
        exact hStop.1
    intro later hLater
    rcases List.mem_cons.mp hLater with rfl | hLater
    · exact hAfter.2
    · exact ih hAfter.1 (by omega) later hLater

/-! ### The two largest windows -/

theorem slotTables_ensures {σ : Type} {s : σ} {slots : Nat} (hSlots : slots ≤ 42)
    {E : Stop CabError → σ → Prop} :
    Ensures (slotTables slots) s
      (fun tables s' => s' = s ∧ tables.base.length = slots ∧ tables.footer = (List.range slots).map slotBits)
      E := by
  refine ensures_foldlM (fun done tables s' => s' = s ∧ tables.base.length = done.length ∧
    tables.footer = done.map slotBits) ?_ ⟨rfl, rfl, rfl⟩ ?_
  · rintro done slot tables s' hPrefix ⟨rfl, hBase, hFooter⟩
    have hMem : slot ∈ List.range slots := hPrefix.subset (by simp)
    have hBits : slotBits slot < 32 := by
      have := List.mem_range.mp hMem
      rw [slotBits]
      split <;> omega
    rw [addSlot, ensures_bind, ensures_shlOrPanic hBits]
    exact ⟨rfl, by simp [hBase], by simp [hFooter]⟩
  · rintro tables s' ⟨rfl, hBase, hFooter⟩
    exact ⟨rfl, by simpa using hBase, hFooter⟩

theorem slotBits_le {slot : Nat} (h : slot < 38) : slotBits slot ≤ 17 := by
  rw [slotBits]
  split <;> omega

theorem create_ensures (windowBits limit : Nat) :
    Ensures (create windowBits limit) ()
      (fun d _ => (minWindowBits ≤ windowBits ∧ windowBits ≤ maxWindowBits ∧ windowBits ≤ limit) ∧
        (windowBits ≤ 19 → d.Sound (2 ^ windowBits) 0))
      fun stop _ => stop.IsError := by
  rw [create, ensures_ite]
  refine ⟨fun _ => trivial, fun hBits => ?_⟩
  have hMin : minWindowBits ≤ windowBits := by omega
  have hMax : windowBits ≤ maxWindowBits := by omega
  have hLarge : windowBits ≤ 21 := hMax
  rw [ensures_bind, ensures_shlOrPanic (by omega), ensures_bind]
  apply (slotTables_ensures (by omega)).mono
  · rintro tables _ ⟨rfl, hBase, hFooter⟩
    have hWindow : 1 * 2 ^ windowBits % 2 ^ 64 = 2 ^ windowBits := by
      rw [Nat.one_mul, Nat.mod_eq_of_lt (Nat.pow_lt_pow_right (by decide) (by omega))]
    have hPositive : 0 < 2 ^ windowBits := Nat.two_pow_pos _
    rw [hWindow, ensures_bind, ensures_subOrPanic (by omega)]
    refine ⟨by omega, fun hSmall => ⟨?_, ?_, Nat.le_refl _, Nat.le_refl _⟩⟩
    · constructor
      · dsimp only
        omega
      · exact hBase
      · dsimp only
        rw [hFooter, List.length_map, List.length_range]
      · intro footer hMem
        dsimp only at hMem
        rw [hFooter] at hMem
        obtain ⟨slot, hSlot, rfl⟩ := List.mem_map.mp hMem
        exact slotBits_le (by have := List.mem_range.mp hSlot; omega)
      · exact List.length_replicate
      · intro length hMem
        rw [List.eq_of_mem_replicate hMem]
        omega
      · exact List.length_replicate
      · intro length hMem
        rw [List.eq_of_mem_replicate hMem]
        omega
      · simp
      · simp
      · simp
      · exact Nat.two_pow_pos _
    · constructor
      · exact List.length_replicate
      · exact Nat.sub_add_cancel hPositive
      · exact hPositive
      · calc frameSize = 2 ^ minWindowBits := by decide
          _ ≤ 2 ^ windowBits := Nat.pow_le_pow_right (by decide) hMin
      · exact Nat.pow_le_pow_right (by decide) hLarge
  · exact fun _ _ h => h

theorem new_ensures {windowBits limit : Nat} {d : LzxDecoder} (h : new windowBits limit = .ok d) :
    (minWindowBits ≤ windowBits ∧ windowBits ≤ maxWindowBits ∧ windowBits ≤ limit) ∧
      (windowBits ≤ 19 → d.Sound (2 ^ windowBits) 0) := by
  have hCreate := create_ensures windowBits limit
  rcases hExec : (create windowBits limit).exec () with ⟨result, u⟩
  rw [new, hExec] at h
  subst h
  exact hCreate.of_ok hExec

theorem new_limit {windowBits limit : Nat} (h : windowBits ≤ limit) :
    new windowBits limit = new windowBits windowBits := by
  rw [new, create, new, create]
  simp only [Nat.not_lt.mpr h, Nat.lt_irrefl]

def slot38Call : Call where
  input := [0, 16, 32, 0, 0, 0, 0, 0, 0, 0, 0, 0, 7, 1, 125, 223, 0, 243, 0, 0, 0, 0, 0, 0, 0, 0, 16, 34, 247,
    125, 125, 223, 176, 219, 0, 0, 0, 0, 0, 0, 0, 0, 7, 1, 125, 223, 64, 246]
  expected := 2
  reserves := true
  input_lt := by decide

def slot38CallLarge : Call where
  input := slot38Call.input.set 33 216
  expected := 2
  reserves := true
  input_lt := by decide

def stopOf : Except (Stop CabError) (List UInt8) → Option (Stop CabError)
  | .ok _ => none
  | .error stop => some stop

def firstCall (windowBits : Nat) (call : Call) : Except (Stop CabError) (List UInt8) := do
  let d ← new windowBits windowBits
  ((decodeBlock call).exec d).1

theorem slot38Call_panics : stopOf (firstCall 20 slot38Call) = some .panic := by decide +kernel

theorem slot38CallLarge_panics : stopOf (firstCall 21 slot38CallLarge) = some .panic := by decide +kernel

theorem not_returned_of_firstCall {windowBits limit : Nat} {d : LzxDecoder} {call : Call}
    (h : new windowBits limit = .ok d) (hPanics : stopOf (firstCall windowBits call) = some .panic) :
    ∃ result ∈ (run [call] d).1, ¬ Returned result := by
  have hBits := (new_ensures h).1
  have hNew : new windowBits windowBits = .ok d := by rw [← new_limit hBits.2.2, h]
  have hFirst : firstCall windowBits call = ((decodeBlock call).exec d).1 := by
    rw [firstCall, hNew]
    rfl
  refine ⟨((decodeBlock call).exec d).1, by simp [run], fun hReturned => ?_⟩
  rw [hFirst] at hPanics
  cases hResult : ((decodeBlock call).exec d).1 with
  | ok frame => simp [hResult, stopOf] at hPanics
  | error stop =>
    rw [hResult, stopOf, Option.some.injEq] at hPanics
    rw [hPanics] at hResult
    exact hReturned _ hResult

/-- No check of the decoder fails in any run, also after errors, exactly for the
windows of up to 2^19 bytes. No run reaches the bound on its length. -/
theorem decoder_returns_iff {windowBits limit : Nat} {d : LzxDecoder} (h : new windowBits limit = .ok d) :
    (∀ calls : List Call, calls.length < 2 ^ 48 → ∀ result ∈ (run calls d).1, Returned result) ↔
      windowBits ≤ 19 := by
  obtain ⟨⟨-, hMax, -⟩, hSound⟩ := new_ensures h
  constructor
  · intro hReturned
    by_contra hLarge
    have hCases : windowBits = 20 ∨ windowBits = 21 := by
      have hMax : windowBits ≤ 21 := hMax
      omega
    have hFails : ∃ call, ∃ result ∈ (run [call] d).1, ¬ Returned result := by
      rcases hCases with rfl | rfl
      · exact ⟨_, not_returned_of_firstCall h slot38Call_panics⟩
      · exact ⟨_, not_returned_of_firstCall h slot38CallLarge_panics⟩
    obtain ⟨call, result, hMem, hNot⟩ := hFails
    exact hNot (hReturned [call] (by simp) result hMem)
  · intro hSmall calls hLength
    apply run_returned (hSound hSmall)
    rw [frameSize]
    omega

/-- The smallest window, over two calls of which the first fails. -/
theorem decoder_returns_iff_smallest : ∃ d, new 15 21 = .ok d ∧
    ∀ result ∈ (run [⟨[], 1, true, by decide⟩, slot38Call] d).1, Returned result := by
  rcases h : new 15 21 with stop | d
  · have hFails : (match new 15 21 with | .ok _ => true | .error _ => false) = true := by decide +kernel
    rw [h] at hFails
    cases hFails
  · exact ⟨d, rfl, (decoder_returns_iff h).mpr (by decide) _ (by simp)⟩

/-- A 2^20-byte window and one call whose match asks for 18 bits at once. -/
theorem decoder_panics_at_slot38 : ∃ d, new 20 21 = .ok d ∧
    ∃ result ∈ (run [slot38Call] d).1, ¬ Returned result := by
  rcases h : new 20 21 with stop | d
  · have hFails : (match new 20 21 with | .ok _ => true | .error _ => false) = true := by decide +kernel
    rw [h] at hFails
    cases hFails
  · exact ⟨d, rfl, not_returned_of_firstCall h slot38Call_panics⟩

end LzxDecoder

end OpenHalfLife.Cab
