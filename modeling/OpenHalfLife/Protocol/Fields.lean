import OpenHalfLife.Protocol.Messages

/-! # What a payload reader consumed and a payload writer produced

A successful read is a statement about the bytes in front of the reader, and
determines them; a write replaces the next bytes of the destination.
-/

namespace OpenHalfLife.Protocol

open Machine

set_option autoImplicit false

namespace PayloadReader

variable {reader reader' reader'' : PayloadReader} {bytes bytes' : List UInt8}

def rest (reader : PayloadReader) : List UInt8 := reader.payload.drop reader.position

/-- `reader'` is `reader` after it consumed `bytes`. -/
structure Advances (reader : PayloadReader) (bytes : List UInt8) (reader' : PayloadReader) : Prop where
  error : reader.error = none
  error' : reader'.error = none
  payload_eq : reader'.payload = reader.payload
  rest_eq : reader.rest = bytes ++ reader'.rest

theorem eq_of_rest_eq (hPayload : reader.payload = reader'.payload) (hError : reader.error = reader'.error)
    (hRest : reader.rest = reader'.rest) : reader = reader' := by
  obtain ⟨payload, position, error, hPosition⟩ := reader
  obtain ⟨payload', position', error', hPosition'⟩ := reader'
  dsimp only at hPayload hError
  subst hPayload hError
  have hLength := congrArg List.length hRest
  simp only [rest, List.length_drop] at hLength
  have hSame : position = position' := by omega
  subst hSame
  rfl

theorem Advances.unique (h : reader.Advances bytes reader') (h' : reader.Advances bytes reader'') :
    reader' = reader'' := by
  apply eq_of_rest_eq
  · rw [h.payload_eq, h'.payload_eq]
  · rw [h.error', h'.error']
  · exact List.append_cancel_left (h.rest_eq.symm.trans h'.rest_eq)

theorem advances_nil (h : reader.error = none) : reader.Advances [] reader' ↔ reader' = reader := by
  constructor
  · intro hAdvances
    exact hAdvances.unique ⟨h, h, rfl, rfl⟩
  · rintro rfl
    exact ⟨h, h, rfl, rfl⟩

variable (bytes) in
theorem exists_advances (tail : List UInt8) (h : reader.error = none) (hRest : reader.rest = bytes ++ tail) :
    ∃ reader', reader.Advances bytes reader' ∧ reader'.rest = tail := by
  have hLength := congrArg List.length hRest
  have hPosition := reader.position_le
  simp only [rest, List.length_drop, List.length_append] at hLength
  have hTail : reader.payload.drop (reader.position + bytes.length) = tail := by
    rw [← List.drop_drop]
    exact (congrArg (List.drop bytes.length) hRest).trans List.drop_left
  refine ⟨⟨reader.payload, reader.position + bytes.length, none, by omega⟩, ⟨h, rfl, rfl, ?_⟩, hTail⟩
  exact hRest.trans (congrArg (bytes ++ ·) hTail.symm)

theorem advances_append :
    reader.Advances (bytes ++ bytes') reader'' ↔
      ∃ reader', reader.Advances bytes reader' ∧ reader'.Advances bytes' reader'' := by
  constructor
  · rintro ⟨hError, hError'', hPayload, hRest⟩
    rw [List.append_assoc] at hRest
    obtain ⟨reader', hAdvances, hTail⟩ := exists_advances _ _ hError hRest
    exact ⟨reader', hAdvances, hAdvances.error', hError'', by rw [hPayload, hAdvances.payload_eq], hTail⟩
  · rintro ⟨reader', h, h'⟩
    refine ⟨h.error, h'.error', by rw [h'.payload_eq, h.payload_eq], ?_⟩
    rw [h.rest_eq, h'.rest_eq, List.append_assoc]

theorem take_eq_ok_iff {size : Nat} :
    (take size).exec reader = (.ok bytes, reader') ↔ reader.Advances bytes reader' ∧ bytes.length = size := by
  have hPosition := reader.position_le
  rw [take, exec_ofFun]
  constructor
  · intro h
    split at h
    · cases h
    rename_i hError
    split at h
    · cases h
    rename_i hFits
    cases h
    refine ⟨⟨hError, hError, rfl, ?_⟩, ?_⟩
    · rw [rest, rest, ← List.drop_drop]
      exact (List.take_append_drop size _).symm
    · rw [List.length_take, List.length_drop]
      omega
  · rintro ⟨hAdvances, rfl⟩
    have hLength := congrArg List.length hAdvances.rest_eq
    simp only [rest, List.length_drop, List.length_append] at hLength
    simp only [hAdvances.error]
    rw [dif_neg (by omega)]
    have hBytes : (reader.payload.drop reader.position).take bytes.length = bytes :=
      (congrArg (List.take bytes.length) hAdvances.rest_eq).trans List.take_left
    rw [hBytes]
    congr 1
    apply Advances.unique ?_ hAdvances
    refine ⟨hAdvances.error, rfl, rfl, ?_⟩
    rw [rest, rest, ← List.drop_drop]
    exact ((congrArg₂ (· ++ ·) hBytes rfl).symm.trans (List.take_append_drop _ _)).symm

section Words

variable {wide : UInt64} {narrow : UInt16}

theorem readU16_eq_ok_iff :
    readU16.exec reader = (.ok narrow, reader') ↔ reader.Advances (toLe 2 narrow.toNat) reader' := by
  rw [readU16, exec_bind_eq_ok]
  constructor
  · rintro ⟨bytes, s, hTake, hPure⟩
    obtain ⟨hAdvances, hLength⟩ := take_eq_ok_iff.mp hTake
    cases hPure
    rwa [← toLe_uint16_iff.mpr ⟨hLength, rfl⟩]
  · intro h
    refine ⟨_, reader', take_eq_ok_iff.mpr ⟨h, length_toLe _ _⟩, ?_⟩
    rw [exec_pure, (toLe_uint16_iff.mp rfl).2]

theorem readU64_eq_ok_iff :
    readU64.exec reader = (.ok wide, reader') ↔ reader.Advances (toLe 8 wide.toNat) reader' := by
  rw [readU64, exec_bind_eq_ok]
  constructor
  · rintro ⟨bytes, s, hTake, hPure⟩
    obtain ⟨hAdvances, hLength⟩ := take_eq_ok_iff.mp hTake
    cases hPure
    rwa [← toLe_uint64_iff.mpr ⟨hLength, rfl⟩]
  · intro h
    refine ⟨_, reader', take_eq_ok_iff.mpr ⟨h, length_toLe _ _⟩, ?_⟩
    rw [exec_pure, (toLe_uint64_iff.mp rfl).2]

end Words

theorem finish_eq_ok_iff {u : Unit} :
    finish.exec reader = (.ok u, reader') ↔ reader' = reader ∧ reader.error = none ∧ reader.rest = [] := by
  have hPosition := reader.position_le
  have hRest : reader.rest = [] ↔ reader.position = reader.payload.length := by
    rw [rest, List.drop_eq_nil_iff]
    omega
  rw [finish, exec_ofFun, hRest]
  cases hError : reader.error with
  | some error => simp
  | none =>
    by_cases hEnd : reader.position = reader.payload.length
    · simp [hEnd, eq_comm]
    · simp [hEnd]

theorem rest_new (payload : List UInt8) : (new payload).rest = payload := rfl

theorem error_new {payload : List UInt8} :
    (new payload).error = none ↔ payload.length ≤ maximumFramePayloadBytes := by
  rw [new]
  simp

end PayloadReader

/-! ## Destinations -/

/-- `PayloadWriter` with the destination it writes into. -/
structure BufferWriter where
  destination : List UInt8
  capacity : Nat
  position : Nat
  error : Option ProtocolError
  deriving DecidableEq

namespace BufferWriter

abbrev BufferWrite := Machine ProtocolError BufferWriter

def new (destination : List UInt8) : BufferWriter where
  destination := destination
  capacity := min destination.length maximumFramePayloadBytes
  position := 0
  error := none

/-- Returns where the next `size` bytes go. -/
def reserve (size : Nat) : BufferWrite Nat := .ofFun fun writer =>
  match writer.error with
  | some error => (.error error, writer)
  | none =>
    if size > writer.capacity - writer.position then
      (.error .outputTooSmall, { writer with error := some .outputTooSmall })
    else (.ok writer.position, { writer with position := writer.position + size })

def writeBytes (value : List UInt8) : BufferWrite Unit := do
  let start ← reserve value.length
  modify fun writer => { writer with
    destination := writer.destination.take start ++ value ++
      writer.destination.drop (start + value.length) }

def writeU16 (value : UInt16) : BufferWrite Unit := writeBytes (toLe 2 value.toNat)

def writeU64 (value : UInt64) : BufferWrite Unit := writeBytes (toLe 8 value.toNat)

/-- The writer after its next bytes became `bytes`. -/
def wrote (writer : BufferWriter) (bytes : List UInt8) : BufferWriter where
  destination := writer.destination.take writer.position ++ bytes ++
    writer.destination.drop (writer.position + bytes.length)
  capacity := writer.capacity
  position := writer.position + bytes.length
  error := writer.error

/-- A writer with room for `size` more bytes. -/
structure Fits (writer : BufferWriter) (size : Nat) : Prop where
  error : writer.error = none
  size_le : writer.position + size ≤ writer.capacity
  capacity_le : writer.capacity ≤ writer.destination.length

variable {writer : BufferWriter} {bytes bytes' : List UInt8}

theorem writeBytes_exec (h : writer.Fits bytes.length) :
    (writeBytes bytes).exec writer = (.ok (), writer.wrote bytes) := by
  have hSize := h.size_le
  rw [writeBytes, exec_bind, reserve, exec_ofFun]
  simp only [h.error]
  rw [if_neg (by omega), wrote, h.error]
  rfl

theorem Fits.wrote {size : Nat} (h : writer.Fits (bytes.length + size)) : (writer.wrote bytes).Fits size := by
  have hSize := h.size_le
  have hCapacity := h.capacity_le
  refine ⟨h.error, by rw [BufferWriter.wrote]; dsimp only; omega, ?_⟩
  simp only [BufferWriter.wrote, List.length_append, List.length_take, List.length_drop]
  omega

theorem Fits.mono {size size' : Nat} (h : writer.Fits size) (hSize : size' ≤ size) : writer.Fits size' :=
  ⟨h.error, by have := h.size_le; omega, h.capacity_le⟩

theorem wrote_wrote (h : writer.Fits (bytes.length + bytes'.length)) :
    (writer.wrote bytes).wrote bytes' = writer.wrote (bytes ++ bytes') := by
  have hSize := h.size_le
  have hCapacity := h.capacity_le
  have hStart : (writer.destination.take writer.position).length = writer.position := by
    rw [List.length_take]
    omega
  simp only [wrote, List.length_append, Nat.add_assoc]
  congr 1
  have hHead : (writer.destination.take writer.position ++ bytes ++
      writer.destination.drop (writer.position + bytes.length)).take (writer.position + bytes.length) =
      writer.destination.take writer.position ++ bytes := by
    apply List.take_left'
    rw [List.length_append, hStart]
  have hTail : (writer.destination.take writer.position ++ bytes ++
      writer.destination.drop (writer.position + bytes.length)).drop
        (writer.position + (bytes.length + bytes'.length)) =
      writer.destination.drop (writer.position + (bytes.length + bytes'.length)) := by
    rw [← Nat.add_assoc, ← List.drop_drop, List.drop_left' (by rw [List.length_append, hStart]),
      List.drop_drop]
  rw [hHead, hTail]
  simp only [List.append_assoc]

/-- A schema that writes exactly `bytes`. -/
def Writes (m : BufferWrite Unit) (bytes : List UInt8) : Prop :=
  ∀ writer : BufferWriter, writer.Fits bytes.length → m.exec writer = (.ok (), writer.wrote bytes)

theorem writes_bytes (bytes : List UInt8) : Writes (writeBytes bytes) bytes := fun _ => writeBytes_exec

theorem Writes.bind {m n : BufferWrite Unit} (hm : Writes m bytes) (hn : Writes n bytes') :
    Writes (m >>= fun _ => n) (bytes ++ bytes') := by
  intro writer h
  rw [List.length_append] at h
  rw [exec_bind, hm writer (h.mono (Nat.le_add_right _ _))]
  dsimp only
  rw [hn _ h.wrote, wrote_wrote h]

theorem writes_pure : Writes (pure ()) [] := by
  intro writer h
  rw [exec_pure, wrote]
  simp

theorem Writes.forM {α : Type} {f : α → BufferWrite PUnit} {image : α → List UInt8} {values : List α}
    (h : ∀ value ∈ values, Writes (f value) (image value)) : Writes (values.forM f) (values.flatMap image) := by
  induction values with
  | nil => exact writes_pure
  | cons value values ih =>
    rw [List.flatMap_cons]
    exact (h value List.mem_cons_self).bind (ih fun v hv => h v (List.mem_cons_of_mem _ hv))

theorem Writes.exec_new {m : BufferWrite Unit} (h : Writes m bytes) {destination : List UInt8}
    (hLength : destination.length = bytes.length) (hSize : bytes.length ≤ maximumFramePayloadBytes) :
    (m.exec (new destination)).1 = .ok () ∧ (m.exec (new destination)).2.destination = bytes := by
  have hFits : (new destination).Fits bytes.length := by
    refine ⟨rfl, ?_, Nat.min_le_left _ _⟩
    rw [new, hLength]
    dsimp only
    omega
  rw [h _ hFits]
  refine ⟨rfl, ?_⟩
  simp only [wrote, new, List.take_zero, List.nil_append, Nat.zero_add]
  rw [← hLength, List.drop_length, List.append_nil]

end BufferWriter

end OpenHalfLife.Protocol
