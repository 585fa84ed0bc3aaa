import OpenHalfLife.Protocol.BatchCodec

/-! # The encoders and decoders of a running request

Each message has one image, and both directions are read off it: an encoder
that returns has produced the image of a message that passed its checks, and a
decoder that returns has found one.
-/

namespace OpenHalfLife.Protocol

open Machine Result PayloadReader

set_option autoImplicit false

namespace PayloadWriter

/-- A schema that appends exactly `bytes`. -/
def Appends (m : Write Unit) (bytes : List UInt8) : Prop :=
  ∀ writer : PayloadWriter, writer.error = none → writer.written.length + bytes.length ≤ writer.capacity →
    ∃ writer', m.exec writer = (.ok (), writer') ∧ writer'.error = none ∧
      writer'.capacity = writer.capacity ∧ writer'.written = writer.written ++ bytes

variable {bytes bytes' : List UInt8}

theorem appends_bytes (bytes : List UInt8) : Appends (writeBytes bytes) bytes := by
  intro writer hError hRoom
  rw [writeBytes, exec_ofFun]
  simp only [hError]
  rw [dif_neg (by omega)]
  exact ⟨_, rfl, rfl, rfl, rfl⟩

theorem Appends.bind {m n : Write Unit} (hm : Appends m bytes) (hn : Appends n bytes') :
    Appends (m >>= fun _ => n) (bytes ++ bytes') := by
  intro writer hError hRoom
  rw [List.length_append] at hRoom
  obtain ⟨middle, hFirst, hError', hCapacity, hWritten⟩ := hm writer hError (by omega)
  obtain ⟨last, hSecond, hError'', hCapacity', hWritten'⟩ := hn middle hError' (by
    rw [hWritten, hCapacity, List.length_append]
    omega)
  refine ⟨last, ?_, hError'', hCapacity'.trans hCapacity, ?_⟩
  · rw [exec_bind, hFirst]
    exact hSecond
  · rw [hWritten', hWritten, List.append_assoc]

theorem appends_pure : Appends (pure ()) [] := by
  intro writer hError _
  exact ⟨writer, rfl, hError, rfl, (List.append_nil _).symm⟩

theorem Appends.forM {α : Type} {f : α → Write PUnit} {image : α → List UInt8} {values : List α}
    (h : ∀ value ∈ values, Appends (f value) (image value)) :
    Appends (values.forM f) (values.flatMap image) := by
  induction values with
  | nil => exact appends_pure
  | cons value values ih =>
    rw [List.flatMap_cons]
    exact (h value List.mem_cons_self).bind (ih fun v hv => h v (List.mem_cons_of_mem _ hv))

theorem encode_eq_ok_iff {m : Write Unit} (h : Appends m bytes) {destination : Nat} {encoded : List UInt8}
    (hSize : bytes.length ≤ maximumFramePayloadBytes) :
    encode destination bytes.length m = .ok encoded ↔ bytes.length ≤ destination ∧ encoded = bytes := by
  obtain ⟨writer, hExec, -, -, hWritten⟩ := h (new bytes.length) rfl (by
    rw [new]
    simp only [List.length_nil]
    omega)
  have hImage : writer.written = bytes := hWritten
  rw [encode]
  by_cases hRoom : destination < bytes.length
  · rw [if_pos hRoom]
    constructor
    · intro hError
      cases hError
    · rintro ⟨hFits, -⟩
      omega
  · rw [if_neg hRoom, hExec]
    simp only [hImage, Except.ok.injEq]
    constructor
    · rintro rfl
      exact ⟨by omega, rfl⟩
    · rintro ⟨-, rfl⟩
      rfl

end PayloadWriter

namespace PayloadReader

variable {reader reader' : PayloadReader}

theorem readU32_eq_ok_iff {value : UInt32} :
    readU32.exec reader = (.ok value, reader') ↔ reader.Advances (toLe 4 value.toNat) reader' := by
  rw [readU32, exec_bind_eq_ok]
  constructor
  · rintro ⟨bytes, s, hTake, hPure⟩
    obtain ⟨hAdvances, hLength⟩ := take_eq_ok_iff.mp hTake
    cases hPure
    rwa [← toLe_uint32_iff.mpr ⟨hLength, rfl⟩]
  · intro h
    refine ⟨_, reader', take_eq_ok_iff.mpr ⟨h, length_toLe _ _⟩, ?_⟩
    rw [exec_pure, (toLe_uint32_iff.mp rfl).2]

theorem status_fromWire_eq_ok_iff {value : UInt16} {status : ProtocolStatus} :
    ProtocolStatus.fromWire value = .ok status ↔ value = status.toWire := by
  constructor
  · intro h
    unfold ProtocolStatus.fromWire at h
    split at h <;> cases h <;> exact UInt16.toNat_inj.mp ‹_›
  · rintro rfl
    cases status <;> rfl

theorem readStatus_eq_ok_iff {status : ProtocolStatus} :
    readStatus.exec reader = (.ok status, reader') ↔ reader.Advances (toLe 2 status.toWire.toNat) reader' := by
  rw [readStatus, exec_bind_eq_ok]
  constructor
  · rintro ⟨value, s, hRead, hRest⟩
    split at hRest
    · rename_i status' hStatus
      cases hRest
      rw [← status_fromWire_eq_ok_iff.mp hStatus]
      exact readU16_eq_ok_iff.mp hRead
    · cases hRest
  · intro h
    refine ⟨_, reader', readU16_eq_ok_iff.mpr h, ?_⟩
    rw [status_fromWire_eq_ok_iff.mpr rfl]
    rfl

theorem readRemaining_eq_ok_iff {data : List UInt8} :
    (do
      let reader ← get
      let data ← readBytes reader.remaining
      finish
      return data : Read (List UInt8)).exec reader = (.ok data, reader') ↔
      reader.Advances data reader' ∧ reader'.rest = [] := by
  have hPosition := reader.position_le
  rw [exec_bind]
  change exec (readBytes reader.remaining >>= _) reader = _ ↔ _
  simp only [exec_bind_eq_ok, readBytes, take_eq_ok_iff, finish_eq_ok_iff]
  constructor
  · rintro ⟨data', r, ⟨hAdvances, -⟩, _, _, ⟨rfl, -, hRest⟩, hPure⟩
    cases hPure
    exact ⟨hAdvances, hRest⟩
  · rintro ⟨hAdvances, hRest⟩
    refine ⟨data, reader', ⟨hAdvances, ?_⟩, (), reader', ⟨rfl, hAdvances.error', hRest⟩, rfl⟩
    have hLength := congrArg List.length hAdvances.rest_eq
    rw [hRest, List.append_nil, rest, List.length_drop] at hLength
    rw [remaining]
    exact hLength.symm

end PayloadReader

/-! ## read_request and read_reply -/

def ReadRequest.image (message : ReadRequest) : List UInt8 :=
  toLe 4 message.readSequence.toNat ++ toLe 8 message.offset.toNat ++ toLe 4 message.length.toNat

def ReadReply.image (message : ReadReply) : List UInt8 :=
  toLe 4 message.readSequence.toNat ++ toLe 2 message.status.toWire.toNat ++ message.data

theorem ReadRequest.length_image (message : ReadRequest) : message.image.length = readRequestPayloadBytes := by
  simp only [image, List.length_append, length_toLe, readRequestPayloadBytes]

theorem ReadReply.length_image (message : ReadReply) :
    message.image.length = message.data.length + readReplyPrefixBytes := by
  simp only [image, List.length_append, length_toLe, readReplyPrefixBytes]
  omega

section Reads

variable {policy : SourceReadPolicy} {sequence length : UInt32} {frame : FrameView} {destination : Nat}
  {encoded : List UInt8}

theorem encodeReadRequestPayload_eq_ok_iff {message : ReadRequest} :
    encodeReadRequestPayload message policy sequence destination = .ok encoded ↔
      validateReadRequest message policy sequence = .ok () ∧ readRequestPayloadBytes ≤ destination ∧
        encoded = message.image := by
  have hWrites : PayloadWriter.Appends (do
      PayloadWriter.writeU32 message.readSequence
      PayloadWriter.writeU64 message.offset
      PayloadWriter.writeU32 message.length) message.image := by
    rw [ReadRequest.image, List.append_assoc]
    exact (PayloadWriter.appends_bytes _).bind
      ((PayloadWriter.appends_bytes _).bind (PayloadWriter.appends_bytes _))
  have hSize : message.image.length ≤ maximumFramePayloadBytes := by
    rw [message.length_image]
    decide
  rw [encodeReadRequestPayload, bind_eq_ok, ← message.length_image]
  simp only [PayloadWriter.encode_eq_ok_iff hWrites hSize]
  constructor
  · rintro ⟨_, h⟩
    exact h
  · intro h
    exact ⟨(), h⟩

theorem decodeReadRequestPayload_eq_ok_iff {message : ReadRequest} :
    decodeReadRequestPayload frame policy sequence = .ok message ↔
      frame.Canonical .readRequest ∧ validateReadRequest message policy sequence = .ok () ∧
        frame.payload = message.image := by
  simp only [decodeReadRequestPayload, bind_eq_ok, ite_error_eq_ok, decode_eq_ok, exec_bind_eq_ok,
    readU32_eq_ok_iff, readU64_eq_ok_iff, finish_eq_ok_iff]
  constructor
  · rintro ⟨_, hFrame, -, decoded, ⟨r₄, readSequence, r₁, h₁, offset, r₂, h₂, length, r₃, h₃, _, _, ⟨rfl, -, hEnd⟩,
      hPure⟩, _, hValid, hMessage⟩
    cases hPure
    cases hMessage
    refine ⟨validateFrame_ok hFrame, hValid, ?_⟩
    have hAll := (advances_append.mpr ⟨_, advances_append.mpr ⟨_, h₁, h₂⟩, h₃⟩).rest_eq
    rwa [hEnd, List.append_nil, rest_new] at hAll
  · rintro ⟨hFrame, hValid, hPayload⟩
    have hSequence : sequence ≠ 0 := by
      rw [validateReadRequest, ite_error_eq_ok] at hValid
      exact hValid.1
    have hError : (new frame.payload).error = none := by
      rw [error_new, hPayload, message.length_image]
      decide
    obtain ⟨r₃, hAdvances, hEnd⟩ := exists_advances message.image [] hError (by
      rw [rest_new, hPayload, List.append_nil])
    rw [ReadRequest.image] at hAdvances
    obtain ⟨r₂, hFront, h₃⟩ := advances_append.mp hAdvances
    obtain ⟨r₁, h₁, h₂⟩ := advances_append.mp hFront
    exact ⟨(), validateFrame_canonical hFrame, hSequence, message,
      ⟨r₃, _, r₁, h₁, _, r₂, h₂, _, r₃, h₃, (), r₃, ⟨rfl, h₃.error', hEnd⟩, rfl⟩, (), hValid, rfl⟩

theorem length_image_of_validateReadReply {message : ReadReply}
    (h : validateReadReply message sequence length = .ok ()) :
    message.image.length ≤ maximumFramePayloadBytes := by
  simp only [validateReadReply, validateReplyContext, bind_eq_ok, ite_error_eq_ok, not_or] at h
  obtain ⟨_, ⟨⟨-, -, hLength⟩, -⟩, -, hData⟩ := h
  have hMaximum : maximumReadBytes + readReplyPrefixBytes = maximumFramePayloadBytes := by decide
  have hSize : message.data.length ≤ length.toNat := by
    split at hData
    · split at hData
      · omega
      · cases hData
    · split at hData
      · rename_i hEmpty
        rw [hEmpty]
        exact Nat.zero_le _
      · cases hData
  rw [message.length_image]
  omega

theorem encodeReadReplyPayload_eq_ok_iff {message : ReadReply} :
    encodeReadReplyPayload message sequence length destination = .ok encoded ↔
      validateReadReply message sequence length = .ok () ∧ message.image.length ≤ destination ∧
        encoded = message.image := by
  have hWrites : PayloadWriter.Appends (do
      PayloadWriter.writeU32 message.readSequence
      PayloadWriter.writeStatus message.status
      PayloadWriter.writeBytes message.data) message.image := by
    rw [ReadReply.image, List.append_assoc]
    exact (PayloadWriter.appends_bytes _).bind
      ((PayloadWriter.appends_bytes _).bind (PayloadWriter.appends_bytes _))
  simp only [encodeReadReplyPayload, ← message.length_image, ite_error_eq_ok, bind_eq_ok]
  constructor
  · rintro ⟨hFits, _, hValid, hEncode⟩
    exact ⟨hValid, (PayloadWriter.encode_eq_ok_iff hWrites (by omega)).mp hEncode⟩
  · rintro ⟨hValid, hRoom, rfl⟩
    have hFits := length_image_of_validateReadReply hValid
    exact ⟨by omega, (), hValid, (PayloadWriter.encode_eq_ok_iff hWrites hFits).mpr ⟨hRoom, rfl⟩⟩

theorem decodeReadReplyPayload_eq_ok_iff {message : ReadReply} :
    decodeReadReplyPayload frame sequence length = .ok message ↔
      frame.Canonical .readReply ∧ validateReadReply message sequence length = .ok () ∧
        frame.payload = message.image := by
  have hTail (reader reader' : PayloadReader) (readSequence : UInt32) (status : ProtocolStatus) :
      exec (do
        let reader ← get
        let data ← readBytes reader.remaining
        finish
        return ({ readSequence, status, data } : ReadReply) : Read ReadReply) reader = (.ok message, reader') ↔
      (message.readSequence = readSequence ∧ message.status = status) ∧
        reader.Advances message.data reader' ∧ reader'.rest = [] := by
    rw [← readRemaining_eq_ok_iff]
    simp only [exec_bind_eq_ok]
    constructor
    · rintro ⟨r₀, s₀, hGet, data, s₁, hRead, _, s₂, hFinish, hPure⟩
      cases hPure
      exact ⟨⟨rfl, rfl⟩, r₀, s₀, hGet, _, s₁, hRead, _, _, hFinish, rfl⟩
    · rintro ⟨⟨rfl, rfl⟩, r₀, s₀, hGet, data, s₁, hRead, _, s₂, hFinish, hPure⟩
      cases hPure
      exact ⟨r₀, s₀, hGet, _, s₁, hRead, _, _, hFinish, rfl⟩
  simp only [decodeReadReplyPayload, bind_eq_ok, decode_eq_ok]
  constructor
  · rintro ⟨_, hFrame, _, -, decoded, ⟨r₃, hRead⟩, _, hValid, hMessage⟩
    cases hMessage
    obtain ⟨readSequence, r₁, h₁, hRest⟩ := exec_bind_eq_ok.mp hRead
    obtain ⟨status, r₂, h₂, hRest⟩ := exec_bind_eq_ok.mp hRest
    obtain ⟨⟨rfl, rfl⟩, h₃, hEnd⟩ := (hTail r₂ r₃ readSequence status).mp hRest
    refine ⟨validateFrame_ok hFrame, hValid, ?_⟩
    have hAll := (advances_append.mpr ⟨_, advances_append.mpr ⟨_, readU32_eq_ok_iff.mp h₁,
      readStatus_eq_ok_iff.mp h₂⟩, h₃⟩).rest_eq
    rwa [hEnd, List.append_nil, rest_new] at hAll
  · rintro ⟨hFrame, hValid, hPayload⟩
    have hContext : validateReplyContext sequence length = .ok () := by
      obtain ⟨_, hContext, -⟩ := bind_eq_ok.mp hValid
      exact hContext
    have hError : (new frame.payload).error = none := by
      rw [error_new, hPayload]
      exact length_image_of_validateReadReply hValid
    obtain ⟨r₃, hAdvances, hEnd⟩ := exists_advances message.image [] hError (by
      rw [rest_new, hPayload, List.append_nil])
    rw [ReadReply.image] at hAdvances
    obtain ⟨r₂, hFront, h₃⟩ := advances_append.mp hAdvances
    obtain ⟨r₁, h₁, h₂⟩ := advances_append.mp hFront
    refine ⟨(), validateFrame_canonical hFrame, (), hContext, message, ⟨r₃, ?_⟩, (), hValid, rfl⟩
    rw [exec_bind_eq_ok]
    refine ⟨_, r₁, readU32_eq_ok_iff.mpr h₁, ?_⟩
    rw [exec_bind_eq_ok]
    exact ⟨_, r₂, readStatus_eq_ok_iff.mpr h₂, (hTail r₂ r₃ _ _).mpr ⟨⟨rfl, rfl⟩, h₃, hEnd⟩⟩

end Reads

/-- A frame of the read exchange is decoded to a message if and only if its payload is what that message is encoded as,
in the same context. -/
theorem read_exchange_codec (frame : FrameView) (policy : SourceReadPolicy) (sequence length : UInt32) :
    (∀ message, decodeReadRequestPayload frame policy sequence = .ok message ↔ frame.Canonical .readRequest ∧
      ∃ destination, encodeReadRequestPayload message policy sequence destination = .ok frame.payload) ∧
    ∀ message, decodeReadReplyPayload frame sequence length = .ok message ↔ frame.Canonical .readReply ∧
      ∃ destination, encodeReadReplyPayload message sequence length destination = .ok frame.payload := by
  constructor
  · intro message
    rw [decodeReadRequestPayload_eq_ok_iff]
    refine and_congr_right fun _ => ?_
    constructor
    · rintro ⟨hValid, hPayload⟩
      exact ⟨readRequestPayloadBytes, encodeReadRequestPayload_eq_ok_iff.mpr ⟨hValid, Nat.le_refl _, hPayload⟩⟩
    · rintro ⟨destination, hEncoded⟩
      obtain ⟨hValid, -, hPayload⟩ := encodeReadRequestPayload_eq_ok_iff.mp hEncoded
      exact ⟨hValid, hPayload⟩
  · intro message
    rw [decodeReadReplyPayload_eq_ok_iff]
    refine and_congr_right fun _ => ?_
    constructor
    · rintro ⟨hValid, hPayload⟩
      exact ⟨message.image.length, encodeReadReplyPayload_eq_ok_iff.mpr ⟨hValid, Nat.le_refl _, hPayload⟩⟩
    · rintro ⟨destination, hEncoded⟩
      obtain ⟨hValid, -, hPayload⟩ := encodeReadReplyPayload_eq_ok_iff.mp hEncoded
      exact ⟨hValid, hPayload⟩

/-! ## entry_batch -/

section Batches

variable {policy : EntryBatchPolicy} {message : EntryBatch}

theorem encodeEntryBatchPayload_eq_ok_iff {destination : Nat} {encoded : List UInt8} :
    encodeEntryBatchPayload message policy destination = .ok encoded ↔
      policy.Admits message.entries ∧ (batchImage message.entries).length ≤ destination ∧
        encoded = batchImage message.entries := by
  have hWrites (hCount : message.entries.length < 2 ^ 16) : PayloadWriter.Appends (do
      rejectIf (message.entries.length ≥ 2 ^ 16) .noncanonicalValue
      PayloadWriter.writeU16 (UInt16.ofNat message.entries.length)
      message.entries.forM writeEntry) (batchImage message.entries) := by
    have hEntry (entry : EntryBatchEntry) : PayloadWriter.Appends (writeEntry entry) entry.image := by
      have hSize : (UInt16.ofNat entry.archivePath.bytes.length).toNat = entry.archivePath.bytes.length :=
        UInt16.toNat_ofNat_of_lt' entry.archivePath.length_lt
      rw [writeEntry, rejectIf, if_neg (Nat.not_le_of_lt entry.archivePath.length_lt), pure_bind,
        EntryBatchEntry.image, List.append_assoc, List.append_assoc]
      refine (PayloadWriter.appends_bytes _).bind ((PayloadWriter.appends_bytes _).bind
        (PayloadWriter.Appends.bind ?_ (PayloadWriter.appends_bytes _)))
      rw [PayloadWriter.writeU16, hSize]
      exact PayloadWriter.appends_bytes _
    rw [rejectIf, if_neg (Nat.not_le_of_lt hCount), pure_bind, batchImage]
    refine PayloadWriter.Appends.bind ?_ (PayloadWriter.Appends.forM fun entry _ => hEntry entry)
    rw [PayloadWriter.writeU16, UInt16.toNat_ofNat_of_lt' hCount]
    exact PayloadWriter.appends_bytes _
  have hChecked : encodeEntryBatchPayload message policy destination = (do
      let size ← checkEntryBatch message.entries policy
      PayloadWriter.encode destination size do
        rejectIf (message.entries.length ≥ 2 ^ 16) .noncanonicalValue
        PayloadWriter.writeU16 (UInt16.ofNat message.entries.length)
        message.entries.forM writeEntry) := by
    rw [encodeEntryBatchPayload, checkEntryBatch]
    split
    · rfl
    · cases (EntryBatchAccumulator.start policy).acceptAll policy message.entries with
      | error _ => rfl
      | ok _ =>
        cases entryBatchPayloadSize message.entries with
        | error _ => rfl
        | ok size =>
          change (if _ then _ else _) = Except.bind (if _ then _ else _) _
          split <;> rfl
  rw [hChecked, bind_eq_ok]
  simp only [checkEntryBatch_eq_ok_iff]
  constructor
  · rintro ⟨_, ⟨hAdmits, rfl⟩, hEncode⟩
    exact ⟨hAdmits,
      (PayloadWriter.encode_eq_ok_iff (hWrites (length_lt_of_admits hAdmits)) hAdmits.image_le).mp hEncode⟩
  · rintro ⟨hAdmits, hRest⟩
    exact ⟨_, ⟨hAdmits, rfl⟩,
      (PayloadWriter.encode_eq_ok_iff (hWrites (length_lt_of_admits hAdmits)) hAdmits.image_le).mpr hRest⟩

theorem readEntries_exec {entries : List EntryBatchEntry} {reader reader' : PayloadReader}
    (h : reader.Advances (entries.flatMap EntryBatchEntry.image) reader')
    (hSpelling : ∀ entry ∈ entries, ArchiveSpelling.new entry.archivePath.bytes = .ok entry.archivePath) :
    (readEntries entries.length).exec reader = (.ok entries, reader') := by
  induction entries generalizing reader with
  | nil =>
    cases (advances_nil h.error).mp h
    rfl
  | cons entry entries ih =>
    rw [List.flatMap_cons] at h
    obtain ⟨r, hFirst, hTail⟩ := advances_append.mp h
    have hFields := readEntryFields_eq_ok_iff.mpr ⟨entry.archivePath.length_lt, hFirst⟩
    rw [List.length_cons, readEntries, exec_bind, hFields]
    dsimp only
    rw [hSpelling entry List.mem_cons_self]
    change exec (readEntries entries.length >>= _) r = _
    rw [exec_bind, ih hTail fun e he => hSpelling e (List.mem_cons_of_mem _ he)]
    rfl

variable (message) in
theorem decodeEntryBatchPayload_image {frame : FrameView} {storage : Nat}
    (hAdmits : policy.Admits message.entries) (hFrame : frame.Canonical .entryBatch)
    (hImage : frame.payload = batchImage message.entries) (hRoom : message.entries.length ≤ storage) :
    decodeEntryBatchPayload frame policy storage = .ok message := by
  have hCount : (UInt16.ofNat message.entries.length).toNat = message.entries.length :=
    UInt16.toNat_ofNat_of_lt' (length_lt_of_admits hAdmits)
  have hFirst : validateEntryBatchPayload frame.payload policy = .ok (UInt16.ofNat message.entries.length) :=
    validateEntryBatchPayload_eq_ok_iff.mpr ⟨message.entries, hAdmits, hImage, hCount⟩
  have hError : (new frame.payload).error = none := by
    rw [error_new, hImage]
    exact hAdmits.image_le
  obtain ⟨reader, hAdvances, -⟩ := exists_advances (batchImage message.entries) [] hError (by
    rw [rest_new, hImage, List.append_nil])
  obtain ⟨r, hCounted, hTail⟩ := advances_append.mp hAdvances
  obtain ⟨acc, hAccepted⟩ := hAdmits.accepted
  have hRead : readU16.exec (new frame.payload) = (.ok (UInt16.ofNat message.entries.length), r) := by
    apply readU16_eq_ok_iff.mpr
    rwa [hCount]
  simp only [decodeEntryBatchPayload, bind_eq_ok, ite_error_eq_ok, decode_eq_ok]
  refine ⟨(), validateFrame_canonical hFrame, _, hFirst, by omega, reader, ?_⟩
  rw [exec_bind, hRead]
  dsimp only
  rw [hCount, exec_bind, readEntries_exec hTail (accepted_spelling hAccepted)]
  rfl

end Batches

end OpenHalfLife.Protocol
