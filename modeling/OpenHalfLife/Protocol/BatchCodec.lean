import OpenHalfLife.Protocol.Fields

/-! # The entry_batch codec

Both directions with the caller's buffers as their state. The decoder fills the
storage in a second pass over the payload; the encoder fills the front of its
destination after every check.
-/

namespace OpenHalfLife.Protocol

open Machine Result PayloadReader

set_option autoImplicit false

/-! ## The codec over the caller's buffers -/

abbrev Fill := Machine ProtocolError (PayloadReader × List EntryBatchEntry)

def fillSlot (slot : Nat) : Fill Unit := do
  let (sourceToken, sizeBytes, path) ← zoom Prod.fst (fun reader s => (reader, s.2)) id readEntryFields
  let archivePath ← ofExcept id (ArchiveSpelling.new path)
  modify fun s => (s.1, s.2.set slot { sourceToken, sizeBytes, archivePath })

def fillSlots (count : Nat) : Fill Unit := do
  let _ ← zoom Prod.fst (fun reader s => (reader, s.2)) id readU16
  (List.range count).forM fillSlot

def decodeEntryBatchInto (frame : FrameView) (policy : EntryBatchPolicy) :
    Machine ProtocolError (List EntryBatchEntry) EntryBatch := do
  ofExcept id (validateFrame frame .entryBatch)
  let entryCount ← ofExcept id (validateEntryBatchPayload frame.payload policy)
  let storage ← get
  if storage.length < entryCount.toNat then throw .outputTooSmall
  else
    zoom (fun storage => (PayloadReader.new frame.payload, storage)) (fun s _ => s.2) id
      (fillSlots entryCount.toNat)
    let storage ← get
    return { entries := storage.take entryCount.toNat }

def writeEntryInto (entry : EntryBatchEntry) : BufferWriter.BufferWrite Unit := do
  BufferWriter.writeU64 entry.sourceToken
  BufferWriter.writeU64 entry.sizeBytes
  if entry.archivePath.bytes.length ≥ 2 ^ 16 then throw .noncanonicalValue
  else
    BufferWriter.writeU16 (UInt16.ofNat entry.archivePath.bytes.length)
    BufferWriter.writeBytes entry.archivePath.bytes

def writeBatchInto (entries : List EntryBatchEntry) : BufferWriter.BufferWrite Unit := do
  if entries.length ≥ 2 ^ 16 then throw .noncanonicalValue
  else
    BufferWriter.writeU16 (UInt16.ofNat entries.length)
    entries.forM writeEntryInto

def checkEntryBatch (entries : List EntryBatchEntry) (policy : EntryBatchPolicy) :
    Except ProtocolError Nat := do
  if entries = [] ∨ entries.length > maximumEntryBatchEntries ∨
      entries.length > policy.remainingEntries then
    .error .noncanonicalValue
  else
    let _ ← EntryBatchAccumulator.acceptAll policy (.start policy) entries
    let payloadSize ← entryBatchPayloadSize entries
    if payloadSize > maximumFramePayloadBytes then .error .payloadTooLarge else .ok payloadSize

def encodeEntryBatchInto (message : EntryBatch) (policy : EntryBatchPolicy) :
    Machine ProtocolError (List UInt8) Nat := do
  let payloadSize ← ofExcept id (checkEntryBatch message.entries policy)
  let destination ← get
  if destination.length < payloadSize then throw .outputTooSmall
  else
    zoom (fun destination => BufferWriter.new (destination.take payloadSize))
      (fun writer destination => writer.destination ++ destination.drop payloadSize) id
      (writeBatchInto message.entries)
    return payloadSize

/-! ## The wire image -/

def EntryBatchEntry.image (entry : EntryBatchEntry) : List UInt8 :=
  toLe 8 entry.sourceToken.toNat ++ toLe 8 entry.sizeBytes.toNat ++
    toLe 2 entry.archivePath.bytes.length ++ entry.archivePath.bytes

def batchImage (entries : List EntryBatchEntry) : List UInt8 :=
  toLe 2 entries.length ++ entries.flatMap EntryBatchEntry.image

structure EntryBatchPolicy.Admits (policy : EntryBatchPolicy) (entries : List EntryBatchEntry) : Prop where
  ne_nil : entries ≠ []
  length_le : entries.length ≤ maximumEntryBatchEntries
  remaining : entries.length ≤ policy.remainingEntries
  accepted : ∃ acc, (EntryBatchAccumulator.start policy).acceptAll policy entries = .ok acc
  image_le : (batchImage entries).length ≤ maximumFramePayloadBytes

section Image

variable {policy : EntryBatchPolicy} {reader reader' : PayloadReader} {entries : List EntryBatchEntry}

theorem ArchiveSpelling.length_lt (spelling : ArchiveSpelling) : spelling.bytes.length < 2 ^ 16 :=
  lt_of_le_of_lt spelling.length_le (by decide)

theorem length_image (entry : EntryBatchEntry) :
    entry.image.length = entryBatchEntryPrefixBytes + entry.archivePath.bytes.length := by
  simp only [EntryBatchEntry.image, List.length_append, length_toLe, entryBatchEntryPrefixBytes]

theorem readEntryFields_eq_ok_iff {sourceToken sizeBytes : UInt64} {path : List UInt8} :
    readEntryFields.exec reader = (.ok (sourceToken, sizeBytes, path), reader') ↔
      path.length < 2 ^ 16 ∧ reader.Advances (toLe 8 sourceToken.toNat ++ toLe 8 sizeBytes.toNat ++
        toLe 2 path.length ++ path) reader' := by
  simp only [readEntryFields, exec_bind_eq_ok, readU64_eq_ok_iff, readU16_eq_ok_iff, readBytes,
    take_eq_ok_iff, advances_append]
  constructor
  · rintro ⟨token, r₁, h₁, size, r₂, h₂, pathSize, r₃, h₃, bytes, r₄, ⟨h₄, hLength⟩, hPure⟩
    cases hPure
    rw [hLength]
    exact ⟨pathSize.toNat_lt, r₃, ⟨r₂, ⟨r₁, h₁, h₂⟩, h₃⟩, h₄⟩
  · rintro ⟨hSmall, r₃, ⟨r₂, ⟨r₁, h₁, h₂⟩, h₃⟩, h₄⟩
    have hSize : (UInt16.ofNat path.length).toNat = path.length := UInt16.toNat_ofNat_of_lt' hSmall
    refine ⟨_, r₁, h₁, _, r₂, h₂, UInt16.ofNat path.length, r₃, by rwa [hSize], path, reader', ⟨h₄, hSize.symm⟩, rfl⟩

theorem accept_path {acc acc' : EntryBatchAccumulator} {sourceToken sizeBytes : UInt64} {path : List UInt8}
    (h : acc.accept sourceToken sizeBytes path policy = .ok acc') :
    ∃ spelling : ArchiveSpelling, ArchiveSpelling.new path = .ok spelling ∧ spelling.bytes = path := by
  obtain ⟨spelling, hSpelling, -⟩ := bind_eq_ok.mp h
  exact ⟨spelling, hSpelling, (ArchiveSpelling.new_eq_ok hSpelling).1⟩

theorem validateEntries_eq_ok_iff {count : Nat} {acc : EntryBatchAccumulator} (h : reader.error = none) :
    (validateEntries policy count acc).exec reader = (.ok (), reader') ↔
      ∃ entries : List EntryBatchEntry, entries.length = count ∧
        reader.Advances (entries.flatMap EntryBatchEntry.image) reader' ∧
        ∃ acc', acc.acceptAll policy entries = .ok acc' := by
  induction count generalizing acc reader with
  | zero =>
    constructor
    · intro hExec
      cases hExec
      exact ⟨[], rfl, (advances_nil h).mpr rfl, acc, rfl⟩
    · rintro ⟨entries, hLength, hAdvances, -⟩
      cases List.length_eq_zero_iff.mp hLength
      cases (advances_nil h).mp hAdvances
      rfl
  | succ count ih =>
    simp only [validateEntries, exec_bind_eq_ok, exec_ofExcept_eq_ok]
    constructor
    · rintro ⟨⟨sourceToken, sizeBytes, path⟩, r, hFields, acc₁, _, ⟨hAccept, rfl⟩, hRest⟩
      obtain ⟨hSmall, hFirst⟩ := readEntryFields_eq_ok_iff.mp hFields
      obtain ⟨spelling, -, rfl⟩ := accept_path hAccept
      obtain ⟨entries, rfl, hAdvances, acc', hAll⟩ := (ih hFirst.error').mp hRest
      refine ⟨⟨sourceToken, sizeBytes, spelling⟩ :: entries, rfl, ?_, acc', ?_⟩
      · rw [List.flatMap_cons]
        exact advances_append.mpr ⟨_, hFirst, hAdvances⟩
      · exact bind_eq_ok.mpr ⟨acc₁, hAccept, hAll⟩
    · rintro ⟨_ | ⟨entry, entries⟩, hLength, hAdvances, acc', hAll⟩
      · cases hLength
      · obtain ⟨acc₁, hAccept, hRest⟩ := bind_eq_ok.mp hAll
        rw [List.flatMap_cons] at hAdvances
        obtain ⟨r, hFirst, hTail⟩ := advances_append.mp hAdvances
        have hFields := readEntryFields_eq_ok_iff.mpr ⟨entry.archivePath.length_lt, hFirst⟩
        refine ⟨_, r, hFields, acc₁, r, ⟨hAccept, rfl⟩, (ih hFirst.error').mpr ?_⟩
        exact ⟨entries, Nat.succ.inj hLength, hTail, acc', hRest⟩

theorem length_lt_of_admits (h : policy.Admits entries) : entries.length < 2 ^ 16 :=
  lt_of_le_of_lt h.length_le (by decide)

theorem validateEntryBatchPayload_eq_ok_iff {payload : List UInt8} {count : UInt16} :
    validateEntryBatchPayload payload policy = .ok count ↔
      ∃ entries, policy.Admits entries ∧ payload = batchImage entries ∧ count.toNat = entries.length := by
  rw [validateEntryBatchPayload, decode_eq_ok]
  simp only [exec_bind_eq_ok, readU16_eq_ok_iff]
  constructor
  · rintro ⟨_, count', r, hCount, _, _, hGuard, _, r', hEntries, _, _, hFinish, hPure⟩
    cases hPure
    obtain ⟨hBounds, rfl⟩ := exec_rejectIf_eq_ok.mp hGuard
    obtain ⟨hZero, hMaximum, hRemaining⟩ : ¬ count = 0 ∧ ¬ count.toNat > maximumEntryBatchEntries ∧
        ¬ count.toNat > policy.remainingEntries := by simpa only [not_or] using hBounds
    obtain ⟨entries, hLength, hAdvances, hAccepted⟩ := (validateEntries_eq_ok_iff hCount.error').mp hEntries
    obtain ⟨rfl, -, hRest⟩ := finish_eq_ok_iff.mp hFinish
    have hImage : payload = batchImage entries := by
      have hPayload := (advances_append.mpr ⟨_, hCount, hAdvances⟩).rest_eq
      rwa [hRest, List.append_nil, rest_new, ← hLength] at hPayload
    refine ⟨entries, ⟨?_, by omega, by omega, hAccepted, ?_⟩, hImage, hLength.symm⟩
    · rintro rfl
      exact hZero (UInt16.toNat_inj.mp hLength.symm)
    · rw [← hImage]
      exact error_new.mp hCount.error
  · rintro ⟨entries, hAdmits, rfl, hCount⟩
    have hError : (new (batchImage entries)).error = none := error_new.mpr hAdmits.image_le
    have hRest : (new (batchImage entries)).rest = batchImage entries ++ [] := by
      rw [rest_new, List.append_nil]
    obtain ⟨r', hAdvances, hDone⟩ := exists_advances _ _ hError hRest
    obtain ⟨r, hFirst, hTail⟩ := advances_append.mp hAdvances
    have hMaximum := hAdmits.length_le
    have hRemaining := hAdmits.remaining
    have hZero : ¬ count = 0 := by
      rintro rfl
      exact hAdmits.ne_nil (List.length_eq_zero_iff.mp hCount.symm)
    have hGuard : ¬ (count = 0 ∨ count.toNat > maximumEntryBatchEntries ∨
        count.toNat > policy.remainingEntries) := by
      rintro (h | h | h)
      · exact hZero h
      · omega
      · omega
    refine ⟨r', count, r, by rwa [hCount], (), r, exec_rejectIf_eq_ok.mpr ⟨hGuard, rfl⟩, (), r', ?_, (), r', ?_,
      rfl⟩
    · exact (validateEntries_eq_ok_iff hFirst.error').mpr ⟨entries, hCount.symm, hTail, hAdmits.accepted⟩
    · exact finish_eq_ok_iff.mpr ⟨rfl, hAdvances.error', hDone⟩

end Image

/-! ## The second pass -/

section Fill

variable {reader reader' : PayloadReader} {storage : List EntryBatchEntry} {policy : EntryBatchPolicy}

theorem accepted_spelling {entries : List EntryBatchEntry} {acc acc' : EntryBatchAccumulator}
    (h : acc.acceptAll policy entries = .ok acc') :
    ∀ entry ∈ entries, ArchiveSpelling.new entry.archivePath.bytes = .ok entry.archivePath := by
  induction entries generalizing acc with
  | nil => simp
  | cons first entries ih =>
    obtain ⟨acc₁, hAccept, hRest⟩ := bind_eq_ok.mp h
    obtain ⟨spelling, hSpelling, -⟩ := bind_eq_ok.mp hAccept
    intro entry hEntry
    rcases List.mem_cons.mp hEntry with rfl | hEntry
    · obtain ⟨hBytes, -⟩ := ArchiveSpelling.new_eq_ok hSpelling
      rw [hSpelling]
      congr 1
      obtain ⟨bytes, _, _⟩ := spelling
      cases hBytes
      rfl
    · exact ih hRest entry hEntry

theorem fillSlot_exec {entry : EntryBatchEntry} {slot : Nat} (h : reader.Advances entry.image reader')
    (hSpelling : ArchiveSpelling.new entry.archivePath.bytes = .ok entry.archivePath) :
    (fillSlot slot).exec (reader, storage) = (.ok (), (reader', storage.set slot entry)) := by
  have hFields := readEntryFields_eq_ok_iff.mpr ⟨entry.archivePath.length_lt, h⟩
  rw [fillSlot, exec_bind, zoom, exec_ofFun]
  simp only [hFields]
  rw [exec_bind, hSpelling]
  rfl

/-- The slots from `start` on get the entries in order. -/
theorem fillFrom_exec {entries : List EntryBatchEntry} {start : Nat}
    (h : reader.Advances (entries.flatMap EntryBatchEntry.image) reader')
    (hSpelling : ∀ entry ∈ entries, ArchiveSpelling.new entry.archivePath.bytes = .ok entry.archivePath)
    (hStorage : start + entries.length ≤ storage.length) :
    ((List.range' start entries.length).forM fillSlot).exec (reader, storage) =
      (.ok (), (reader', storage.take start ++ entries ++ storage.drop (start + entries.length))) := by
  induction entries generalizing reader start storage with
  | nil =>
    cases (advances_nil h.error).mp h
    simp only [List.length_nil, List.range'_zero, List.append_nil, Nat.add_zero, List.take_append_drop]
    rfl
  | cons entry entries ih =>
    rw [List.flatMap_cons] at h
    obtain ⟨r, hFirst, hTail⟩ := advances_append.mp h
    rw [List.length_cons] at hStorage
    have hSlot : start < storage.length := by omega
    have hSet : start + 1 + entries.length ≤ (storage.set start entry).length := by
      rw [List.length_set]
      omega
    have hRest := ih hTail (fun e he => hSpelling e (List.mem_cons_of_mem _ he)) hSet
    have hBefore : (storage.set start entry).take (start + 1) = storage.take start ++ [entry] := by
      rw [List.take_add_one, List.take_set_of_le (Nat.le_refl _), List.getElem?_set_self hSlot]
      rfl
    have hAfter : (storage.set start entry).drop (start + 1 + entries.length) =
        storage.drop (start + (entry :: entries).length) := by
      rw [List.drop_set_of_lt (by omega), List.length_cons]
      congr 1
      omega
    change ((fillSlot start) >>= fun _ => (List.range' (start + 1) entries.length).forM fillSlot).exec _ = _
    rw [exec_bind, fillSlot_exec hFirst (hSpelling entry List.mem_cons_self)]
    dsimp only
    rw [hRest, hBefore, hAfter]
    simp only [List.append_assoc, List.cons_append, List.nil_append]

theorem fillSlots_exec {entries : List EntryBatchEntry} (hAdmits : policy.Admits entries)
    (hStorage : entries.length ≤ storage.length) :
    ∃ reader', (fillSlots entries.length).exec (PayloadReader.new (batchImage entries), storage) =
      (.ok (), (reader', entries ++ storage.drop entries.length)) := by
  have hError : (new (batchImage entries)).error = none := error_new.mpr hAdmits.image_le
  have hRest : (new (batchImage entries)).rest = batchImage entries ++ [] := by
    rw [rest_new, List.append_nil]
  obtain ⟨reader', hAdvances, -⟩ := exists_advances _ _ hError hRest
  obtain ⟨r, hFirst, hTail⟩ := advances_append.mp hAdvances
  obtain ⟨acc, hAccepted⟩ := hAdmits.accepted
  have hCount : readU16.exec (new (batchImage entries)) = (.ok (UInt16.ofNat entries.length), r) := by
    apply readU16_eq_ok_iff.mpr
    rwa [UInt16.toNat_ofNat_of_lt' (length_lt_of_admits hAdmits)]
  refine ⟨reader', ?_⟩
  rw [fillSlots, exec_bind, zoom, exec_ofFun]
  simp only [hCount]
  rw [List.range_eq_range', fillFrom_exec hTail (accepted_spelling hAccepted) (by omega)]
  simp

theorem validateFrame_canonical {frame : FrameView} {expected : MessageType}
    (h : frame.Canonical expected) : validateFrame frame expected = .ok () := by
  have hPayload := h.valid.payloadLength_le
  have hLength := h.length_eq
  rw [validateFrame, h.valid]
  change (if _ then _ else _) = _
  rw [if_neg (by omega), if_neg (by omega), if_neg (by omega), if_neg (not_not.mpr h.messageType_eq)]

theorem decodeEntryBatchInto_counted {frame : FrameView} {count : UInt16}
    (hFrame : frame.Canonical .entryBatch)
    (hCount : validateEntryBatchPayload frame.payload policy = .ok count) :
    (decodeEntryBatchInto frame policy).exec storage =
      exec (if storage.length < count.toNat then throw .outputTooSmall
        else do
          zoom (fun storage => (PayloadReader.new frame.payload, storage)) (fun s _ => s.2) id
            (fillSlots count.toNat)
          let storage ← get
          return { entries := storage.take count.toNat }) storage := by
  rw [decodeEntryBatchInto, exec_bind, validateFrame_canonical hFrame]
  change exec (ofExcept id (validateEntryBatchPayload frame.payload policy) >>= _) storage = _
  rw [exec_bind, hCount]
  rfl

theorem decodeEntryBatchInto_image {frame : FrameView} {entries : List EntryBatchEntry}
    (hAdmits : policy.Admits entries) (hFrame : frame.Canonical .entryBatch)
    (hImage : frame.payload = batchImage entries) (hRoom : entries.length ≤ storage.length) :
    ∃ storage', (decodeEntryBatchInto frame policy).exec storage = (.ok ⟨entries⟩, storage') := by
  have hCount : (UInt16.ofNat entries.length).toNat = entries.length :=
    UInt16.toNat_ofNat_of_lt' (length_lt_of_admits hAdmits)
  have hFirst : validateEntryBatchPayload frame.payload policy = .ok (UInt16.ofNat entries.length) :=
    validateEntryBatchPayload_eq_ok_iff.mpr ⟨entries, hAdmits, hImage, hCount⟩
  obtain ⟨reader', hFill⟩ := fillSlots_exec hAdmits hRoom
  refine ⟨entries ++ storage.drop entries.length, ?_⟩
  rw [decodeEntryBatchInto_counted hFrame hFirst, hCount, if_neg (Nat.not_lt_of_le hRoom), hImage, exec_bind,
    zoom, exec_ofFun]
  simp only [hFill]
  rw [exec_bind]
  change (Except.ok (⟨(entries ++ storage.drop entries.length).take entries.length⟩ : EntryBatch), _) = _
  rw [List.take_left]

/-- The decoder in one line: the batch whose image the payload is, or an error
that left the storage alone. -/
theorem decodeEntryBatchInto_exec (frame : FrameView) (policy : EntryBatchPolicy)
    (storage : List EntryBatchEntry) :
    (∃ entries storage', policy.Admits entries ∧ frame.payload = batchImage entries ∧
      (decodeEntryBatchInto frame policy).exec storage = (.ok ⟨entries⟩, storage')) ∨
    ∃ error, (decodeEntryBatchInto frame policy).exec storage = (.error error, storage) := by
  cases hFrame : validateFrame frame .entryBatch with
  | error error =>
    right
    refine ⟨error, ?_⟩
    rw [decodeEntryBatchInto, exec_bind, hFrame]
    rfl
  | ok u =>
    have hCanonical := validateFrame_ok hFrame
    cases hCount : validateEntryBatchPayload frame.payload policy with
    | error error =>
      right
      refine ⟨error, ?_⟩
      rw [decodeEntryBatchInto, exec_bind, hFrame]
      change exec (ofExcept id (validateEntryBatchPayload frame.payload policy) >>= _) storage = _
      rw [exec_bind, hCount]
      rfl
    | ok count =>
      obtain ⟨entries, hAdmits, hImage, hLength⟩ := validateEntryBatchPayload_eq_ok_iff.mp hCount
      by_cases hStorage : storage.length < count.toNat
      · right
        refine ⟨.outputTooSmall, ?_⟩
        rw [decodeEntryBatchInto_counted hCanonical hCount, if_pos hStorage]
        rfl
      · left
        obtain ⟨storage', hExec⟩ := decodeEntryBatchInto_image hAdmits hCanonical hImage (Nat.le_of_not_lt (hLength ▸ hStorage))
        exact ⟨entries, storage', hAdmits, hImage, hExec⟩

end Fill

/-! ## The encoder -/

section Encode

variable {policy : EntryBatchPolicy} {entries : List EntryBatchEntry}

theorem payloadSize_eq_ok_iff {size size' : Nat} (h : size < 2 ^ 64) :
    entries.foldlM (fun size entry =>
      let size := size + (entryBatchEntryPrefixBytes + entry.archivePath.bytes.length)
      if size ≥ 2 ^ 64 then Except.error ProtocolError.payloadTooLarge else Except.ok size) size = .ok size' ↔
      size' = size + (entries.flatMap EntryBatchEntry.image).length ∧ size' < 2 ^ 64 := by
  induction entries generalizing size with
  | nil =>
    simp only [List.foldlM_nil, List.flatMap_nil, List.length_nil, Nat.add_zero]
    constructor
    · intro hPure
      cases hPure
      exact ⟨rfl, h⟩
    · rintro ⟨rfl, -⟩
      rfl
  | cons entry entries ih =>
    rw [List.foldlM_cons, List.flatMap_cons, List.length_append, length_image]
    dsimp only
    split
    · constructor
      · intro hError
        cases hError
      · rintro ⟨rfl, hLimit⟩
        omega
    · rename_i hLimit
      have hRest := ih (Nat.lt_of_not_le hLimit)
      rwa [Nat.add_assoc] at hRest

theorem entryBatchPayloadSize_eq_ok_iff {size : Nat} :
    entryBatchPayloadSize entries = .ok size ↔ size = (batchImage entries).length ∧ size < 2 ^ 64 := by
  rw [entryBatchPayloadSize, payloadSize_eq_ok_iff (by decide), batchImage, List.length_append, length_toLe]
  rfl

theorem writeEntryInto_writes (entry : EntryBatchEntry) :
    BufferWriter.Writes (writeEntryInto entry) entry.image := by
  have hSize : (UInt16.ofNat entry.archivePath.bytes.length).toNat = entry.archivePath.bytes.length :=
    UInt16.toNat_ofNat_of_lt' entry.archivePath.length_lt
  rw [writeEntryInto, if_neg (Nat.not_le_of_lt entry.archivePath.length_lt), EntryBatchEntry.image,
    List.append_assoc, List.append_assoc]
  refine (BufferWriter.writes_bytes _).bind ((BufferWriter.writes_bytes _).bind
    (BufferWriter.Writes.bind ?_ (BufferWriter.writes_bytes _)))
  rw [BufferWriter.writeU16, hSize]
  exact BufferWriter.writes_bytes _

theorem writeBatchInto_writes (h : entries.length < 2 ^ 16) :
    BufferWriter.Writes (writeBatchInto entries) (batchImage entries) := by
  rw [writeBatchInto, if_neg (Nat.not_le_of_lt h), batchImage]
  refine BufferWriter.Writes.bind ?_ (BufferWriter.Writes.forM fun entry _ => writeEntryInto_writes entry)
  rw [BufferWriter.writeU16, UInt16.toNat_ofNat_of_lt' h]
  exact BufferWriter.writes_bytes _

theorem checkEntryBatch_eq_ok_iff {size : Nat} :
    checkEntryBatch entries policy = .ok size ↔ policy.Admits entries ∧ size = (batchImage entries).length := by
  simp only [checkEntryBatch, ite_error_eq_ok, bind_eq_ok, entryBatchPayloadSize_eq_ok_iff, not_or, Nat.not_lt]
  constructor
  · rintro ⟨⟨hNil, hMaximum, hRemaining⟩, acc, hAccepted, _, ⟨rfl, -⟩, hLimit, hSize⟩
    cases hSize
    exact ⟨⟨hNil, hMaximum, hRemaining, ⟨acc, hAccepted⟩, hLimit⟩, rfl⟩
  · rintro ⟨hAdmits, rfl⟩
    obtain ⟨acc, hAccepted⟩ := hAdmits.accepted
    have hSmall : (batchImage entries).length < 2 ^ 64 := lt_of_le_of_lt hAdmits.image_le (by decide)
    exact ⟨⟨hAdmits.ne_nil, hAdmits.length_le, hAdmits.remaining⟩, acc, hAccepted, _, ⟨rfl, hSmall⟩,
      hAdmits.image_le, rfl⟩

theorem encodeEntryBatchInto_admits {message : EntryBatch} (h : policy.Admits message.entries)
    {destination : List UInt8} (hRoom : (batchImage message.entries).length ≤ destination.length) :
    (encodeEntryBatchInto message policy).exec destination = (.ok (batchImage message.entries).length,
      batchImage message.entries ++ destination.drop (batchImage message.entries).length) := by
  have hFront : (destination.take (batchImage message.entries).length).length =
      (batchImage message.entries).length := List.length_take_of_le hRoom
  obtain ⟨hResult, hWritten⟩ :=
    (writeBatchInto_writes (length_lt_of_admits h)).exec_new hFront h.image_le
  rw [encodeEntryBatchInto, checkEntryBatch_eq_ok_iff.mpr ⟨h, rfl⟩]
  change exec (if destination.length < _ then _ else _) destination = _
  rw [if_neg (Nat.not_lt_of_le hRoom), exec_bind, zoom, exec_ofFun]
  rcases hExec : (writeBatchInto message.entries).exec
    (BufferWriter.new (destination.take (batchImage message.entries).length)) with ⟨result, writer⟩
  rw [hExec] at hResult hWritten
  dsimp only at hResult hWritten
  subst hResult
  dsimp only
  rw [hWritten]
  rfl

/-- The encoder in one line: the image of an admitted batch in front of what the
destination held, or an error that left the destination alone. -/
theorem encodeEntryBatchInto_exec (message : EntryBatch) (policy : EntryBatchPolicy)
    (destination : List UInt8) :
    (policy.Admits message.entries ∧ (batchImage message.entries).length ≤ destination.length ∧
      (encodeEntryBatchInto message policy).exec destination = (.ok (batchImage message.entries).length,
        batchImage message.entries ++ destination.drop (batchImage message.entries).length)) ∨
    ∃ error, (encodeEntryBatchInto message policy).exec destination = (.error error, destination) := by
  cases hCheck : checkEntryBatch message.entries policy with
  | error error =>
    right
    refine ⟨error, ?_⟩
    rw [encodeEntryBatchInto, hCheck]
    rfl
  | ok size =>
    obtain ⟨hAdmits, rfl⟩ := checkEntryBatch_eq_ok_iff.mp hCheck
    by_cases hRoom : (batchImage message.entries).length ≤ destination.length
    · left
      exact ⟨hAdmits, hRoom, encodeEntryBatchInto_admits hAdmits hRoom⟩
    · right
      refine ⟨.outputTooSmall, ?_⟩
      rw [encodeEntryBatchInto, hCheck]
      change exec (if destination.length < _ then _ else _) destination = _
      rw [if_pos (Nat.lt_of_not_le hRoom)]
      rfl

end Encode

/-- A batch and the bytes that carry it determine each other under one policy,
and a failed call in either direction leaves the caller's buffer as it was. -/
theorem entryBatch_codec (policy : EntryBatchPolicy) :
    (∀ message destination size destination',
      (encodeEntryBatchInto message policy).exec destination = (.ok size, destination') →
      ∀ header storage, header.Valid → header.messageType = .entryBatch → header.payloadLength.toNat = size →
        message.entries.length ≤ storage.length →
        ∃ storage', (decodeEntryBatchInto ⟨header, destination'.take size⟩ policy).exec storage =
          (.ok message, storage')) ∧
    (∀ frame storage message storage',
      (decodeEntryBatchInto frame policy).exec storage = (.ok message, storage') →
      ∀ destination : List UInt8, frame.payload.length ≤ destination.length →
        (encodeEntryBatchInto message policy).exec destination =
          (.ok frame.payload.length, frame.payload ++ destination.drop frame.payload.length)) ∧
    (∀ frame storage error storage',
      (decodeEntryBatchInto frame policy).exec storage = (.error error, storage') → storage' = storage) ∧
    ∀ message destination error destination',
      (encodeEntryBatchInto message policy).exec destination = (.error error, destination') →
      destination' = destination := by
  refine ⟨?_, ?_, ?_, ?_⟩
  · rintro message destination size destination' hEncode header storage hValid hType hLength hStorage
    rcases encodeEntryBatchInto_exec message policy destination with ⟨hAdmits, hRoom, hExec⟩ | ⟨error, hExec⟩
    · cases hExec.symm.trans hEncode
      rw [List.take_left]
      exact decodeEntryBatchInto_image hAdmits ⟨hValid, hLength.symm, hType⟩ rfl hStorage
    · cases hExec.symm.trans hEncode
  · rintro frame storage message storage' hDecode destination hRoom
    rcases decodeEntryBatchInto_exec frame policy storage with
      ⟨entries, _, hAdmits, hImage, hExec⟩ | ⟨error, hExec⟩
    · cases hExec.symm.trans hDecode
      rw [hImage] at hRoom ⊢
      exact encodeEntryBatchInto_admits hAdmits hRoom
    · cases hExec.symm.trans hDecode
  · rintro frame storage error storage' hDecode
    rcases decodeEntryBatchInto_exec frame policy storage with ⟨entries, _, -, -, hExec⟩ | ⟨error', hExec⟩
    · cases hExec.symm.trans hDecode
    · cases hExec.symm.trans hDecode
      rfl
  · rintro message destination error destination' hEncode
    rcases encodeEntryBatchInto_exec message policy destination with ⟨-, -, hExec⟩ | ⟨error', hExec⟩
    · cases hExec.symm.trans hEncode
    · cases hExec.symm.trans hEncode
      rfl

def oneEntryPolicy : EntryBatchPolicy :=
  ⟨1, 2, 3, 3, none, by decide, by decide, by decide, by decide, by decide, by decide, by decide⟩

def oneEntryBatch : EntryBatch := ⟨[⟨5, 3, ⟨[0x61, 0x62], by decide, by decide⟩⟩]⟩

/-- The one entry that uses up its policy, through both directions. -/
theorem entryBatch_codec_oneEntry : ∃ storage',
    (decodeEntryBatchInto ⟨FrameHeader.new .entryBatch 9 1 22,
      [1, 0, 5, 0, 0, 0, 0, 0, 0, 0, 3, 0, 0, 0, 0, 0, 0, 0, 2, 0, 0x61, 0x62]⟩ oneEntryPolicy).exec
        oneEntryBatch.entries = (.ok oneEntryBatch, storage') :=
  (entryBatch_codec oneEntryPolicy).1 oneEntryBatch (List.replicate 23 7) 22
    [1, 0, 5, 0, 0, 0, 0, 0, 0, 0, 3, 0, 0, 0, 0, 0, 0, 0, 2, 0, 0x61, 0x62, 7] (by rfl)
    (FrameHeader.new .entryBatch 9 1 22) oneEntryBatch.entries (by decide) rfl rfl (by decide)

end OpenHalfLife.Protocol
