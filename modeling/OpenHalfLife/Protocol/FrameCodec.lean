import OpenHalfLife.Protocol.Messages

/-! # The frame codec

A frame is the image of its header followed by its payload, and nothing else
decodes.
-/

namespace OpenHalfLife.Protocol

open Machine Result

set_option autoImplicit false

def encodeFrame (header : FrameHeader) (payload : List UInt8) :
    Machine ProtocolError (List UInt8) Nat := do
  if payload.length > maximumFramePayloadBytes then throw .payloadTooLarge
  else if header.payloadLength.toNat ≠ payload.length then throw .noncanonicalValue
  else
    ofExcept id header.validate
    let frameSize := frameHeaderBytes + payload.length
    let destination ← get
    if destination.length < frameSize then throw .outputTooSmall
    else
      let headerBytes ← ofExcept id header.encode
      modify fun destination => headerBytes ++ destination.drop frameHeaderBytes
      modify fun destination => destination.take frameHeaderBytes ++ payload ++ destination.drop frameSize
      return frameSize

def decodeFrame (bytes : List UInt8) (expectedSessionId : UInt64) : Except ProtocolError FrameView := do
  if bytes.length < frameHeaderBytes then .error .truncatedHeader
  else
    let header ← decodeFrameHeader (bytes.take frameHeaderBytes)
    if expectedSessionId ≠ 0 ∧ header.sessionId ≠ expectedSessionId then .error .wrongSessionId
    else
      let frameSize := frameHeaderBytes + header.payloadLength.toNat
      if bytes.length < frameSize then .error .truncatedPayload
      else if bytes.length ≠ frameSize then .error .trailingBytes
      else .ok ⟨header, (bytes.drop frameHeaderBytes).take header.payloadLength.toNat⟩

/-! ## The header image -/

theorem MessageType.toWire_of_fromWire {value : UInt16} {kind : MessageType} (h : fromWire value = .ok kind) :
    kind.toWire = value := by
  unfold fromWire at h
  split at h <;> cases h <;> exact UInt16.toNat_inj.mp (Eq.symm ‹_›)

/-- The bytes `FrameHeader.encode` gives a valid header. -/
def FrameHeader.image (header : FrameHeader) : List UInt8 :=
  frameMagic ++ toLe 2 header.majorVersion.toNat ++ toLe 2 header.minorVersion.toNat ++
    toLe 2 header.messageType.toWire.toNat ++ toLe 2 header.flags.toNat ++
    toLe 4 header.payloadLength.toNat ++ toLe 8 header.sessionId.toNat ++
    toLe 8 header.requestId.toNat

namespace FrameHeader

variable {header : FrameHeader} {bytes : List UInt8}

theorem length_image (header : FrameHeader) : header.image.length = frameHeaderBytes := by
  simp only [image, List.length_append, length_toLe]
  rfl

theorem encode_eq_ok_iff : header.encode = .ok bytes ↔ header.Valid ∧ bytes = header.image := by
  rw [encode, bind_eq_ok]
  constructor
  · rintro ⟨u, hValid, hBytes⟩
    cases hBytes
    exact ⟨hValid, rfl⟩
  · rintro ⟨hValid, rfl⟩
    exact ⟨(), hValid, rfl⟩

theorem fields_image (header : FrameHeader) :
    header.image.take 4 = frameMagic ∧
    UInt16.ofNat (wireField header.image 4 2) = header.majorVersion ∧
    UInt16.ofNat (wireField header.image 6 2) = header.minorVersion ∧
    UInt16.ofNat (wireField header.image 8 2) = header.messageType.toWire ∧
    UInt16.ofNat (wireField header.image 10 2) = header.flags ∧
    UInt32.ofNat (wireField header.image 12 4) = header.payloadLength ∧
    UInt64.ofNat (wireField header.image 16 8) = header.sessionId ∧
    UInt64.ofNat (wireField header.image 24 8) = header.requestId := by
  have hWord16 (value : UInt16) : UInt16.ofNat (fromLe (toLe 2 value.toNat)) = value := (toLe_uint16_iff.mp rfl).2
  have hWord32 (value : UInt32) : UInt32.ofNat (fromLe (toLe 4 value.toNat)) = value := (toLe_uint32_iff.mp rfl).2
  have hWord64 (value : UInt64) : UInt64.ofNat (fromLe (toLe 8 value.toNat)) = value := (toLe_uint64_iff.mp rfl).2
  simp [image, wireField, frameMagic, List.drop_append, List.take_append, hWord16, hWord32, hWord64,
    List.drop_of_length_le, List.take_of_length_le]

theorem fields_of_length (hLength : bytes.length = frameHeaderBytes) :
    bytes = bytes.take 4 ++ toLe 2 (UInt16.ofNat (wireField bytes 4 2)).toNat ++
      toLe 2 (UInt16.ofNat (wireField bytes 6 2)).toNat ++ toLe 2 (UInt16.ofNat (wireField bytes 8 2)).toNat ++
      toLe 2 (UInt16.ofNat (wireField bytes 10 2)).toNat ++ toLe 4 (UInt32.ofNat (wireField bytes 12 4)).toNat ++
      toLe 8 (UInt64.ofNat (wireField bytes 16 8)).toNat ++ toLe 8 (UInt64.ofNat (wireField bytes 24 8)).toNat := by
  have hLength : bytes.length = 32 := hLength
  have hPiece (offset size : Nat) (hFits : offset + size ≤ 32) :
      ((bytes.drop offset).take size).length = size := by
    rw [List.length_take, List.length_drop]
    omega
  have hWord16 (offset : Nat) (hFits : offset + 2 ≤ 32) :
      toLe 2 (UInt16.ofNat (wireField bytes offset 2)).toNat = (bytes.drop offset).take 2 :=
    (toLe_uint16_iff.mpr ⟨hPiece offset 2 hFits, rfl⟩).symm
  have hWord32 (offset : Nat) (hFits : offset + 4 ≤ 32) :
      toLe 4 (UInt32.ofNat (wireField bytes offset 4)).toNat = (bytes.drop offset).take 4 :=
    (toLe_uint32_iff.mpr ⟨hPiece offset 4 hFits, rfl⟩).symm
  have hWord64 (offset : Nat) (hFits : offset + 8 ≤ 32) :
      toLe 8 (UInt64.ofNat (wireField bytes offset 8)).toNat = (bytes.drop offset).take 8 :=
    (toLe_uint64_iff.mpr ⟨hPiece offset 8 hFits, rfl⟩).symm
  have hJoin (offset size : Nat) : bytes.take offset ++ (bytes.drop offset).take size = bytes.take (offset + size) :=
    List.take_add.symm
  rw [hWord16 4 (by decide), hWord16 6 (by decide), hWord16 8 (by decide), hWord16 10 (by decide),
    hWord32 12 (by decide), hWord64 16 (by decide), hWord64 24 (by decide)]
  rw [hJoin 4 2, hJoin 6 2, hJoin 8 2, hJoin 10 2, hJoin 12 4, hJoin 16 8, hJoin 24 8]
  exact (List.take_of_length_le (Nat.le_of_eq hLength)).symm

end FrameHeader

section Decode

variable {header : FrameHeader} {bytes payload : List UInt8} {view : FrameView} {session : UInt64}

theorem decodeFrameHeader_eq_ok_iff :
    decodeFrameHeader bytes = .ok header ↔ header.Valid ∧ bytes = header.image := by
  simp only [decodeFrameHeader, ite_error_eq_ok, bind_eq_ok, not_not]
  constructor
  · rintro ⟨hLength, hMagic, -, kind, hKind, u, hValid, hHeader⟩
    cases hHeader
    refine ⟨hValid, ?_⟩
    rw [FrameHeader.image]
    dsimp only
    rw [MessageType.toWire_of_fromWire hKind, ← hMagic]
    exact FrameHeader.fields_of_length hLength
  · rintro ⟨hValid, rfl⟩
    obtain ⟨hMagic, hMajor, hMinor, hKind, hFlags, hPayload, hSession, hRequest⟩ := header.fields_image
    obtain ⟨hMajor', hMinor', -⟩ := (FrameHeader.validate_eq_ok_iff header).mp hValid
    rw [hMajor, hMinor, hKind, hFlags, hPayload, hSession, hRequest]
    refine ⟨header.length_image, hMagic, ?_, header.messageType, MessageType.fromWire_toWire _, (), hValid, rfl⟩
    rintro (h | h)
    · exact h hMajor'
    · exact h hMinor'

structure FrameView.Framed (view : FrameView) : Prop where
  valid : view.header.Valid
  length_eq : view.payload.length = view.header.payloadLength.toNat

def FrameView.image (view : FrameView) : List UInt8 := view.header.image ++ view.payload

theorem decodeFrame_eq_ok_iff :
    decodeFrame bytes session = .ok view ↔
      view.Framed ∧ bytes = view.image ∧ (session = 0 ∨ session = view.header.sessionId) := by
  obtain ⟨header, payload⟩ := view
  simp only [decodeFrame, ite_error_eq_ok, bind_eq_ok, not_not, Nat.not_lt, FrameView.image]
  constructor
  · rintro ⟨hShort, header', hHeader, hSession, hTruncated, hLength, hView⟩
    cases hView
    obtain ⟨hValid, hImage⟩ := decodeFrameHeader_eq_ok_iff.mp hHeader
    have hPayload : ((bytes.drop frameHeaderBytes).take header.payloadLength.toNat) =
        bytes.drop frameHeaderBytes := by
      apply List.take_of_length_le
      rw [List.length_drop]
      omega
    refine ⟨⟨hValid, ?_⟩, ?_, ?_⟩
    · dsimp only
      rw [hPayload, List.length_drop]
      omega
    · rw [hPayload, ← hImage, List.take_append_drop]
    · by_cases hZero : session = 0
      · exact .inl hZero
      · exact .inr (not_not.mp fun hNe => hSession ⟨hZero, fun h => hNe h.symm⟩)
  · rintro ⟨⟨hValid, hLength⟩, rfl, hSession⟩
    dsimp only at hValid hLength hSession
    have hFront : (header.image ++ payload).take frameHeaderBytes = header.image :=
      List.take_left' header.length_image
    have hBack : (header.image ++ payload).drop frameHeaderBytes = payload :=
      List.drop_left' header.length_image
    have hAll : (header.image ++ payload).length = frameHeaderBytes + header.payloadLength.toNat := by
      rw [List.length_append, header.length_image, hLength]
    refine ⟨by omega, header, ?_, ?_, by omega, hAll, ?_⟩
    · rw [hFront]
      exact decodeFrameHeader_eq_ok_iff.mpr ⟨hValid, rfl⟩
    · rintro ⟨hPinned, hOther⟩
      rcases hSession with rfl | rfl
      · exact hPinned rfl
      · exact hOther rfl
    · rw [hBack, ← hLength, List.take_length]

theorem encodeFrame_framed (h : view.Framed) {destination : List UInt8}
    (hRoom : view.image.length ≤ destination.length) :
    (encodeFrame view.header view.payload).exec destination =
      (.ok view.image.length, view.image ++ destination.drop view.image.length) := by
  have hLimit := h.valid.payloadLength_le
  have hLength := h.length_eq
  have hImage : view.image.length = frameHeaderBytes + view.payload.length := by
    rw [FrameView.image, List.length_append, FrameHeader.length_image]
  rw [encodeFrame, if_neg (by omega), if_neg (by omega), h.valid]
  change exec (if destination.length < _ then _ else _) destination = _
  rw [if_neg (by omega), FrameHeader.encode_eq_ok_iff.mpr ⟨h.valid, rfl⟩]
  change (Except.ok _, (view.header.image ++ destination.drop frameHeaderBytes).take frameHeaderBytes ++
    view.payload ++ (view.header.image ++ destination.drop frameHeaderBytes).drop
      (frameHeaderBytes + view.payload.length)) = _
  rw [List.take_left' view.header.length_image, ← List.drop_drop, List.drop_left' view.header.length_image,
    List.drop_drop, hImage, FrameView.image]

theorem encodeFrame_ok {destination destination' : List UInt8} {size : Nat}
    (h : (encodeFrame header payload).exec destination = (.ok size, destination')) :
    (FrameView.mk header payload).Framed ∧ (FrameView.mk header payload).image.length ≤ destination.length := by
  rw [encodeFrame] at h
  split at h
  · cases h
  split at h
  · cases h
  rename_i hLimit hLength
  cases hValid : header.validate with
  | error error =>
    rw [hValid] at h
    cases h
  | ok u =>
    rw [hValid] at h
    change exec (if destination.length < frameHeaderBytes + payload.length then _ else _) destination = _ at h
    split at h
    · cases h
    refine ⟨⟨hValid, by dsimp only; omega⟩, ?_⟩
    rw [FrameView.image, List.length_append, FrameHeader.length_image]
    dsimp only
    omega

theorem image_prefix_free {view view' : FrameView} (h : view.Framed) (h' : view'.Framed)
    (hPrefix : view.image <+: view'.image) : view.image = view'.image := by
  have hHeader : view.header.image <+: view'.header.image := by
    refine List.prefix_of_prefix_length_le ?_ (List.prefix_append _ view'.payload) ?_
    · exact (List.prefix_append _ view.payload).trans hPrefix
    · rw [FrameHeader.length_image, FrameHeader.length_image]
  have hSame : view.header.image = view'.header.image :=
    hHeader.eq_of_length (by rw [FrameHeader.length_image, FrameHeader.length_image])
  have hDecode : decodeFrameHeader view.header.image = .ok view.header :=
    decodeFrameHeader_eq_ok_iff.mpr ⟨h.valid, rfl⟩
  have hDecode' : decodeFrameHeader view.header.image = .ok view'.header :=
    decodeFrameHeader_eq_ok_iff.mpr ⟨h'.valid, hSame⟩
  have hHeaders : view.header = view'.header := Except.ok.inj (hDecode.symm.trans hDecode')
  apply hPrefix.eq_of_length
  rw [FrameView.image, FrameView.image, List.length_append, List.length_append, h.length_eq, h'.length_eq,
    hHeaders]

end Decode

/-- The codec over the whole format: what the encoder writes decodes to what it was
given, what decodes is exactly what the encoder writes for it, and a frame's bytes
determine it, with no byte missing or left over. -/
theorem frame_codec :
    (∀ header payload destination size destination',
      (encodeFrame header payload).exec destination = (.ok size, destination') →
      ∀ session : UInt64, session = 0 ∨ session = header.sessionId →
        decodeFrame (destination'.take size) session = .ok ⟨header, payload⟩) ∧
    (∀ bytes session view, decodeFrame bytes session = .ok view →
      ∀ destination : List UInt8, bytes.length ≤ destination.length →
        (encodeFrame view.header view.payload).exec destination =
          (.ok bytes.length, bytes ++ destination.drop bytes.length)) ∧
    (∀ bytes bytes' session session' view, decodeFrame bytes session = .ok view →
      decodeFrame bytes' session' = .ok view → bytes = bytes') ∧
    ∀ bytes session view, decodeFrame bytes session = .ok view →
      ∀ bytes' session', bytes' ≠ bytes → bytes' <+: bytes ∨ bytes <+: bytes' →
        ∃ error, decodeFrame bytes' session' = .error error := by
  refine ⟨?_, ?_, ?_, ?_⟩
  · rintro header payload destination size destination' hEncode session hSession
    obtain ⟨hFramed, hRoom⟩ := encodeFrame_ok hEncode
    cases (encodeFrame_framed hFramed hRoom).symm.trans hEncode
    rw [List.take_left]
    exact decodeFrame_eq_ok_iff.mpr ⟨hFramed, rfl, hSession⟩
  · rintro bytes session view hDecode destination hRoom
    obtain ⟨hFramed, rfl, -⟩ := decodeFrame_eq_ok_iff.mp hDecode
    exact encodeFrame_framed hFramed hRoom
  · rintro bytes bytes' session session' view hDecode hDecode'
    rw [(decodeFrame_eq_ok_iff.mp hDecode).2.1, (decodeFrame_eq_ok_iff.mp hDecode').2.1]
  · rintro bytes session view hDecode bytes' session' hNe hPrefix
    cases hDecode' : decodeFrame bytes' session' with
    | error error => exact ⟨error, rfl⟩
    | ok view' =>
      obtain ⟨hFramed, rfl, -⟩ := decodeFrame_eq_ok_iff.mp hDecode
      obtain ⟨hFramed', rfl, -⟩ := decodeFrame_eq_ok_iff.mp hDecode'
      rcases hPrefix with h | h
      · exact (hNe (image_prefix_free hFramed' hFramed h)).elim
      · exact (hNe (image_prefix_free hFramed hFramed' h).symm).elim

/-- A three-byte data_chunk frame, pinned to its session. -/
theorem frame_codec_dataChunk :
    decodeFrame ([0x4f, 0x48, 0x4c, 0x50, 1, 0, 0, 0, 0x31, 0, 0, 0, 3, 0, 0, 0, 9, 0, 0, 0, 0, 0, 0, 0,
      1, 0, 0, 0, 0, 0, 0, 0, 0xde, 0xad, 0xbe, 7].take 35) 9 =
      .ok ⟨FrameHeader.new .dataChunk 9 1 3, [0xde, 0xad, 0xbe]⟩ :=
  frame_codec.1 (FrameHeader.new .dataChunk 9 1 3) [0xde, 0xad, 0xbe] (List.replicate 36 7) 35 _ (by rfl) 9
    (.inr rfl)

end OpenHalfLife.Protocol
