import OpenHalfLife.Lib.Machine
import OpenHalfLife.Save.Container

/-! # What the container's fields look like on disk

`Reads` says that a read consumes one image whatever surrounds it; `Stable` says
that a read which succeeds does so again when bytes are added behind it.
-/

namespace OpenHalfLife.Save

open Machine Result

set_option autoImplicit false

/-! ## Laws of the reader -/

section Laws

variable {α β : Type} {image image' : List UInt8} {a : α} {b : β}

def Reads (m : Reading α) (image : List UInt8) (a : α) : Prop :=
  ∀ before tail : List UInt8, (before ++ image).length < 2 ^ 64 →
    m.exec ⟨before ++ image ++ tail, before.length⟩ =
      (.ok a, ⟨before ++ image ++ tail, (before ++ image).length⟩)

theorem Reads.bind {m : Reading α} {f : α → Reading β} {i : List UInt8} (hm : Reads m image a)
    (hf : Reads (f a) i b) : Reads (m >>= f) (image ++ i) b := by
  intro before tail hLimit
  have hFirst := hm before (i ++ tail) (by simp only [List.length_append] at hLimit ⊢; omega)
  have hSecond := hf (before ++ image) tail (by rwa [List.append_assoc])
  simp only [List.append_assoc] at hFirst hSecond ⊢
  rw [exec_bind, hFirst]
  exact hSecond

theorem Reads.bind_nil {m : Reading α} {f : α → Reading β} (hm : Reads m image a) (hf : Reads (f a) [] b) :
    Reads (m >>= f) image b := by
  have h := hm.bind hf
  rwa [List.append_nil] at h

theorem reads_pure (a : α) : Reads (pure a) [] a := by
  intro before tail _
  simp only [List.append_nil]
  rfl

theorem Reads.map {m : Reading α} {f : α → β} (hm : Reads m image a) :
    Reads (do let a ← m; return f a) image (f a) :=
  hm.bind_nil (reads_pure (f a))

theorem Reads.take {count : Nat} (h : image.length = count) : Reads (Reader.take count) image image := by
  intro before tail hLimit
  subst h
  have hStop : before.length + image.length = (before ++ image).length := List.length_append.symm
  have hInside : ¬ (before ++ image).length > (before ++ image ++ tail).length := by
    simp only [List.length_append]
    omega
  have hSlice : ((before ++ image ++ tail).drop before.length).take image.length = image := by
    rw [List.append_assoc, List.drop_left, List.take_left]
  rw [Reader.take, exec_ofFun]
  dsimp only
  rw [hStop, if_neg (by rintro (h | h); omega; exact hInside h), hSlice]

theorem Reads.u16 (value : UInt16) : Reads Reader.u16 (toLe 2 value.toNat) value := by
  have h := (Reads.take (length_toLe 2 value.toNat)).map (f := fun bytes => UInt16.ofNat (fromLe bytes))
  rwa [(toLe_uint16_iff.mp rfl).2] at h

theorem Reads.u32 (value : UInt32) : Reads Reader.u32 (toLe 4 value.toNat) value := by
  have h := (Reads.take (length_toLe 4 value.toNat)).map (f := fun bytes => UInt32.ofNat (fromLe bytes))
  rwa [(toLe_uint32_iff.mp rfl).2] at h

theorem Reads.u64 (value : UInt64) : Reads Reader.u64 (toLe 8 value.toNat) value := by
  have h := (Reads.take (length_toLe 8 value.toNat)).map (f := fun bytes => UInt64.ofNat (fromLe bytes))
  rwa [(toLe_uint64_iff.mp rfl).2] at h

theorem Reads.array32 (value : Digest) : Reads Reader.array32 value.bytes value := by
  apply (Reads.take value.length_eq).bind_nil
  rw [dif_pos value.length_eq]
  exact reads_pure value

theorem fromUtf8_utf8 (text : String) : fromUtf8 (utf8 text) = some text := by
  rw [fromUtf8, utf8, Array.toArray_toList, String.fromUTF8?, dif_pos text.isValidUTF8]
  rfl

theorem Reads.boundedString {text : String} {maxLen : Nat} (h : (utf8 text).length ≤ maxLen)
    (hSmall : (utf8 text).length < 2 ^ 16) :
    Reads (Reader.boundedString maxLen) (toLe 2 (utf8 text).length ++ utf8 text) text := by
  have hSize : (UInt16.ofNat (utf8 text).length).toNat = (utf8 text).length := UInt16.toNat_ofNat_of_lt' hSmall
  have hCount := Reads.u16 (UInt16.ofNat (utf8 text).length)
  rw [hSize] at hCount
  refine hCount.bind ?_
  rw [hSize, if_neg (Nat.not_lt_of_le h)]
  apply (Reads.take rfl).bind_nil
  rw [fromUtf8_utf8]
  exact reads_pure text

theorem Reads.boundedBytes {bytes : List UInt8} {maxLen : Nat} (h : bytes.length ≤ maxLen)
    (hSmall : bytes.length < 2 ^ 32) :
    Reads (Reader.boundedBytes maxLen) (toLe 4 bytes.length ++ bytes) bytes := by
  have hSize : (UInt32.ofNat bytes.length).toNat = bytes.length := UInt32.toNat_ofNat_of_lt' hSmall
  have hCount := Reads.u32 (UInt32.ofNat bytes.length)
  rw [hSize] at hCount
  refine hCount.bind ?_
  rw [hSize, if_neg (Nat.not_lt_of_le h)]
  exact Reads.take rfl

def Stable (m : Reading α) : Prop :=
  ∀ (bytes more : List UInt8) (position : Nat) (a : α) (reader : Reader), position ≤ bytes.length →
    m.exec ⟨bytes, position⟩ = (.ok a, reader) →
    reader.bytes = bytes ∧ reader.position ≤ bytes.length ∧
      m.exec ⟨bytes ++ more, position⟩ = (.ok a, ⟨bytes ++ more, reader.position⟩)

theorem stable_pure (a : α) : Stable (pure a) := by
  rintro bytes more position _ _ hPosition h
  cases h
  exact ⟨rfl, hPosition, rfl⟩

theorem stable_throw (error : SaveError) : Stable (throw error : Reading α) := by
  rintro bytes more position _ _ hPosition h
  cases h

theorem Stable.bind {m : Reading α} {f : α → Reading β} (hm : Stable m) (hf : ∀ a, Stable (f a)) :
    Stable (m >>= f) := by
  intro bytes more position b reader hPosition h
  obtain ⟨a, ⟨_, position'⟩, hFirst, hSecond⟩ := exec_bind_eq_ok.mp h
  obtain ⟨rfl, hPosition', hFirst'⟩ := hm bytes more position a _ hPosition hFirst
  obtain ⟨hBytes, hEnd, hSecond'⟩ := hf a _ more position' b reader hPosition' hSecond
  refine ⟨hBytes, hEnd, ?_⟩
  rw [exec_bind, hFirst']
  exact hSecond'

theorem Stable.ite {p : Prop} [Decidable p] {m n : Reading α} (hm : Stable m) (hn : Stable n) :
    Stable (if p then m else n) := by
  split
  · exact hm
  · exact hn

theorem stable_take (count : Nat) : Stable (Reader.take count) := by
  intro bytes more position slice reader hPosition h
  rw [Reader.take, exec_ofFun] at h
  dsimp only at h
  split at h
  · cases h
  rename_i hFits
  cases h
  simp only [not_or, Nat.not_lt, Nat.not_le] at hFits
  refine ⟨rfl, hFits.2, ?_⟩
  have hMore : ¬ (position + count ≥ 2 ^ 64 ∨ position + count > (bytes ++ more).length) := by
    rw [List.length_append]
    omega
  rw [Reader.take, exec_ofFun]
  dsimp only
  rw [if_neg hMore, List.drop_append_of_le_length hPosition, List.take_append_of_le_length]
  rw [List.length_drop]
  omega

theorem stable_u16 : Stable Reader.u16 := (stable_take 2).bind fun _ => stable_pure _

theorem stable_u32 : Stable Reader.u32 := (stable_take 4).bind fun _ => stable_pure _

theorem stable_u64 : Stable Reader.u64 := (stable_take 8).bind fun _ => stable_pure _

theorem stable_array32 : Stable Reader.array32 := by
  refine (stable_take 32).bind fun bytes => ?_
  split
  · exact stable_pure _
  · exact stable_throw _

theorem stable_boundedString (maxLen : Nat) : Stable (Reader.boundedString maxLen) := by
  refine stable_u16.bind fun size => (stable_throw _).ite ((stable_take _).bind fun bytes => ?_)
  split
  · exact stable_pure _
  · exact stable_throw _

theorem stable_boundedBytes (maxLen : Nat) : Stable (Reader.boundedBytes maxLen) :=
  stable_u32.bind fun _ => (stable_throw _).ite (stable_take _)

def Writes (m : Writing Unit) (image : List UInt8) : Prop := ∀ bytes, m.exec bytes = (.ok (), bytes ++ image)

theorem writes_raw (bytes : List UInt8) : Writes (Writer.raw bytes) bytes := fun _ => rfl

theorem Writes.bind {m n : Writing Unit} (hm : Writes m image) (hn : Writes n image') :
    Writes (m >>= fun _ => n) (image ++ image') := by
  intro bytes
  rw [exec_bind, hm bytes]
  dsimp only
  rw [hn, List.append_assoc]

theorem Writes.forM {f : α → Writing PUnit} {image : α → List UInt8} {values : List α}
    (h : ∀ value ∈ values, Writes (f value) (image value)) : Writes (values.forM f) (values.flatMap image) := by
  induction values with
  | nil =>
    intro bytes
    rw [List.flatMap_nil, List.append_nil]
    rfl
  | cons value values ih =>
    rw [List.flatMap_cons]
    exact (h value List.mem_cons_self).bind (ih fun v hv => h v (List.mem_cons_of_mem _ hv))

end Laws

/-! ## The images -/

def Header.image (header : Header) : List UInt8 :=
  (toLe 2 (utf8 header.gameVersion).length ++ utf8 header.gameVersion) ++
    (toLe 8 header.createdAtUnixSecs.toNat ++
    ((toLe 2 (utf8 header.mapIdentity).length ++ utf8 header.mapIdentity) ++
    ((toLe 2 (utf8 header.title).length ++ utf8 header.title) ++
    (toLe 4 header.thumbnail.length ++ header.thumbnail))))

def SectionEntry.image (entry : SectionEntry) : List UInt8 :=
  toLe 4 entry.tag.toNat ++ (toLe 8 entry.offset.toNat ++ (toLe 8 entry.length.toNat ++ entry.sha256.bytes))

def headImage (header : Header) (count : Nat) : List UInt8 :=
  magic ++ (toLe 2 formatMajor.toNat ++ (toLe 2 formatMinor.toNat ++ (header.image ++ toLe 4 count)))

section Images

variable {header : Header} {entry : SectionEntry}

theorem validate_eq_ok_iff {u : Unit} : header.validate = .ok u ↔
    (utf8 header.gameVersion).length ≤ maxGameVersionLen ∧ (utf8 header.mapIdentity).length ≤ maxMapIdentityLen ∧
      (utf8 header.title).length ≤ maxTitleLen ∧ header.thumbnail.length ≤ maxThumbnailLen := by
  rw [Header.validate, ite_error_eq_ok]
  simp only [not_or, Nat.not_lt, and_true]

theorem Header.decode_reads (h : header.validate = .ok ()) : Reads Header.decode header.image header := by
  obtain ⟨hVersion, hMap, hTitle, hThumbnail⟩ := validate_eq_ok_iff.mp h
  refine (Reads.boundedString hVersion (lt_of_le_of_lt hVersion (by decide))).bind ?_
  refine (Reads.u64 _).bind ?_
  refine (Reads.boundedString hMap (lt_of_le_of_lt hMap (by decide))).bind ?_
  refine (Reads.boundedString hTitle (lt_of_le_of_lt hTitle (by decide))).bind ?_
  exact (Reads.boundedBytes hThumbnail (lt_of_le_of_lt hThumbnail (by decide))).map

theorem SectionEntry.decode_reads (entry : SectionEntry) : Reads SectionEntry.decode entry.image entry :=
  (Reads.u32 _).bind ((Reads.u64 _).bind ((Reads.u64 _).bind (Reads.array32 _).map))

theorem writes_boundedString {text : String} (h : (utf8 text).length < 2 ^ 16) :
    Writes (Writer.boundedString text) (toLe 2 (utf8 text).length ++ utf8 text) := by
  rw [Writer.boundedString, if_neg (Nat.not_le_of_lt h)]
  refine Writes.bind ?_ (writes_raw _)
  rw [Writer.u16, UInt16.toNat_ofNat_of_lt' h]
  exact writes_raw _

theorem writes_boundedBytes {bytes : List UInt8} (h : bytes.length < 2 ^ 32) :
    Writes (Writer.boundedBytes bytes) (toLe 4 bytes.length ++ bytes) := by
  rw [Writer.boundedBytes, if_neg (Nat.not_le_of_lt h)]
  refine Writes.bind ?_ (writes_raw _)
  rw [Writer.u32, UInt32.toNat_ofNat_of_lt' h]
  exact writes_raw _

theorem Header.encode_writes (h : header.validate = .ok ()) : Writes header.encode header.image := by
  obtain ⟨hVersion, hMap, hTitle, hThumbnail⟩ := validate_eq_ok_iff.mp h
  intro bytes
  rw [Header.encode, h]
  refine Writes.bind (writes_boundedString (lt_of_le_of_lt hVersion (by decide))) ?_ bytes
  refine (writes_raw _).bind ?_
  refine Writes.bind (writes_boundedString (lt_of_le_of_lt hMap (by decide))) ?_
  refine Writes.bind (writes_boundedString (lt_of_le_of_lt hTitle (by decide))) ?_
  exact writes_boundedBytes (lt_of_le_of_lt hThumbnail (by decide))

theorem SectionEntry.encode_writes (entry : SectionEntry) : Writes entry.encode entry.image :=
  (writes_raw _).bind ((writes_raw _).bind ((writes_raw _).bind (writes_raw _)))

theorem length_entryImage (entry : SectionEntry) : entry.image.length = entryLen := by
  simp only [SectionEntry.image, List.length_append, length_toLe, entry.sha256.length_eq]
  rfl

theorem stable_decodeHeader : Stable Header.decode := by
  refine (stable_boundedString _).bind fun _ => stable_u64.bind fun _ => ?_
  refine (stable_boundedString _).bind fun _ => (stable_boundedString _).bind fun _ => ?_
  exact (stable_boundedBytes _).bind fun _ => stable_pure _

theorem stable_decodeEntry : Stable SectionEntry.decode :=
  stable_u32.bind fun _ => stable_u64.bind fun _ => stable_u64.bind fun _ => stable_array32.bind fun _ =>
    stable_pure _

theorem stable_readEntries (count : Nat) : Stable (SaveReader.readEntries count) := by
  induction count with
  | zero => exact stable_pure _
  | succ count ih => exact stable_decodeEntry.bind fun _ => ih.bind fun _ => stable_pure _

theorem stable_readPrologue (limits : Limits) : Stable (SaveReader.readPrologue limits) := by
  refine (stable_take _).bind fun found => (stable_throw _).ite ?_
  refine stable_u16.bind fun major => stable_u16.bind fun minor => (stable_throw _).ite ?_
  refine stable_decodeHeader.bind fun header => stable_u32.bind fun count => (stable_throw _).ite ?_
  exact (stable_readEntries _).bind fun entries => stable_pure _

theorem readEntries_reads (entries : List SectionEntry) :
    Reads (SaveReader.readEntries entries.length) (entries.flatMap SectionEntry.image) entries := by
  induction entries with
  | nil => exact reads_pure []
  | cons entry entries ih =>
    rw [List.flatMap_cons]
    exact entry.decode_reads.bind ih.map

theorem readPrologue_reads (limits : Limits) (entries : List SectionEntry)
    (hHeader : header.validate = .ok ()) (hCount : entries.length < 2 ^ 32)
    (hLimit : entries.length ≤ limits.maxSections.toNat) :
    Reads (SaveReader.readPrologue limits)
      (headImage header entries.length ++ entries.flatMap SectionEntry.image) ⟨header, entries, formatMinor⟩ := by
  have hSize : (UInt32.ofNat entries.length).toNat = entries.length := UInt32.toNat_ofNat_of_lt' hCount
  have hRead := Reads.u32 (UInt32.ofNat entries.length)
  rw [hSize] at hRead
  have hFits : ¬ UInt32.ofNat entries.length > limits.maxSections := by
    rw [gt_iff_lt, UInt32.lt_iff_toNat_lt, hSize]
    omega
  simp only [headImage, List.append_assoc]
  refine (Reads.take rfl).bind ?_
  rw [if_neg (by simp)]
  refine (Reads.u16 _).bind ((Reads.u16 _).bind ?_)
  rw [if_neg (by simp)]
  refine (Header.decode_reads hHeader).bind (hRead.bind ?_)
  rw [if_neg hFits, hSize]
  exact (readEntries_reads entries).map

theorem writePrologue_writes {writer : SaveWriter} (h : writer.header.validate = .ok ())
    (hCount : writer.sections.length < 2 ^ 32) :
    Writes writer.writePrologue (headImage writer.header writer.sections.length) := by
  refine (writes_raw _).bind ((writes_raw _).bind ((writes_raw _).bind ((Header.encode_writes h).bind ?_)))
  rw [Writer.u32, UInt32.toNat_ofNat_of_lt' hCount]
  exact writes_raw _

end Images

end OpenHalfLife.Save
