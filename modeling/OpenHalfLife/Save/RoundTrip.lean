import OpenHalfLife.Save.Images

/-! # The writer and the reader of a save file agree

A finished file opens with what was put into it. A part of it cut off at the end
never opens when there is a section; without one it does exactly when the cut
happens to leave a digest of the bytes before it.
-/

namespace OpenHalfLife.Save

open Machine Result

set_option autoImplicit false

variable {digest : List UInt8 → Digest}

/-! ## The table -/

section Table

variable {sections : List (UInt32 × List UInt8)} {entries : List SectionEntry} {offset : Nat}

abbrev sectionData (sections : List (UInt32 × List UInt8)) : List UInt8 := sections.flatMap Prod.snd

theorem checkedAdd_eq_ok_iff {a b c : Nat} : checkedAdd a b = .ok c ↔ c = a + b ∧ a + b < 2 ^ 64 := by
  rw [checkedAdd, ite_error_eq_ok]
  constructor
  · rintro ⟨hLimit, hSum⟩
    cases hSum
    exact ⟨rfl, Nat.lt_of_not_le hLimit⟩
  · rintro ⟨rfl, hLimit⟩
    exact ⟨Nat.not_le_of_lt hLimit, rfl⟩

theorem layOut_cons {tag : UInt32} {bytes : List UInt8} :
    SaveWriter.layOut digest ((tag, bytes) :: sections) offset = .ok entries ↔
      ∃ rest, SaveWriter.layOut digest sections (offset + bytes.length) = .ok rest ∧
        offset + bytes.length < 2 ^ 64 ∧
        entries = ⟨tag, UInt64.ofNat offset, UInt64.ofNat bytes.length, digest bytes⟩ :: rest := by
  simp only [SaveWriter.layOut, bind_eq_ok, checkedAdd_eq_ok_iff]
  constructor
  · rintro ⟨_, ⟨rfl, hLimit⟩, rest, hRest, hEntries⟩
    cases hEntries
    exact ⟨rest, hRest, hLimit, rfl⟩
  · rintro ⟨rest, hRest, hLimit, rfl⟩
    exact ⟨_, ⟨rfl, hLimit⟩, rest, hRest, rfl⟩

theorem layOut_tags (h : SaveWriter.layOut digest sections offset = .ok entries) :
    entries.map SectionEntry.tag = sections.map Prod.fst := by
  induction sections generalizing offset entries with
  | nil =>
    cases h
    rfl
  | cons s sections ih =>
    obtain ⟨rest, hRest, -, rfl⟩ := layOut_cons.mp h
    rw [List.map_cons, List.map_cons, ih hRest]

theorem layOut_length (h : SaveWriter.layOut digest sections offset = .ok entries) :
    entries.length = sections.length := by
  simpa only [List.length_map] using congrArg List.length (layOut_tags h)

def SectionEntry.slice (entry : SectionEntry) (bytes : List UInt8) : List UInt8 :=
  (bytes.drop entry.offset.toNat).take entry.length.toNat

def SectionEntry.stop (entry : SectionEntry) : Nat := entry.offset.toNat + entry.length.toNat

/-- A file whose section data starts at `offset`. -/
structure Placed (bytes : List UInt8) (offset : Nat) (sections : List (UInt32 × List UInt8))
    (after : List UInt8) : Prop where
  split : ∃ before, before.length = offset ∧ bytes = before ++ (sectionData sections ++ after)

theorem Placed.tail {bytes after : List UInt8} {s : UInt32 × List UInt8}
    (h : Placed bytes offset (s :: sections) after) : Placed bytes (offset + s.2.length) sections after := by
  obtain ⟨before, rfl, rfl⟩ := h.split
  refine ⟨before ++ s.2, List.length_append, ?_⟩
  rw [sectionData, List.flatMap_cons, List.append_assoc, List.append_assoc]

structure Points (entry : SectionEntry) (bytes : List UInt8) (offset : Nat) (data : List UInt8) : Prop where
  offset_eq : entry.offset.toNat = offset
  length_eq : entry.length.toNat = data.length
  stop_le : offset + data.length ≤ bytes.length
  slice_eq : entry.slice bytes = data

variable (digest) in
theorem Placed.points {tag : UInt32} {data bytes after : List UInt8}
    (h : Placed bytes offset ((tag, data) :: sections) after) (hLimit : offset + data.length < 2 ^ 64) :
    Points ⟨tag, UInt64.ofNat offset, UInt64.ofNat data.length, digest data⟩ bytes offset data := by
  obtain ⟨before, hBefore, hBytes⟩ := h.split
  have hSmall : offset < 2 ^ 64 := by omega
  have hSmall' : data.length < 2 ^ 64 := by omega
  have hOffset : (UInt64.ofNat offset).toNat = offset := UInt64.toNat_ofNat_of_lt' hSmall
  have hLength : (UInt64.ofNat data.length).toNat = data.length := UInt64.toNat_ofNat_of_lt' hSmall'
  rw [sectionData, List.flatMap_cons, List.append_assoc] at hBytes
  refine ⟨hOffset, hLength, ?_, ?_⟩
  · rw [hBytes]
    simp only [List.length_append]
    omega
  · rw [SectionEntry.slice, hOffset, hLength, hBytes, List.drop_left' hBefore, List.take_left]

theorem readSection_layOut (reader : SaveReader) {after : List UInt8}
    (h : SaveWriter.layOut digest sections offset = .ok reader.entries)
    (hPlaced : Placed reader.bytes offset sections after) (tag : UInt32) :
    reader.readSection tag = match sections.find? (·.1 = tag) with
      | some s => .ok s.2
      | none => .error .sectionNotFound := by
  obtain ⟨header, entries, bytes, unknown, minor⟩ := reader
  dsimp only at h hPlaced
  induction sections generalizing offset entries with
  | nil =>
    cases h
    rfl
  | cons s sections ih =>
    obtain ⟨own, data⟩ := s
    obtain ⟨rest, hRest, hLimit, rfl⟩ := layOut_cons.mp h
    by_cases hTag : own = tag
    · have hPoints := hPlaced.points digest hLimit
      have hSlice := hPoints.slice_eq
      rw [SectionEntry.slice] at hSlice
      rw [SaveReader.readSection, List.find?_cons_of_pos (by simp [hTag]), List.find?_cons_of_pos (by simp [hTag])]
      dsimp only at hSlice ⊢
      rw [hPoints.offset_eq, hPoints.length_eq] at hSlice ⊢
      rw [checkedAdd_eq_ok_iff.mpr ⟨rfl, hLimit⟩]
      change (if offset + data.length > bytes.length then _ else _) = _
      rw [if_neg (Nat.not_lt_of_le hPoints.stop_le), hSlice]
    · have hTail := ih rest hRest hPlaced.tail
      rw [SaveReader.readSection] at hTail ⊢
      rw [List.find?_cons_of_neg (by simp [hTag]), List.find?_cons_of_neg (by simp [hTag])]
      exact hTail

theorem checkEntry_eq_ok_iff {limits : Limits} {bytes : List UInt8} {dataStart contentLen : Nat}
    {seen seen' : SaveReader.Seen} {entry : SectionEntry} :
    SaveReader.checkEntry digest limits bytes dataStart contentLen seen entry = .ok seen' ↔
      entry.tag ∉ seen.tags ∧ entry.length ≤ limits.maxSectionBytes ∧ dataStart ≤ entry.offset.toNat ∧
      entry.offset.toNat + entry.length.toNat < 2 ^ 64 ∧
      entry.offset.toNat + entry.length.toNat ≤ contentLen ∧
      entry.offset.toNat + entry.length.toNat ≤ bytes.length ∧ digest (entry.slice bytes) = entry.sha256 ∧
      seen' = ⟨seen.tags ++ [entry.tag],
        if entry.tag < minApplicationTag then min (seen.unknown + 1) (2 ^ 32 - 1) else seen.unknown⟩ := by
  simp only [SaveReader.checkEntry, ite_error_eq_ok, bind_eq_ok, checkedAdd_eq_ok_iff, not_not, Nat.not_lt,
    UInt64.not_lt]
  constructor
  · rintro ⟨hTag, hLength, hStart, _, ⟨rfl, hLimit⟩, hContent, hBytes, hDigest, hSeen⟩
    cases hSeen
    exact ⟨hTag, hLength, hStart, hLimit, hContent, hBytes, hDigest, rfl⟩
  · rintro ⟨hTag, hLength, hStart, hLimit, hContent, hBytes, hDigest, rfl⟩
    exact ⟨hTag, hLength, hStart, _, ⟨rfl, hLimit⟩, hContent, hBytes, hDigest, rfl⟩

theorem checkEntries_layOut (limits : Limits) {bytes after : List UInt8} {dataStart : Nat}
    (seen : SaveReader.Seen)
    (h : SaveWriter.layOut digest sections offset = .ok entries) (hPlaced : Placed bytes offset sections after)
    (hStart : dataStart ≤ offset) (hTags : (seen.tags ++ sections.map Prod.fst).Nodup)
    (hSizes : ∀ s ∈ sections, s.2.length ≤ limits.maxSectionBytes.toNat)
    (hApplication : ∀ s ∈ sections, ¬ s.1 < minApplicationTag) :
    entries.foldlM (SaveReader.checkEntry digest limits bytes dataStart
      (offset + (sectionData sections).length)) seen =
      .ok ⟨seen.tags ++ sections.map Prod.fst, seen.unknown⟩ := by
  induction sections generalizing offset entries seen with
  | nil =>
    cases h
    rw [List.map_nil, List.append_nil]
    rfl
  | cons s sections ih =>
    obtain ⟨tag, data⟩ := s
    obtain ⟨rest, hRest, hLimit, rfl⟩ := layOut_cons.mp h
    have hPoints := hPlaced.points digest hLimit
    have hData : (sectionData ((tag, data) :: sections)).length = data.length + (sectionData sections).length := by
      rw [sectionData, List.flatMap_cons, List.length_append]
    have hFresh : tag ∉ seen.tags := by
      intro hSeen
      exact (List.nodup_append.mp hTags).2.2 tag hSeen tag (by simp) rfl
    have hFirst : SaveReader.checkEntry digest limits bytes dataStart
        (offset + (sectionData ((tag, data) :: sections)).length) seen
        ⟨tag, UInt64.ofNat offset, UInt64.ofNat data.length, digest data⟩ =
        .ok ⟨seen.tags ++ [tag], seen.unknown⟩ := by
      apply checkEntry_eq_ok_iff.mpr
      have hSlice := hPoints.slice_eq
      have hOffset := hPoints.offset_eq
      have hLength := hPoints.length_eq
      have hStop := hPoints.stop_le
      have hSize := hSizes _ List.mem_cons_self
      dsimp only at hOffset hLength hSize ⊢
      refine ⟨hFresh, ?_, by omega, by omega, by omega, by omega, by rw [hSlice], ?_⟩
      · rw [UInt64.le_iff_toNat_le, hLength]
        exact hSize
      · rw [if_neg (hApplication _ List.mem_cons_self)]
    have hTags' : ((seen.tags ++ [tag]) ++ sections.map Prod.fst).Nodup := by
      rwa [List.append_assoc, List.singleton_append]
    have hTail := ih ⟨seen.tags ++ [tag], seen.unknown⟩ hRest hPlaced.tail (by omega) hTags'
      (fun s hs => hSizes s (List.mem_cons_of_mem _ hs)) fun s hs => hApplication s (List.mem_cons_of_mem _ hs)
    have hEnd : offset + data.length + (sectionData sections).length =
        offset + (sectionData ((tag, data) :: sections)).length := by omega
    rw [hEnd] at hTail
    rw [List.foldlM_cons, hFirst]
    change List.foldlM _ _ rest = _
    rw [hTail, List.map_cons, List.append_assoc, List.singleton_append]

theorem exists_last (h : SaveWriter.layOut digest sections offset = .ok entries) (hNil : sections ≠ []) :
    ∃ entry ∈ entries,
      entry.offset.toNat + entry.length.toNat = offset + (sectionData sections).length := by
  induction sections generalizing offset entries with
  | nil => exact (hNil rfl).elim
  | cons s sections ih =>
    obtain ⟨tag, data⟩ := s
    obtain ⟨rest, hRest, hLimit, rfl⟩ := layOut_cons.mp h
    rw [sectionData, List.flatMap_cons, List.length_append]
    by_cases hMore : sections = []
    · subst hMore
      have hSmall : offset < 2 ^ 64 := by omega
      have hSmall' : data.length < 2 ^ 64 := by omega
      refine ⟨_, List.mem_cons_self, ?_⟩
      dsimp only
      rw [UInt64.toNat_ofNat_of_lt' hSmall, UInt64.toNat_ofNat_of_lt' hSmall', List.flatMap_nil, List.length_nil,
        Nat.add_zero]
    · obtain ⟨entry, hEntry, hStop⟩ := ih hRest hMore
      exact ⟨entry, List.mem_cons_of_mem _ hEntry, by rw [hStop, Nat.add_assoc]⟩

theorem checkEntries_inside {limits : Limits} {bytes : List UInt8} {dataStart contentLen : Nat}
    {seen seen' : SaveReader.Seen}
    (h : entries.foldlM (SaveReader.checkEntry digest limits bytes dataStart contentLen) seen = .ok seen') :
    ∀ entry ∈ entries, entry.offset.toNat + entry.length.toNat ≤ contentLen := by
  induction entries generalizing seen with
  | nil => simp
  | cons first entries ih =>
    rw [List.foldlM_cons] at h
    obtain ⟨next, hFirst, hRest⟩ := bind_eq_ok.mp h
    intro entry hEntry
    rcases List.mem_cons.mp hEntry with rfl | hEntry
    · exact (checkEntry_eq_ok_iff.mp hFirst).2.2.2.2.1
    · exact ih hRest entry hEntry

end Table

/-! ## Finished files -/

section Finished

variable {writer : SaveWriter} {limits : Limits} {bytes : List UInt8} {entries : List SectionEntry}

def prologueImage (writer : SaveWriter) (entries : List SectionEntry) : List UInt8 :=
  headImage writer.header writer.sections.length ++ entries.flatMap SectionEntry.image

def contentImage (writer : SaveWriter) (entries : List SectionEntry) : List UInt8 :=
  prologueImage writer entries ++ sectionData writer.sections

variable (digest writer limits bytes entries)

structure Finished : Prop where
  count_lt : writer.sections.length < 2 ^ 32
  count_le : writer.sections.length ≤ limits.maxSections.toNat
  sizes_le : ∀ s ∈ writer.sections, s.2.length ≤ limits.maxSectionBytes.toNat
  header : writer.header.validate = .ok ()
  laidOut : SaveWriter.layOut digest writer.sections (prologueImage writer entries).length = .ok entries
  bytes_eq : bytes = contentImage writer entries ++ (digest (contentImage writer entries)).bytes
  length_le : bytes.length ≤ limits.maxFileBytes.toNat

variable {digest writer limits bytes entries}

theorem length_flatMap_image (entries : List SectionEntry) :
    (entries.flatMap SectionEntry.image).length = entries.length * entryLen := by
  induction entries with
  | nil => rw [List.flatMap_nil, List.length_nil, List.length_nil, Nat.zero_mul]
  | cons entry entries ih =>
    rw [List.flatMap_cons, List.length_append, length_entryImage, ih, List.length_cons, Nat.succ_mul, Nat.add_comm]

theorem checkSizes_eq_ok {u : Unit} (h : writer.checkSizes limits = .ok u) :
    writer.sections.length < 2 ^ 32 ∧ writer.sections.length ≤ limits.maxSections.toNat ∧
      ∀ s ∈ writer.sections, s.2.length ≤ limits.maxSectionBytes.toNat := by
  simp only [SaveWriter.checkSizes, ite_error_eq_ok, List.any_eq_true, decide_eq_true_eq, not_or, Nat.not_le,
    Nat.not_lt, not_exists, not_and] at h
  exact ⟨h.1.1, h.1.2, fun s hs => (h.2.1 s hs).2⟩

theorem encode_eq_ok {header : Header} {before : List UInt8} {u : Unit} {after : List UInt8}
    (h : header.encode.exec before = (.ok u, after)) : header.validate = .ok () := by
  obtain ⟨_, _, hValid, -⟩ := exec_bind_eq_ok.mp h
  exact (exec_ofExcept_eq_ok.mp hValid).1

theorem writePrologue_eq_ok {before after : List UInt8} {u : Unit}
    (h : writer.writePrologue.exec before = (.ok u, after)) : writer.header.validate = .ok () := by
  simp only [SaveWriter.writePrologue, exec_bind_eq_ok] at h
  obtain ⟨_, _, -, _, _, -, _, _, -, _, _, hHeader, -⟩ := h
  exact encode_eq_ok hHeader

theorem finish_eq_ok (h : writer.finish digest limits = .ok bytes) :
    ∃ entries, Finished digest writer limits bytes entries := by
  have hWrite : (writer.write digest limits).exec [] = (.ok (), bytes) := by
    rw [SaveWriter.finish] at h
    rcases hExec : (writer.write digest limits).exec [] with ⟨error | u, written⟩ <;> rw [hExec] at h
    · cases h
    · cases h
      rfl
  simp only [SaveWriter.write, exec_bind_eq_ok, exec_ofExcept_eq_ok] at hWrite
  obtain ⟨_, _, ⟨hSizes, rfl⟩, _, prologue, hPrologue, _, _, hGet, tableLen, _, ⟨hTable, rfl⟩, dataStart, _,
    ⟨hStart, rfl⟩, entries, _, ⟨hLaidOut, rfl⟩, _, table, hEntries, _, content, hData, _, _, hGet', totalLen, _,
    ⟨hTotal, rfl⟩, hTrailer⟩ := hWrite
  cases hGet
  cases hGet'
  obtain ⟨hCount, hLimit, hEach⟩ := checkSizes_eq_ok hSizes
  have hHeader := writePrologue_eq_ok hPrologue
  cases (writePrologue_writes hHeader hCount []).symm.trans hPrologue
  cases (Writes.forM (fun entry _ => SectionEntry.encode_writes entry) _).symm.trans hEntries
  cases (Writes.forM (fun s _ => writes_raw (Prod.snd s)) _).symm.trans hData
  obtain ⟨rfl, -⟩ : tableLen = writer.sections.length * entryLen ∧ True := by
    simp only [checkedMul, ite_error_eq_ok] at hTable
    cases hTable.2
    exact ⟨rfl, trivial⟩
  obtain ⟨rfl, -⟩ := checkedAdd_eq_ok_iff.mp hStart
  obtain ⟨rfl, -⟩ := checkedAdd_eq_ok_iff.mp hTotal
  split at hTrailer
  · cases hTrailer
  rename_i hFile
  simp only [exec_bind_eq_ok] at hTrailer
  obtain ⟨_, _, hGet, hLast⟩ := hTrailer
  cases hGet
  cases hLast
  refine ⟨entries, hCount, hLimit, hEach, hHeader, ?_, rfl, ?_⟩
  · rw [prologueImage, List.length_append, length_flatMap_image, layOut_length hLaidOut]
    exact hLaidOut
  · rw [List.length_append, Digest.length_eq]
    exact Nat.le_of_not_lt hFile

structure SaveWriter.Formed (writer : SaveWriter) : Prop where
  nodup : (writer.sections.map Prod.fst).Nodup
  application : ∀ s ∈ writer.sections, ¬ s.1 < minApplicationTag

theorem Finished.length_eq (h : Finished digest writer limits bytes entries) :
    bytes.length = (contentImage writer entries).length + trailerLen := by
  rw [h.bytes_eq, List.length_append, Digest.length_eq]
  rfl

theorem Finished.length_lt (h : Finished digest writer limits bytes entries) : bytes.length < 2 ^ 64 :=
  lt_of_le_of_lt h.length_le limits.maxFileBytes.toNat_lt

theorem Finished.readPrologue (h : Finished digest writer limits bytes entries) :
    (SaveReader.readPrologue limits).exec ⟨bytes, 0⟩ =
      (.ok ⟨writer.header, entries, formatMinor⟩, ⟨bytes, (prologueImage writer entries).length⟩) := by
  have hCount := layOut_length h.laidOut
  have hReads : Reads (SaveReader.readPrologue limits) (prologueImage writer entries)
      ⟨writer.header, entries, formatMinor⟩ := by
    rw [prologueImage, ← hCount]
    exact readPrologue_reads _ _ h.header (hCount ▸ h.count_lt) (hCount ▸ h.count_le)
  have hBytes : bytes = [] ++ prologueImage writer entries ++
      (sectionData writer.sections ++ (digest (contentImage writer entries)).bytes) := by
    rw [h.bytes_eq, contentImage, List.nil_append, List.append_assoc]
  have hLimit : ([] ++ prologueImage writer entries).length < 2 ^ 64 := by
    have hLength := h.length_lt
    rw [hBytes, List.length_append] at hLength
    omega
  have hExec := hReads [] (sectionData writer.sections ++ (digest (contentImage writer entries)).bytes) hLimit
  rwa [← hBytes, List.nil_append] at hExec

theorem Finished.placed (h : Finished digest writer limits bytes entries) :
    Placed bytes (prologueImage writer entries).length writer.sections
      (digest (contentImage writer entries)).bytes :=
  ⟨_, rfl, by rw [h.bytes_eq, contentImage, List.append_assoc]⟩

theorem Finished.open_eq (h : Finished digest writer limits bytes entries) (hFormed : writer.Formed) :
    SaveReader.openFile digest bytes limits = .ok ⟨writer.header, entries, bytes, 0, formatMinor⟩ := by
  have hLength := h.length_eq
  have hContent : bytes.length - trailerLen = (contentImage writer entries).length := by omega
  have hCut : bytes.take (contentImage writer entries).length = contentImage writer entries := by
    rw [h.bytes_eq, List.take_left]
  have hTrailer : bytes.drop (contentImage writer entries).length =
      (digest (contentImage writer entries)).bytes := by
    rw [h.bytes_eq, List.drop_left]
  have hEntries := checkEntries_layOut limits ⟨[], 0⟩ h.laidOut h.placed (Nat.le_refl _)
    (by simpa using hFormed.nodup) h.sizes_le hFormed.application
  rw [← List.length_append] at hEntries
  rw [SaveReader.openFile, if_neg (Nat.not_lt_of_le h.length_le), if_neg (by omega)]
  simp only [h.readPrologue, hContent, hTrailer, hCut]
  change List.foldlM _ _ entries = _ at hEntries
  rw [contentImage, hEntries]
  change (if _ then _ else _) = _
  rw [if_neg (not_not.mpr rfl)]

/-! ## Cut files -/

variable (digest) in
def EndsInDigest (bytes : List UInt8) : Prop :=
  trailerLen ≤ bytes.length ∧
    bytes.drop (bytes.length - trailerLen) = (digest (bytes.take (bytes.length - trailerLen))).bytes

/-- The reader accepts a cut file exactly when there is no section, the whole header
is left, and the cut ends in a digest. The header may overlap that digest. -/
theorem Finished.cut_opens_iff (h : Finished digest writer limits bytes entries) {cut : List UInt8}
    (hPrefix : cut <+: bytes) (hNe : cut ≠ bytes) :
    (∃ reader, SaveReader.openFile digest cut limits = .ok reader) ↔
      writer.sections = [] ∧ (headImage writer.header 0).length ≤ cut.length ∧ EndsInDigest digest cut := by
  obtain ⟨more, rfl⟩ := hPrefix
  have hShorter : 0 < more.length := by
    apply List.length_pos_iff.mpr
    rintro rfl
    exact hNe (List.append_nil cut).symm
  have hLength := h.length_eq
  rw [List.length_append] at hLength
  have hEmpty (hNil : writer.sections = []) : entries = [] ∧ prologueImage writer entries = headImage writer.header 0 := by
    have hNone := layOut_length h.laidOut
    rw [hNil] at hNone
    cases List.length_eq_zero_iff.mp hNone
    exact ⟨rfl, by rw [prologueImage, hNil, List.flatMap_nil, List.append_nil]; rfl⟩
  constructor
  · rintro ⟨reader, hOpen⟩
    simp only [SaveReader.openFile, ite_error_eq_ok, Nat.not_lt] at hOpen
    obtain ⟨-, hLong, hOpen⟩ := hOpen
    rcases hExec : (SaveReader.readPrologue limits).exec ⟨cut, 0⟩ with ⟨error | prologue, stopped⟩
    · rw [hExec] at hOpen
      cases hOpen
    · rw [hExec] at hOpen
      -- The whole file has the same prologue, so the cut has all of it.
      obtain ⟨-, hStop, hWhole⟩ := stable_readPrologue limits cut more 0 prologue stopped (Nat.zero_le _) hExec
      obtain ⟨hSame, hPosition⟩ := Prod.mk.inj (h.readPrologue.symm.trans hWhole)
      cases hSame
      have hPosition : (prologueImage writer entries).length = stopped.position := congrArg Reader.position hPosition
      simp only [bind_eq_ok, ite_error_eq_ok, not_not] at hOpen
      obtain ⟨seen, hEntries, hTrailer, -⟩ := hOpen
      have hNil : writer.sections = [] := by
        by_contra hSome
        obtain ⟨entry, hEntry, hEnd⟩ := exists_last h.laidOut hSome
        have hInside := checkEntries_inside hEntries entry hEntry
        rw [contentImage, List.length_append] at hLength
        omega
      obtain ⟨-, hHead⟩ := hEmpty hNil
      rw [hHead] at hPosition
      exact ⟨hNil, by omega, hLong, hTrailer⟩
  · rintro ⟨hNil, hHead, hLong, hTrailer⟩
    obtain ⟨rfl, hPrologue⟩ := hEmpty hNil
    have hReads : Reads (SaveReader.readPrologue limits) (headImage writer.header 0)
        ⟨writer.header, [], formatMinor⟩ := by
      have hReads := readPrologue_reads limits [] h.header (by decide) (Nat.zero_le _)
      rwa [List.flatMap_nil, List.append_nil] at hReads
    have hFront : headImage writer.header 0 <+: cut := by
      apply List.prefix_of_prefix_length_le _ (List.prefix_append cut more) hHead
      rw [h.bytes_eq, contentImage, hPrologue, List.append_assoc]
      exact List.prefix_append _ _
    obtain ⟨rest, rfl⟩ := hFront
    have hLimit := h.length_lt
    have hFile := h.length_le
    rw [List.length_append] at hLimit hFile
    have hExec := hReads [] rest (by rw [List.nil_append]; omega)
    rw [List.nil_append] at hExec
    refine ⟨⟨writer.header, [], headImage writer.header 0 ++ rest, 0, formatMinor⟩, ?_⟩
    rw [SaveReader.openFile, if_neg (by omega), if_neg (Nat.not_lt_of_le hLong)]
    simp only [List.length_nil] at hExec
    simp only [hExec]
    change (if _ then _ else _) = _
    rw [if_neg (not_not.mpr hTrailer)]

end Finished

/-! ## Any sequence of calls -/

namespace SaveWriter

def addSections : List (UInt32 × List UInt8) → SaveWriter → SaveWriter
  | [], writer => writer
  | call :: calls, writer => addSections calls ((addSection call.1 call.2).exec writer).2

def added : List (UInt32 × List UInt8) → SaveWriter → List (UInt32 × List UInt8)
  | [], _ => []
  | call :: calls, writer => match (addSection call.1 call.2).exec writer with
    | (.ok _, writer) => call :: added calls writer
    | (.error _, writer) => added calls writer

theorem addSection_exec (writer : SaveWriter) (tag : UInt32) (bytes : List UInt8) :
    (addSection tag bytes).exec writer =
      if tag < minApplicationTag then (.error .reservedTag, writer)
      else if writer.sections.any (·.1 = tag) then (.error .duplicateTag, writer)
      else (.ok (), { writer with sections := writer.sections ++ [(tag, bytes)] }) := by
  rw [addSection, exec_bind]
  change exec (if tag < minApplicationTag then _ else if writer.sections.any (·.1 = tag) = true then _ else _)
    writer = _
  split
  · rfl
  · split
    · rfl
    · rfl

theorem addSection_cases (writer : SaveWriter) (tag : UInt32) (bytes : List UInt8) :
    (∃ error, (addSection tag bytes).exec writer = (.error error, writer)) ∨
    ((addSection tag bytes).exec writer = (.ok (), { writer with sections := writer.sections ++ [(tag, bytes)] }) ∧
      ¬ tag < minApplicationTag ∧ tag ∉ writer.sections.map Prod.fst) := by
  rw [addSection_exec]
  split
  · exact .inl ⟨.reservedTag, rfl⟩
  · rename_i hTag
    split
    · exact .inl ⟨.duplicateTag, rfl⟩
    · rename_i hNew
      refine .inr ⟨rfl, hTag, fun hMem => hNew ?_⟩
      obtain ⟨s, hs, rfl⟩ := List.mem_map.mp hMem
      exact List.any_eq_true.mpr ⟨s, hs, by simp⟩

theorem sections_addSections (calls : List (UInt32 × List UInt8)) (writer : SaveWriter) :
    addSections calls writer = { writer with sections := writer.sections ++ added calls writer } := by
  induction calls generalizing writer with
  | nil => rw [addSections, added, List.append_nil]
  | cons call calls ih =>
    rw [addSections, added, ih]
    rcases addSection_cases writer call.1 call.2 with ⟨error, hExec⟩ | ⟨hExec, -, -⟩
    · rw [hExec]
    · rw [hExec]
      dsimp only
      rw [List.append_assoc, List.singleton_append]

theorem formed_addSections {writer : SaveWriter} (h : writer.Formed) (calls : List (UInt32 × List UInt8)) :
    (addSections calls writer).Formed := by
  induction calls generalizing writer with
  | nil => exact h
  | cons call calls ih =>
    apply ih
    rcases addSection_cases writer call.1 call.2 with ⟨error, hExec⟩ | ⟨hExec, hTag, hNew⟩
    · rwa [hExec]
    · rw [hExec]
      constructor
      · dsimp only
        rw [List.map_append, List.nodup_append]
        refine ⟨h.nodup, by simp, ?_⟩
        rintro a ha b hb rfl
        simp only [List.map_cons, List.map_nil, List.mem_singleton] at hb
        exact hNew (hb ▸ ha)
      · intro s hs
        rcases List.mem_append.mp hs with hs | hs
        · exact h.application s hs
        · cases List.mem_singleton.mp hs
          exact hTag

end SaveWriter

/-- What the reader must find in a file with these contents. -/
structure Reopens (reader : SaveReader) (header : Header) (sections : List (UInt32 × List UInt8)) : Prop where
  header_eq : reader.header = header
  tags_eq : reader.entries.map SectionEntry.tag = sections.map Prod.fst
  found : ∀ s ∈ sections, reader.readSection s.1 = .ok s.2
  missing : ∀ tag, tag ∉ sections.map Prod.fst → reader.readSection tag = .error .sectionNotFound
  unknown_eq : reader.unknownSectionCount = 0

theorem Finished.reopens {writer : SaveWriter} {limits : Limits} {bytes : List UInt8}
    {entries : List SectionEntry} (h : Finished digest writer limits bytes entries) (hFormed : writer.Formed) :
    Reopens ⟨writer.header, entries, bytes, 0, formatMinor⟩ writer.header writer.sections := by
  have hRead := readSection_layOut ⟨writer.header, entries, bytes, 0, formatMinor⟩ h.laidOut h.placed
  refine ⟨rfl, layOut_tags h.laidOut, ?_, ?_, rfl⟩
  · intro s hs
    have hFind : writer.sections.find? (·.1 = s.1) = some s := by
      apply List.find?_eq_some_iff_append.mpr
      refine ⟨by simp, ?_⟩
      obtain ⟨before, after, hSplit⟩ := List.append_of_mem hs
      refine ⟨before, after, hSplit, fun t ht => ?_⟩
      have hNodup := hFormed.nodup
      rw [hSplit, List.map_append, List.nodup_append] at hNodup
      have hNe := hNodup.2.2 t.1 (List.mem_map_of_mem ht) s.1 (by simp)
      simpa using hNe
    rw [hRead, hFind]
  · intro tag hTag
    have hFind : writer.sections.find? (·.1 = tag) = none := by
      apply List.find?_eq_none.mpr
      intro s hs hSame
      exact hTag (List.mem_map.mpr ⟨s, hs, by simpa using hSame⟩)
    rw [hRead, hFind]

variable (digest) in
/-- No cut that keeps the whole header ends in a digest; only a file without sections
depends on it. -/
def Sealed (header : Header) (sections : List (UInt32 × List UInt8)) : Prop :=
  sections = [] → ∀ cut, cut <+: headImage header 0 ++ (digest (headImage header 0)).bytes →
    (headImage header 0).length ≤ cut.length →
    cut ≠ headImage header 0 ++ (digest (headImage header 0)).bytes → ¬ EndsInDigest digest cut

/-- A finished file opens with its header and exactly the sections that were added,
and no proper prefix of it opens if and only if it is sealed. -/
theorem save_container (header : Header) (calls : List (UInt32 × List UInt8)) (limits : Limits)
    (bytes : List UInt8)
    (h : (SaveWriter.addSections calls (.start header)).finish digest limits = .ok bytes) :
    (∃ reader, SaveReader.openFile digest bytes limits = .ok reader ∧
      Reopens reader header (SaveWriter.added calls (.start header))) ∧
    ((∀ cut, cut <+: bytes → cut ≠ bytes → ∃ error, SaveReader.openFile digest cut limits = .error error) ↔
      Sealed digest header (SaveWriter.added calls (.start header))) := by
  have hStart : (SaveWriter.start header).Formed := ⟨List.nodup_nil, by simp [SaveWriter.start]⟩
  have hFormed := SaveWriter.formed_addSections hStart calls
  rw [SaveWriter.sections_addSections] at h hFormed
  generalize SaveWriter.added calls (.start header) = sections at h hFormed ⊢
  change SaveWriter.finish digest ⟨header, sections⟩ limits = _ at h
  change SaveWriter.Formed ⟨header, sections⟩ at hFormed
  obtain ⟨entries, hFinished⟩ := finish_eq_ok h
  refine ⟨⟨_, hFinished.open_eq hFormed, hFinished.reopens hFormed⟩, ?_⟩
  have hBytes (hNil : sections = []) : bytes = headImage header 0 ++ (digest (headImage header 0)).bytes := by
    subst hNil
    have hEntries := layOut_length hFinished.laidOut
    cases List.length_eq_zero_iff.mp hEntries
    have hContent : contentImage ⟨header, []⟩ [] = headImage header 0 := by
      rw [contentImage, prologueImage, sectionData, List.flatMap_nil, List.flatMap_nil, List.append_nil,
        List.append_nil]
      rfl
    rw [hFinished.bytes_eq, hContent]
  constructor
  · intro hFails hNil cut hPrefix hHead hNe hDigest
    rw [← hBytes hNil] at hPrefix hNe
    obtain ⟨reader, hOpen⟩ := (hFinished.cut_opens_iff hPrefix hNe).mpr ⟨hNil, hHead, hDigest⟩
    obtain ⟨error, hError⟩ := hFails cut hPrefix hNe
    cases hOpen.symm.trans hError
  · intro hSealed cut hPrefix hNe
    cases hOpen : SaveReader.openFile digest cut limits with
    | error error => exact ⟨error, rfl⟩
    | ok reader =>
      obtain ⟨hNil, hHead, hDigest⟩ := (hFinished.cut_opens_iff hPrefix hNe).mp ⟨reader, hOpen⟩
      rw [hBytes hNil] at hPrefix hNe
      exact (hSealed hNil cut hPrefix hHead hNe hDigest).elim

/-! ## A header that overlaps its own digest -/

def defaultLimits : Limits := ⟨256, 64 * 1024 * 1024, 256 * 1024 * 1024⟩

/-- Eight bytes and the first 28 of the digest of all that precedes it, whose last four are zero. -/
def overlapThumbnail : List UInt8 :=
  [15, 236, 174, 26, 0, 0, 0, 0, 128, 119, 94, 149, 252, 165, 222, 180, 164, 20, 241, 67, 210, 130, 90, 229, 56, 123,
    53, 62, 8, 176, 19, 50, 152, 119, 75, 5]

def overlapHeader : Header := ⟨"", 0, "", "", overlapThumbnail⟩

def overlapFront : List UInt8 :=
  magic ++ [1, 0, 0, 0, 0, 0, 0, 0, 0, 0, 0, 0, 0, 0, 0, 0, 0, 0, 36, 0, 0, 0, 15, 236, 174, 26, 0, 0, 0, 0]

def overlapDigest (bytes : List UInt8) : Digest :=
  if bytes = overlapFront then ⟨overlapThumbnail.drop 8 ++ [0, 0, 0, 0], by decide⟩
  else if bytes = overlapFront ++ overlapThumbnail.drop 8 ++ [0, 0, 0, 0] then
    ⟨[178, 44, 169, 54, 69, 72, 235, 48, 93, 32, 189, 210, 205, 168, 186, 9, 11, 133, 94, 192, 42, 101, 246, 125,
      234, 21, 82, 69, 217, 27, 133, 146], by decide⟩
  else ⟨List.replicate 32 0, by decide⟩

def overlapFile : List UInt8 :=
  overlapFront ++ overlapThumbnail.drop 8 ++ [0, 0, 0, 0] ++
    (overlapDigest (overlapFront ++ overlapThumbnail.drop 8 ++ [0, 0, 0, 0])).bytes

/-- The first 70 of the 102 bytes open as well, and no two digests collide. -/
theorem overlap_cut_opens :
    (SaveWriter.addSections [] (.start overlapHeader)).finish overlapDigest defaultLimits = .ok overlapFile ∧
      (∃ cut, cut <+: overlapFile ∧ cut ≠ overlapFile ∧
        ∃ reader, SaveReader.openFile overlapDigest cut defaultLimits = .ok reader) ∧
      overlapDigest (overlapFile.take 38) ≠ overlapDigest (overlapFile.take 70) := by
  have hFinish : (SaveWriter.start overlapHeader).finish overlapDigest defaultLimits = .ok overlapFile := by rfl
  obtain ⟨entries, hFinished⟩ := finish_eq_ok hFinish
  have hPrefix : overlapFile.take 70 <+: overlapFile := List.take_prefix 70 overlapFile
  have hCut : overlapFile.take 70 ≠ overlapFile := by decide +kernel
  refine ⟨hFinish, ⟨_, hPrefix, hCut, (hFinished.cut_opens_iff hPrefix hCut).mpr ⟨rfl, ?_, ?_, ?_⟩⟩, ?_⟩
  · decide +kernel
  · decide +kernel
  · decide +kernel
  · decide +kernel

def oneSectionFile : List UInt8 :=
  magic ++ [1, 0, 0, 0] ++ List.replicate 18 0 ++ [1, 0, 0, 0] ++ [16, 0, 0, 0] ++
    [86, 0, 0, 0, 0, 0, 0, 0, 1, 0, 0, 0, 0, 0, 0, 0] ++ List.replicate 32 0 ++ [9] ++ List.replicate 32 0

/-- The same tag again and a reserved tag are refused, and the first section is found. -/
theorem save_container_oneSection :
    ∃ reader, SaveReader.openFile overlapDigest oneSectionFile defaultLimits = .ok reader ∧
      Reopens reader ⟨"", 0, "", "", []⟩ [(16, [9])] :=
  (save_container ⟨"", 0, "", "", []⟩ [(16, [9]), (16, [1]), (3, [7])] defaultLimits oneSectionFile (by rfl)).1

end OpenHalfLife.Save
