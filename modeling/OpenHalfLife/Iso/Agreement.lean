import OpenHalfLife.Media.Pages
import OpenHalfLife.Media.Paths

/-! # Listing and opening

A listing reads a directory page by page, an opening walks to a name. Both see
the same records under the same names, so what can be opened is what is listed
as a file. An opened file is read inside its extent only.
-/

namespace OpenHalfLife.Iso

open Media Media.Iso9660

set_option autoImplicit false

variable {archive : Iso9660Archive} {directory : DirectoryRef} {records : List DirRecord} {entries out : List DirectoryEntry}
  {path name : Text} {file : Iso9660File}

/-! ## What a listing has read -/

theorem fillPage_listed {already sum : Nat} {page full : List DirectoryEntry}
    (h : archive.fillPage already records page sum = .ok full) :
    ∃ taken, full = page ++ taken ∧ List.Forall₂ (Listed archive) (records.take taken.length) taken := by
  have hNone : ∃ taken, page = page ++ taken ∧ List.Forall₂ (Listed archive) (records.take taken.length) taken :=
    ⟨[], (List.append_nil _).symm, .nil⟩
  induction records generalizing page sum with
  | nil =>
    obtain rfl := Except.ok.inj h
    exact hNone
  | cons record records ih =>
    rw [Iso9660Archive.fillPage] at h
    obtain ⟨decoded, hDecoded, h⟩ := Result.bind_eq_ok.mp h
    split at h
    · obtain rfl := Except.ok.inj h
      exact ⟨[], (List.append_nil _).symm, .nil⟩
    dsimp only at h
    split at h
    · cases h
    split at h
    · split at h
      · cases h
      · obtain rfl := Except.ok.inj h
        exact ⟨[], (List.append_nil _).symm, .nil⟩
    split at h
    · cases h
    · obtain ⟨taken, rfl, hTaken⟩ := ih h ⟨[], (List.append_nil _).symm, .nil⟩
      refine ⟨Iso9660Archive.entryOf record decoded :: taken, by rw [List.append_assoc, List.singleton_append], ?_⟩
      exact .cons ⟨decoded, hDecoded, rfl⟩ hTaken

theorem pageFrom_listed {start already emitted : Nat} {page : DirectoryPage} (hRead : archive.readEntries directory = .ok records)
    (h : archive.pageFrom directory start already emitted = .ok page) :
    List.Forall₂ (Listed archive) ((records.drop start).take page.entries.length) page.entries ∧
      (page.cursor = none → records.length ≤ start + page.entries.length) ∧
      ∀ cursor, page.cursor = some cursor →
        ∃ already' emitted', archive.continueList cursor =
          archive.pageFrom directory (start + page.entries.length) already' emitted' := by
  have hContinue (cursor : DirectoryCursor) (hCursor : page.cursor = some cursor) := cursor_of_pageFrom h hCursor
  unfold Iso9660Archive.pageFrom at h
  obtain ⟨-, h⟩ := Result.ite_error_eq_ok.mp h
  rw [hRead, Result.ok_bind] at h
  obtain ⟨taken, hTaken, h⟩ := Result.bind_eq_ok.mp h
  obtain rfl := Except.ok.inj h
  obtain ⟨taken, rfl, hListed⟩ := fillPage_listed hTaken
  refine ⟨hListed, fun hNone => ?_, fun cursor hCursor => ?_⟩
  · dsimp only at hNone ⊢
    by_contra hMore
    rw [if_pos (Nat.lt_of_not_le hMore)] at hNone
    cases hNone
  · rw [hContinue cursor hCursor]
    dsimp only at hCursor ⊢
    split at hCursor
    · obtain rfl := Option.some.inj hCursor
      exact ⟨_, _, rfl⟩
    · cases hCursor

theorem continueAll_listed {turns start already emitted : Nat} {page : DirectoryPage}
    (hRead : archive.readEntries directory = .ok records) (hPage : archive.pageFrom directory start already emitted = .ok page)
    (h : archive.continueAll turns page = .ok out) : List.Forall₂ (Listed archive) (records.drop start) out := by
  induction turns generalizing start already emitted page out with
  | zero =>
    obtain ⟨hListed, hDone, -⟩ := pageFrom_listed hRead hPage
    rw [Iso9660Archive.continueAll] at h
    split at h
    · next hNone =>
      obtain rfl := Except.ok.inj h
      have hAll : (records.drop start).length ≤ page.entries.length := by
        have hEnd := hDone hNone
        rw [List.length_drop]
        omega
      rwa [List.take_of_length_le hAll] at hListed
    · cases h
  | succ turns ih =>
    obtain ⟨hListed, hDone, hNext⟩ := pageFrom_listed hRead hPage
    rw [Iso9660Archive.continueAll] at h
    split at h
    · next hNone =>
      obtain rfl := Except.ok.inj h
      have hAll : (records.drop start).length ≤ page.entries.length := by
        have hEnd := hDone hNone
        rw [List.length_drop]
        omega
      rwa [List.take_of_length_le hAll] at hListed
    · next cursor hSome =>
      obtain ⟨later, hLater, h⟩ := Result.bind_eq_ok.mp h
      obtain ⟨tail, hTail, h⟩ := Result.bind_eq_ok.mp h
      obtain rfl := Except.ok.inj h
      obtain ⟨already', emitted', hSame⟩ := hNext cursor hSome
      have hRest := ih (hSame ▸ hLater) hTail
      rw [← List.drop_drop] at hRest
      rw [← List.take_append_drop page.entries.length (records.drop start)]
      exact List.rel_append hListed hRest

theorem directory_of_list (h : archive.list path = .ok out) :
    ∃ directory records, archive.directoryAt path = .ok directory ∧ Directory archive directory records out := by
  unfold Iso9660Archive.list Iso9660Archive.listPage at h
  obtain ⟨page, hFirst, h⟩ := Result.bind_eq_ok.mp h
  obtain ⟨directory, hAt, hPage⟩ := Result.bind_eq_ok.mp hFirst
  have hRead : ∃ records, archive.readEntries directory = .ok records := by
    have hParts := hPage
    unfold Iso9660Archive.pageFrom at hParts
    obtain ⟨-, hParts⟩ := Result.ite_error_eq_ok.mp hParts
    obtain ⟨records, hRecords, -⟩ := Result.bind_eq_ok.mp hParts
    exact ⟨records, hRecords⟩
  obtain ⟨records, hRecords⟩ := hRead
  exact ⟨directory, records, hAt, hRecords, continueAll_listed hRecords hPage h⟩

/-! ## Records inside the volume -/

theorem takeRecords_checked {raw taken : List DirRecord} (h : archive.takeRecords raw taken = .ok records)
    (hTaken : ∀ record ∈ taken, archive.checkRecord record = .ok ()) :
    ∀ record ∈ records, archive.checkRecord record = .ok () := by
  induction raw generalizing taken with
  | nil =>
    obtain rfl := Except.ok.inj h
    exact hTaken
  | cons record raw ih =>
    rw [Iso9660Archive.takeRecords] at h
    split at h
    · exact ih h hTaken
    · obtain ⟨⟨⟩, hChecked, h⟩ := Result.bind_eq_ok.mp h
      obtain ⟨-, h⟩ := Result.ite_error_eq_ok.mp h
      refine ih h fun other hOther => ?_
      rcases List.mem_append.mp hOther with hOld | hNew
      · exact hTaken other hOld
      · rw [List.mem_singleton.mp hNew]
        exact hChecked

theorem readEntries_checked (h : archive.readEntries directory = .ok records) :
    ∀ record ∈ records, archive.checkRecord record = .ok () := by
  unfold Iso9660Archive.readEntries at h
  obtain ⟨-, -, h⟩ := Result.bind_eq_ok.mp h
  split at h
  · cases h
  · exact takeRecords_checked h fun record hNone => absurd hNone List.not_mem_nil

/-- The extent of a file lies in the volume, and its position in the file. -/
structure Inside (archive : Iso9660Archive) (file : Iso9660File) : Prop where
  mount : file.mount = archive.mount
  extent : file.startLba * blockSize + file.size ≤ archive.volumeBlocks.toNat * blockSize
  position : file.position ≤ file.size

theorem inside_fileOf {record : DirRecord} (h : archive.checkRecord record = .ok ()) : Inside archive (archive.fileOf record) := by
  unfold Iso9660Archive.checkRecord at h
  obtain ⟨-, h⟩ := Result.ite_error_eq_ok.mp h
  obtain ⟨-, h⟩ := Result.ite_error_eq_ok.mp h
  obtain ⟨-, h⟩ := Result.ite_error_eq_ok.mp h
  obtain ⟨-, h⟩ := Result.ite_error_eq_ok.mp h
  obtain ⟨hExtent, -⟩ := Result.ite_error_eq_ok.mp h
  obtain ⟨-, hFits⟩ := not_or.mp hExtent
  refine ⟨rfl, ?_, Nat.zero_le _⟩
  unfold Iso9660Archive.fileOf blockSize at *
  dsimp only
  omega

/-! ## What an opening finds -/

theorem rsplitOnce_of_notMem {separator : UInt8} {text : Text} (h : separator ∉ text) : rsplitOnce separator text = none := by
  induction text with
  | nil => rfl
  | cons byte text ih =>
    obtain ⟨hByte, hText⟩ := not_or.mp (List.mem_cons.not.mp h)
    rw [rsplitOnce, ih hText]
    exact if_neg (Ne.symm hByte)

theorem rsplitOnce_append {separator : UInt8} {back : Text} (front : Text) (h : separator ∉ back) :
    rsplitOnce separator (front ++ separator :: back) = some (front, back) := by
  induction front with
  | nil =>
    rw [List.nil_append, rsplitOnce, rsplitOnce_of_notMem h]
    exact if_pos rfl
  | cons byte front ih => rw [List.cons_append, rsplitOnce, ih]

theorem findRecord_eq (h : List.Forall₂ (Listed archive) records entries) (wanted : Text) :
    (archive.findRecord wanted records = .ok none ∧ entries.find? (fun entry => archive.namesMatch entry.name wanted) = none) ∨
    ∃ record entry, archive.findRecord wanted records = .ok (some record) ∧ record ∈ records ∧
      entries.find? (fun entry => archive.namesMatch entry.name wanted) = some entry ∧ Listed archive record entry := by
  induction h with
  | nil => exact .inl ⟨rfl, rfl⟩
  | @cons record entry records entries hHead hTail ih =>
    obtain ⟨decoded, hDecoded, hEntry⟩ := hHead
    have hName : entry.name = decoded := by rw [hEntry]; rfl
    rw [Iso9660Archive.findRecord, hDecoded, Result.ok_bind, List.find?_cons, hName]
    cases hMatch : archive.namesMatch decoded wanted with
    | true => exact .inr ⟨record, entry, rfl, List.mem_cons_self, rfl, decoded, hDecoded, hEntry⟩
    | false =>
      rcases ih with ⟨hNone, hFind⟩ | ⟨found, listed, hFound, hMem, hFind, hListed⟩
      · exact .inl ⟨hNone, hFind⟩
      · exact .inr ⟨found, listed, hFound, List.mem_cons_of_mem _ hMem, hFind, hListed⟩

theorem mem_of_findRecord {wanted : Text} {record : DirRecord} (h : archive.findRecord wanted records = .ok (some record)) :
    record ∈ records := by
  induction records with
  | nil => cases h
  | cons first records ih =>
    rw [Iso9660Archive.findRecord] at h
    obtain ⟨decoded, -, h⟩ := Result.bind_eq_ok.mp h
    split at h
    · obtain rfl := Option.some.inj (Except.ok.inj h)
      exact List.mem_cons_self
    · exact List.mem_cons_of_mem first (ih h)

theorem isDirectory_iff {record : DirRecord} {entry : DirectoryEntry} (h : Listed archive record entry) :
    entry.entryType = .file ↔ record.isDirectory = false := by
  obtain ⟨decoded, -, rfl⟩ := h
  unfold Iso9660Archive.entryOf
  dsimp only
  cases record.isDirectory <;> simp

theorem single_facts (h : isSinglePathComponent name) :
    name ≠ [] ∧ 0 ∉ name ∧ slash ∉ name ∧ backslash ∉ name ∧ ¬Reference name := by
  have hFacts := of_decide_eq_true h
  simp only [List.contains_iff_mem, List.isEmpty_iff] at hFacts
  exact ⟨hFacts.1, hFacts.2.2.2.2.1, hFacts.2.2.2.2.2.1, hFacts.2.2.2.2.2.2, fun hRef => hRef.elim hFacts.2.2.1 hFacts.2.2.2.1⟩

theorem spelling_ne_nil (parts : List Text) : spelling parts ≠ [] := by
  cases parts with
  | nil => exact List.cons_ne_nil _ _
  | cons part parts =>
    rw [spelling_of_ne_nil (List.cons_ne_nil _ _), rooted_cons]
    exact List.cons_ne_nil _ _

def joined (normalized name : Text) : Text := if normalized = [slash] then slash :: name else normalized ++ slash :: name

theorem resolveFile_joined {normalized : Text} (hNormalized : normalized ≠ []) (hName : isSinglePathComponent name) :
    archive.resolveFile (joined normalized name) = (do
      let directory ← archive.resolveDirectory normalized
      let records ← archive.readEntries directory
      let found ← archive.findRecord name records
      archive.openRecord found) := by
  obtain ⟨hSome, -, hSlash, -, -⟩ := single_facts hName
  have hSplit : ∃ parent, rsplitOnce slash (joined normalized name) = some (parent, name) ∧
      (if parent = [] then [slash] else parent) = normalized := by
    unfold joined
    split
    · next hRoot => exact ⟨[], rsplitOnce_append [] hSlash, by rw [if_pos rfl, hRoot]⟩
    · exact ⟨normalized, rsplitOnce_append normalized hSlash, if_neg hNormalized⟩
  obtain ⟨parent, hParts, hParent⟩ := hSplit
  rw [Iso9660Archive.resolveFile, hParts]
  dsimp only
  rw [if_neg hSome, hParent]

/-- What opening a name gives, by the first entry of the name. -/
structure OpensAs (archive : Iso9660Archive) (found : Option DirectoryEntry) (opened : Except SanitizedError Iso9660File) : Prop where
  missing : found = none → opened = .error .notFound
  directory : ∀ entry, found = some entry → entry.entryType ≠ .file → opened = .error .invalidInput
  file : ∀ entry, found = some entry → entry.entryType = .file →
    ∃ file, opened = .ok file ∧ file.size = entry.sizeBytes ∧ file.position = 0 ∧ Inside archive file

theorem opensAs_findRecord (h : Directory archive directory records entries) (wanted : Text) :
    OpensAs archive (entries.find? fun entry => archive.namesMatch entry.name wanted)
      (archive.findRecord wanted records >>= archive.openRecord) := by
  rcases findRecord_eq h.listed wanted with ⟨hRecord, hFind⟩ | ⟨record, entry, hRecord, hMem, hFind, hListed⟩
  · rw [hRecord, hFind, Result.ok_bind]
    exact ⟨fun _ => rfl, fun entry hSome => (by cases hSome), fun entry hSome => (by cases hSome)⟩
  · rw [hRecord, hFind, Result.ok_bind]
    refine ⟨fun hNone => (by cases hNone), ?_, ?_⟩
    · rintro _ ⟨⟩ hOther
      have hDirectory : record.isDirectory = true := by
        by_contra hFile
        exact hOther ((isDirectory_iff hListed).mpr (Bool.eq_false_of_not_eq_true hFile))
      exact if_pos hDirectory
    · rintro _ ⟨⟩ hType
      have hFile := (isDirectory_iff hListed).mp hType
      refine ⟨archive.fileOf record, if_neg (by rw [hFile]; exact Bool.false_ne_true), ?_, rfl, ?_⟩
      · obtain ⟨decoded, -, rfl⟩ := hListed
        exact (if_neg (by rw [hFile]; exact Bool.false_ne_true)).symm
      · exact inside_fileOf (readEntries_checked h.read record hMem)

/-! ## The two ways to open a name -/

theorem notMem_separator (hName : isSinglePathComponent name) : ∀ byte ∈ name, isSeparator byte = false := by
  obtain ⟨-, -, hSlash, hBackslash, -⟩ := single_facts hName
  intro byte hByte
  refine decide_eq_false (not_or.mpr ⟨?_, ?_⟩)
  · rintro rfl
    exact hSlash hByte
  · rintro rfl
    exact hBackslash hByte

theorem splitOnP_joined (path : Text) (hName : isSinglePathComponent name) :
    (path ++ slash :: name).splitOnP isSeparator = path.splitOnP isSeparator ++ [name] := by
  rw [List.splitOnP_append_cons _ _ (by rfl), List.splitOnP_eq_singleton (notMem_separator hName)]

theorem joined_spelling (parts : List Text) (hParts : ∀ part ∈ parts, part ≠ []) (name : Text) :
    joined (spelling parts) name = spelling (parts ++ [name]) := by
  rw [spelling_concat]
  cases parts with
  | nil => exact if_pos rfl
  | cons part parts =>
    have hLong := (length_spelling hParts).mpr (List.cons_ne_nil part parts)
    have hNotRoot : spelling (part :: parts) ≠ [slash] := by
      intro hRoot
      rw [hRoot] at hLong
      exact Nat.lt_irrefl _ hLong
    rw [joined, if_neg hNotRoot, spelling_of_ne_nil (List.cons_ne_nil _ _)]

theorem normalizePath_joined {normalized : Text} (hPath : normalizePath path = some normalized) (hName : isSinglePathComponent name)
    (hLength : path.length + 1 + name.length ≤ maxPathBytes) :
    normalizePath (path ++ slash :: name) = some (joined normalized name) := by
  obtain ⟨-, hNul, hRefs, rfl⟩ := normalizePath_eq_some.mp hPath
  obtain ⟨hSome, hNameNul, -, -, hNotRef⟩ := single_facts hName
  have hParts : ∀ part ∈ pieces path, part ≠ [] := fun part hPart => (Plain.of_mem_pieces hNul hRefs hPart).ne_nil
  have hPieces : pieces (path ++ slash :: name) = pieces path ++ [name] := by
    rw [pieces, splitOnP_joined path hName, List.filter_append, List.filter_cons_of_pos (by simpa using hSome), List.filter_nil]
    rfl
  rw [joined_spelling _ hParts]
  refine normalizePath_eq_some.mpr ⟨?_, ?_, ?_, by rw [hPieces]⟩
  · rw [List.length_append, List.length_cons]
    omega
  · intro hZero
    rcases List.mem_append.mp hZero with hFront | hBack
    · exact hNul hFront
    · rcases List.mem_cons.mp hBack with hSlash | hMem
      · exact absurd hSlash (by decide)
      · exact hNameNul hMem
  · rw [splitOnP_joined path hName]
    intro part hPart
    rcases List.mem_append.mp hPart with hOld | hNew
    · exact hRefs part hOld
    · rwa [List.mem_singleton.mp hNew]

/-- What can be opened is what is listed as a file, and a path to a name opens what the name in its directory opens. -/
theorem opened_as_listed (hList : archive.list path = .ok out) (hName : isSinglePathComponent name) :
    OpensAs archive (out.find? fun entry => archive.namesMatch entry.name name) (archive.openFileAt path name) ∧
      (path.length + 1 + name.length ≤ maxPathBytes →
        archive.openFile (path ++ slash :: name) = archive.openFileAt path name) := by
  obtain ⟨directory, records, hAt, hDirectory⟩ := directory_of_list hList
  unfold Iso9660Archive.directoryAt at hAt
  split at hAt
  · cases hAt
  · next normalized hNormalized =>
    have hOpenAt : archive.openFileAt path name = archive.resolveFile (joined normalized name) := by
      rw [Iso9660Archive.openFileAt, if_neg (not_not.mpr hName), hNormalized]
      rfl
    have hSome : normalized ≠ [] := by
      rw [(normalizePath_eq_some.mp hNormalized).2.2.2]
      exact spelling_ne_nil _
    rw [hOpenAt]
    constructor
    · rw [resolveFile_joined hSome hName, hAt, Result.ok_bind, hDirectory.read, Result.ok_bind]
      exact opensAs_findRecord hDirectory name
    · intro hLength
      rw [Iso9660Archive.openFile, normalizePath_joined hNormalized hName hLength]

theorem twoFiles_opened : OpensAs twoFiles (some ⟨[0x62], .file, 7⟩) (twoFiles.openFileAt [0x2f] [0x62]) ∧
    (1 + 1 + 1 ≤ maxPathBytes → twoFiles.openFile [0x2f, 0x2f, 0x62] = twoFiles.openFileAt [0x2f] [0x62]) :=
  @opened_as_listed twoFiles [⟨[0x61], .file, 7⟩, ⟨[0x62], .file, 7⟩] [0x2f] [0x62] (by rfl) (by decide)

end OpenHalfLife.Iso
