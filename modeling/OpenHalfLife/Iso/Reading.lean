import OpenHalfLife.Iso.Agreement
import OpenHalfLife.Lib.Behaviour

/-! # Reading an opened file

A file is opened with its extent inside the volume. Whatever is read and sought
then, it answers as its own bytes would, and no other byte of the volume has a
part in it.
-/

namespace OpenHalfLife.Iso

open Media Responses

set_option autoImplicit false

variable {archive : Iso9660Archive} {file : Iso9660File} {volume : List UInt8}

inductive FileOp
  | seek (offset : Nat)
  | read (room : Nat)

def fileStep (archive : Iso9660Archive) (file : Iso9660File) : FileOp → Except SanitizedError (List UInt8) × Iso9660File
  | .seek offset =>
    match file.seek offset with
    | .ok moved => (.ok [], moved)
    | .error error => (.error error, file)
  | .read room =>
    match archive.readFile file room with
    | .ok (bytes, moved) => (.ok bytes, moved)
    | .error error => (.error error, file)

/-- A file by its bytes. `given` says which of its reads the medium serves. -/
structure Window where
  content : List UInt8
  size : Nat
  given : Nat → Nat → Bool

def Window.step (window : Window) (position : Nat) : FileOp → Except SanitizedError (List UInt8) × Nat
  | .seek offset => if window.size < offset then (.error .invalidInput, position) else (.ok [], offset)
  | .read room =>
    let count := min (window.size - position) room
    if count = 0 then (.ok [], position)
    else if window.given position count then (.ok ((window.content.drop position).take count), position + count)
    else (.error .invalidInput, position)

/-! ## Bytes by position -/

section Positions

variable {window : Window} {position : Nat}

theorem Window.position_le (h : position ≤ window.size) (op : FileOp) : (window.step position op).2 ≤ window.size := by
  cases op with
  | seek offset =>
    rw [Window.step]
    split
    · exact h
    · next hInside => exact Nat.le_of_not_lt hInside
  | read room =>
    rw [Window.step]
    split
    · exact h
    · split
      · dsimp only
        omega
      · exact h

theorem Window.reads_eq (hContent : window.content.length ≤ window.size) (rooms : List Nat) (chunks : List (List UInt8))
    (h : answers window.step position (rooms.map FileOp.read) = chunks.map Except.ok) :
    chunks.flatten = (window.content.drop position).take rooms.sum := by
  induction rooms generalizing position chunks with
  | nil =>
    obtain rfl := List.map_eq_nil_iff.mp h.symm
    rfl
  | cons room rooms ih =>
    cases chunks with
    | nil => cases h
    | cons chunk chunks =>
      rw [List.map_cons, List.map_cons, answers] at h
      obtain ⟨hChunk, hRest⟩ := List.cons.inj h
      have hFlatten := ih chunks hRest
      have hLength : (window.content.drop position).length ≤ window.size - position := by
        rw [List.length_drop]
        omega
      rw [List.flatten_cons, hFlatten, List.sum_cons, List.take_add]
      rw [Window.step] at hChunk ⊢
      split at hChunk
      · next hNone =>
        obtain rfl := Except.ok.inj hChunk
        rw [if_pos hNone, List.nil_append]
        rcases Nat.min_eq_zero_iff.mp hNone with hEnd | rfl
        · have hDone : window.content.drop position = [] := List.eq_nil_of_length_eq_zero (by omega)
          rw [hDone, List.take_nil, List.take_nil, List.drop_nil, List.take_nil, List.append_nil]
        · rw [List.take_zero, List.nil_append, List.drop_zero]
      · next hSome =>
        split at hChunk
        · next hGiven =>
          obtain rfl := Except.ok.inj hChunk
          rw [if_neg hSome, if_pos hGiven]
          dsimp only
          have hTaken : (window.content.drop position).take (min (window.size - position) room) =
              (window.content.drop position).take room := by
            rw [Nat.min_comm, ← List.take_take, List.take_of_length_le hLength]
          rw [hTaken, ← List.drop_drop]
          congr 2
          rcases Nat.le_total room (window.size - position) with hRoom | hRoom
          · rw [Nat.min_eq_right hRoom]
          · rw [Nat.min_eq_left hRoom, List.drop_of_length_le hLength, List.drop_of_length_le (Nat.le_trans hLength hRoom)]
        · cases hChunk

end Positions

/-! ## An opened file by its bytes -/

/-- Bytes are read as they stand on the volume, all that were asked for. -/
def Faithful (image : IsoImage) (volume : List UInt8) : Prop :=
  ∀ offset count bytes, image.readBytesAt offset count = some bytes →
    bytes = (volume.drop offset).take count ∧ bytes.length = count

def Iso9660File.start (file : Iso9660File) : Nat := file.startLba * blockSize

def windowOf (archive : Iso9660Archive) (volume : List UInt8) (file : Iso9660File) : Window :=
  ⟨(volume.drop file.start).take file.size, file.size,
    fun offset count => (archive.image.readBytesAt (file.start + offset) count).isSome⟩

theorem start_small (h : Inside archive file) : file.start + file.size < 2 ^ 64 := by
  have hBlocks := archive.volumeBlocks.toNat_lt
  have hExtent := h.extent
  unfold Iso9660File.start
  unfold blockSize at *
  omega

theorem windowOf_size (archive : Iso9660Archive) (volume : List UInt8) (file : Iso9660File) :
    (windowOf archive volume file).size = file.size := rfl

theorem windowOf_slice (archive : Iso9660Archive) (volume : List UInt8) (file : Iso9660File) (position room : Nat) :
    ((windowOf archive volume file).content.drop position).take (min (file.size - position) room) =
      (volume.drop (file.start + position)).take (min (file.size - position) room) := by
  unfold windowOf
  dsimp only
  rw [List.drop_take, List.drop_drop, List.take_take, Nat.min_eq_left (Nat.min_le_left _ _)]

theorem fileStep_eq (hFaithful : Faithful archive.image volume) (h : Inside archive file) (op : FileOp) :
    fileStep archive file op = (((windowOf archive volume file).step file.position op).1,
      { file with position := ((windowOf archive volume file).step file.position op).2 }) := by
  have hSmall := start_small h
  have hPosition := h.position
  cases op with
  | seek offset =>
    rw [fileStep, Window.step, Iso9660File.seek]
    rcases Nat.lt_or_ge file.size offset with hOutside | hInside
    · rw [if_pos hOutside, if_pos (show (windowOf archive volume file).size < offset from hOutside)]
    · rw [if_neg (Nat.not_lt.mpr hInside), if_neg (show ¬(windowOf archive volume file).size < offset from Nat.not_lt.mpr hInside)]
  | read room =>
    rw [fileStep, Window.step, Iso9660Archive.readFile, if_neg (not_not.mpr h.mount), windowOf_size]
    by_cases hNone : file.size ≤ file.position ∨ room = 0
    · have hCount : min (file.size - file.position) room = 0 := by omega
      rw [if_pos hNone, if_pos hCount]
    · have hCount : min (file.size - file.position) room ≠ 0 := by omega
      rw [if_neg hNone, if_neg hCount, if_neg (by unfold Iso9660File.start at hSmall; omega)]
      have hGiven (count : Nat) : (windowOf archive volume file).given file.position count =
        (archive.image.readBytesAt (file.startLba * blockSize + file.position) count).isSome := rfl
      rw [hGiven]
      cases hRead : archive.image.readBytesAt (file.startLba * blockSize + file.position) (min (file.size - file.position) room) with
      | none => rfl
      | some bytes =>
        obtain ⟨rfl, -⟩ := hFaithful _ _ _ hRead
        dsimp only [Option.isSome_some]
        rw [if_pos rfl, windowOf_slice, Iso9660File.start]

theorem follows (hFaithful : Faithful archive.image volume) (h : Inside archive file) :
    Follows (fileStep archive) (windowOf archive volume file).step (fun position => { file with position := position })
      (· ≤ file.size) where
  answer {position} hPosition op := by
    have hInside : Inside archive { file with position := position } := ⟨h.mount, h.extent, hPosition⟩
    exact fileStep_eq hFaithful hInside op
  keeps hPosition op := Window.position_le hPosition op

def AgreeWithin (image other : IsoImage) (start size : Nat) : Prop :=
  ∀ offset count, 0 < count → start ≤ offset → offset + count ≤ start + size →
    other.readBytesAt offset count = image.readBytesAt offset count

theorem fileStep_congr {other : IsoImage} (hAgree : AgreeWithin archive.image other file.start file.size) (op : FileOp) :
    fileStep { archive with image := other } file op = fileStep archive file op := by
  cases op with
  | seek offset => rfl
  | read room =>
    unfold fileStep Iso9660Archive.readFile
    dsimp only
    by_cases hNone : file.size ≤ file.position ∨ room = 0
    · rw [if_pos hNone, if_pos hNone]
    · have hSame : other.readBytesAt (file.startLba * blockSize + file.position) (min (file.size - file.position) room) = _ :=
        hAgree _ _ (by omega) (Nat.le_add_right _ _) (by unfold Iso9660File.start; omega)
      rw [if_neg hNone, if_neg hNone, hSame]

/-- What is known of an opened file: where its bytes are, and that every run of calls is answered from them alone. -/
structure ReadsOwnBytes (archive : Iso9660Archive) (volume : List UInt8) (file : Iso9660File) : Prop where
  extent : file.start + file.size ≤ archive.volumeBlocks.toNat * blockSize
  answered : ∀ ops, answers (fileStep archive) file ops = answers (windowOf archive volume file).step 0 ops
  position : ∀ ops, ∃ position ≤ file.size, after (fileStep archive) file ops = { file with position := position }
  alone : ∀ other, AgreeWithin archive.image other file.start file.size →
    ∀ ops, answers (fileStep { archive with image := other }) file ops = answers (fileStep archive) file ops
  inOrder : ∀ (rooms : List Nat) (chunks : List (List UInt8)), answers (fileStep archive) file (rooms.map FileOp.read) = chunks.map Except.ok →
    chunks.flatten = ((volume.drop file.start).take file.size).take rooms.sum

theorem readsOwnBytes (hFaithful : Faithful archive.image volume) (h : Inside archive file) (hStart : file.position = 0) :
    ReadsOwnBytes archive volume file := by
  have hFile : { file with position := 0 } = file := by rw [← hStart]
  have hRun (ops : List FileOp) := (follows hFaithful h).run (Nat.zero_le file.size) ops
  rw [hFile] at hRun
  refine ⟨h.extent, fun ops => (hRun ops).1, fun ops => ⟨_, (hRun ops).2.2, (hRun ops).2.1⟩, ?_, ?_⟩
  · intro other hAgree ops
    have hOther : Follows (fileStep { archive with image := other }) (windowOf archive volume file).step
        (fun position => { file with position := position }) (· ≤ file.size) := by
      refine ⟨fun {position} hPosition op => ?_, (follows hFaithful h).keeps⟩
      rw [@fileStep_congr archive { file with position := position } other hAgree op]
      exact (follows hFaithful h).answer hPosition op
    have hAnswers := (hOther.run (Nat.zero_le file.size) ops).1
    rw [hFile] at hAnswers
    rw [hAnswers, (hRun ops).1]
  · intro rooms chunks hChunks
    rw [(hRun _).1] at hChunks
    have hContent : (windowOf archive volume file).content.length ≤ (windowOf archive volume file).size :=
      List.length_take_le _ _
    exact Window.reads_eq hContent rooms chunks hChunks

theorem inside_of_openRecord {records : List DirRecord} {name : Text}
    (hChecked : ∀ record ∈ records, archive.checkRecord record = .ok ())
    (h : (archive.findRecord name records >>= archive.openRecord) = .ok file) : Inside archive file ∧ file.position = 0 := by
  obtain ⟨found, hFound, h⟩ := Result.bind_eq_ok.mp h
  cases found with
  | none => cases h
  | some record =>
    obtain ⟨-, h⟩ := Result.ite_error_eq_ok.mp h
    obtain rfl := Except.ok.inj h
    exact ⟨inside_fileOf (hChecked record (mem_of_findRecord hFound)), rfl⟩

theorem inside_of_resolveFile {normalized : Text} (h : archive.resolveFile normalized = .ok file) :
    Inside archive file ∧ file.position = 0 := by
  unfold Iso9660Archive.resolveFile at h
  split at h
  · cases h
  · obtain ⟨-, h⟩ := Result.ite_error_eq_ok.mp h
    obtain ⟨directory, -, h⟩ := Result.bind_eq_ok.mp h
    obtain ⟨records, hRecords, h⟩ := Result.bind_eq_ok.mp h
    exact inside_of_openRecord (readEntries_checked hRecords) h

/-- However a file was opened, it is read inside its own extent, as its own bytes. -/
theorem opened_reads_own_bytes (hFaithful : Faithful archive.image volume)
    (hOpened : (∃ path, archive.openFile path = .ok file) ∨ ∃ directory name, archive.openFileAt directory name = .ok file) :
    ReadsOwnBytes archive volume file := by
  have hInside : Inside archive file ∧ file.position = 0 := by
    rcases hOpened with ⟨path, h⟩ | ⟨directory, name, h⟩
    · unfold Iso9660Archive.openFile at h
      split at h
      · cases h
      · exact inside_of_resolveFile h
    · unfold Iso9660Archive.openFileAt at h
      obtain ⟨-, h⟩ := Result.ite_error_eq_ok.mp h
      split at h
      · cases h
      · exact inside_of_resolveFile h
  exact readsOwnBytes hFaithful hInside.1 hInside.2

/-! ### A volume of one file -/

def imageOf (volume : List UInt8) : IsoImage :=
  ⟨fun _ => some [letterRecord 0x61], fun _ => none, fun offset count =>
    let bytes := (volume.drop offset).take count
    if bytes.length = count then some bytes else none⟩

theorem imageOf_faithful (volume : List UInt8) : Faithful (imageOf volume) volume := by
  intro offset count bytes h
  unfold imageOf at h
  dsimp only at h
  split at h
  · next hLength =>
    obtain rfl := Option.some.inj h
    exact ⟨rfl, hLength⟩
  · cases h

def sevens : List UInt8 := List.replicate (100 * blockSize) 7

def sevensArchive : Iso9660Archive := ⟨imageOf sevens, 100, false, onePerPage, 1, ⟨18, 2048⟩⟩

theorem sevens_read : ReadsOwnBytes sevensArchive sevens ⟨1, 20, 7, 0⟩ :=
  opened_reads_own_bytes (imageOf_faithful sevens) (.inl ⟨[0x2f, 0x61], by rfl⟩)

end OpenHalfLife.Iso
