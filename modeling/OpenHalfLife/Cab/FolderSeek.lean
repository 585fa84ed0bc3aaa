import Mathlib.Logic.Relation
import OpenHalfLife.Cab.Folder

/-! # Seeking to a file of a folder

Whatever calls brought a folder reader to its position, it still delivers the
rest of the folder's bytes. Seeking skips to the file, and is refused unless the
reader stands at the beginning of the folder.
-/

namespace OpenHalfLife.Cab

open Machine

set_option autoImplicit false

variable {δ : Type} {env : Env δ}

inductive FolderCall
  | read (want : Nat)
  | skip (count : Nat)
  deriving DecidableEq

namespace FolderCall

def apply (env : Env δ) : FolderCall → FolderStream.Method δ Nat
  | read want => do
    let bytes ← FolderStream.read env want
    return bytes.length
  | skip count => FolderStream.skip env count

def Step (env : Env δ) (f f' : FolderStream δ) : Prop :=
  ∃ (call : FolderCall) (passed : Nat), (call.apply env).exec f = (.ok passed, f')

end FolderCall

namespace FolderStream

/-- The reader delivers what `content` has behind its position. -/
def Follows (env : Env δ) (content : List UInt8) (f : FolderStream δ) : Prop :=
  (blockStream env).Delivers f.blocks (content.drop f.position)

variable {content : List UInt8} {f : FolderStream δ}

theorem advance_follows (h : f.Follows env content) (count : Nat) :
    Ensures (advance env count) f (fun bytes f' => f'.position = f.position + bytes.length ∧
      f'.Follows env content) fun _ _ => True := by
  rw [advance, ensures_bind, onBlocks, ensures_zoom]
  apply (BlockStream.takeUpTo_served h count).mono
  · rintro bytes blocks ⟨-, -, hRest⟩
    rw [ensures_bind, ensures_get, ensures_bind]
    dsimp only
    by_cases hFits : f.position + bytes.length < 2 ^ 64
    · rw [ensures_addOrPanic hFits]
      refine ⟨rfl, ?_⟩
      show (blockStream env).Delivers blocks (content.drop (f.position + bytes.length))
      rcases Nat.le_total bytes.length (content.drop f.position).length with hShort | hLong
      · rw [← List.drop_drop]
        exact hRest hShort
      · rw [List.length_drop] at hLong
        rw [List.drop_eq_nil_of_le (by omega)]
        exact .nil
    · rw [addOrPanic, if_pos (by omega)]
      trivial
  · exact fun _ _ _ => trivial

theorem advance_exact (h : f.Follows env content) (count : Nat) (hCount : f.position + count ≤ content.length)
    (hFits : f.position + count < 2 ^ 64) :
    Ensures (advance env count) f (fun bytes f' => bytes = (content.drop f.position).take count ∧
      f'.position = f.position + count ∧ f'.Follows env content) fun _ _ => False := by
  have hLength : ((content.drop f.position).take count).length = count := by
    rw [List.length_take, List.length_drop]
    omega
  rw [advance, ensures_bind, onBlocks, ensures_zoom]
  apply (BlockStream.takeUpTo_delivers h (show count ≤ _ by rw [List.length_drop]; omega)).mono
  · rintro bytes blocks ⟨rfl, hRest⟩
    rw [ensures_bind, ensures_get, ensures_bind]
    dsimp only
    rw [hLength, ensures_addOrPanic hFits]
    rw [List.drop_drop] at hRest
    exact ⟨rfl, rfl, hRest⟩
  · exact fun _ _ h => h

theorem step_follows {f' : FolderStream δ} (h : f.Follows env content) (hStep : FolderCall.Step env f f') :
    f'.Follows env content := by
  obtain ⟨call, passed, hExec⟩ := hStep
  have hKeeps : Ensures (call.apply env) f (fun _ f' => f'.Follows env content) fun _ _ => True := by
    cases call with
    | read want =>
      rw [FolderCall.apply, ensures_bind]
      exact (advance_follows h want).mono (fun _ _ h => h.2) fun _ _ h => h
    | skip count =>
      rw [FolderCall.apply, skip, ensures_bind]
      exact (advance_follows h count).mono (fun _ _ h => h.2) fun _ _ h => h
  exact hKeeps.of_ok hExec

theorem run_follows {fresh : FolderStream δ} (h : fresh.Follows env content)
    (hRun : Relation.ReflTransGen (FolderCall.Step env) fresh f) : f.Follows env content := by
  induction hRun with
  | refl => exact h
  | tail _ hStep ih => exact step_follows ih hStep

theorem new_position {compression : Compression} {limits : Limits} {segments : List FolderSegment}
    (h : new env compression limits segments = .ok f) : f.position = 0 := by
  cases segments with
  | nil => cases h
  | cons first rest =>
    simp only [new] at h
    cases hDecoder : newDecoder env compression limits with
    | error stop => rw [hDecoder] at h; cases h
    | ok decoder =>
      rw [hDecoder] at h
      simp only [Except.bind, bind] at h
      split at h
      · cases h
      · cases h
        rfl

end FolderStream

/-! ## Files -/

def cut : List Nat → List UInt8 → List (List UInt8)
  | [], _ => []
  | size :: sizes, bytes => bytes.take size :: cut sizes (bytes.drop size)

namespace FileStream

def readAll (env : Env δ) (sizes : List Nat) : Method δ (List (List UInt8)) := sizes.mapM (read env)

/-- Seeking succeeds, and reads into buffers of any sizes but zero return the
given bytes one after the other, and then nothing. -/
def SeeksExactly (env : Env δ) (f : FolderStream δ) (file : FileEntry) (bytes : List UInt8) : Prop :=
  ∃ stream, seekTo env f file = .ok stream ∧ ∀ sizes : List Nat, (∀ size ∈ sizes, 0 < size) →
    ∃ stream', (readAll env sizes).exec stream = (.ok (cut sizes bytes), stream')

/-- What is left of a file lies in front of its folder's reader. -/
structure Remains (env : Env δ) (content bytes : List UInt8) (stream : FileStream δ) : Prop where
  follows : stream.folder.Follows env content
  inside : stream.folder.position + stream.remaining ≤ content.length
  fits : stream.folder.position + stream.remaining < 2 ^ 64
  bytes_eq : bytes = (content.drop stream.folder.position).take stream.remaining

variable {content bytes : List UInt8} {stream : FileStream δ}

theorem Remains.length (h : Remains env content bytes stream) : bytes.length = stream.remaining := by
  have hInside := h.inside
  rw [h.bytes_eq, List.length_take, List.length_drop]
  omega

theorem read_remains (h : Remains env content bytes stream) {want : Nat} (hWant : 0 < want) :
    Ensures (read env want) stream (fun piece stream' => piece = bytes.take want ∧
      Remains env content (bytes.drop want) stream') fun _ _ => False := by
  have hLength := h.length
  have hInside := h.inside
  have hFits := h.fits
  rw [read, ensures_bind, ensures_get, ensures_ite]
  constructor
  · intro hDone
    have hNil : bytes = [] := List.eq_nil_of_length_eq_zero (by omega)
    subst hNil
    rw [ensures_pure, List.take_nil, List.drop_nil]
    exact ⟨rfl, h⟩
  · intro hMore
    rw [ensures_bind, onFolder, ensures_zoom, FolderStream.read]
    apply (FolderStream.advance_exact h.follows (min stream.remaining want) (by omega) (by omega)).mono
    · rintro piece folder ⟨hPiece, hPosition, hFollows⟩
      have hTake : piece = bytes.take want := by
        rw [hPiece, h.bytes_eq, List.take_take, Nat.min_comm]
      have hPieceLength : piece.length = min stream.remaining want := by
        rw [hTake, List.length_take, hLength, Nat.min_comm]
      rw [ensures_ite]
      refine ⟨fun hZero => by omega, fun _ => ?_⟩
      rw [ensures_bind, ensures_subOrPanic (by omega), ensures_bind, ensures_modify, ensures_pure]
      refine ⟨hTake, hFollows, ?_, ?_, ?_⟩
      · show folder.position + (stream.remaining - piece.length) ≤ content.length
        omega
      · show folder.position + (stream.remaining - piece.length) < 2 ^ 64
        omega
      · show bytes.drop want = (content.drop folder.position).take (stream.remaining - piece.length)
        rw [h.bytes_eq, List.drop_take, List.drop_drop, hPosition]
        rcases Nat.le_total want stream.remaining with hWithin | hBeyond
        · rw [hPieceLength, Nat.min_eq_right hWithin]
        · rw [hPieceLength, Nat.min_eq_left hBeyond, Nat.sub_eq_zero_of_le hBeyond, Nat.sub_self,
            List.take_zero, List.take_zero]
    · exact fun _ _ h => h

theorem readAll_remains (h : Remains env content bytes stream) {sizes : List Nat}
    (hSizes : ∀ size ∈ sizes, 0 < size) :
    Ensures (readAll env sizes) stream (fun pieces _ => pieces = cut sizes bytes) fun _ _ => False := by
  induction sizes generalizing bytes stream with
  | nil => exact rfl
  | cons size sizes ih =>
    rw [readAll, List.mapM_cons, ensures_bind]
    apply (read_remains h (hSizes size (by simp))).mono
    · rintro piece stream' ⟨rfl, hRemains⟩
      rw [ensures_bind]
      apply (ih hRemains fun size hMem => hSizes size (by simp [hMem])).mono
      · rintro pieces _ rfl
        exact rfl
      · exact fun _ _ h => h
    · exact fun _ _ h => h

theorem seek_spec {f : FolderStream δ} {file : FileEntry} (h : f.Follows env content)
    (hAt : f.position ≤ file.folderOffset.toNat) (hInside : file.folderOffset.toNat ≤ content.length) :
    Ensures (seek env file) f
      (fun _ f' => f.position = 0 ∧ f'.position = file.folderOffset.toNat ∧ f'.Follows env content)
      fun _ _ => f.position ≠ 0 := by
  have hStart := file.folderOffset.toNat_lt
  rw [seek, ensures_bind, ensures_get, if_neg (by omega), ensures_bind, ensures_subOrPanic hAt, ensures_bind, FolderStream.skip, ensures_bind]
  apply (FolderStream.advance_exact h (file.folderOffset.toNat - f.position) (by omega) (by omega)).mono
  · rintro skipped f' ⟨hSkipped, hPosition, hFollows⟩
    have hLength : skipped.length = file.folderOffset.toNat - f.position := by
      rw [hSkipped, List.length_take, List.length_drop]
      omega
    rw [ensures_pure, ensures_bind, ensures_get, ensures_ite]
    constructor
    · intro hOff hBeginning
      omega
    · intro hReached
      rw [not_or, not_not, not_not] at hReached
      exact ⟨by omega, hReached.1, hFollows⟩
  · exact fun _ _ h => h.elim

/-- From wherever earlier calls left the reader, a file in front of it is
delivered exactly if that is the beginning of the folder. -/
theorem seeksExactly_iff {compression : Compression} {limits : Limits} {segments : List FolderSegment}
    {fresh f : FolderStream δ} {file : FileEntry}
    (hNew : FolderStream.new env compression limits segments = .ok fresh)
    (hRun : Relation.ReflTransGen (FolderCall.Step env) fresh f)
    (hContent : (blockStream env).Delivers fresh.blocks content)
    (hEnough : file.folderOffset.toNat + file.uncompressedBytes.toNat ≤ content.length)
    (hAt : f.position ≤ file.folderOffset.toNat) :
    SeeksExactly env f file ((content.drop file.folderOffset.toNat).take file.uncompressedBytes.toNat) ↔
      f.position = 0 := by
  have hFresh : fresh.Follows env content := by
    rw [FolderStream.Follows, FolderStream.new_position hNew]
    exact hContent
  have hSeek := seek_spec (FolderStream.run_follows hFresh hRun) hAt (by omega)
  rw [Ensures] at hSeek
  rcases hExec : (seek env file).exec f with ⟨stop | _, folder⟩
  · rw [hExec] at hSeek
    refine iff_of_false ?_ hSeek
    rintro ⟨stream, hSought, -⟩
    rw [seekTo, hExec] at hSought
    cases hSought
  · rw [hExec] at hSeek
    obtain ⟨hBeginning, hPosition, hFollows⟩ := hSeek
    refine iff_of_true ⟨⟨folder, file.uncompressedBytes.toNat⟩, by rw [seekTo, hExec], ?_⟩ hBeginning
    intro sizes hSizes
    have hStart := file.folderOffset.toNat_lt
    have hSize := file.uncompressedBytes.toNat_lt
    have hRemains : Remains env content ((content.drop file.folderOffset.toNat).take
        file.uncompressedBytes.toNat) ⟨folder, file.uncompressedBytes.toNat⟩ := by
      refine ⟨hFollows, ?_, ?_, ?_⟩
      · dsimp only
        omega
      · dsimp only
        omega
      · dsimp only
        rw [hPosition]
    obtain ⟨pieces, stream', hPieces, rfl⟩ := (readAll_remains hRemains hSizes).exists_ok
    exact ⟨stream', hPieces⟩

/-! Two stored bytes, the second of which is a file. -/

def sliceSource (bytes : List UInt8) (volume offset length : Nat) : Except CabError (Vector UInt8 length) :=
  if volume ≠ 0 then .error .unsupported
  else if h : offset + length ≤ bytes.length then
    .ok ⟨((bytes.drop offset).take length).toArray, by simp; omega⟩
  else .error .outOfBounds

def storedEnv : Env Unit where
  inflate := ⟨(), id, fun _ _ window _ => ⟨(), window, .other, 0, 0⟩⟩
  readAt := sliceSource [0, 0, 0, 0, 2, 0, 2, 0, 7, 9]
  isCancelled _ := false
  reserves _ _ := true

def storedLimits : Limits := ⟨16, 1024, 21⟩

def storedFresh : FolderStream Unit where
  blocks := {
    limits := storedLimits
    segments := [⟨0, 0, 1, 10, 0⟩]
    segment := 0
    blocksLeft := 1
    offset := 0
    decoder := .stored
    block := []
    blockPosition := 0
    stats := ⟨0, 0, 0, 0⟩
    finished := false
    polls := 0 }
  position := 0

theorem storedFresh_new :
    FolderStream.new storedEnv .none storedLimits [⟨0, 0, 1, 10, 0⟩] = .ok storedFresh := rfl

theorem storedFresh_delivers : (blockStream storedEnv).Delivers storedFresh.blocks [7, 9] := by
  have hFilled : ((blockStream storedEnv).fill.exec storedFresh.blocks).1 = .ok true := rfl
  have hBlock : ((blockStream storedEnv).fill.exec storedFresh.blocks).2.held = .ok [7, 9] := rfl
  have hHeld : (blockStream storedEnv).held storedFresh.blocks = .ok [] := rfl
  apply BlockStream.Delivers.next hHeld
  · exact Prod.ext hFilled rfl
  · exact .held hBlock List.prefix_rfl

/-- At the beginning of the folder, after a skip of nothing. -/
theorem storedFresh_seeks : SeeksExactly storedEnv storedFresh ⟨1, 1⟩ [9] :=
  (seeksExactly_iff (f := storedFresh) storedFresh_new
    (.single ⟨.skip 0, 0, rfl⟩) storedFresh_delivers (by decide) (by decide)).mpr rfl

/-- After the first byte has been read the second is refused. -/
theorem storedMiddle_not_seeks : ∃ f,
    FolderStream.new storedEnv .none storedLimits [⟨0, 0, 1, 10, 0⟩] = .ok storedFresh ∧
    Relation.ReflTransGen (FolderCall.Step storedEnv) storedFresh f ∧
    (blockStream storedEnv).Delivers storedFresh.blocks [7, 9] ∧ f.position ≤ 1 ∧
    ¬ SeeksExactly storedEnv f ⟨1, 1⟩ [9] := by
  refine ⟨((FolderStream.read storedEnv 1).exec storedFresh).2, storedFresh_new,
    .single ⟨.read 1, 1, rfl⟩, storedFresh_delivers, by decide, ?_⟩
  rintro ⟨stream, hSought, -⟩
  cases hSought

end FileStream

end OpenHalfLife.Cab
