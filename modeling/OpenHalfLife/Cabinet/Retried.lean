import OpenHalfLife.Cabinet.Delivered

/-! # Reading on after an error

A refill that fails leaves its half-filled buffer and its new place in the
reader. Reading on is safe after a failure that came before any of the two
could matter, and only then.
-/

namespace OpenHalfLife.Cabinet

set_option autoImplicit false

open Machine

structure StoredFile where
  descriptor : FileDescriptor
  isStored : descriptor.flags.isCompressed = false

section Opening

variable {σ : Type} {source : VolumeSource σ} {volumes : Nat → List UInt8}

theorem start_ensures (hReads : source.Reads volumes) (rounds : Nat) (r : FileReader) (t : σ) :
    Ensures (start source rounds) (r, t)
      (fun _ s => ∃ place hops, fileStart volumes r.site r.descriptor rounds r.place.flags r.place.volume =
        some place ∧ s.1 = { r with place := place, hops := hops })
      fun _ _ => True := by
  induction rounds generalizing r t with
  | zero => exact trivial
  | succ rounds ih =>
    rw [start, ensures_bind, ensures_get]
    dsimp only
    rw [ensures_bind]
    refine (openVolume_ensures hReads _ r t).mono ?_ fun _ _ _ => trivial
    rintro header ⟨_, t'⟩ ⟨place, hPlace, rfl⟩
    rw [fileStart, hPlace]
    dsimp only
    rw [ensures_ite]
    refine ⟨fun hLater => ?_, fun hHere => ?_⟩
    · rw [if_pos hLater, ensures_bind]
      refine (advanceVolume_ensures _ t').mono ?_ fun _ _ _ => trivial
      rintro _ _ ⟨-, rfl⟩
      refine (ih _ t').mono ?_ fun _ _ _ => trivial
      rintro _ ⟨_, t''⟩ ⟨last, hops, hLast, rfl⟩
      have hVolume := openPlace_volume hPlace
      dsimp only at hLast hVolume
      rw [hVolume] at hLast
      exact ⟨last, hops, hLast, rfl⟩
    · rw [if_neg hHere]
      exact ⟨place, r.hops, rfl, rfl⟩

theorem isObfuscated_fileStart {site : FileSite} {descriptor : FileDescriptor} {rounds : Nat}
    {flags : FileFlags} {volume : Nat} {place : Place}
    (h : fileStart volumes site descriptor rounds flags volume = some place) :
    place.flags.isObfuscated = flags.isObfuscated := by
  induction rounds generalizing flags volume with
  | zero => cases h
  | succ rounds ih =>
    rw [fileStart] at h
    split at h
    · cases h
    · rename_i first header hOpen
      have hFirst := isObfuscated_openPlace hOpen
      split at h
      · exact (ih h).trans hFirst
      · cases h
        exact hFirst

theorem clear_congr {flags flags' : FileFlags} (h : flags.isObfuscated = flags'.isObfuscated)
    (bytes : List UInt8) (seed : UInt32) : clear flags bytes seed = clear flags' bytes seed := by
  rw [clear, clear, h]

theorem ahead_of_openFile (hReads : source.Reads volumes) {site : FileSite} {descriptor : FileDescriptor}
    {budget : Nat} {t : σ} {s : FileReader × σ} (h : openFile source site descriptor budget t = .ok s) :
    ahead volumes s.1 = content volumes site descriptor := by
  unfold openFile at h
  iterate 4
    split at h
    · cases h
  split at h
  · rename_i s' hStart
    cases h
    obtain ⟨place, hops, hPlace, hReader⟩ := (start_ensures hReads _ _ t).of_ok hStart
    have hFlags := isObfuscated_fileStart hPlace
    have hPlace' : fileStart volumes site descriptor (2 ^ 16) descriptor.flags descriptor.volume.toNat =
        some place := hPlace
    rw [content, hPlace', hReader]
    exact clear_congr hFlags _ _
  · cases h

end Opening

/-! ## Failures that do no harm -/

section Failing

variable {σ : Type} (source : VolumeSource σ)

/-- The staged bytes are given, and the buffer of the next refill will not be longer than the
front of it that counts as given. -/
structure Covered (r : FileReader) : Prop where
  given : r.staging.length ≤ r.stagingPos
  chunk : r.chunk ≤ r.stagingPos

/-- The refill ends at its first request, before a byte is taken. -/
def FailsAtOnce (r : FileReader) (t : σ) : Prop :=
  0 < r.place.volumeBytesLeft ∧ ∀ bytes, (source.readAt t r.place.volume r.place.cursor
    (min r.place.volumeBytesLeft r.chunk)).1 = .ok bytes → bytes = []

/-- There is no next volume within the limits; this does not change any more. -/
def AtLastVolume (r : FileReader) : Prop :=
  r.place.volumeBytesLeft = 0 ∧ (2 ^ 16 ≤ r.hops + 1 ∨ r.site.limits.maxVolumeHops < r.hops + 1 ∨
    2 ^ 16 ≤ r.place.volume + 1 ∨ r.site.limits.maxVolumes < r.place.volume + 1)

def Harmless (s : FileReader × σ) : Prop :=
  Covered s.1 ∧ (FailsAtOnce source s.1 s.2 ∨ AtLastVolume s.1)

variable {source} {volumes : Nat → List UInt8}

theorem FailsAtOnce.request_ensures {r : FileReader} {t : σ} (h : FailsAtOnce source r t) :
    Ensures (request source r.place.volume r.place.cursor (min r.place.volumeBytesLeft r.chunk)) t
      (fun bytes _ => bytes = []) fun _ _ => True := by
  refine ensures_ofFun.mpr ⟨fun bytes t' hRead => ?_, fun _ _ _ => trivial⟩
  have hFirst := congrArg Prod.fst hRead
  refine h.2 bytes ?_
  cases hCall : (source.readAt t r.place.volume r.place.cursor
      (min r.place.volumeBytesLeft r.chunk)).1 with
  | error e =>
    rw [hCall] at hFirst
    cases hFirst
  | ok read =>
    rw [hCall] at hFirst
    cases hFirst
    rfl

theorem readPart_fails_at_once (r : FileReader) {t : σ} {room : Nat} (hLeft : 0 < r.place.volumeBytesLeft)
    (hNothing : Ensures (request source r.place.volume r.place.cursor (min r.place.volumeBytesLeft room)) t
      (fun bytes _ => bytes = []) fun _ _ => True) :
    Ensures (readPart source room) (r, t) (fun _ _ => False) fun _ s => s.1 = r := by
  unfold readPart enterVolume
  rw [ensures_bind, ensures_bind, ensures_get]
  dsimp only
  rw [if_neg (Nat.ne_of_gt hLeft), ensures_pure, ensures_bind, ensures_get]
  dsimp only
  rw [ensures_bind, onSource, ensures_zoom]
  refine hNothing.mono ?_ fun _ _ _ => rfl
  rintro bytes t' rfl
  rw [ensures_bind, ensures_rejectIf]
  exact ⟨fun _ => rfl, fun hSome => (hSome rfl).elim⟩

theorem advanceVolume_at_last {r : FileReader} (h : AtLastVolume r) (t : σ) :
    Ensures advanceVolume (r, t) (fun _ _ => False) fun _ s => ∃ hops volume, r.hops ≤ hops ∧
      r.place.volume ≤ volume ∧ s.1 = { r with hops := hops, place := { r.place with volume := volume } } := by
  obtain ⟨-, hLimit⟩ := h
  simp only [advanceVolume, modifyReader, ensures_bind, ensures_get, ensures_rejectIf, ensures_modify]
  refine ⟨fun _ => ⟨r.hops, r.place.volume, Nat.le_refl _, Nat.le_refl _, rfl⟩, fun hHops => ?_⟩
  refine ⟨fun _ => ⟨r.hops + 1, r.place.volume, Nat.le_succ _, Nat.le_refl _, rfl⟩, fun hMaxHops => ?_⟩
  refine ⟨fun _ => ⟨r.hops + 1, r.place.volume, Nat.le_succ _, Nat.le_refl _, rfl⟩, fun hVolume => ?_⟩
  refine ⟨fun _ => ⟨r.hops + 1, r.place.volume + 1, Nat.le_succ _, Nat.le_succ _, rfl⟩, fun hMaxVolumes => ?_⟩
  omega

theorem readPart_at_last (r : FileReader) (h : AtLastVolume r) (t : σ) (room : Nat) :
    Ensures (readPart source room) (r, t) (fun _ _ => False) fun _ s => ∃ hops volume, r.hops ≤ hops ∧
      r.place.volume ≤ volume ∧ s.1 = { r with hops := hops, place := { r.place with volume := volume } } := by
  unfold readPart enterVolume
  rw [ensures_bind, ensures_bind, ensures_get]
  dsimp only
  rw [if_pos h.1, ensures_bind]
  exact (advanceVolume_at_last h t).mono (fun _ _ => False.elim) fun _ _ hLast => hLast

def FileReader.emptied (r : FileReader) : FileReader := { r with staging := List.replicate r.chunk 0 }

/-- A call that does no harm takes nothing: what comes next stays next, unless nothing comes any
more. -/
def Kept (volumes : Nat → List UInt8) (r r' : FileReader) : Prop :=
  Covered r' ∧ (ahead volumes r' = ahead volumes r ∧ ¬ AtLastVolume r ∨ AtLastVolume r')

theorem refill_harmless {r : FileReader} {t : σ} (h : Harmless source (r, t)) :
    Ensures (refill source) (r, t) (fun more s => more = false ∧ s.1 = r) fun _ s => Kept volumes r s.1 := by
  obtain ⟨⟨hGiven, hChunk⟩, hFails⟩ := h
  dsimp only at hGiven hChunk hFails
  unfold refill readStored
  rw [ensures_bind, ensures_get]
  dsimp only
  rw [ensures_ite]
  refine ⟨fun _ => ⟨rfl, rfl⟩, fun hMore => ?_⟩
  obtain ⟨rounds, hRounds⟩ : ∃ rounds, r.chunk = rounds + 1 := by
    refine ⟨r.chunk - 1, ?_⟩
    have hSize : 0 < r.chunk := lt_min (Nat.pos_of_ne_zero hMore) (lt_max_of_lt_right Nat.one_pos)
    omega
  have hCovered (hops : Nat) (place : Place) : Covered { r.emptied with hops := hops, place := place } :=
    ⟨by rw [FileReader.emptied, List.length_replicate]; exact hChunk, hChunk⟩
  rw [ensures_bind, modifyReader, ensures_modify, ensures_bind, ensures_bind, ensures_get]
  dsimp only
  rw [List.length_replicate, ensures_bind]
  rw [show readParts source r.chunk r.chunk = readParts source (rounds + 1) r.chunk by rw [hRounds],
    readParts, if_neg (by omega), ensures_bind]
  rcases hFails with hOnce | hLast
  · refine (readPart_fails_at_once r.emptied hOnce.1 hOnce.request_ensures).mono (fun _ _ => False.elim) ?_
    rintro e ⟨_, t'⟩ rfl
    refine ⟨hCovered r.hops r.place, .inl ⟨?_, fun hLast => Nat.ne_of_gt hOnce.1 hLast.1⟩⟩
    rw [ahead, ahead, List.drop_eq_nil_of_le hGiven, List.drop_eq_nil_of_le (hCovered r.hops r.place).given]
    rfl
  · refine (readPart_at_last r.emptied hLast t _).mono (fun _ _ => False.elim) ?_
    rintro e ⟨_, t'⟩ ⟨hops, volume, hHops, hVolume, rfl⟩
    obtain ⟨hEmpty, hLimit⟩ := hLast
    refine ⟨hCovered hops _, .inr ⟨hEmpty, ?_⟩⟩
    dsimp only [FileReader.emptied] at hHops hVolume ⊢
    omega

variable (volumes) in
theorem read_harmless {r : FileReader} {t : σ} (h : Harmless source (r, t)) (room : Nat) :
    Ensures (read source room) (r, t) (fun bytes s => bytes = [] ∧ s.1 = r) fun _ s =>
      Kept volumes r s.1 := by
  unfold read
  rw [ensures_ite]
  refine ⟨fun _ => ⟨rfl, rfl⟩, fun _ => ?_⟩
  rw [ensures_bind, ensures_get]
  dsimp only
  rw [if_neg (Nat.not_lt.mpr h.1.given), ensures_bind]
  refine (refill_harmless h).mono ?_ fun _ _ hKept => hKept
  rintro _ ⟨_, t'⟩ ⟨rfl, rfl⟩
  exact ⟨rfl, rfl⟩

end Failing

/-! ## Runs -/

section Runs

variable {σ : Type}

/-- Calls to a reader, with other calls to the source between them. `torn` tells whether a call
has failed with harm done; a call is made only where `may` allows it. -/
inductive Run (source : VolumeSource σ) (may : Prop → Prop) (s : FileReader × σ) :
    Prop → List UInt8 → FileReader × σ → Prop
  | opened : Run source may s False [] s
  | elsewhere {torn : Prop} {delivered : List UInt8} {r : FileReader} {t : σ} (t' : σ) :
    Run source may s torn delivered (r, t) → Run source may s torn delivered (r, t')
  | given {torn : Prop} {delivered bytes : List UInt8} {s' s'' : FileReader × σ} (room : Nat) :
    Run source may s torn delivered s' → may torn →
      (read source room).exec s' = (.ok bytes, s'') → Run source may s torn (delivered ++ bytes) s''
  | failed {torn : Prop} {delivered : List UInt8} {s' s'' : FileReader × σ} (room : Nat) (e : Error) :
    Run source may s torn delivered s' → may torn →
      (read source room).exec s' = (.error e, s'') →
        Run source may s (torn ∨ ¬ Harmless source s') delivered s''

variable {source : VolumeSource σ} {volumes : Nat → List UInt8}

/-- What was given and what is to come are the whole, or nothing comes any more. -/
def Consistent (volumes : Nat → List UInt8) (whole delivered : List UInt8) (r : FileReader) : Prop :=
  delivered ++ ahead volumes r = whole ∨ delivered <+: whole ∧ Covered r ∧ AtLastVolume r

theorem Consistent.delivered {whole delivered : List UInt8} {r : FileReader}
    (h : Consistent volumes whole delivered r) : delivered <+: whole := by
  rcases h with hWhole | hLast
  · exact ⟨_, hWhole⟩
  · exact hLast.1

theorem Consistent.given (hReads : source.Reads volumes) {whole delivered bytes : List UInt8} {room : Nat}
    {s s' : FileReader × σ} (h : Consistent volumes whole delivered s.1)
    (hRead : (read source room).exec s = (.ok bytes, s')) :
    Consistent volumes whole (delivered ++ bytes) s'.1 := by
  rcases h with hWhole | ⟨hFront, hCovered, hLast⟩
  · have hNext := (read_ensures hReads room s.1 s.2).of_ok hRead
    refine .inl ?_
    rw [List.append_assoc, ← hNext, hWhole]
  · have hHarmless : Harmless source s := ⟨hCovered, .inr hLast⟩
    obtain ⟨rfl, hSame⟩ := (read_harmless volumes hHarmless room).of_ok hRead
    rw [List.append_nil, hSame]
    exact .inr ⟨hFront, hCovered, hLast⟩

theorem Consistent.failed {whole delivered : List UInt8} {room : Nat} {s s' : FileReader × σ} {e : Error}
    (h : Consistent volumes whole delivered s.1) (hHarmless : Harmless source s)
    (hRead : (read source room).exec s = (.error e, s')) : Consistent volumes whole delivered s'.1 := by
  obtain ⟨hCovered, hKept⟩ := (read_harmless volumes hHarmless room).of_error hRead
  rcases hKept with ⟨hSame, hMore⟩ | hLast
  · rcases h with hWhole | ⟨-, -, hLast⟩
    · exact .inl (hSame ▸ hWhole)
    · exact (hMore hLast).elim
  · exact .inr ⟨h.delivered, hCovered, hLast⟩

theorem consistent_of_run (hReads : source.Reads volumes) {s s' : FileReader × σ} {torn : Prop}
    {delivered : List UInt8} (hRun : Run source (¬ ·) s torn delivered s') :
    ¬ torn → Consistent volumes (ahead volumes s.1) delivered s'.1 := by
  induction hRun with
  | opened => exact fun _ => .inl rfl
  | elsewhere t' _ ih => exact ih
  | given room _ hMay hRead ih => exact fun _ => (ih hMay).given hReads hRead
  | failed room e _ hMay hRead ih =>
    intro hTorn
    rw [not_or, not_not] at hTorn
    exact (ih hMay).failed hTorn.2 hRead

theorem delivered_of_run (hReads : source.Reads volumes) {s s' : FileReader × σ} {torn : Prop}
    {delivered : List UInt8} (hRun : Run source (¬ ·) s torn delivered s') :
    delivered <+: ahead volumes s.1 := by
  induction hRun with
  | opened => exact List.nil_prefix
  | elsewhere t' _ ih => exact ih
  | given room hBefore hMay hRead => exact ((consistent_of_run hReads hBefore hMay).given hReads hRead).delivered
  | failed room e _ _ _ ih => exact ih

/-- Where no call follows a harmful failure, the bytes given are a front of the file. -/
theorem read_delivers_front (hReads : source.Reads volumes) (site : FileSite) (file : StoredFile)
    (budget : Nat) (t : σ) (s s' : FileReader × σ) (torn : Prop) (delivered : List UInt8)
    (hOpen : openFile source site file.descriptor budget t = .ok s)
    (hRun : Run source (¬ ·) s torn delivered s') : delivered <+: content volumes site file.descriptor := by
  rw [← ahead_of_openFile hReads hOpen]
  exact delivered_of_run hReads hRun

end Runs

/-! ## A source that fails between two chunks -/

def sampleVolumes : Nat → List UInt8
  | 1 => [0x49, 0x53, 0x63, 0x28] ++ List.replicate 80 0 ++ [1, 2, 3, 4]
  | _ => []

def failingAt (volumes : Nat → List UInt8) : VolumeSource (List Bool) where
  readAt calls volume offset length :=
    (if calls.head? = some true then .error ⟨⟩ else .ok (((volumes volume).drop offset).take length), calls.tail)
  length_le calls volume offset length bytes h := by
    dsimp only at h
    split at h
    · cases h
    · cases h
      exact List.length_take_le _ _

theorem failingAt_reads (volumes : Nat → List UInt8) : (failingAt volumes).Reads volumes := by
  intro calls volume offset length bytes h
  dsimp only [failingAt] at h
  split at h
  · cases h
  · cases h
    exact List.take_prefix _ _

def sampleSite : FileSite := ⟨0, 1, 6, .v6, ⟨100, 4, 4, 2⟩⟩

def sampleFile : StoredFile := ⟨⟨1, ⟨0⟩, 4, 0, 84, 1⟩, rfl⟩

/-- The reader of the sample with `given` bytes given. -/
def sampleReader (staging : List UInt8) (given : Nat) : FileReader where
  site := sampleSite
  descriptor := sampleFile.descriptor
  place := ⟨⟨0⟩, 1, 84 + given, 4 - given⟩
  hops := 0
  obfuscationSeed := 0
  storedLeft := 4 - given
  staging := staging
  stagingPos := min given 2
  written := given
  budget := 100 - given

theorem openFile_sample (calls : List Bool) : openFile (failingAt sampleVolumes) sampleSite
    sampleFile.descriptor 100 (false :: false :: calls) = .ok (sampleReader [] 0, calls) := rfl

theorem read_delivers_front_sample :
    [1, 2, 3, 4] <+: content sampleVolumes sampleSite sampleFile.descriptor := by
  have hFirst : Run (failingAt sampleVolumes) (¬ ·) (sampleReader [] 0, [false, true]) False [1, 2]
      (sampleReader [1, 2] 2, [true]) := .given 2 .opened not_false rfl
  have hFailed : Run (failingAt sampleVolumes) (¬ ·) (sampleReader [] 0, [false, true])
      (False ∨ ¬ Harmless (failingAt sampleVolumes) (sampleReader [1, 2] 2, [true])) [1, 2]
      (sampleReader [0, 0] 2, []) := .failed 2 .volume hFirst not_false rfl
  have hHarmless : Harmless (failingAt sampleVolumes) (sampleReader [1, 2] 2, [true]) :=
    ⟨⟨by decide, by decide⟩, .inl ⟨by decide, fun bytes h => by cases h⟩⟩
  have hLast : Run (failingAt sampleVolumes) (¬ ·) (sampleReader [] 0, [false, true])
      (False ∨ ¬ Harmless (failingAt sampleVolumes) (sampleReader [1, 2] 2, [true])) [1, 2, 3, 4]
      (sampleReader [3, 4] 4, []) := .given 2 hFailed (fun h => h.elim id fun h => h hHarmless) rfl
  exact read_delivers_front (failingAt_reads sampleVolumes) sampleSite sampleFile 100 _ _ _ _ _
    (openFile_sample _) hLast

theorem content_sample : content sampleVolumes sampleSite sampleFile.descriptor = [1, 2, 3, 4] := by
  have hStored : storedFrom sampleVolumes sampleSite sampleFile.descriptor ⟨⟨0⟩, 1, 84, 4⟩ = [1, 2, 3, 4] := by
    rw [storedFrom_eq]
    rfl
  have hStart : fileStart sampleVolumes sampleSite sampleFile.descriptor (2 ^ 16)
      sampleFile.descriptor.flags sampleFile.descriptor.volume.toNat = some ⟨⟨0⟩, 1, 84, 4⟩ := rfl
  rw [content, hStart]
  dsimp only
  rw [hStored]
  rfl

theorem read_delivers_zeros : ¬ ∀ (σ : Type) (source : VolumeSource σ) (volumes : Nat → List UInt8)
    (site : FileSite) (file : StoredFile) (budget : Nat) (t : σ) (s s' : FileReader × σ) (torn : Prop)
    (delivered : List UInt8), source.Reads volumes → openFile source site file.descriptor budget t = .ok s →
      Run source (fun _ => True) s torn delivered s' → delivered <+: content volumes site file.descriptor := by
  intro hFront
  have hFailed : Run (failingAt sampleVolumes) (fun _ => True) (sampleReader [] 0, [true])
      (False ∨ ¬ Harmless (failingAt sampleVolumes) (sampleReader [] 0, [true])) []
      (sampleReader [0, 0] 0, []) := .failed 2 .volume .opened trivial rfl
  have hZeros := hFront _ _ sampleVolumes sampleSite sampleFile 100 _ _ _ _ _ (failingAt_reads sampleVolumes)
    (openFile_sample _) (.given 2 hFailed trivial rfl)
  rw [content_sample] at hZeros
  revert hZeros
  decide

end OpenHalfLife.Cabinet
