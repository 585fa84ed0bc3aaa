import OpenHalfLife.Isz.Explode
import OpenHalfLife.Lib.Machine
import OpenHalfLife.Isz.ExplodeRuns

/-! # Reading an entry of an archive

The bytes of an entry are read from a container a chunk at a time, and copied
or exploded into an output that the caller drains. The container and the
cancellation are the caller's.
-/

namespace OpenHalfLife.Isz

open Machine

set_option autoImplicit false

structure Limits where
  maxExpandedBytesPerEntry : Nat
  maxTotalExpandedBytes : Nat
  maxChunkBytes : Nat
  deriving DecidableEq

def attributeUncompressed : UInt8 := 0x10

structure Entry where
  expandedSize : UInt32
  storedSize : UInt32
  offset : UInt32
  attributes : UInt8
  split : Bool
  volumeStart : UInt8
  volumeEnd : UInt8
  deriving DecidableEq

def Entry.isStored (entry : Entry) : Bool := entry.attributes &&& attributeUncompressed != 0

def Entry.spansVolumes (entry : Entry) : Bool := entry.split || entry.volumeStart != entry.volumeEnd

structure Archive where
  base : UInt64
  entries : List Entry
  limits : Limits
  /-- What is left of `limits.maxTotalExpandedBytes`. -/
  remainingTotal : Nat

structure EntryReader where
  position : Nat
  storedLeft : Nat
  expandedSize : Nat
  written : Nat
  stored : Bool
  chunk : Nat
  input : List UInt8
  output : List UInt8
  outputPosition : Nat
  explode : Explode
  finished : Bool

def Archive.entryReader (archive : Archive) (entry : Entry) : EntryReader where
  position := archive.base.toNat + entry.offset.toNat
  storedLeft := entry.storedSize.toNat
  expandedSize := entry.expandedSize.toNat
  written := 0
  stored := entry.isStored
  chunk := max archive.limits.maxChunkBytes (maxMatch * 2)
  input := []
  output := []
  outputPosition := 0
  explode := .new
  finished := false

def Archive.openEntry (index : Nat) : Machine IszError Archive EntryReader := do
  let archive ← get
  match archive.entries[index]? with
  | none => throw .notFound
  | some entry =>
    rejectIf (entry.spansVolumes = true) .splitArchiveUnsupported
    let expanded := entry.expandedSize.toNat
    rejectIf (archive.limits.maxExpandedBytesPerEntry < expanded) (.limitExceeded .expandedBytesPerEntry)
    rejectIf (archive.remainingTotal < expanded) (.limitExceeded .totalExpandedBytes)
    set { archive with remainingTotal := archive.remainingTotal - expanded }
    rejectIf (2 ^ 64 ≤ archive.base.toNat + entry.offset.toNat) .outOfRange
    return archive.entryReader entry

/-! ## The container -/

/-- A read gives the bytes it wrote at the front of the buffer, as many as it
reports. -/
structure Container (ω : Type) where
  readAt : (offset length : Nat) → ω → Except Unit (List UInt8) × ω
  isCancelled : ω → Bool × ω

/-- Short reads, failures and overlong answers are the container's business,
the bytes are not. -/
def Container.Serves {ω : Type} (c : Container ω) (content : List UInt8) : Prop :=
  ∀ offset length w bytes w', c.readAt offset length w = (.ok bytes, w') → bytes.length ≤ length →
    bytes <+: content.drop offset

/-- The container that is a slice of bytes, with a cancellation that is never signalled. -/
def sliceSource (content : List UInt8) : Container Unit where
  readAt offset length w := (.ok ((content.drop offset).take length), w)
  isCancelled w := (false, w)

def readMore {ω : Type} (c : Container ω) (offset length : Nat) (done : List UInt8) (w : ω) :
    Except IszError (List UInt8) × ω :=
  if done.length < length then
    if 2 ^ 64 ≤ offset + done.length then (.error .outOfRange, w)
    else match c.readAt (offset + done.length) (length - done.length) w with
      | (.error (), w) => (.error .source, w)
      | (.ok read, w) =>
        if _h : read.length = 0 then (.error .truncated, w)
        else if 2 ^ 64 ≤ done.length + read.length then (.error .outOfRange, w)
        else if length < done.length + read.length then (.error .truncated, w)
        else readMore c offset length (done ++ read) w
  else (.ok done, w)
termination_by length - done.length
decreasing_by
  rw [List.length_append]
  omega

namespace EntryReader

variable {ω : Type}

abbrev Method (ω : Type) := Machine IszError (EntryReader × ω)

def onWorld {α : Type} (m : Machine IszError ω α) : Method ω α := zoom Prod.snd (fun w s => (s.1, w)) id m

def readExactAt (c : Container ω) (offset length : Nat) : Machine IszError ω (List UInt8) :=
  ofFun (readMore c offset length [])

def checkCancelled (c : Container ω) : Machine IszError ω Unit :=
  ofFun fun w => match c.isCancelled w with
    | (true, w) => (.error .cancelled, w)
    | (false, w) => (.ok (), w)

def reader : Method ω EntryReader := do
  let (r, _) ← get
  return r

def update (f : EntryReader → EntryReader) : Method ω Unit := modify fun s => (f s.1, s.2)

def finish : Method ω Unit := do
  let r ← reader
  rejectIf (r.written ≠ r.expandedSize) .sizeMismatch

/-- The next `length` stored bytes. -/
def readStored (c : Container ω) (length : Nat) : Method ω (List UInt8) := do
  let r ← reader
  let bytes ← onWorld (readExactAt c r.position length)
  rejectIf (2 ^ 64 ≤ r.position + length) .outOfRange
  update fun r => { r with position := r.position + length, storedLeft := r.storedLeft - length }
  return bytes

def countWritten (length : Nat) : Method ω Unit := do
  let r ← reader
  rejectIf (2 ^ 64 ≤ r.written + length) .outOfRange
  update fun r => { r with written := r.written + length }
  rejectIf (r.expandedSize < r.written + length) .sizeMismatch

def fillInput (c : Container ω) : Method ω Nat := do
  let r ← reader
  if r.storedLeft = 0 ∨ r.chunk ≤ r.input.length then return 0
  else
    let take := min r.storedLeft (r.chunk - r.input.length)
    let bytes ← readStored c take
    update fun r => { r with input := r.input ++ bytes }
    return take

def stepStored (c : Container ω) : Method ω Unit := do
  let r ← reader
  if r.storedLeft = 0 then
    update fun r => { r with finished := true }
    finish
  else
    let take := min r.storedLeft r.chunk
    let bytes ← readStored c take
    update fun r => { r with output := bytes }
    countWritten take

def stepImploded (c : Container ω) : Method ω Unit := do
  let read ← fillInput c
  let r ← reader
  let decoded := r.explode.decode r.input (r.storedLeft = 0) r.output r.chunk
  update fun r => { r with explode := decoded.explode, output := decoded.out }
  let progress ← ofExcept id decoded.result
  rejectIf (r.input.length < progress.consumed) .decompressionFailed
  update fun r => { r with input := r.input.drop progress.consumed }
  countWritten decoded.out.length
  if progress.finished then
    update fun r => { r with finished := true }
    finish
  else rejectIf (progress.consumed = 0 ∧ decoded.out = [] ∧ read = 0) .decompressionFailed

def step (c : Container ω) : Method ω Unit := do
  update fun r => { r with output := [], outputPosition := 0 }
  let r ← reader
  if r.stored then stepStored c else stepImploded c

/-- One turn of the loop of `read`, for a buffer of `length` bytes. -/
def readTurn (c : Container ω) (length : Nat) : Method ω (Option (List UInt8)) := do
  let r ← reader
  let pending := r.output.drop r.outputPosition
  if pending ≠ [] then
    let take := min pending.length length
    update fun r => { r with outputPosition := r.outputPosition + take }
    return some (pending.take take)
  else if r.finished then return some []
  else
    onWorld (checkCancelled c)
    step c
    return none

/-- At most `fuel` turns; `none` is a call that is not done by then. -/
def read (c : Container ω) (length fuel : Nat) (s : EntryReader × ω) :
    Option (Except IszError (List UInt8) × EntryReader × ω) :=
  if length = 0 then some (.ok [], s) else repeatFor (readTurn c length) fuel s

/-- The bytes that calls with buffers of some size have returned, none of them an error. -/
inductive Returned (c : Container ω) (s : EntryReader × ω) : List UInt8 → EntryReader × ω → Prop
  | none : Returned c s [] s
  | read {bytes more : List UInt8} {t u : EntryReader × ω} {length fuel : Nat} (h : Returned c s bytes t)
      (hLength : 0 < length) (hRead : read c length fuel t = some (.ok more, u)) : Returned c s (bytes ++ more) u

end EntryReader

end OpenHalfLife.Isz

namespace OpenHalfLife.Isz

/-! ## What a step of an entry reader does -/

open Machine

set_option autoImplicit false

def IszError.OfEntry : IszError → Prop
  | .invalidInput | .decompressionFailed | .sizeMismatch => True
  | _ => False

variable {ω : Type} {c : Container ω} {content : List UInt8}

theorem Container.Serves.extend (hServes : c.Serves content) {offset length : Nat} {done read : List UInt8} {w w' : ω}
    (hRead : c.readAt (offset + done.length) length w = (.ok read, w')) (hLength : read.length ≤ length)
    (hDone : done = (content.drop offset).take done.length) :
    done ++ read = (content.drop offset).take (done ++ read).length := by
  have hPrefix := hServes _ _ _ _ _ hRead hLength
  rw [List.length_append, List.take_add, ← hDone, List.drop_drop, ← List.prefix_iff_eq_take.mp hPrefix]

theorem readMore_spec (offset length : Nat) (done : List UInt8) (w : ω) (hDone : done.length ≤ length) :
    Outcome (fun bytes _ => bytes.length = length ∧ ∀ content, c.Serves content →
        done = (content.drop offset).take done.length → bytes = (content.drop offset).take length)
      (fun x _ => ¬ x.OfEntry) (readMore c offset length done w) := by
  fun_induction readMore c offset length done w with
  | case5 done w hMore hRange read w' hRead hSome hWidth hLong => simp [Outcome, IszError.OfEntry]
  | case6 done w hMore hRange read w' hRead hSome hWidth hFits ih =>
    have hNext := ih (by rw [List.length_append]; omega)
    generalize readMore c offset length (done ++ read) w' = result at hNext ⊢
    rcases result with ⟨x | bytes, w''⟩
    · exact hNext
    · refine ⟨hNext.1, fun content hServes hFront => ?_⟩
      exact hNext.2 content hServes (hServes.extend hRead (by omega) hFront)
  | case7 done w hFull =>
    have hLength : done.length = length := by omega
    exact ⟨hLength, fun content _ hFront => by rwa [hLength] at hFront⟩
  | _ => simp [Outcome, IszError.OfEntry]

namespace EntryReader

variable {r : EntryReader} {w : ω} {length : Nat}

theorem ensures_reader {s : EntryReader × ω} {Q : EntryReader → EntryReader × ω → Prop} {E : IszError → EntryReader × ω → Prop} :
    Ensures reader s Q E ↔ Q s.1 s := Iff.rfl

theorem ensures_update {f : EntryReader → EntryReader} {s : EntryReader × ω} {Q : Unit → EntryReader × ω → Prop}
    {E : IszError → EntryReader × ω → Prop} : Ensures (update f) s Q E ↔ Q () (f s.1, s.2) := Iff.rfl

theorem readStored_spec (c : Container ω) (length : Nat) (r : EntryReader) (w : ω) : Ensures (readStored c length) (r, w)
    (fun bytes t => bytes.length = length ∧
      (∀ content, c.Serves content → bytes = (content.drop r.position).take length) ∧
      t.1 = { r with position := r.position + length, storedLeft := r.storedLeft - length })
    (fun x _ => ¬ x.OfEntry) := by
  have hRead := readMore_spec (c := c) r.position length [] w (Nat.zero_le _)
  simp only [readStored, ensures_bind, ensures_reader, onWorld, ensures_zoom, ensures_rejectIf, ensures_update,
    ensures_pure, readExactAt, ensures_ofFun]
  refine ⟨fun bytes w' h => ⟨fun _ => by simp [IszError.OfEntry], fun _ => ?_⟩, fun x w' h => ?_⟩
  · rw [h] at hRead
    exact ⟨hRead.1, fun content hServes => hRead.2 content hServes (by simp), trivial⟩
  · rw [h] at hRead
    exact hRead

theorem finish_spec (r : EntryReader) (w : ω) : Ensures finish (r, w)
    (fun _ t => t = (r, w) ∧ r.written = r.expandedSize)
    (fun x _ => x = .sizeMismatch ∧ r.written ≠ r.expandedSize) := by
  simp [finish, ensures_reader]

theorem countWritten_spec (length : Nat) (r : EntryReader) (w : ω) : Ensures (countWritten length) (r, w)
    (fun _ t => t = ({ r with written := r.written + length }, w) ∧ r.written + length ≤ r.expandedSize)
    (fun x _ => x = .outOfRange ∨ x = .sizeMismatch ∧ r.expandedSize < r.written + length) := by
  simp [countWritten, ensures_reader, ensures_update]

/-- A reader with `bytes` more in its queue. -/
def queue (r : EntryReader) (bytes : List UInt8) : EntryReader :=
  { r with
    position := r.position + bytes.length
    storedLeft := r.storedLeft - bytes.length
    input := r.input ++ bytes }

theorem fillInput_spec (c : Container ω) (r : EntryReader) (w : ω) : Ensures (fillInput c) (r, w)
    (fun read t => ∃ bytes, t.1 = r.queue bytes ∧ bytes.length = read ∧ read ≤ r.storedLeft ∧
      (read = 0 → r.storedLeft = 0 ∨ r.chunk ≤ r.input.length) ∧
      ∀ content, c.Serves content → bytes = (content.drop r.position).take read)
    (fun x _ => ¬ x.OfEntry) := by
  simp only [fillInput, ensures_bind, ensures_reader, ensures_ite, ensures_pure]
  refine ⟨fun hStop => ⟨[], ?_, rfl, Nat.zero_le _, fun _ => hStop, fun _ _ => by simp⟩, fun hGo => ?_⟩
  · simp [queue]
  · apply (readStored_spec c _ r w).mono
    · rintro bytes ⟨t, w'⟩ ⟨hLength, hServed, rfl⟩
      refine ⟨bytes, ?_, hLength, by omega, by omega, hServed⟩
      simp [queue, hLength]
    · exact fun x _ hx => hx

/-- The next bytes of the container, as many as the chunk has room for. -/
structure Filled (c : Container ω) (r : EntryReader) (bytes : List UInt8) : Prop where
  left : bytes.length ≤ r.storedLeft
  full : bytes = [] → r.storedLeft = 0 ∨ r.chunk ≤ r.input.length
  served : ∀ content, c.Serves content → bytes = (content.drop r.position).take bytes.length

theorem fillInput_filled (c : Container ω) (r : EntryReader) (w : ω) : Ensures (fillInput c) (r, w)
    (fun read t => ∃ bytes, t.1 = r.queue bytes ∧ bytes.length = read ∧ Filled c r bytes)
    (fun x _ => ¬ x.OfEntry) := by
  apply (fillInput_spec c r w).mono
  · rintro read t ⟨bytes, hQueue, rfl, hLeft, hFull, hServed⟩
    exact ⟨bytes, hQueue, rfl, hLeft, fun hNone => hFull (by simp [hNone]), hServed⟩
  · exact fun x _ hx => hx

/-! ## A stored entry -/

/-- A reader that has copied `bytes`. -/
def take (r : EntryReader) (bytes : List UInt8) : EntryReader :=
  { r with
    position := r.position + bytes.length
    storedLeft := r.storedLeft - bytes.length
    output := bytes
    written := r.written + bytes.length }

structure Copied (c : Container ω) (r : EntryReader) (bytes : List UInt8) : Prop where
  length : bytes.length = min r.storedLeft r.chunk
  served : ∀ content, c.Serves content → bytes = (content.drop r.position).take bytes.length

theorem stepStored_spec (c : Container ω) (r : EntryReader) (w : ω) : Ensures (stepStored c) (r, w)
    (fun _ t => (r.storedLeft = 0 ∧ t.1 = { r with finished := true } ∧ r.written = r.expandedSize) ∨
      0 < r.storedLeft ∧ ∃ bytes, Copied c r bytes ∧ t.1 = r.take bytes ∧ (r.take bytes).written ≤ r.expandedSize)
    (fun x _ => x.OfEntry → (r.storedLeft = 0 ∧ r.written ≠ r.expandedSize) ∨
      ∃ bytes, Copied c r bytes ∧ r.expandedSize < (r.take bytes).written) := by
  simp only [stepStored, ensures_bind, ensures_reader, ensures_ite, ensures_update]
  refine ⟨fun hNone => ?_, fun hSome => ?_⟩
  · apply (finish_spec _ w).mono
    · rintro _ t ⟨rfl, hWritten⟩
      exact .inl ⟨hNone, rfl, hWritten⟩
    · rintro x t ⟨-, hWritten⟩ -
      exact .inl ⟨hNone, hWritten⟩
  · apply (readStored_spec c _ r w).mono
    · rintro bytes ⟨t, w'⟩ ⟨hLength, hServed, rfl⟩
      have hCopied : Copied c r bytes := ⟨hLength, by rwa [hLength]⟩
      apply (countWritten_spec _ _ w').mono
      · rintro _ t ⟨rfl, hWritten⟩
        refine .inr ⟨by omega, bytes, hCopied, ?_, ?_⟩
        · simp [take, hLength]
        · simpa [take, hLength] using hWritten
      · rintro x t (rfl | ⟨-, hWritten⟩) hBlame
        · cases hBlame
        · exact .inr ⟨bytes, hCopied, by simpa [take, hLength] using hWritten⟩
    · exact fun x _ hx hBlame => absurd hBlame hx

/-! ## An imploded entry -/

/-- What the decoder makes of the queue with `bytes` at its end. -/
def exploded (r : EntryReader) (bytes : List UInt8) : Explode.Decoded :=
  r.explode.decode (r.input ++ bytes) (r.storedLeft - bytes.length = 0) r.output r.chunk

def settle (r : EntryReader) (bytes : List UInt8) (progress : Progress) : EntryReader :=
  { r.queue bytes with
    explode := (r.exploded bytes).explode
    output := (r.exploded bytes).out
    input := (r.input ++ bytes).drop progress.consumed
    written := r.written + (r.exploded bytes).out.length
    finished := progress.finished }

structure Stepped (c : Container ω) (r : EntryReader) (bytes : List UInt8) (progress : Progress) : Prop where
  filled : Filled c r bytes
  result : (r.exploded bytes).result = .ok progress
  consumed : progress.consumed ≤ (r.input ++ bytes).length
  bounded : (r.settle bytes progress).written ≤ r.expandedSize
  ended : progress.finished = true → (r.settle bytes progress).written = r.expandedSize
  moved : progress.finished = false → progress.consumed = 0 → (r.exploded bytes).out = [] → bytes ≠ []

inductive Refused (c : Container ω) (r : EntryReader) (bytes : List UInt8) : IszError → Prop
  | decoder {x : IszError} (h : (r.exploded bytes).result = .error x) : Refused c r bytes x
  | consumed {x : IszError} {progress : Progress} (h : (r.exploded bytes).result = .ok progress)
      (hMore : (r.input ++ bytes).length < progress.consumed) : Refused c r bytes x
  | long {x : IszError} {progress : Progress} (h : (r.exploded bytes).result = .ok progress)
      (hLong : r.expandedSize < (r.settle bytes progress).written) : Refused c r bytes x
  | short {x : IszError} {progress : Progress} (h : (r.exploded bytes).result = .ok progress)
      (hFinished : progress.finished = true) (hShort : (r.settle bytes progress).written ≠ r.expandedSize) :
      Refused c r bytes x
  | stuck {x : IszError} {progress : Progress} (h : (r.exploded bytes).result = .ok progress)
      (hFinished : progress.finished = false) (hConsumed : progress.consumed = 0)
      (hOut : (r.exploded bytes).out = []) (hBytes : bytes = []) : Refused c r bytes x

theorem stepImploded_spec (c : Container ω) (r : EntryReader) (w : ω) (hRunning : r.finished = false) :
    Ensures (stepImploded c) (r, w)
      (fun _ t => ∃ bytes progress, Stepped c r bytes progress ∧ t.1 = r.settle bytes progress)
      (fun x _ => x.OfEntry → ∃ bytes, Filled c r bytes ∧ Refused c r bytes x) := by
  rw [stepImploded, ensures_bind]
  apply (fillInput_filled c r w).mono
  · rintro read ⟨t, w'⟩ ⟨bytes, rfl, rfl, hFilled⟩
    simp only [ensures_bind, ensures_reader, ensures_update, ensures_ofExcept, ensures_rejectIf]
    refine ⟨fun progress hResult => ⟨fun hMore _ => ?_, fun hConsumed => ?_⟩, fun x hResult _ => ?_⟩
    · exact ⟨bytes, hFilled, .consumed hResult hMore⟩
    · apply (countWritten_spec _ _ w').mono
      · rintro _ t ⟨rfl, hWritten⟩
        have hStepped (hEnded : progress.finished = true → (r.settle bytes progress).written = r.expandedSize)
            (hMoved : progress.finished = false → progress.consumed = 0 → (r.exploded bytes).out = [] → bytes ≠ []) :
            Stepped c r bytes progress :=
          ⟨hFilled, hResult, Nat.le_of_not_lt hConsumed, hWritten, hEnded, hMoved⟩
        rw [ensures_ite]
        refine ⟨fun hFinished => ?_, fun hFinished => ?_⟩
        · rw [ensures_bind, ensures_update]
          apply (finish_spec _ w').mono
          · rintro _ t ⟨rfl, hWhole⟩
            refine ⟨bytes, progress, hStepped (fun _ => hWhole) (by simp [hFinished]), ?_⟩
            simp only [settle, hFinished]
            rfl
          · rintro x t ⟨-, hShort⟩ -
            exact ⟨bytes, hFilled, .short hResult hFinished hShort⟩
        · rw [Bool.not_eq_true] at hFinished
          rw [ensures_rejectIf]
          refine ⟨fun hStill _ => ?_, fun hMoved => ?_⟩
          · obtain ⟨hZero, hOut, hRead⟩ := hStill
            exact ⟨bytes, hFilled, .stuck hResult hFinished hZero hOut (List.eq_nil_of_length_eq_zero hRead)⟩
          · refine ⟨bytes, progress, hStepped (by simp [hFinished]) fun _ hZero hOut hNone => ?_, ?_⟩
            · exact hMoved ⟨hZero, hOut, by rw [hNone]; rfl⟩
            · simp only [settle, hFinished, ← hRunning]
              rfl
      · rintro x t (rfl | ⟨-, hLong⟩) hBlame
        · cases hBlame
        · exact ⟨bytes, hFilled, .long hResult hLong⟩
    · exact ⟨bytes, hFilled, .decoder hResult⟩
  · exact fun x _ hx hBlame => absurd hBlame hx

def clear (r : EntryReader) : EntryReader := { r with output := [], outputPosition := 0 }

theorem ensures_step {Q : Unit → EntryReader × ω → Prop} {E : IszError → EntryReader × ω → Prop}
    (hStored : r.stored = true → Ensures (stepStored c) (r.clear, w) Q E)
    (hImploded : r.stored = false → Ensures (stepImploded c) (r.clear, w) Q E) : Ensures (step c) (r, w) Q E := by
  simp only [step, ensures_bind, ensures_update, ensures_reader, ensures_ite]
  exact ⟨hStored, fun h => hImploded (by simpa using h)⟩

end EntryReader

end OpenHalfLife.Isz
