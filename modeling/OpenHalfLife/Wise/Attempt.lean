import Mathlib.Logic.Relation
import OpenHalfLife.Wise.Chain

/-! # One attempt at a stream, whoever serves its reads

The readers that an attempt goes through depend on the image alone, not on the
source that serves it or on where a miss interrupts it. `Attempt` is the result;
the specifications of `read` and `finish` are over any source that answers a
read in full or fails with `sourceFailed`.
-/

namespace OpenHalfLife.Wise

open Machine

set_option autoImplicit false

variable {σ S : Type} {inflater : Transducer σ} {image : List UInt8}

namespace StreamReader

/-- The reader's counters agree with each other and with the image. -/
structure Valid (image : List UInt8) (r : StreamReader σ) : Prop where
  inputPos_le : r.inputPos ≤ r.input.length
  cursor_eq : r.start + r.consumed + (r.input.length - r.inputPos) = r.readCursor
  cursor_le : r.readCursor ≤ image.length
  consumed_le : r.consumed ≤ r.limits.maxCompressedBytesPerStream.toNat
  inflated_le : r.inflated ≤ r.limits.maxInflatedBytesPerStream.toNat

def filled (r : StreamReader σ) (bytes : List UInt8) : StreamReader σ :=
  { r with input := bytes, inputPos := 0, readCursor := r.readCursor + bytes.length }

inductive Step (inflater : Transducer σ) (image : List UInt8) : StreamReader σ → StreamReader σ → Prop
  | refill {r : StreamReader σ} : r.finished = false → r.inputPos = r.input.length →
    r.readCursor < image.length →
    Step inflater image r (r.filled ((image.drop r.readCursor).take r.limits.chunkBytes))
  | inflate {r r' : StreamReader σ} {written : Option (List UInt8)} : r.finished = false →
    r.inputPos ≠ r.input.length →
    (StreamReader.inflate inflater r.limits.chunkBytes).exec r = (.ok written, r') →
    Step inflater image r r'

abbrev Steps (inflater : Transducer σ) (image : List UInt8) : StreamReader σ → StreamReader σ → Prop :=
  Relation.ReflTransGen (Step inflater image)

inductive Verdict (inflater : Transducer σ) (image : List UInt8) :
    StreamReader σ → Except WiseError StreamMetrics → Prop
  | finished {r : StreamReader σ} : r.finished = true →
    Verdict inflater image r (.ok (r.metrics ((image.drop (r.start + r.consumed)).take 4)))
  | truncated {r : StreamReader σ} : r.finished = false → r.inputPos = r.input.length →
    image.length ≤ r.readCursor → Verdict inflater image r (.error .truncated)
  | failed {r r' : StreamReader σ} {e : WiseError} : r.finished = false →
    r.inputPos ≠ r.input.length →
    (StreamReader.inflate inflater r.limits.chunkBytes).exec r = (.error (.error e), r') →
    Verdict inflater image r (.error e)

def Attempt (inflater : Transducer σ) (image : List UInt8) (r : StreamReader σ)
    (result : Except WiseError StreamMetrics) : Prop :=
  ∃ r', Steps inflater image r r' ∧ Verdict inflater image r' result

theorem step_rightUnique : Relator.RightUnique (Step inflater image) := by
  intro r a b ha hb
  cases ha with
  | refill hFinished hEmpty hCursor =>
    cases hb with
    | refill => rfl
    | inflate _ hBuffered => exact absurd hEmpty hBuffered
  | inflate hFinished hBuffered hExec =>
    cases hb with
    | refill _ hEmpty => exact absurd hEmpty hBuffered
    | inflate _ _ hExec' => exact congrArg Prod.snd (hExec.symm.trans hExec')

theorem Verdict.not_step {r r' : StreamReader σ} {result : Except WiseError StreamMetrics}
    (h : Verdict inflater image r result) : ¬ Step inflater image r r' := by
  intro hStep
  cases h with
  | finished hFinished =>
    cases hStep with
    | refill hRunning => exact absurd (hFinished.symm.trans hRunning) (by decide)
    | inflate hRunning => exact absurd (hFinished.symm.trans hRunning) (by decide)
  | truncated _ hEmpty hCursor =>
    cases hStep with
    | refill _ _ hInside => omega
    | inflate _ hBuffered => exact hBuffered hEmpty
  | failed _ hBuffered hExec =>
    cases hStep with
    | refill _ hEmpty => exact hBuffered hEmpty
    | inflate _ _ hExec' => cases hExec.symm.trans hExec'

theorem Verdict.unique {r : StreamReader σ} {a b : Except WiseError StreamMetrics}
    (ha : Verdict inflater image r a) (hb : Verdict inflater image r b) : a = b := by
  cases ha with
  | finished hFinished =>
    cases hb with
    | finished => rfl
    | truncated hRunning => exact absurd (hFinished.symm.trans hRunning) (by decide)
    | failed hRunning => exact absurd (hFinished.symm.trans hRunning) (by decide)
  | truncated hRunning hEmpty =>
    cases hb with
    | finished hFinished => exact absurd (hFinished.symm.trans hRunning) (by decide)
    | truncated => rfl
    | failed _ hBuffered => exact absurd hEmpty hBuffered
  | failed hRunning hBuffered hExec =>
    cases hb with
    | finished hFinished => exact absurd (hFinished.symm.trans hRunning) (by decide)
    | truncated _ hEmpty => exact absurd hEmpty hBuffered
    | failed _ _ hExec' =>
      cases hExec.symm.trans hExec'
      rfl

theorem Steps.eq_of_verdict {r r' : StreamReader σ} {result : Except WiseError StreamMetrics}
    (h : Steps inflater image r r') (hVerdict : Verdict inflater image r result) : r = r' := by
  induction h using Relation.ReflTransGen.head_induction_on with
  | refl => rfl
  | head hStep _ _ => exact absurd hStep hVerdict.not_step

theorem Attempt.unique {r : StreamReader σ} {a b : Except WiseError StreamMetrics}
    (ha : Attempt inflater image r a) (hb : Attempt inflater image r b) : a = b := by
  obtain ⟨x, hx, hVerdictX⟩ := ha
  obtain ⟨y, hy, hVerdictY⟩ := hb
  rcases Relation.ReflTransGen.total_of_right_unique step_rightUnique hx hy with h | h
  · rw [Steps.eq_of_verdict h hVerdictX] at hVerdictX
    exact hVerdictX.unique hVerdictY
  · rw [Steps.eq_of_verdict h hVerdictY] at hVerdictY
    exact hVerdictX.unique hVerdictY

theorem Attempt.of_steps {r r' : StreamReader σ} {result : Except WiseError StreamMetrics}
    (h : Steps inflater image r r') (hAttempt : Attempt inflater image r' result) :
    Attempt inflater image r result := by
  obtain ⟨x, hx, hVerdict⟩ := hAttempt
  exact ⟨x, h.trans hx, hVerdict⟩

theorem Attempt.rest {r r' : StreamReader σ} {result : Except WiseError StreamMetrics}
    (hAttempt : Attempt inflater image r result) (h : Steps inflater image r r') :
    Attempt inflater image r' result := by
  obtain ⟨x, hx, hVerdict⟩ := hAttempt
  rcases Relation.ReflTransGen.total_of_right_unique step_rightUnique hx h with hBack | hOn
  · rw [Steps.eq_of_verdict hBack hVerdict] at hVerdict
    exact ⟨r', .refl, hVerdict⟩
  · exact ⟨x, hOn, hVerdict⟩

def ask (r : StreamReader σ) : Nat × Nat :=
  if r.finished = true then (r.start + r.consumed, 4) else (r.readCursor, r.limits.chunkBytes)

end StreamReader

/-- A source that answers a read of `room` bytes in full, or misses. -/
def Answers [ImageSource S] (image : List UInt8) (I : S → Prop) (Miss : Nat × Nat → S → Prop)
    (room : Nat) : Prop :=
  ∀ offset source, I source → Ensures (ImageSource.readAt offset room) source
    (fun bytes t => I t ∧ bytes = (image.drop offset).take room)
    fun e t => e = .error .sourceFailed ∧ Miss (offset, room) t

namespace StreamReader

/-- How a call on the reader stops short: at a miss that leaves it on its way, or with the
result of its attempt. -/
def Interrupted (inflater : Transducer σ) (image : List UInt8) (Miss : Nat × Nat → S → Prop)
    (r : StreamReader σ) (e : Stop WiseError) (s : StreamReader σ × S) : Prop :=
  (e = .error .sourceFailed ∧ Steps inflater image r s.1 ∧ Miss s.1.ask s.2) ∨
    ∃ error, e = .error error ∧ error ≠ .sourceFailed ∧ Attempt inflater image r (.error error)

theorem Interrupted.of_steps {Miss : Nat × Nat → S → Prop} {r r' : StreamReader σ} {e : Stop WiseError}
    {s : StreamReader σ × S} (h : Interrupted inflater image Miss r' e s)
    (hSteps : Steps inflater image r r') : Interrupted inflater image Miss r e s := by
  rcases h with ⟨hError, hRest, hMiss⟩ | ⟨error, hError, hFinal, hAttempt⟩
  · exact .inl ⟨hError, hSteps.trans hRest, hMiss⟩
  · exact .inr ⟨error, hError, hFinal, hAttempt.of_steps hSteps⟩

/-- How far one call of raw inflate gets: another turn has taken input, and what is
returned has been counted. -/
structure Inflated (image : List UInt8) (r : StreamReader σ) (written : Option (List UInt8))
    (r' : StreamReader σ) : Prop where
  valid : r'.Valid image
  limits : r'.limits = r.limits
  start : r'.start = r.start
  readCursor : r'.readCursor = r.readCursor
  again : written = none → r.consumed < r'.consumed ∧ r'.inflated = r.inflated ∧ r'.finished = false
  counted : ∀ bytes, written = some bytes →
    r'.inflated = r.inflated + bytes.length ∧ (bytes = [] → r'.finished = true)

theorem settle_ensures {r : StreamReader σ} {piece : Transducer.Piece σ} {Q : Option (List UInt8) →
    StreamReader σ → Prop} (hProgress : piece.status = .paused → piece.given ≠ [] ∨ piece.taken ≠ 0)
    (hFinished : piece.status = .finished → Q (some piece.given) { r with finished := true })
    (hGiven : piece.given ≠ [] → Q (some piece.given) r)
    (hTaken : piece.given = [] → piece.taken ≠ 0 → Q none { r with stalled := false }) :
    Ensures (settle piece) r Q fun e _ => e = .error .decompressionFailed := by
  unfold settle
  split
  · exact hFinished ‹_›
  · rfl
  · rename_i hPaused
    rw [ensures_ite]
    refine ⟨fun hNonempty => hGiven hNonempty, fun hEmpty => ?_⟩
    rw [ensures_ite]
    have hNil : piece.given = [] := not_not.mp hEmpty
    refine ⟨fun hNothing => ?_, fun hSome => hTaken hNil hSome⟩
    rcases hProgress hPaused with h | h
    · exact absurd hNil h
    · exact absurd hNothing h

theorem inflate_ensures {r : StreamReader σ} (hImage : image.length < 2 ^ 63) (hValid : r.Valid image)
    (hFinished : r.finished = false) (hBuffered : r.inputPos ≠ r.input.length) :
    Ensures (inflate inflater r.limits.chunkBytes) r (Inflated image r)
      fun e _ => ∃ error, e = .error error ∧ error ≠ .sourceFailed := by
  have hPos := hValid.inputPos_le
  have hCursor := hValid.cursor_eq
  have hCursorLe := hValid.cursor_le
  have hChunk := r.limits.chunkBytes_pos
  rw [inflate, ensures_bind, ensures_get]
  generalize hPiece : inflater.run r.state (r.input.drop r.inputPos) r.limits.chunkBytes = piece
  have hInput : r.input.drop r.inputPos ≠ [] := by
    rw [ne_eq, List.drop_eq_nil_iff]
    omega
  have hTaken : piece.taken ≤ r.input.length - r.inputPos := by
    have h := Transducer.run_taken_le inflater r.state (r.input.drop r.inputPos) r.limits.chunkBytes
    rwa [hPiece, List.length_drop] at h
  have hProgress : piece.status = .paused → piece.given ≠ [] ∨ piece.taken ≠ 0 := by
    intro hPaused
    have h := Transducer.run_progress (t := inflater) (s := r.state) hInput hChunk (by rwa [hPiece])
    rw [hPiece] at h
    rcases h with h | h
    · exact .inr (by omega)
    · exact .inl (List.ne_nil_of_length_pos h)
  have hBounded : ¬ r.consumed + piece.taken ≥ 2 ^ 64 := by omega
  rw [ensures_bind, ensures_rejectIf]
  refine ⟨fun _ => ⟨_, rfl, by decide⟩, fun _ => ?_⟩
  rw [ensures_bind, ensures_set, checkedAddBounded, if_neg hBounded, ensures_bind, ensures_pure,
    ensures_bind, ensures_modify, ensures_bind, ensures_rejectIf]
  refine ⟨fun _ => ⟨_, rfl, by decide⟩, fun hCompressed => ?_⟩
  rw [ensures_bind, ensures_rejectIf]
  refine ⟨fun _ => ⟨_, rfl, by decide⟩, fun _ => ?_⟩
  rw [ensures_bind, checkedAddBounded, ensures_ite]
  refine ⟨fun _ => ⟨_, rfl, by decide⟩, fun _ => ?_⟩
  rw [ensures_pure, ensures_bind, ensures_modify, ensures_bind, ensures_rejectIf]
  refine ⟨fun _ => ⟨_, rfl, by decide⟩, fun hInflated => ?_⟩
  rw [ensures_bind, ensures_modify]
  have hAfter (r' : StreamReader σ) (hInput : r'.input = r.input)
      (hInputPos : r'.inputPos = r.inputPos + piece.taken) (hStart : r'.start = r.start)
      (hConsumed : r'.consumed = r.consumed + piece.taken) (hReadCursor : r'.readCursor = r.readCursor)
      (hGiven : r'.inflated = r.inflated + piece.given.length) (hLimits : r'.limits = r.limits) :
      r'.Valid image := by
    refine ⟨?_, ?_, hReadCursor ▸ hCursorLe, ?_, ?_⟩
    · rw [hInput, hInputPos]
      omega
    · rw [hStart, hConsumed, hInput, hInputPos, hReadCursor]
      omega
    · rw [hConsumed, hLimits]
      exact Nat.le_of_not_lt hCompressed
    · rw [hGiven, hLimits]
      exact Nat.le_of_not_lt hInflated
  refine (settle_ensures hProgress ?_ ?_ ?_).mono (fun _ _ h => h) fun e _ h => ⟨_, h, by decide⟩
  · intro _
    refine ⟨hAfter _ rfl rfl rfl rfl rfl rfl rfl, rfl, rfl, rfl, (fun hNone => nomatch hNone), ?_⟩
    rintro bytes ⟨⟩
    exact ⟨rfl, fun _ => rfl⟩
  · intro hNonempty
    refine ⟨hAfter _ rfl rfl rfl rfl rfl rfl rfl, rfl, rfl, rfl, (fun hNone => nomatch hNone), ?_⟩
    rintro bytes ⟨⟩
    exact ⟨rfl, fun hEmpty => absurd hEmpty hNonempty⟩
  · intro hEmpty hSome
    refine ⟨hAfter _ rfl rfl rfl rfl rfl rfl rfl, rfl, rfl, rfl, fun _ => ⟨?_, ?_, hFinished⟩,
      fun _ hNone => nomatch hNone⟩
    · change r.consumed < r.consumed + piece.taken
      omega
    · change r.inflated + piece.given.length = r.inflated
      rw [hEmpty, List.length_nil, Nat.add_zero]

/-- What no step of an attempt changes, and what only grows. -/
structure Kept (image : List UInt8) (r r' : StreamReader σ) : Prop where
  valid : r'.Valid image
  limits : r'.limits = r.limits
  start : r'.start = r.start
  cursor_le : r.readCursor ≤ r'.readCursor

theorem Step.kept {r r' : StreamReader σ} (h : Step inflater image r r') (hImage : image.length < 2 ^ 63)
    (hValid : r.Valid image) : Kept image r r' := by
  have hCursor := hValid.cursor_eq
  cases h with
  | refill hFinished hEmpty hInside =>
    refine ⟨⟨Nat.zero_le _, ?_, ?_, hValid.consumed_le, hValid.inflated_le⟩, rfl, rfl, Nat.le_add_right _ _⟩
    · simp only [filled]
      omega
    · simp only [filled, List.length_take, List.length_drop]
      omega
  | inflate hFinished hBuffered hExec =>
    have hInflated := (inflate_ensures hImage hValid hFinished hBuffered).of_ok hExec
    exact ⟨hInflated.valid, hInflated.limits, hInflated.start, Nat.le_of_eq hInflated.readCursor.symm⟩

theorem Steps.kept {r r' : StreamReader σ} (h : Steps inflater image r r') (hImage : image.length < 2 ^ 63)
    (hValid : r.Valid image) : Kept image r r' := by
  induction h with
  | refl => exact ⟨hValid, rfl, rfl, Nat.le_refl _⟩
  | tail _ hStep ih =>
    have hNext := hStep.kept hImage ih.valid
    exact ⟨hNext.valid, hNext.limits.trans ih.limits, hNext.start.trans ih.start,
      Nat.le_trans ih.cursor_le hNext.cursor_le⟩

section Limits

/-! No call changes the limits of a reader. -/

variable {limits : Limits}

theorem preserves_limits_inflate (room : Nat) :
    Preserves (fun r : StreamReader σ => r.limits = limits) (inflate inflater room) := by
  have hStall : Preserves (fun r : StreamReader σ => r.limits = limits) stall := by
    rintro r rfl
    rw [stall, ensures_bind, ensures_get, ensures_bind, ensures_rejectIf]
    exact ⟨fun _ => rfl, fun _ => rfl⟩
  have hSettle (piece : Transducer.Piece σ) :
      Preserves (fun r : StreamReader σ => r.limits = limits) (settle piece) := by
    unfold settle
    split
    · refine Preserves.bind (preserves_modify ?_) fun _ => preserves_pure _
      exact fun _ h => h
    · exact preserves_throw _
    · apply (preserves_pure _).ite
      apply Preserves.ite
      · exact hStall.bind fun _ => preserves_pure _
      · refine Preserves.bind (preserves_modify ?_) fun _ => preserves_pure _
        exact fun _ h => h
  rintro r rfl
  rw [inflate, ensures_bind, ensures_get, ensures_bind, ensures_rejectIf]
  refine ⟨fun _ => rfl, fun _ => ?_⟩
  rw [ensures_bind, ensures_set]
  refine Preserves.bind (preserves_checkedAddBounded _ _) (fun consumed => ?_) _ rfl
  refine Preserves.bind (preserves_modify ?_) fun _ => ?_
  · exact fun _ h => h
  refine Preserves.bind (preserves_rejectIf _ _) fun _ => ?_
  refine Preserves.bind (preserves_rejectIf _ _) fun _ => ?_
  refine Preserves.bind (preserves_checkedAddBounded _ _) fun inflated => ?_
  refine Preserves.bind (preserves_modify ?_) fun _ => ?_
  · exact fun _ h => h
  refine Preserves.bind (preserves_rejectIf _ _) fun _ => ?_
  refine Preserves.bind (preserves_modify ?_) fun _ => ?_
  · exact fun _ h => h
  exact hSettle _

theorem preserves_limits_source (m : Machine (Stop WiseError) S (List UInt8)) :
    Preserves (fun s : StreamReader σ × S => s.1.limits = limits) (onSource m) :=
  (preserves_true m).zoom (fun _ _ => trivial) fun _ _ h _ => h

theorem preserves_limits_reader {β : Type} {m : Machine (Stop WiseError) (StreamReader σ) β}
    (h : Preserves (fun r => r.limits = limits) m) :
    Preserves (fun s : StreamReader σ × S => s.1.limits = limits) (onReader m) :=
  h.zoom (fun _ hs => hs) fun _ _ _ ht => ht

variable [ImageSource S]

theorem preserves_limits_read (room : Nat) :
    Preserves (fun s : StreamReader σ × S => s.1.limits = limits) (StreamReader.read inflater room) := by
  have hRefill : Preserves (fun s : StreamReader σ × S => s.1.limits = limits) refill := by
    apply preserves_get.bind
    rintro ⟨reader, _⟩
    apply (preserves_limits_source _).bind
    intro bytes
    refine Preserves.bind (preserves_limits_reader (preserves_modify ?_)) fun _ => ?_
    · exact fun _ h => h
    apply (preserves_pure _).ite
    apply (preserves_checkedAddBounded _ _).bind
    intro cursor
    refine Preserves.bind (preserves_limits_reader (preserves_modify ?_)) fun _ => preserves_pure _
    exact fun _ h => h
  apply preserves_get.bind
  rintro ⟨reader, _⟩
  apply (preserves_pure _).ite
  apply Preserves.loop
  refine Preserves.bind ?_ fun _ => preserves_limits_reader (preserves_limits_inflate room)
  apply preserves_get.bind
  rintro ⟨reader, _⟩
  exact (hRefill.bind fun _ => preserves_rejectIf _ _).ite (preserves_pure _)

theorem preserves_limits_finish :
    Preserves (fun s : StreamReader σ × S => s.1.limits = limits) StreamReader.finish := by
  apply preserves_get.bind
  rintro ⟨reader, _⟩
  apply (preserves_rejectIf _ _).bind
  intro _
  apply (preserves_checkedAddBounded _ _).bind
  intro trailerAt
  exact (preserves_limits_source _).bind fun _ => preserves_pure _

end Limits

section Specs

variable [ImageSource S] {I : S → Prop} {Miss : Nat × Nat → S → Prop} {r : StreamReader σ} {source : S}

/-- `fetch` leaves input to inflate. -/
theorem fetch_ensures (hChunk : Answers image I Miss r.limits.chunkBytes) (hImage : image.length < 2 ^ 63)
    (hI : I source) (hValid : r.Valid image) (hFinished : r.finished = false) :
    Ensures fetch (r, source)
      (fun _ s => I s.2 ∧ Steps inflater image r s.1 ∧ s.1.inputPos ≠ s.1.input.length ∧
        s.1.finished = false ∧ s.1.consumed = r.consumed ∧ s.1.inflated = r.inflated)
      (Interrupted inflater image Miss r) := by
  rw [fetch, ensures_bind, ensures_get, ensures_ite]
  refine ⟨fun hEmpty => ?_, fun hBuffered => ?_⟩
  · have hCursor := hValid.cursor_eq
    have hCursorLe := hValid.cursor_le
    rw [ensures_bind, refill, ensures_bind, ensures_get, ensures_bind, onSource, ensures_zoom]
    apply (hChunk r.readCursor source hI).mono
    · rintro bytes t ⟨hI, hBytes⟩
      have hLength : bytes.length = min r.limits.chunkBytes (image.length - r.readCursor) := by
        rw [hBytes, List.length_take, List.length_drop]
      have hPos := r.limits.chunkBytes_pos
      rw [ensures_bind, onReader, ensures_zoom, ensures_modify, ensures_ite]
      refine ⟨fun hNone => ?_, fun hSome => ?_⟩
      · rw [ensures_pure, ensures_rejectIf]
        refine ⟨fun _ => .inr ⟨.truncated, rfl, by decide, r, .refl, .truncated hFinished hEmpty ?_⟩,
          fun hMore => absurd rfl hMore⟩
        rw [hNone, List.length_nil] at hLength
        omega
      · have hInside : bytes.length ≠ 0 := fun hZero => hSome (List.eq_nil_of_length_eq_zero hZero)
        have hFits : ¬ r.readCursor + bytes.length ≥ 2 ^ 64 := by omega
        have hStep : Step inflater image r (r.filled bytes) := by
          rw [hBytes]
          exact .refill hFinished hEmpty (by omega)
        rw [checkedAddBounded, if_neg hFits, ensures_bind, ensures_pure, ensures_bind, onReader,
          ensures_zoom, ensures_modify, ensures_pure, ensures_rejectIf]
        refine ⟨fun hMore => (by cases hMore), fun _ => ⟨hI, .single hStep, ?_, hFinished, rfl, rfl⟩⟩
        exact fun hZero => hInside hZero.symm
    · rintro e t ⟨hError, hMiss⟩
      refine .inl ⟨hError, .refl, ?_⟩
      rw [ask, if_neg (by simp [hFinished])]
      exact hMiss
  · exact ⟨hI, .refl, hBuffered, hFinished, rfl, rfl⟩

variable (inflater) (Miss) in
/-- One turn of `read`: input is fetched and inflated once. -/
theorem readTurn_ensures (hChunk : Answers image I Miss r.limits.chunkBytes) (hImage : image.length < 2 ^ 63)
    (hI : I source) (hValid : r.Valid image) (hFinished : r.finished = false) :
    Ensures (readTurn inflater r.limits.chunkBytes) (r, source)
      (fun written s => I s.2 ∧ Steps inflater image r s.1 ∧
        (written = none → r.consumed < s.1.consumed ∧ s.1.inflated = r.inflated ∧ s.1.finished = false) ∧
        ∀ bytes, written = some bytes →
          s.1.inflated = r.inflated + bytes.length ∧ (bytes = [] → s.1.finished = true))
      (Interrupted inflater image Miss r) := by
  rw [readTurn, ensures_bind]
  refine (fetch_ensures hChunk hImage hI hValid hFinished).mono ?_ fun _ _ h => h
  rintro _ ⟨r₁, t⟩ ⟨hI, hSteps, hBuffered, hRunning, hConsumed, hInflated⟩
  have hKept := hSteps.kept hImage hValid
  have hLimits : r₁.limits.chunkBytes = r.limits.chunkBytes := congrArg _ hKept.limits
  rw [onReader, ensures_zoom, ← hLimits]
  apply (inflate_ensures hImage hKept.valid hRunning hBuffered).exec.mono
  · rintro written r₂ ⟨hExec, h⟩
    refine ⟨hI, hSteps.tail (.inflate hRunning hBuffered hExec), ?_, ?_⟩
    · intro hNone
      obtain ⟨hMore, hSame, hStill⟩ := h.again hNone
      exact ⟨hConsumed ▸ hMore, hSame.trans hInflated, hStill⟩
    · intro bytes hSome
      obtain ⟨hCount, hEnd⟩ := h.counted bytes hSome
      exact ⟨hInflated ▸ hCount, hEnd⟩
  · rintro e r₂ ⟨hExec, error, rfl, hFinal⟩
    exact .inr ⟨error, rfl, hFinal, r₁, hSteps, .failed hRunning hBuffered hExec⟩

variable (inflater) in
/-- `read` returns bytes, or none at the end of the stream. -/
theorem read_ensures (hChunk : Answers image I Miss r.limits.chunkBytes) (hImage : image.length < 2 ^ 63)
    (hI : I source) (hValid : r.Valid image) (hFinished : r.finished = false) :
    Ensures (StreamReader.read inflater r.limits.chunkBytes) (r, source)
      (fun bytes s => I s.2 ∧ Steps inflater image r s.1 ∧ s.1.inflated = r.inflated + bytes.length ∧
        (bytes = [] → s.1.finished = true))
      (Interrupted inflater image Miss r) := by
  have hPos := r.limits.chunkBytes_pos
  have hMax := r.limits.maxCompressedBytesPerStream.toNat_lt
  rw [StreamReader.read, ensures_bind, ensures_get]
  simp only [hFinished, Bool.false_eq_true, false_or, if_neg (Nat.ne_of_gt hPos)]
  refine ensures_loop
    (fun s : StreamReader σ × S => I s.2 ∧ Steps inflater image r s.1 ∧ s.1.finished = false ∧
      s.1.inflated = r.inflated)
    (fun s => 2 ^ 64 - s.1.consumed) ?_ readTurns (r, source) ⟨hI, .refl, hFinished, rfl⟩ ?_
  · rintro ⟨r₁, t⟩ ⟨hI, hSteps, hRunning, hInflated⟩
    have hKept := hSteps.kept hImage hValid
    have hLimits : r₁.limits.chunkBytes = r.limits.chunkBytes := congrArg _ hKept.limits
    have hTurn := readTurn_ensures inflater Miss (hLimits ▸ hChunk) hImage hI hKept.valid hRunning
    rw [hLimits] at hTurn
    apply hTurn.mono
    · rintro written ⟨r₂, t₂⟩ ⟨hI₂, hSteps₂, hAgain, hCounted⟩
      have hKept₂ := hSteps₂.kept hImage hKept.valid
      cases written with
      | none =>
        obtain ⟨hMore, hSame, hStill⟩ := hAgain rfl
        refine ⟨⟨hI₂, hSteps.trans hSteps₂, hStill, hSame.trans hInflated⟩, ?_⟩
        have hBound := hKept₂.valid.consumed_le
        rw [hKept₂.limits, hKept.limits] at hBound
        simp only at hBound hMore ⊢
        omega
      | some bytes =>
        obtain ⟨hCount, hEnd⟩ := hCounted bytes rfl
        exact ⟨hI₂, hSteps.trans hSteps₂, hInflated ▸ hCount, hEnd⟩
    · exact fun _ _ h => h.of_steps hSteps
  · exact Nat.lt_of_le_of_lt (Nat.sub_le _ _) (by decide)

variable (inflater) in
/-- `finish` reads the trailer of a finished reader. -/
theorem finish_ensures (hTrailer : Answers image I Miss 4) (hImage : image.length < 2 ^ 63)
    (hI : I source) (hValid : r.Valid image) (hFinished : r.finished = true) :
    Ensures StreamReader.finish (r, source)
      (fun metrics s => I s.2 ∧ Verdict inflater image r (.ok metrics))
      (Interrupted inflater image Miss r) := by
  have hCursor := hValid.cursor_eq
  have hCursorLe := hValid.cursor_le
  have hFits : ¬ r.start + r.consumed ≥ 2 ^ 64 := by omega
  rw [StreamReader.finish, ensures_bind, ensures_get, ensures_bind, ensures_rejectIf]
  refine ⟨fun hRunning => absurd (hFinished.symm.trans hRunning) (by decide), fun _ => ?_⟩
  rw [checkedAddBounded, if_neg hFits, ensures_bind, ensures_pure, ensures_bind, onSource, ensures_zoom]
  apply (hTrailer (r.start + r.consumed) source hI).mono
  · rintro bytes t ⟨hI, rfl⟩
    exact ⟨hI, .finished hFinished⟩
  · rintro e t ⟨hError, hMiss⟩
    refine .inl ⟨hError, .refl, ?_⟩
    rw [ask, if_pos hFinished]
    exact hMiss

end Specs

theorem new_valid {limits : Limits} {offset : Nat} (hOffset : offset ≤ image.length) :
    (StreamReader.new inflater offset limits).Valid image :=
  ⟨Nat.le_refl _, rfl, hOffset, Nat.zero_le _, Nat.zero_le _⟩

end StreamReader

open StreamReader

theorem slice_answers (room : Nat) :
    Answers image (fun source : SliceSource => source = ⟨image⟩) (fun _ _ => False) room := by
  rintro offset source rfl
  exact ⟨rfl, rfl⟩

theorem inflateLoop_ensures {limits : Limits} {offset : Nat} (hImage : image.length < 2 ^ 63)
    (hOffset : offset ≤ image.length) :
    Ensures (loop (inflateStreamTurn inflater limits) streamTurns)
      (StreamReader.new inflater offset limits, SliceSource.mk image)
      (fun _ s => s.2 = ⟨image⟩ ∧ s.1.finished = true ∧
        Steps inflater image (.new inflater offset limits) s.1)
      fun e _ => ∃ error, e = .error error ∧ error ≠ .sourceFailed ∧
        Attempt inflater image (.new inflater offset limits) (.error error) := by
  have hNew : (StreamReader.new inflater offset limits).Valid image := new_valid hOffset
  have hMax := limits.maxInflatedBytesPerStream.toNat_lt
  refine ensures_loop
    (fun s : StreamReader σ × SliceSource => s.2 = ⟨image⟩ ∧
      Steps inflater image (.new inflater offset limits) s.1 ∧ s.1.finished = false)
    (fun s => 2 ^ 64 - s.1.inflated) ?_ streamTurns _ ⟨rfl, .refl, rfl⟩ ?_
  · rintro ⟨r, source⟩ ⟨hSource, hSteps, hRunning⟩
    have hKept := hSteps.kept hImage hNew
    have hLimits : r.limits = limits := hKept.limits
    have hRead := read_ensures inflater (slice_answers _) hImage hSource hKept.valid hRunning
    rw [hLimits] at hRead
    rw [inflateStreamTurn, ensures_bind]
    apply hRead.mono
    · rintro bytes ⟨r', source'⟩ ⟨hSource', hSteps', hInflated, hEnd⟩
      have hKept' := hSteps'.kept hImage hKept.valid
      rw [ensures_bind, ensures_get, ensures_ite]
      refine ⟨fun hFinished => ⟨hSource', hFinished, hSteps.trans hSteps'⟩, fun hStill => ?_⟩
      rw [ensures_ite]
      refine ⟨fun hEmpty => absurd (hEnd hEmpty) hStill, fun hNonempty => ?_⟩
      refine ⟨⟨hSource', hSteps.trans hSteps', Bool.eq_false_iff.mpr hStill⟩, ?_⟩
      have hBound := hKept'.valid.inflated_le
      have hLength := List.length_pos_of_ne_nil hNonempty
      rw [hKept'.limits, hLimits] at hBound
      simp only at hBound hInflated ⊢
      omega
    · rintro e s h
      rcases h.of_steps hSteps with ⟨-, -, hMiss⟩ | hError
      · cases hMiss
      · exact hError
  · exact Nat.lt_of_le_of_lt (Nat.sub_le _ _) (by decide)

variable (inflater) in
theorem preserves_inflateLoop (limits : Limits) :
    Preserves (fun s : StreamReader σ × SliceSource => s.2 = ⟨image⟩) (do
      loop (inflateStreamTurn inflater limits) streamTurns
      StreamReader.finish) := by
  have hRead (offset room : Nat) : Preserves (fun source : SliceSource => source = ⟨image⟩)
      (ImageSource.readAt offset room) := fun _ h => h
  refine Preserves.bind (Preserves.loop ?_ _) fun _ => preserves_finish hRead
  apply (preserves_read hRead inflater limits.chunkBytes).bind
  intro bytes
  apply preserves_get.bind
  rintro ⟨r, _⟩
  exact (preserves_pure _).ite ((preserves_pure _).ite (preserves_pure _))

variable (inflater) in
theorem inflateStream_exec (limits : Limits) {offset : Nat} (hImage : image.length < 2 ^ 63)
    (hOffset : offset ≤ image.length) :
    ∃ result : Except WiseError StreamMetrics,
      (inflateStream inflater offset limits).exec (SliceSource.mk image) =
        (result.mapError .error, ⟨image⟩) ∧
      Attempt inflater image (.new inflater offset limits) result ∧ result ≠ .error .sourceFailed := by
  have hNew : (StreamReader.new inflater offset limits).Valid image := new_valid hOffset
  have hRun : Ensures (do
      loop (inflateStreamTurn inflater limits) streamTurns
      StreamReader.finish) (StreamReader.new inflater offset limits, SliceSource.mk image)
      (fun metrics _ => Attempt inflater image (.new inflater offset limits) (.ok metrics))
      fun e _ => ∃ error, e = .error error ∧ error ≠ .sourceFailed ∧
        Attempt inflater image (.new inflater offset limits) (.error error) := by
    rw [ensures_bind]
    refine (inflateLoop_ensures hImage hOffset).mono ?_ fun _ _ h => h
    rintro _ ⟨r, source⟩ ⟨hSource, hFinished, hSteps⟩
    have hValid := (hSteps.kept hImage hNew).valid
    apply (finish_ensures inflater (slice_answers 4) hImage hSource hValid hFinished).mono
    · exact fun metrics _ h => ⟨r, hSteps, h.2⟩
    · rintro e s h
      rcases h.of_steps hSteps with ⟨-, -, hMiss⟩ | hError
      · cases hMiss
      · exact hError
  have hSlice := preserves_inflateLoop inflater limits
    (StreamReader.new inflater offset limits, SliceSource.mk image) rfl
  rw [inflateStream, withReader, exec_ofFun]
  unfold Ensures at hRun hSlice
  rcases hExec : exec (do
      loop (inflateStreamTurn inflater limits) streamTurns
      StreamReader.finish) (StreamReader.new inflater offset limits, SliceSource.mk image) with
    ⟨e | metrics, s⟩
  · rw [hExec] at hRun hSlice
    obtain ⟨error, rfl, hFinal, hAttempt⟩ := hRun
    exact ⟨.error error, Prod.ext rfl hSlice, hAttempt, fun h => hFinal (Except.error.inj h)⟩
  · rw [hExec] at hRun hSlice
    exact ⟨.ok metrics, Prod.ext rfl hSlice, hRun, fun h => nomatch h⟩

end OpenHalfLife.Wise
