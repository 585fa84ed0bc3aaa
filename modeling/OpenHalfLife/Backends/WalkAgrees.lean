import OpenHalfLife.Backends.WiseWalk
import OpenHalfLife.Wise.Attempt
import OpenHalfLife.Wise.Resolution

/-! # An attempt through the window

A window that holds the source's own bytes answers a read in full or misses it;
once the miss is answered the same attempt goes on from where it stopped.
-/

namespace OpenHalfLife.Backends

open Machine Wise StreamReader

set_option autoImplicit false

variable {σ : Type} {inflater : Transducer σ} {image : List UInt8}

namespace WindowSource

/-- The window holds source bytes, may move, and is wide enough for a whole read of `room` bytes. -/
structure Loaded (image : List UInt8) (window : WindowSource) : Prop where
  size_eq : window.sourceSize = image.length
  unpinned : window.pinned = false
  buffered : window.buffered <+: image.drop window.base
  length_le : window.buffered.length ≤ window.capacity

/-- `w` holds the same bytes at the same place, and may have a read armed. -/
structure SameBytes (image : List UInt8) (window w : WindowSource) : Prop where
  loaded : w.Loaded image
  base : w.base = window.base
  buffered : w.buffered = window.buffered
  capacity : w.capacity = window.capacity

/-- Every byte of the source that the read wants is in the window. -/
def Covers (image : List UInt8) (window : WindowSource) (ask : Nat × Nat) : Prop :=
  window.base ≤ ask.1 ∧
    ask.1 + min ask.2 (image.length - ask.1) ≤ window.base + window.buffered.length

instance (window : WindowSource) (ask : Nat × Nat) : Decidable (window.Covers image ask) :=
  inferInstanceAs (Decidable (_ ∧ _))

/-- A miss: the window is as before, and a whole window at the wanted offset is armed. -/
structure Missed (image : List UInt8) (window : WindowSource) (ask : Nat × Nat) (w : WindowSource) :
    Prop where
  same : SameBytes image window w
  inside : ask.1 < image.length
  armed : w.pending = some ⟨ask.1, clampU32 (min window.capacity (image.length - ask.1))⟩
  uncovered : ¬ window.Covers image ask

theorem Loaded.held_eq {window : WindowSource} (h : window.Loaded image) {offset : Nat}
    (hBase : window.base ≤ offset) :
    window.held offset <+: image.drop offset := by
  rw [held, if_pos hBase]
  obtain ⟨rest, hRest⟩ := h.buffered
  have hDrop := congrArg (List.drop (offset - window.base)) hRest
  rw [List.drop_drop, Nat.add_sub_cancel' hBase] at hDrop
  rw [← hDrop, List.drop_append]
  exact List.prefix_append _ _

theorem answers {window : WindowSource} {room : Nat} (hRoom : min room image.length ≤ window.capacity) :
    Answers image (SameBytes image window) (Missed image window) room := by
  intro offset w h
  have hLoaded := h.loaded
  have hSize := hLoaded.size_eq
  have hLength := hLoaded.length_le
  have hCapacity := h.capacity
  change Ensures (WindowSource.read offset room) w _ _
  rw [WindowSource.read, ensures_bind, ensures_get]
  simp only
  rw [ensures_ite]
  refine ⟨fun hNothing => ⟨h, ?_⟩, fun hSome => ?_⟩
  · rcases hNothing with rfl | hEnd
    · rfl
    · rw [List.drop_eq_nil_of_le (by omega), List.take_nil]
  have hHeld : (w.held offset).length =
      if w.base ≤ offset then w.buffered.length - (offset - w.base) else 0 := by
    unfold held
    split
    · exact List.length_drop
    · rfl
  rw [ensures_ite]
  refine ⟨fun hMiss => ?_, fun hServed => ?_⟩
  · rw [ensures_bind, miss, ensures_bind, ensures_get, ensures_bind,
      ensures_assertOrPanic hLoaded.unpinned, ensures_modify, ensures_throw]
    refine ⟨rfl, ⟨?_, h.base, h.buffered, h.capacity⟩, by simp only; omega, ?_, ?_⟩
    · exact ⟨hLoaded.size_eq, hLoaded.unpinned, hLoaded.buffered, hLoaded.length_le⟩
    · rw [arm, hCapacity, hSize]
    · rintro ⟨hBase, hCovered⟩
      have hBase' := h.base
      have hBuffered := congrArg List.length h.buffered
      simp only at hBase hCovered
      rw [if_pos (by omega)] at hHeld
      omega
  · have hTaken : min room (w.sourceSize - offset) ≤ (w.held offset).length ∧
        0 < (w.held offset).length := by
      simp only [hLoaded.unpinned, and_true] at hServed
      omega
    have hBase : w.base ≤ offset := by
      by_contra hBefore
      rw [if_neg hBefore] at hHeld
      omega
    rw [if_pos hBase] at hHeld
    obtain ⟨rest, hRest⟩ := hLoaded.held_eq hBase
    rw [Nat.min_eq_right hTaken.1, copyOut, ensures_bind, ensures_get, ensures_bind,
      ensures_assertOrPanic (by omega), ensures_pure]
    refine ⟨h, ?_⟩
    have hRoomEq : (image.drop offset).take room =
        (image.drop offset).take (min room (w.sourceSize - offset)) := by
      rw [List.take_eq_take_iff, List.length_drop, hSize]
      omega
    rw [hRoomEq, ← hRest, List.take_append_of_le_length hTaken.1]

variable (image) in
theorem preserves_sameBytes_read (window : WindowSource) (offset room : Nat) :
    Preserves (SameBytes image window) (WindowSource.read offset room) := by
  intro w h
  have hArmed : SameBytes image window (w.arm offset) :=
    ⟨⟨h.loaded.size_eq, h.loaded.unpinned, h.loaded.buffered, h.loaded.length_le⟩, h.base, h.buffered,
      h.capacity⟩
  simp only [WindowSource.read, copyOut, miss, ensures_bind, ensures_get, ensures_ite, ensures_pure,
    ensures_modify, assertOrPanic, ensures_throw]
  exact ⟨fun _ => h, fun _ => ⟨fun _ => ⟨fun _ => hArmed, fun _ => h⟩, fun _ => ⟨fun _ => h, fun _ => h⟩⟩⟩

theorem Missed.answer {window w : WindowSource} {ask : Nat × Nat} (h : Missed image window ask w)
    (hCapacity : 0 < window.capacity) (hRoom : min ask.2 image.length ≤ clampU32 window.capacity) :
    ∃ w', (WiseBackend.answer image).exec w = (.ok (), w') ∧ w'.Loaded image ∧
      w'.capacity = window.capacity ∧ w'.Covers image ask := by
  have hInside := h.inside
  have hCapacityEq := h.same.capacity
  generalize hArmed : clampU32 (min window.capacity (image.length - ask.1)) = armed
  have hWide : min ask.2 (image.length - ask.1) ≤ armed := by
    rw [← hArmed, clampU32]
    rw [clampU32] at hRoom
    omega
  have hShort : 0 < armed ∧ armed ≤ window.capacity ∧ armed ≤ image.length - ask.1 := by
    rw [← hArmed, clampU32]
    omega
  have hLength : ((image.drop ask.1).take armed).length = armed := by
    rw [List.length_take, List.length_drop]
    omega
  generalize hData : (image.drop ask.1).take armed = data at hLength
  have hAccepted : ¬ (data = [] ∨ data.length > w.takePending.2.capacity) := by
    rintro (hEmpty | hLong)
    · rw [hEmpty, List.length_nil] at hLength
      omega
    · rw [takePending, hCapacityEq] at hLong
      omega
  have hDeliver : w.takePending.2.deliver ask.1 data =
      (true, { w.takePending.2 with buffered := data, base := ask.1 }) := by
    rw [WindowSource.deliver, if_neg hAccepted]
  have hAnswer : Ensures (WiseBackend.answer image) w
      (fun _ w' => w' = { w.takePending.2 with buffered := data, base := ask.1 }) fun _ _ => False := by
    rw [WiseBackend.answer, ensures_bind, ensures_get]
    simp only [h.armed, hArmed, hData, hDeliver]
    rw [ensures_bind, ensures_set, hData, hDeliver, ensures_assertOrPanic rfl]
  obtain ⟨_, w', hExec, rfl⟩ := hAnswer.exists_ok
  refine ⟨_, hExec, ⟨h.same.loaded.size_eq, h.same.loaded.unpinned, ?_, ?_⟩, hCapacityEq, Nat.le_refl _, ?_⟩
  · change data <+: image.drop ask.1
    rw [← hData]
    exact List.take_prefix _ _
  · change data.length ≤ w.capacity
    omega
  · change ask.1 + min ask.2 (image.length - ask.1) ≤ ask.1 + data.length
    omega

end WindowSource

namespace WiseBackend

open WindowSource

/-- A staging read fits one armed read of the window, which is as wide as it is made. -/
structure Fits (image : List UInt8) (limits : Limits) (window : WindowSource) : Prop where
  chunk : min limits.chunkBytes image.length ≤ clampU32 window.capacity
  capacity : minimumWindowBytes ≤ window.capacity

variable (inflater) in
theorem driveAttempt_ensures {r : StreamReader σ} {window : WindowSource} (hImage : image.length < 2 ^ 63)
    (hFits : Fits image r.limits window) (hLoaded : window.Loaded image) (hValid : r.Valid image) :
    Ensures (driveAttempt inflater) (r, window)
      (fun metrics s => SameBytes image window s.2 ∧ Attempt inflater image r (.ok metrics))
      (Interrupted inflater image (Missed image window) r) := by
  have hMax := r.limits.maxInflatedBytesPerStream.toNat_lt
  have hTrailer : Answers image (SameBytes image window) (Missed image window) 4 := by
    apply WindowSource.answers
    have h := hFits.capacity
    rw [minimumWindowBytes] at h
    omega
  refine ensures_loop
    (fun s : StreamReader σ × WindowSource => SameBytes image window s.2 ∧ Steps inflater image r s.1)
    (fun s => 2 ^ 64 - s.1.inflated + if s.1.finished = true then 0 else 1) ?_ streamTurns _
    ⟨⟨hLoaded, rfl, rfl, rfl⟩, .refl⟩ ?_
  · rintro ⟨r₁, w₁⟩ ⟨hSame, hSteps⟩
    have hKept := hSteps.kept hImage hValid
    have hLimits : r₁.limits = r.limits := hKept.limits
    have hChunk : Answers image (SameBytes image window) (Missed image window) r₁.limits.chunkBytes :=
      WindowSource.answers (hLimits ▸ hFits.chunk.trans (Nat.min_le_left _ _))
    rw [driveTurn, ensures_bind, ensures_get, ensures_ite]
    refine ⟨fun hFinished => ?_, fun hRunning => ?_⟩
    · rw [ensures_bind]
      apply (finish_ensures inflater hTrailer hImage hSame hKept.valid hFinished).mono
      · exact fun metrics s h => ⟨h.1, r₁, hSteps, h.2⟩
      · exact fun e s h => h.of_steps hSteps
    · have hRunning : r₁.finished = false := Bool.eq_false_iff.mpr hRunning
      rw [ensures_bind]
      apply (read_ensures inflater hChunk hImage hSame hKept.valid hRunning).mono
      · rintro bytes ⟨r₂, w₂⟩ ⟨hSame₂, hSteps₂, hInflated, hEnd⟩
        have hKept₂ := hSteps₂.kept hImage hKept.valid
        have hBound := hKept₂.valid.inflated_le
        rw [hKept₂.limits, hLimits] at hBound
        rw [ensures_bind, ensures_get, ensures_bind, ensures_rejectIf]
        refine ⟨fun hStuck => ?_, fun _ => ⟨⟨hSame₂, hSteps.trans hSteps₂⟩, ?_⟩⟩
        · exact absurd ((hEnd hStuck.1).symm.trans hStuck.2) (by decide)
        · simp only at hBound hInflated hEnd
          simp only [hRunning, Bool.false_eq_true, if_false]
          by_cases hEmpty : bytes = []
          · rw [if_pos (hEnd hEmpty), hInflated, hEmpty, List.length_nil]
            omega
          · have hLength := List.length_pos_of_ne_nil hEmpty
            split <;> omega
      · exact fun e s h => h.of_steps hSteps
  · simp only [streamTurns]
    split <;> omega

variable (inflater) in
theorem preserves_limits_driveAttempt (limits : Limits) :
    Preserves (fun s : StreamReader σ × WindowSource => s.1.limits = limits) (driveAttempt inflater) := by
  apply Preserves.loop
  apply preserves_get.bind
  rintro ⟨reader, _⟩
  apply Preserves.ite
  · exact preserves_limits_finish.bind fun _ => preserves_pure _
  · apply (preserves_limits_read _).bind
    intro bytes
    apply preserves_get.bind
    rintro ⟨reader, _⟩
    exact (preserves_rejectIf _ _).bind fun _ => preserves_pure _

end WiseBackend

end OpenHalfLife.Backends

namespace OpenHalfLife.Backends

/-! ## The resumable walk and the blocking chain

Served with the source's own bytes, the walk resolves every stream as the chain
does, misses and retries included; where one staging read fits the window the
two collect the same records and end the same way.
-/

open Machine Wise StreamReader WindowSource

set_option autoImplicit false

variable {σ : Type} {inflater : Transducer σ} {format : WiseFormat} {image : List UInt8} {limits : Limits}

namespace WiseBackend

/-- A walk at an attempt: inside the image, and under the stream ceiling. -/
structure Attempting (image : List UInt8) (limits : Limits) (walk : Walk) : Prop where
  imageLen : walk.overlay.imageLen = image.length
  room : walk.cursor + minStreamBytes ≤ image.length
  index : walk.index < limits.maxStreams.toNat
  inside : walk.cursor + walk.skip < image.length

def attemptAndConclude (inflater : Transducer σ) (walk : Walk) : Walking σ Advance := do
  concludeAttempt walk (← attempt (onReading (driveAttempt inflater)))

/-- A backend in the middle of `advance`. -/
def busy (backend : WiseBackend σ) (r : StreamReader σ) : WiseBackend σ :=
  { backend with stage := .ready, reader := r }

def walking (backend : WiseBackend σ) (walk : Walk) (r : StreamReader σ) : WiseBackend σ :=
  { backend with stage := .walk walk, reader := r }

theorem walkTurn_exec {backend : WiseBackend σ} {window : WindowSource} {walk : Walk}
    {reader : StreamReader σ} :
    (walkTurn inflater format image).exec (backend.walking walk reader, window) =
      (advanceWalk inflater walk >>= serveAdvance image).exec (backend.busy reader, window) := by
  obtain ⟨limits, stage, _, streams, mapping⟩ := backend
  have hAdvance : (advance inflater format).exec (⟨limits, .walk walk, reader, streams, mapping⟩, window) =
      (advanceWalk inflater walk).exec (⟨limits, .ready, reader, streams, mapping⟩, window) := rfl
  have hTurn : (walkTurn inflater format image).exec (⟨limits, .walk walk, reader, streams, mapping⟩, window) =
      (advance inflater format >>= serveAdvance image).exec
        (⟨limits, .walk walk, reader, streams, mapping⟩, window) := rfl
  change (walkTurn inflater format image).exec (⟨limits, .walk walk, reader, streams, mapping⟩, window) = _
  rw [hTurn, exec_bind, exec_bind, hAdvance]
  rfl

def readerAt (inflater : Transducer σ) (walk : Walk) (reader : StreamReader σ) : StreamReader σ :=
  if walk.started = true then reader else .new inflater (walk.cursor + walk.skip) reader.limits

theorem startAttempt_exec {backend : WiseBackend σ} {window : WindowSource} {walk : Walk}
    {reader : StreamReader σ} :
    (startAttempt inflater walk (walk.cursor + walk.skip)).exec (backend.busy reader, window) =
      (.ok { walk with started := true }, backend.busy (readerAt inflater walk reader), window) := by
  obtain ⟨overlay, cursor, index, total, skip, started, first⟩ := walk
  cases started <;> rfl

theorem advanceWalk_exec {backend : WiseBackend σ} {window : WindowSource} {walk : Walk}
    {reader : StreamReader σ} (hWalk : Attempting image backend.limits walk)
    (hImage : image.length < 2 ^ 63) :
    (advanceWalk inflater walk).exec (backend.busy reader, window) =
      (attemptAndConclude inflater { walk with started := true }).exec
        (backend.busy (readerAt inflater walk reader), window) := by
  have hLen := hWalk.imageLen
  have hRoom := hWalk.room
  have hIndex := hWalk.index
  have hInside := hWalk.inside
  have hMore : ¬ (walk.cursor ≥ walk.overlay.imageLen ∨
      walk.overlay.imageLen - walk.cursor < minStreamBytes) := by
    rw [minStreamBytes] at hRoom ⊢
    omega
  have hOffset : min (walk.cursor + walk.skip) (2 ^ 64 - 1) = walk.cursor + walk.skip := by omega
  rw [advanceWalk, exec_bind]
  change exec (if _ then _ else _) (backend.busy reader, window) = _
  rw [if_neg hMore, rejectIf]
  change exec ((if walk.index ≥ backend.limits.maxStreams.toNat then _ else _) >>= _) _ = _
  rw [if_neg (by omega), pure_bind]
  change exec (if min (walk.cursor + walk.skip) (2 ^ 64 - 1) ≥ walk.overlay.imageLen then _ else _) _ = _
  rw [hOffset, if_neg (by omega), exec_bind, startAttempt_exec]
  rfl

theorem attemptTurn_exec {backend : WiseBackend σ} {window : WindowSource} {walk : Walk}
    {reader : StreamReader σ} (hWalk : Attempting image backend.limits walk)
    (hImage : image.length < 2 ^ 63) :
    (walkTurn inflater format image).exec (backend.walking walk reader, window) =
      (attemptAndConclude inflater { walk with started := true } >>= serveAdvance image).exec
        (backend.busy (readerAt inflater walk reader), window) := by
  rw [walkTurn_exec, exec_bind, exec_bind, advanceWalk_exec hWalk hImage]

def distance (image : List UInt8) (r : StreamReader σ) (window : WindowSource) : Nat :=
  2 * (image.length - r.readCursor + if r.finished = true then 0 else 1) +
    if window.Covers image r.ask then 0 else 1

theorem distance_lt {r r' : StreamReader σ} {window w w' : WindowSource} (hImage : image.length < 2 ^ 63)
    (hValid : r.Valid image) (hSteps : Steps inflater image r r') (hMissed : Missed image window r'.ask w)
    (hCovers : w'.Covers image r'.ask) : distance image r' w' < distance image r window := by
  have hKept := hSteps.kept hImage hValid
  have hCursor := hKept.cursor_le
  have hCursorLe := hKept.valid.cursor_le
  have hStays (hFinished : r.finished = true) : r' = r :=
    (Steps.eq_of_verdict hSteps (Verdict.finished hFinished)).symm
  have hUncovered := hMissed.uncovered
  simp only [distance, hCovers, if_true]
  by_cases hFinished : r.finished = true
  · rw [hStays hFinished] at hUncovered ⊢
    simp only [hUncovered, if_false]
    omega
  by_cases hSame : r'.readCursor = r.readCursor ∧ r'.finished = false
  · have hAsk : r'.ask = r.ask := by
      rw [ask, ask, if_neg hFinished, if_neg (by simp [hSame.2]), hSame.1, hKept.limits]
    rw [hAsk] at hUncovered
    simp only [hUncovered, if_false, hSame, hFinished]
    simp
  · rw [if_neg hFinished]
    cases hEnd : r'.finished with
    | false =>
      have hMoved : r'.readCursor ≠ r.readCursor := fun h => hSame ⟨h, hEnd⟩
      simp only [Bool.false_eq_true, if_false]
      split <;> omega
    | true =>
      simp only [if_true]
      split <;> omega

theorem attemptAndConclude_exec {backend : WiseBackend σ} {walk : Walk} {r r' : StreamReader σ}
    {window w' : WindowSource} {result : Except (Stop WiseError) StreamMetrics}
    (hExec : (driveAttempt inflater).exec (r, window) = (result, r', w')) :
    (attemptAndConclude inflater walk >>= serveAdvance image).exec (backend.busy r, window) =
      (concludeAttempt walk result >>= serveAdvance image).exec (backend.busy r', w') := by
  have hAttempt : (attempt (onReading (driveAttempt inflater)) : Walking σ _).exec
      (backend.busy r, window) = (.ok result, backend.busy r', w') := by
    simp only [attempt, onReading, zoom, exec_ofFun, busy, hExec]
    cases result <;> rfl
  rw [attemptAndConclude, bind_assoc, exec_bind, hAttempt]

variable (format) in
theorem attempt_runs {backend : WiseBackend σ} (walk : Walk) {r : StreamReader σ} {window : WindowSource}
    {result : Except WiseError StreamMetrics} (hImage : image.length < 2 ^ 63)
    (hWalk : Attempting image backend.limits walk) (hStarted : walk.started = true)
    (hValid : r.Valid image) (hLimits : r.limits = backend.limits) (hLoaded : window.Loaded image)
    (hFits : Fits image backend.limits window)
    (hAttempt : Attempt inflater image r result) :
    ∃ r' w', r'.limits = backend.limits ∧ w'.Loaded image ∧ w'.capacity = window.capacity ∧
      ∀ final, Continues (walkTurn inflater format image)
          ((concludeAttempt walk (result.mapError .error) >>= serveAdvance image).exec
            (backend.busy r', w')) final →
        Continues (walkTurn inflater format image)
          ((attemptAndConclude inflater walk >>= serveAdvance image).exec (backend.busy r, window)) final := by
  generalize hMeasure : distance image r window = n
  induction n using Nat.strongRecOn generalizing r window with
  | ind n ih =>
    have hDrive := ((driveAttempt_ensures inflater hImage (hLimits ▸ hFits) hLoaded
      hValid).exec.and (preserves_limits_driveAttempt inflater backend.limits
      (r, window) hLimits)).and (preserves_driveAttempt inflater
      (preserves_sameBytes_read image window) (r, window) ⟨hLoaded, rfl, rfl, rfl⟩)
    rw [ensures_iff] at hDrive
    rcases hExec : (driveAttempt inflater).exec (r, window) with ⟨e | metrics, r', w'⟩
    · obtain ⟨⟨⟨-, hInterrupted⟩, hLimits'⟩, hSame⟩ := hDrive.2 _ _ hExec
      rcases hInterrupted with ⟨rfl, hSteps, hMissed⟩ | ⟨error, rfl, hFinal, hOwn⟩
      · have hKept := hSteps.kept hImage hValid
        have hCapacity := hFits.capacity
        rw [minimumWindowBytes] at hCapacity
        have hRoom : min r'.ask.2 image.length ≤ clampU32 window.capacity := by
          rw [ask]
          split
          · rw [clampU32]
            simp only
            omega
          · rw [hLimits']
            exact hFits.chunk
        obtain ⟨w₂, hAnswer, hLoaded₂, hCapacity₂, hCovers⟩ := hMissed.answer (by omega) hRoom
        have hFits₂ : Fits image backend.limits w₂ :=
          ⟨hCapacity₂ ▸ hFits.chunk, hCapacity₂ ▸ hFits.capacity⟩
        have hRest : Attempt inflater image r' result := hAttempt.rest hSteps
        have hLess : distance image r' w₂ < n :=
          hMeasure ▸ distance_lt hImage hValid hSteps hMissed hCovers
        obtain ⟨r₃, w₃, hLimits₃, hLoaded₃, hCapacity₃, hRuns⟩ := ih _ hLess hKept.valid hLimits' hLoaded₂
          hFits₂ hRest rfl
        refine ⟨r₃, w₃, hLimits₃, hLoaded₃, hCapacity₃.trans hCapacity₂, fun final h => ?_⟩
        have hMiss : (concludeAttempt walk (.error (.error .sourceFailed)) >>= serveAdvance image).exec
            (backend.busy r', w') = (.ok none, backend.walking walk r', w₂) := by
          rw [exec_bind, concludeAttempt, if_pos rfl]
          change exec (onWindow (answer image) >>= fun _ => pure none)
            (backend.walking walk r', w') = _
          rw [exec_bind, onWindow, zoom, exec_ofFun, hAnswer]
          rfl
        have hOnward : { walk with started := true } = walk := by
          rw [← hStarted]
        rw [attemptAndConclude_exec hExec, hMiss]
        apply Continues.loops
        rw [attemptTurn_exec hWalk hImage, hOnward, readerAt, if_pos hStarted]
        exact hRuns final h
      · cases hAttempt.unique hOwn
        refine ⟨r', w', hLimits', hSame.loaded, hSame.capacity, fun final h => ?_⟩
        rw [attemptAndConclude_exec hExec]
        exact h
    · obtain ⟨⟨⟨-, hSame, hOwn⟩, hLimits'⟩, -⟩ := hDrive.1 _ _ hExec
      cases hAttempt.unique hOwn
      refine ⟨r', w', hLimits', hSame.loaded, hSame.capacity, fun final h => ?_⟩
      rw [attemptAndConclude_exec hExec]
      exact h

/-- One walked stream: what was resolved is accepted, and the walk goes on behind it. -/
def acceptWalked (walk : Walk) : Except WiseError (StreamMetrics × Nat) → Walking σ (Option Unit)
  | .ok (metrics, skip) => do
    let walk ← accept { walk with skip := skip } metrics
    setStage (.walk walk)
    return none
  | .error e => throw (.error e)

theorem finishAttempts_eq (walk : Walk) {first : Except WiseError StreamMetrics}
    (hFirst : walk.first = some first) :
    (finishAttempts walk >>= serveAdvance image : Walking σ (Option Unit)) =
      acceptWalked walk (first.map fun metrics => (metrics, 0)) := by
  rw [finishAttempts, hFirst]
  cases first with
  | error e => rfl
  | ok metrics =>
    simp only [bind_assoc, pure_bind]
    rfl

structure Trying (image : List UInt8) (limits : Limits) (walk : Walk) : Prop where
  imageLen : walk.overlay.imageLen = image.length
  room : walk.cursor + minStreamBytes ≤ image.length
  index : walk.index < limits.maxStreams.toNat

section Served

variable {backend : WiseBackend σ} {walk : Walk} {r : StreamReader σ} {window : WindowSource}

structure Serving (image : List UInt8) (limits : Limits) (r : StreamReader σ) (window : WindowSource) :
    Prop where
  limits_eq : r.limits = limits
  loaded : window.Loaded image
  fits : Fits image limits window

theorem concludeAttempt_match {metrics : StreamMetrics} (hMatch : metrics.checksum = .match_) :
    (concludeAttempt walk (.ok metrics) >>= serveAdvance image : Walking σ (Option Unit)) =
      acceptWalked walk (.ok (metrics, walk.skip)) := by
  rw [concludeAttempt, if_pos hMatch]
  simp only [bind_assoc, pure_bind]
  rfl

theorem nextAttempt_stop (hLast : ¬ walk.skip < backend.limits.maxResyncSkip.toNat) :
    (nextAttempt walk >>= serveAdvance image).exec (backend.busy r, window) =
      (finishAttempts walk >>= serveAdvance image).exec (backend.busy r, window) := by
  rw [nextAttempt, bind_assoc, exec_bind]
  change exec ((if walk.skip < backend.limits.maxResyncSkip.toNat then _ else _) >>= _) _ = _
  rw [if_neg hLast]

theorem nextAttempt_go (hMore : walk.skip < backend.limits.maxResyncSkip.toNat) :
    (nextAttempt walk >>= serveAdvance image).exec (backend.busy r, window) =
      (.ok none, backend.walking { walk with skip := walk.skip + 1, started := false } r, window) := by
  rw [nextAttempt, bind_assoc, exec_bind]
  change exec ((if walk.skip < backend.limits.maxResyncSkip.toNat then _ else _) >>= _) _ = _
  rw [if_pos hMore]
  rfl

variable (walk) in
theorem advanceWalk_past (hTrying : Trying image backend.limits walk) (hImage : image.length < 2 ^ 63)
    (hPast : image.length ≤ walk.cursor + walk.skip) :
    (advanceWalk inflater walk >>= serveAdvance image).exec (backend.busy r, window) =
      (finishAttempts walk >>= serveAdvance image).exec (backend.busy r, window) := by
  have hLen := hTrying.imageLen
  have hRoom := hTrying.room
  have hIndex := hTrying.index
  have hMore : ¬ (walk.cursor ≥ walk.overlay.imageLen ∨
      walk.overlay.imageLen - walk.cursor < minStreamBytes) := by
    rw [minStreamBytes] at hRoom ⊢
    omega
  have hSaturated : min (walk.cursor + walk.skip) (2 ^ 64 - 1) ≥ walk.overlay.imageLen := by omega
  have hAdvance : (advanceWalk inflater walk).exec (backend.busy r, window) =
      (finishAttempts walk).exec (backend.busy r, window) := by
    rw [advanceWalk, exec_bind]
    change exec (if _ then _ else _) (backend.busy r, window) = _
    rw [if_neg hMore, rejectIf]
    change exec ((if walk.index ≥ backend.limits.maxStreams.toNat then _ else _) >>= _) _ = _
    rw [if_neg (by omega), pure_bind]
    change exec (if min (walk.cursor + walk.skip) (2 ^ 64 - 1) ≥ walk.overlay.imageLen then _ else _) _ = _
    rw [if_pos hSaturated]
  rw [exec_bind, exec_bind, hAdvance]

theorem concludeAttempt_final {e : WiseError} (hSource : e ≠ .sourceFailed) (hFinal : e.isFinal = true) :
    (concludeAttempt walk (.error (.error e)) >>= serveAdvance image : Walking σ (Option Unit)) =
      acceptWalked walk (.error e) := by
  rw [concludeAttempt, if_neg hSource, if_pos hFinal]
  rfl

variable (inflater) (format) (walk) in
theorem attempted_runs (hImage : image.length < 2 ^ 63) (hWalk : Attempting image backend.limits walk)
    (hFresh : walk.started = false) (hServing : Serving image backend.limits r window) :
    ∃ r' w', Serving image backend.limits r' w' ∧ ∀ final,
      Continues (walkTurn inflater format image)
          ((concludeAttempt { walk with started := true }
              ((attemptAt inflater image backend.limits (walk.cursor + walk.skip)).mapError .error) >>=
            serveAdvance image).exec (backend.busy r', w')) final →
        Loops (walkTurn inflater format image) (backend.walking walk r, window) final := by
  have hInside := hWalk.inside
  obtain ⟨-, hAttempt, -⟩ := attemptAt_spec inflater backend.limits
    hImage (Nat.le_of_lt hInside)
  obtain ⟨r', w', hLimits', hLoaded', hCapacity', hRuns⟩ := attempt_runs format
    { walk with started := true } hImage ⟨hWalk.imageLen, hWalk.room, hWalk.index, hInside⟩ rfl
    (new_valid (Nat.le_of_lt hInside)) rfl hServing.loaded hServing.fits hAttempt
  have hReader : readerAt inflater walk r = .new inflater (walk.cursor + walk.skip) backend.limits := by
    rw [readerAt, if_neg (by rw [hFresh]; exact Bool.false_ne_true), hServing.limits_eq]
  have hFits := hServing.fits
  refine ⟨r', w', ⟨hLimits', hLoaded', ?_⟩, fun final h => ?_⟩
  · exact ⟨hCapacity' ▸ hFits.chunk, hCapacity' ▸ hFits.capacity⟩
  · apply Continues.loops
    rw [attemptTurn_exec hWalk hImage, hReader]
    exact hRuns final h

variable (inflater) (format) (walk) in
theorem nextAttempt_runs (hImage : image.length < 2 ^ 63) {first : Except WiseError StreamMetrics} {left : Nat}
    (hTrying : Trying image backend.limits walk) (hFirst : walk.first = some first)
    (hServing : Serving image backend.limits r window)
    (hLeft : backend.limits.maxResyncSkip.toNat - walk.skip = left) :
    ∃ r' w', Serving image backend.limits r' w' ∧ ∀ final,
      Continues (walkTurn inflater format image)
          ((acceptWalked walk (resolve (attemptAt inflater image backend.limits) walk.cursor image.length first
            (List.range' (walk.skip + 1) left))).exec (backend.busy r', w')) final →
        Continues (walkTurn inflater format image)
          ((nextAttempt walk >>= serveAdvance image).exec (backend.busy r, window)) final := by
  induction left generalizing walk r window with
  | zero =>
    refine ⟨r, window, hServing, fun final h => ?_⟩
    rw [nextAttempt_stop (by omega), finishAttempts_eq walk hFirst]
    exact h
  | succ left ih =>
    rw [List.range'_succ, resolve, nextAttempt_go (by omega)]
    let next : Walk := { walk with skip := walk.skip + 1, started := false }
    by_cases hPast : walk.cursor + (walk.skip + 1) ≥ image.length
    · refine ⟨r, window, hServing, fun final h => ?_⟩
      apply Continues.loops
      rw [walkTurn_exec, advanceWalk_past next ⟨hTrying.imageLen, hTrying.room, hTrying.index⟩ hImage
        hPast, finishAttempts_eq next hFirst]
      rw [if_pos hPast] at h
      exact h
    rw [if_neg hPast]
    obtain ⟨r', w', hServing', hGo⟩ := attempted_runs inflater format next
      hImage ⟨hTrying.imageLen, hTrying.room, hTrying.index, Nat.lt_of_not_le hPast⟩ rfl hServing
    obtain ⟨r₂, w₂, hServing₂, hNext⟩ := ih { next with started := true }
      ⟨hTrying.imageLen, hTrying.room, hTrying.index⟩ hFirst hServing' (by simp only [next]; omega)
    obtain ⟨-, -, hSource⟩ := attemptAt_spec inflater backend.limits
      hImage (Nat.le_of_not_le hPast)
    have hSkip : walk.skip + 1 ≠ 0 := Nat.succ_ne_zero _
    simp only [next] at hGo
    cases hResult : attemptAt inflater image backend.limits (walk.cursor + (walk.skip + 1)) with
    | ok metrics =>
      rw [hResult, Except.mapError] at hGo
      by_cases hMatch : metrics.checksum = .match_
      · refine ⟨r', w', hServing', fun final h => hGo final ?_⟩
        rw [concludeAttempt_match hMatch]
        simp only [hMatch, if_true] at h
        exact h
      · refine ⟨r₂, w₂, hServing₂, fun final h => hGo final ?_⟩
        rw [concludeAttempt, if_neg hMatch, Walk.keep, if_neg hSkip]
        simp only [hMatch, if_false] at h
        exact hNext final h
    | error e =>
      rw [hResult, Except.mapError] at hGo
      have hSource : e ≠ .sourceFailed := fun h => hSource (hResult.trans (h ▸ rfl))
      by_cases hFinal : e.isFinal = true
      · refine ⟨r', w', hServing', fun final h => hGo final ?_⟩
        rw [concludeAttempt_final hSource hFinal]
        simp only [hFinal, if_true] at h
        exact h
      · refine ⟨r₂, w₂, hServing₂, fun final h => hGo final ?_⟩
        rw [concludeAttempt, if_neg hSource, if_neg hFinal, Walk.keep, if_neg hSkip]
        simp only [hFinal] at h
        exact hNext final h

variable (inflater) (format) (walk) in
theorem stream_runs (hImage : image.length < 2 ^ 63) (hTrying : Trying image backend.limits walk)
    (hFresh : walk.skip = 0 ∧ walk.started = false) (hServing : Serving image backend.limits r window) :
    ∃ r' w', Serving image backend.limits r' w' ∧ ∀ final,
      Continues (walkTurn inflater format image)
          ((acceptWalked walk (resolveStream (attemptAt inflater image backend.limits) walk.cursor image.length
            backend.limits)).exec (backend.busy r', w')) final →
        Loops (walkTurn inflater format image) (backend.walking walk r, window) final := by
  obtain ⟨overlay, cursor, index, total, skip, started, first⟩ := walk
  obtain ⟨rfl, rfl⟩ := hFresh
  have hRoom := hTrying.room
  have hInside : cursor < image.length := by
    simp only [minStreamBytes] at hRoom
    omega
  obtain ⟨r', w', hServing', hGo⟩ := attempted_runs inflater format
    ⟨overlay, cursor, index, total, 0, false, first⟩ hImage ⟨hTrying.imageLen, hRoom, hTrying.index, hInside⟩ rfl hServing
  obtain ⟨-, -, hSource⟩ := attemptAt_spec inflater backend.limits
    hImage (Nat.le_of_lt hInside)
  simp only [Nat.add_zero] at hGo
  rw [resolveStream]
  have hRetry (first : Except WiseError StreamMetrics) := nextAttempt_runs inflater
    format ⟨overlay, cursor, index, total, 0, true, some first⟩ hImage
    ⟨hTrying.imageLen, hRoom, hTrying.index⟩ rfl hServing' rfl
  cases hResult : attemptAt inflater image backend.limits cursor with
  | ok metrics =>
    rw [hResult, Except.mapError] at hGo
    by_cases hMatch : metrics.checksum = .match_
    · refine ⟨r', w', hServing', fun final h => hGo final ?_⟩
      rw [concludeAttempt_match hMatch]
      simp only [hMatch, if_true] at h
      exact h
    · obtain ⟨r₂, w₂, hServing₂, hNext⟩ := hRetry (.ok metrics)
      refine ⟨r₂, w₂, hServing₂, fun final h => hGo final ?_⟩
      rw [concludeAttempt, if_neg hMatch]
      simp only [hMatch, if_false] at h
      exact hNext final h
  | error e =>
    rw [hResult, Except.mapError] at hGo
    have hSource : e ≠ .sourceFailed := fun h => hSource (hResult.trans (h ▸ rfl))
    by_cases hFinal : e.isFinal = true
    · refine ⟨r', w', hServing', fun final h => hGo final ?_⟩
      rw [concludeAttempt_final hSource hFinal]
      simp only [hFinal, if_true] at h
      exact h
    · obtain ⟨r₂, w₂, hServing₂, hNext⟩ := hRetry (.error e)
      refine ⟨r₂, w₂, hServing₂, fun final h => hGo final ?_⟩
      rw [concludeAttempt, if_neg hSource, if_neg hFinal]
      simp only [hFinal] at h
      exact hNext final h

variable (backend) (walk) (r) (window) in
theorem acceptWalked_rejected {metrics : StreamMetrics} (skip : Nat)
    (hTotal : 2 ^ 64 ≤ walk.totalInflated + metrics.inflatedLen ∨
      backend.limits.maxTotalInflatedBytes.toNat < walk.totalInflated + metrics.inflatedLen) :
    (acceptWalked walk (.ok (metrics, skip))).exec (backend.busy r, window) =
      (.error (.error (.limitExceeded .totalInflatedBytes)), backend.busy r, window) := by
  rw [acceptWalked, accept, bind_assoc, exec_bind]
  change exec ((rejectIf _ _ >>= _) >>= _) (backend.busy r, window) = _
  by_cases hOverflow : walk.totalInflated + metrics.inflatedLen ≥ 2 ^ 64
  · rw [rejectIf, if_pos hOverflow]
    rfl
  · have hMax := hTotal.resolve_left hOverflow
    rw [rejectIf, if_neg hOverflow, pure_bind]
    change exec ((rejectIf (_ > backend.limits.maxTotalInflatedBytes.toNat) _ >>= _) >>= _) _ = _
    rw [rejectIf, if_pos hMax]
    rfl

variable (backend) (walk) (r) (window) in
theorem acceptWalked_exec {metrics : StreamMetrics} (skip : Nat)
    (hTotal : walk.totalInflated + metrics.inflatedLen < 2 ^ 64)
    (hMax : walk.totalInflated + metrics.inflatedLen ≤ backend.limits.maxTotalInflatedBytes.toNat)
    (hIndex : walk.index + 1 < 2 ^ 32) (hNext : metrics.compressedOffset + metrics.compressedLen < 2 ^ 63) :
    (acceptWalked walk (.ok (metrics, skip))).exec (backend.busy r, window) =
      (.ok none,
        WiseBackend.walking { backend with streams := backend.streams ++ [⟨walk.index, metrics, skip⟩] }
          ⟨walk.overlay, metrics.compressedOffset + metrics.compressedLen + metrics.trailer, walk.index + 1,
            walk.totalInflated + metrics.inflatedLen, 0, false, none⟩ r, window) := by
  rw [acceptWalked, accept, bind_assoc, exec_bind]
  change exec ((rejectIf _ _ >>= _) >>= _) (backend.busy r, window) = _
  rw [rejectIf, if_neg (Nat.not_le.mpr hTotal), pure_bind]
  change exec ((rejectIf (_ > backend.limits.maxTotalInflatedBytes.toNat) _ >>= _) >>= _) _ = _
  rw [rejectIf, if_neg (Nat.not_lt.mpr hMax), pure_bind, rejectIf, if_neg (Nat.not_le.mpr hIndex),
    Chain.nextOffset_eq hNext]
  rfl

theorem walkTurn_end (hLen : walk.overlay.imageLen = image.length)
    (hEnd : image.length < walk.cursor + minStreamBytes) :
    Loops (walkTurn inflater format image) (backend.walking walk r, window)
      (.ok (), { backend with stage := .script ⟨walk.overlay, false, []⟩, reader := r }, window) := by
  have hEnough : walk.cursor ≥ walk.overlay.imageLen ∨
      walk.overlay.imageLen - walk.cursor < minStreamBytes := by
    rw [minStreamBytes] at hEnd ⊢
    omega
  have hAdvance : (advanceWalk inflater walk >>= serveAdvance image).exec (backend.busy r, window) =
      (.ok none, { backend with stage := .script ⟨walk.overlay, false, []⟩, reader := r }, window) := by
    rw [advanceWalk, bind_assoc, exec_bind]
    change exec ((if _ then _ else _) >>= _) (backend.busy r, window) = _
    rw [if_pos hEnough]
    rfl
  exact .turn (walkTurn_exec.trans hAdvance) (.done rfl)

theorem walkTurn_full (hLen : walk.overlay.imageLen = image.length)
    (hRoom : walk.cursor + minStreamBytes ≤ image.length)
    (hIndex : backend.limits.maxStreams.toNat ≤ walk.index) :
    (walkTurn inflater format image).exec (backend.walking walk r, window) =
      (.error (.error (.limitExceeded .streams)), backend.busy r, window) := by
  have hMore : ¬ (walk.cursor ≥ walk.overlay.imageLen ∨
      walk.overlay.imageLen - walk.cursor < minStreamBytes) := by
    rw [minStreamBytes] at hRoom ⊢
    omega
  rw [walkTurn_exec, advanceWalk, bind_assoc, exec_bind]
  change exec ((if _ then _ else _) >>= _) (backend.busy r, window) = _
  rw [if_neg hMore, rejectIf]
  change exec (((if walk.index ≥ backend.limits.maxStreams.toNat then _ else _) >>= _) >>= _) _ = _
  rw [if_pos hIndex]
  rfl

end Served

inductive SameEnd (limits : Limits) : Except (Stop WiseError) Unit → Except (Stop WiseError) Unit → Prop
  | done : SameEnd limits (.ok ()) (.ok ())
  | failed (e : WiseError) : SameEnd limits (.error (.error e)) (.error (.error e))
  | overflow : 2 ^ 64 ≤ limits.maxTotalInflatedBytes.toNat + limits.maxInflatedBytesPerStream.toNat →
      SameEnd limits (.error (.error .malformedExecutable)) (.error (.error (.limitExceeded .totalInflatedBytes)))

/-- What the chain and the walk come to from one stream boundary. -/
def Agree (inflater : Transducer σ) (format : WiseFormat) (image : List UInt8) (chain : Chain)
    (backend walked : WiseBackend σ) (window : WindowSource) : Prop :=
  ∃ (records : List StreamRecord) (chainEnd walkEnd : Except (Stop WiseError) Unit)
    (chain' : Chain) (backend' : WiseBackend σ) (window' : WindowSource),
    SameEnd backend.limits chainEnd walkEnd ∧
    Loops (Chain.collectTurn inflater) (backend.streams, chain, SliceSource.mk image)
      (chainEnd, records, chain', ⟨image⟩) ∧
    Loops (walkTurn inflater format image) (walked, window) (walkEnd, backend', window') ∧
    backend'.streams = records

variable (inflater) (format) in
theorem agree_from (backend : WiseBackend σ) (chain : Chain) (overlay : Overlay) {r : StreamReader σ}
    {window : WindowSource} {left : Nat} (hImage : image.length < 2 ^ 63) (hRunning : chain.Running)
    (hLimits : chain.limits = backend.limits) (hStop : chain.stop = image.length)
    (hOverlay : overlay.imageLen = image.length) (hServing : Serving image backend.limits r window)
    (hTotal : chain.totalInflated ≤ backend.limits.maxTotalInflatedBytes.toNat)
    (hResyncs : chain.resyncs ≤ chain.index) (hLeft : chain.index + left = backend.limits.maxStreams.toNat) :
    Agree inflater format image chain backend
      (backend.walking ⟨overlay, chain.cursor, chain.index, chain.totalInflated, 0, false, none⟩ r) window := by
  induction left generalizing backend chain r window with
  | zero =>
    by_cases hRoom : chain.cursor + minStreamBytes ≤ image.length
    · exact ⟨_, _, _, _, _, _, .failed _,
        .fail (Chain.collect_full hRunning (hStop ▸ hRoom) (by rw [hLimits]; omega)),
        .fail (walkTurn_full hOverlay hRoom (by simp only; omega)), rfl⟩
    · exact ⟨_, _, _, _, _, _, .done, .done (Chain.collect_end hRunning (by omega)),
        walkTurn_end hOverlay (by simp only; omega), rfl⟩
  | succ left ih =>
    by_cases hRoom : chain.cursor + minStreamBytes ≤ image.length
    swap
    · exact ⟨_, _, _, _, _, _, .done, .done (Chain.collect_end hRunning (by omega)),
        walkTurn_end hOverlay (by simp only; omega), rfl⟩
    have hIndex : chain.index < backend.limits.maxStreams.toNat := by omega
    have hMaxStreams := backend.limits.maxStreams.toNat_lt
    obtain ⟨r', w', hServing', hGo⟩ := stream_runs inflater format
      ⟨overlay, chain.cursor, chain.index, chain.totalInflated, 0, false, none⟩ hImage
      ⟨hOverlay, hRoom, hIndex⟩ ⟨rfl, rfl⟩ hServing
    simp only at hGo
    have hCollectFailed (e : Stop WiseError) (c : Chain) :=
      Chain.collect_failed inflater backend.streams e c hRunning hImage (Nat.le_of_eq hStop) (hStop ▸ hRoom) (hLimits ▸ hIndex)
    rw [hLimits, hStop] at hCollectFailed
    cases hResolved : resolveStream (attemptAt inflater image backend.limits) chain.cursor image.length
        backend.limits with
    | error e =>
      rw [hResolved] at hGo hCollectFailed
      exact ⟨_, _, _, _, _, _, .failed e, .fail (hCollectFailed _ _ rfl), hGo _ rfl, rfl⟩
    | ok resolved =>
      obtain ⟨metrics, skip⟩ := resolved
      rw [hResolved] at hGo hCollectFailed
      have hCursor : chain.cursor < image.length := by
        rw [minStreamBytes] at hRoom
        omega
      obtain ⟨offset, hOffset, hAttemptAt⟩ := resolveStream_eq_ok hCursor hResolved
      obtain ⟨-, hAttempt, -⟩ := attemptAt_spec inflater backend.limits hImage
        (Nat.le_of_lt hOffset)
      rw [hAttemptAt] at hAttempt
      obtain ⟨hNext, hInflated⟩ := Attempt.metrics_le hImage (Nat.le_of_lt hOffset) hAttempt
      by_cases hOverflow : 2 ^ 64 ≤ chain.totalInflated + metrics.inflatedLen
      · have hRejected := acceptWalked_rejected backend
          ⟨overlay, chain.cursor, chain.index, chain.totalInflated, 0, false, none⟩ r' w' skip
          (.inl hOverflow)
        have hFails : (Chain.acceptResolved (.ok (metrics, skip))).exec (chain, ⟨image⟩) =
            (.error (.error .malformedExecutable), chain, ⟨image⟩) := by
          rw [Chain.acceptResolved, Chain.onChain, zoom, exec_ofFun, Chain.accept_overflow hOverflow]
          rfl
        rw [hRejected] at hGo
        exact ⟨_, _, _, _, _, _, .overflow (by omega), .fail (hCollectFailed _ _ hFails), hGo _ rfl, rfl⟩
      by_cases hMax : backend.limits.maxTotalInflatedBytes.toNat < chain.totalInflated + metrics.inflatedLen
      · have hRejected := acceptWalked_rejected backend
          ⟨overlay, chain.cursor, chain.index, chain.totalInflated, 0, false, none⟩ r' w' skip
          (.inr hMax)
        have hFails : (Chain.acceptResolved (.ok (metrics, skip))).exec (chain, ⟨image⟩) =
            (.error (.error (.limitExceeded .totalInflatedBytes)),
              { chain with totalInflated := chain.totalInflated + metrics.inflatedLen }, ⟨image⟩) := by
          rw [Chain.acceptResolved, Chain.onChain, zoom, exec_ofFun,
            Chain.accept_limit (Nat.lt_of_not_le hOverflow) (hLimits ▸ hMax)]
          rfl
        rw [hRejected] at hGo
        exact ⟨_, _, _, _, _, _, .failed _, .fail (hCollectFailed _ _ hFails), hGo _ rfl, rfl⟩
      · obtain ⟨resyncs, hResyncs', hCollects⟩ := Chain.collect_accepted inflater
          backend.streams metrics skip hRunning hImage
          (Nat.le_of_eq hStop) (hStop ▸ hRoom) (hLimits ▸ hIndex) hResyncs (hLimits ▸ hStop ▸ hResolved)
          (Nat.lt_of_not_le hOverflow) (hLimits ▸ Nat.le_of_not_lt hMax) (by omega)
        have hAccepted := acceptWalked_exec backend
          ⟨overlay, chain.cursor, chain.index, chain.totalInflated, 0, false, none⟩ r' w' skip
          (Nat.lt_of_not_le hOverflow) (Nat.le_of_not_lt hMax) (by simp only; omega)
          (by omega)
        rw [hAccepted] at hGo
        obtain ⟨records, chainEnd, walkEnd, chain', backend', window', hSame, hChain, hWalk, hStreams⟩ :=
          ih { backend with streams := backend.streams ++ [⟨chain.index, metrics, skip⟩] }
            { chain.behind metrics with resyncs }
            ⟨hRunning.finished, hRunning.pending⟩ hLimits hStop hServing' (Nat.le_of_not_lt hMax) hResyncs'
            (by simp only [Chain.behind]; omega)
        exact ⟨records, chainEnd, walkEnd, chain', backend', window', hSame, hCollects _ hChain,
          hGo _ hWalk, hStreams⟩

def walkFrom (inflater : Transducer σ) (limits : Limits) (overlay : Overlay) (first : Nat) : WiseBackend σ :=
  { new inflater limits with stage := .walk ⟨overlay, first, 0, 0, 0, false, none⟩ }

section Stored

def storedInflater : Transducer (Nat × Option UInt8) where
  init := (5, none)
  move
    | (header + 1, _) => .take fun _ => (header, none)
    | (0, some byte) => .give byte (0, none)
    | (0, none) => .take fun byte => (0, some byte)

def storedImage (length : Nat) : List UInt8 := [0x00, 0xFF, 0xFF, 0x00, 0x00] ++ List.replicate length 0

def tightLimits (chunk : UInt64) : Limits where
  maxStreams := 1
  maxCompressedBytesPerStream := 8192
  maxInflatedBytesPerStream := 0
  maxTotalInflatedBytes := 0
  maxScriptBytes := 0
  maxResyncSkip := 0
  maxChunkBytes := chunk

def plainFormat : WiseFormat where
  findOverlay _ _ := .error (.error .noOverlay)
  locateFirstStream _ _ _ := .error (.error .headerNotFound)
  mapScript _ _ _ _ := ⟨[], fun _ => none⟩

def fullWindow (image : List UInt8) : WindowSource :=
  { WindowSource.new image.length 0 with buffered := image.take minimumWindowBytes }

theorem fullWindow_loaded : (fullWindow image).Loaded image := by
  refine ⟨rfl, rfl, List.take_prefix _ _, ?_⟩
  change (image.take minimumWindowBytes).length ≤ max 0 minimumWindowBytes
  rw [List.length_take]
  omega

theorem run_stored (data : List UInt8) (room : Nat) (h : data.length ≤ room) :
    storedInflater.run (0, none) data room = ⟨(0, none), data.length, data, .paused⟩ := by
  induction data generalizing room with
  | nil => rw [Transducer.run]; rfl
  | cons byte data ih =>
    obtain ⟨room, rfl⟩ : ∃ n, room = n + 1 := ⟨room - 1, by rw [List.length_cons] at h; omega⟩
    rw [List.length_cons] at h
    have hGive : storedInflater.run (0, some byte) data (room + 1) =
        ⟨(0, none), data.length, byte :: data, .paused⟩ := by
      rw [Transducer.run]
      change (let piece := storedInflater.run (0, none) data room
        { piece with given := byte :: piece.given }) = _
      rw [ih room (by omega)]
    rw [Transducer.run]
    change (let piece := storedInflater.run (0, some byte) data (room + 1)
      { piece with taken := piece.taken + 1 }) = _
    rw [hGive]
    rfl

theorem run_storedImage {length room : Nat} (h : length ≤ room) :
    storedInflater.run storedInflater.init (storedImage length) room =
      ⟨(0, none), length + 5, List.replicate length 0, .paused⟩ := by
  have hData := run_stored (List.replicate length 0) room
    (by rw [List.length_replicate]; exact h)
  have hTake (header : Nat) (byte : UInt8) (input : List UInt8) :
      storedInflater.run (header + 1, none) (byte :: input) room =
        let piece := storedInflater.run (header, none) input room
        { piece with taken := piece.taken + 1 } := by
    rw [Transducer.run]
    rfl
  change storedInflater.run (5, none) (0x00 :: 0xFF :: 0xFF :: 0x00 :: 0x00 :: List.replicate length 0) room = _
  rw [hTake, hTake, hTake, hTake, hTake, hData, List.length_replicate]

def stagedReader (limits : Limits) (length : Nat) : StreamReader (Nat × Option UInt8) :=
  StreamReader.filled (.new storedInflater 0 limits) (storedImage length)

theorem storedImage_length (length : Nat) : (storedImage length).length = length + 5 := by
  rw [storedImage, List.length_append, List.length_replicate, Nat.add_comm]
  rfl

theorem inflate_stored (length : Nat) (hLength : 0 < length ∧ length ≤ 8193) :
    Ensures (StreamReader.inflate storedInflater 8193) (stagedReader (tightLimits 8193) length)
      (fun _ _ => False)
      fun e _ => e = .error (.limitExceeded
        (if length + 5 > 8192 then .compressedBytesPerStream else .inflatedBytesPerStream)) := by
  generalize hReader : stagedReader (tightLimits 8193) length = r
  have hPos : r.inputPos = 0 := hReader ▸ rfl
  have hConsumed : r.consumed = 0 := hReader ▸ rfl
  have hInflated : r.inflated = 0 := hReader ▸ rfl
  have hCompressed : r.limits.maxCompressedBytesPerStream.toNat = 8192 := hReader ▸ rfl
  have hMax : r.limits.maxInflatedBytesPerStream.toNat = 0 := hReader ▸ rfl
  have hRun : storedInflater.run r.state (r.input.drop 0) 8193 =
      ⟨(0, none), length + 5, List.replicate length 0, .paused⟩ := by
    rw [← hReader]
    exact run_storedImage hLength.2
  rw [StreamReader.inflate, ensures_bind, ensures_get]
  simp only [hRun, hPos, hConsumed, hInflated, hCompressed, hMax, List.length_replicate, Nat.zero_add,
    ensures_bind, ensures_rejectIf, ensures_set, ensures_modify]
  refine ⟨fun h => by omega, fun _ => ?_⟩
  rw [checkedAddBounded, if_neg (by omega), ensures_pure]
  refine ⟨fun h => ?_, fun h => ⟨fun h => by omega, fun _ => ?_⟩⟩
  · rw [if_pos (by omega)]
  rw [checkedAddBounded, if_neg (by omega), ensures_pure]
  refine ⟨fun _ => ?_, fun hNone => ?_⟩
  · rw [if_neg (by omega)]
  · omega

theorem attemptAt_stored :
    attemptAt storedInflater (storedImage 8188) (tightLimits 8193) 0 =
      .error (.limitExceeded .compressedBytesPerStream) := by
  have hImage : (storedImage 8188).length < 2 ^ 63 := by
    rw [storedImage_length]
    omega
  obtain ⟨-, hAttempt, -⟩ := attemptAt_spec storedInflater (tightLimits 8193)
    hImage (Nat.zero_le _)
  obtain ⟨_, r', hExec, rfl⟩ := (inflate_stored 8188 ⟨by omega, by omega⟩).exists_error
  have hStaged : ((storedImage 8188).drop 0).take 8193 = storedImage 8188 := by
    rw [List.drop_zero, List.take_of_length_le]
    rw [storedImage_length]
  have hStep : StreamReader.Step storedInflater (storedImage 8188)
      (.new storedInflater 0 (tightLimits 8193)) (stagedReader (tightLimits 8193) 8188) := by
    have h : StreamReader.Step storedInflater (storedImage 8188) _ _ :=
      .refill (r := .new storedInflater 0 (tightLimits 8193)) rfl rfl (by rw [storedImage_length]; exact Nat.succ_pos _)
    change StreamReader.Step _ _ _ (StreamReader.filled _ (((storedImage 8188).drop 0).take 8193)) at h
    rw [hStaged] at h
    exact h
  have hOwn : Attempt storedInflater (storedImage 8188) (.new storedInflater 0 (tightLimits 8193))
      (.error (.limitExceeded .compressedBytesPerStream)) := by
    refine ⟨_, .single hStep, .failed rfl ?_ hExec⟩
    change 0 ≠ (storedImage 8188).length
    rw [storedImage_length]
    omega
  exact hAttempt.unique hOwn

theorem read_wider {window : WindowSource} (room : Nat) (hBase : window.base = 0)
    (hFull : window.buffered.length = window.capacity) (hCapacity : 0 < window.capacity)
    (hRoom : window.capacity < room) (hSize : window.capacity < window.sourceSize) :
    Ensures (WindowSource.read 0 room) window (fun bytes w => bytes = window.buffered ∧ w = window)
      fun _ _ => False := by
  have hHeld : window.held 0 = window.buffered := by
    rw [held, if_pos (by omega), hBase]
    rfl
  rw [WindowSource.read, ensures_bind, ensures_get]
  simp only [hHeld]
  rw [ensures_ite]
  refine ⟨fun h => by omega, fun _ => ?_⟩
  rw [ensures_ite]
  refine ⟨fun h => by omega, fun _ => ?_⟩
  rw [copyOut, ensures_bind, ensures_get, ensures_bind, ensures_assertOrPanic (by omega), ensures_pure]
  refine ⟨?_, rfl⟩
  rw [hHeld, List.take_of_length_le (by omega)]

theorem driveAttempt_stored :
    Ensures (driveAttempt storedInflater)
      (.new storedInflater 0 (tightLimits 8193), fullWindow (storedImage 8188)) (fun _ _ => False)
      fun e _ => e = .error (.limitExceeded .inflatedBytesPerStream) := by
  have hHeld : (fullWindow (storedImage 8188)).buffered = storedImage 8187 := by
    change (storedImage 8188).take minimumWindowBytes = _
    rw [storedImage, minimumWindowBytes, List.take_append, List.take_of_length_le (by decide),
      List.take_replicate]
    rfl
  have hBase : (fullWindow (storedImage 8188)).base = 0 := rfl
  have hCapacity : (fullWindow (storedImage 8188)).capacity = 8192 := rfl
  have hSize : (fullWindow (storedImage 8188)).sourceSize = 8193 := storedImage_length 8188
  generalize fullWindow (storedImage 8188) = window at hHeld hBase hCapacity hSize
  have hLength := storedImage_length 8187
  rw [← hHeld] at hLength
  have hRead := read_wider 8193 hBase (by omega) (by omega) (by omega) (by omega)
  rw [hHeld] at hRead
  have hNonempty : storedImage 8187 ≠ [] := List.cons_ne_nil _ _
  have hRoom : ¬ (StreamReader.new storedInflater 0 (tightLimits 8193)).readCursor +
      (storedImage 8187).length ≥ 2 ^ 64 := by
    rw [← hHeld, hLength]
    change ¬ 0 + (8187 + 5) ≥ 2 ^ 64
    omega
  have hFetch : Ensures StreamReader.fetch (StreamReader.new storedInflater 0 (tightLimits 8193), window)
      (fun _ s => s.1 = stagedReader (tightLimits 8193) 8187) fun _ _ => False := by
    rw [StreamReader.fetch, ensures_bind, ensures_get, ensures_ite]
    refine ⟨fun _ => ?_, fun h => absurd rfl h⟩
    rw [ensures_bind, StreamReader.refill, ensures_bind, ensures_get, ensures_bind, onSource, ensures_zoom]
    refine Ensures.mono (m := WindowSource.read 0 8193) hRead ?_ fun _ _ h => h
    rintro _ w ⟨rfl, rfl⟩
    rw [ensures_bind, onReader, ensures_zoom, ensures_modify, if_neg hNonempty, ensures_bind,
      checkedAddBounded, if_neg hRoom, ensures_pure, ensures_bind, onReader,
      ensures_zoom, ensures_modify, ensures_pure, ensures_rejectIf]
    exact ⟨fun h => absurd h.symm Bool.false_ne_true, fun _ => rfl⟩
  apply ensures_loop_fails (by decide)
  rw [driveTurn, ensures_bind, ensures_get, ensures_ite]
  refine ⟨fun h => absurd h Bool.false_ne_true, fun _ => ?_⟩
  rw [ensures_bind, StreamReader.read, ensures_bind, ensures_get, ensures_ite]
  refine ⟨fun h => ?_, fun _ => ?_⟩
  · rcases h with h | h
    · cases h
    · exact absurd h (by decide)
  apply ensures_loop_fails (by decide)
  rw [StreamReader.readTurn, ensures_bind]
  refine hFetch.mono ?_ fun _ _ h => h.elim
  rintro _ ⟨_, w⟩ rfl
  rw [onReader, ensures_zoom]
  exact (inflate_stored 8187 ⟨by omega, by omega⟩).mono (fun _ _ h => h.elim) fun _ _ h => h

end Stored

end WiseBackend

end OpenHalfLife.Backends
