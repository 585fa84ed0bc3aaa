import OpenHalfLife.Wise.Attempt

/-! # What a walk decides about one stream

The result of each attempt is a function of its offset, and the stream that is
accepted, with the bytes skipped before it, a function of those results.
-/

namespace OpenHalfLife.Wise

open Machine StreamReader

set_option autoImplicit false

variable {σ : Type} {inflater : Transducer σ} {image : List UInt8} {limits : Limits}

def attemptAt (inflater : Transducer σ) (image : List UInt8) (limits : Limits) (offset : Nat) :
    Except WiseError StreamMetrics :=
  match ((inflateStream inflater offset limits).exec (SliceSource.mk image)).1 with
  | .ok metrics => .ok metrics
  | .error (.error e) => .error e
  | .error _ => .error .sourceFailed

variable (inflater) (limits) in
theorem attemptAt_spec {offset : Nat} (hImage : image.length < 2 ^ 63) (hOffset : offset ≤ image.length) :
    (inflateStream inflater offset limits).exec (SliceSource.mk image) =
        ((attemptAt inflater image limits offset).mapError .error, ⟨image⟩) ∧
      Attempt inflater image (.new inflater offset limits) (attemptAt inflater image limits offset) ∧
      attemptAt inflater image limits offset ≠ .error .sourceFailed := by
  obtain ⟨result, hExec, hAttempt, hFinal⟩ := inflateStream_exec inflater limits
    hImage hOffset
  have hResult : attemptAt inflater image limits offset = result := by
    rw [attemptAt, hExec]
    cases result <;> rfl
  rw [hResult]
  exact ⟨hExec, hAttempt, hFinal⟩

theorem Attempt.metrics_le {offset : Nat} {metrics : StreamMetrics} (hImage : image.length < 2 ^ 63)
    (hOffset : offset ≤ image.length)
    (h : Attempt inflater image (.new inflater offset limits) (.ok metrics)) :
    metrics.compressedOffset + metrics.compressedLen ≤ image.length ∧
      metrics.inflatedLen ≤ limits.maxInflatedBytesPerStream.toNat := by
  obtain ⟨r, hSteps, hVerdict⟩ := h
  have hKept := hSteps.kept hImage (new_valid hOffset)
  cases hVerdict with
  | finished =>
    have hCursor := hKept.valid.cursor_eq
    have hCursorLe := hKept.valid.cursor_le
    have hInflated := hKept.valid.inflated_le
    rw [hKept.limits] at hInflated
    refine ⟨?_, hInflated⟩
    simp only [StreamReader.metrics]
    omega

section Resolve

variable (attempts : Nat → Except WiseError StreamMetrics) (cursor stop : Nat)

def resolve (first : Except WiseError StreamMetrics) :
    List Nat → Except WiseError (StreamMetrics × Nat)
  | [] => first.map fun metrics => (metrics, 0)
  | skip :: skips =>
    if cursor + skip ≥ stop then
      first.map fun metrics => (metrics, 0)
    else
      match attempts (cursor + skip) with
      | .ok metrics => if metrics.checksum = .match_ then .ok (metrics, skip) else resolve first skips
      | .error e => if e.isFinal then .error e else resolve first skips

def resolveStream (limits : Limits) : Except WiseError (StreamMetrics × Nat) :=
  match attempts cursor with
  | .ok metrics =>
    if metrics.checksum = .match_ then .ok (metrics, 0)
    else resolve attempts cursor stop (.ok metrics) (Chain.skips limits)
  | .error e =>
    if e.isFinal then .error e else resolve attempts cursor stop (.error e) (Chain.skips limits)

variable {attempts} {cursor stop}

theorem resolve_eq_ok {first : Except WiseError StreamMetrics} {skips : List Nat} {metrics : StreamMetrics}
    {skip : Nat} (hFirst : ∀ m, first = .ok m → attempts cursor = .ok m) (hCursor : cursor < stop)
    (h : resolve attempts cursor stop first skips = .ok (metrics, skip)) :
    ∃ offset < stop, attempts offset = .ok metrics := by
  have hAsItIs (hMap : (first.map fun metrics => (metrics, 0)) = .ok (metrics, skip)) :
      ∃ offset < stop, attempts offset = .ok metrics := by
    cases first with
    | error => cases hMap
    | ok m =>
      cases hMap
      exact ⟨cursor, hCursor, hFirst _ rfl⟩
  induction skips with
  | nil => exact hAsItIs h
  | cons k skips ih =>
    rw [resolve] at h
    split at h
    · exact hAsItIs h
    · rename_i hInside
      split at h
      · rename_i m hAttempt
        split at h
        · cases h
          exact ⟨cursor + skip, Nat.lt_of_not_le hInside, hAttempt⟩
        · exact ih h
      · split at h
        · cases h
        · exact ih h

theorem resolveStream_eq_ok {metrics : StreamMetrics} {skip : Nat} (hCursor : cursor < stop)
    (h : resolveStream attempts cursor stop limits = .ok (metrics, skip)) :
    ∃ offset < stop, attempts offset = .ok metrics := by
  unfold resolveStream at h
  split at h
  · rename_i m hAttempt
    split at h
    · cases h
      exact ⟨cursor, hCursor, hAttempt⟩
    · exact resolve_eq_ok (fun _ hFirst => hFirst ▸ hAttempt) hCursor h
  · split at h
    · cases h
    · exact resolve_eq_ok (fun _ hFirst => by cases hFirst) hCursor h

end Resolve

namespace Chain

variable {chain : Chain}

theorem attempt_exec {offset : Nat} (hImage : image.length < 2 ^ 63) (hOffset : offset ≤ image.length) :
    (attempt inflater offset).exec (chain, SliceSource.mk image) =
      (.ok ((attemptAt inflater image chain.limits offset).mapError .error), chain, ⟨image⟩) := by
  rw [attempt, exec_bind]
  change exec (Machine.attempt _) (chain, SliceSource.mk image) = _
  rw [Machine.attempt, exec_ofFun, zoom, exec_ofFun]
  rw [(attemptAt_spec inflater chain.limits hImage hOffset).1]
  cases attemptAt inflater image chain.limits offset <;> rfl

def acceptResolved (resolved : Except WiseError (StreamMetrics × Nat)) :
    Machine (Stop WiseError) (Chain × SliceSource) ChainEvent :=
  match resolved with
  | .ok (metrics, skip) => onChain (accept metrics skip)
  | .error e => throw (.error e)

variable (inflater) in
theorem resync_exec (first : Except WiseError StreamMetrics) {skips : List Nat}
    (hImage : image.length < 2 ^ 63) (hStop : chain.stop ≤ image.length) (hCursor : chain.cursor < chain.stop)
    (hSkips : ∀ skip ∈ skips, skip < 2 ^ 8) :
    (resync inflater (first.mapError .error) skips).exec (chain, SliceSource.mk image) =
      (acceptResolved (resolve (attemptAt inflater image chain.limits) chain.cursor chain.stop first
        skips)).exec (chain, ⟨image⟩) := by
  have hConclude : (conclude (S := SliceSource) (first.mapError .error)) =
      acceptResolved (first.map fun metrics => (metrics, 0)) := by
    cases first <;> rfl
  induction skips with
  | nil => rw [resync, hConclude, resolve]
  | cons skip skips ih =>
    have hSkip := hSkips skip List.mem_cons_self
    have hRest := ih fun k hk => hSkips k (List.mem_cons_of_mem _ hk)
    have hFits : ¬ chain.cursor + skip ≥ 2 ^ 64 := by omega
    rw [resync, exec_bind]
    change exec (checkedAddBounded chain.cursor skip >>= _) (chain, SliceSource.mk image) = _
    rw [checkedAddBounded, if_neg hFits, pure_bind, resolve]
    split
    · rw [hConclude]
    · rename_i hInside
      rw [exec_bind, attempt_exec hImage (by omega)]
      cases hAttempt : attemptAt inflater image chain.limits (chain.cursor + skip) with
      | ok metrics =>
        simp only [Except.mapError]
        split
        · rfl
        · exact hRest
      | error e =>
        by_cases hFinal : e.isFinal = true
        · simp only [Except.mapError, Stop.isFinal, hFinal, if_true]
          rfl
        · simp only [Except.mapError, Stop.isFinal, hFinal]
          exact hRest

theorem nextStream_exec (hImage : image.length < 2 ^ 63) (hStop : chain.stop ≤ image.length)
    (hCursor : chain.cursor < chain.stop) :
    (nextStream inflater).exec (chain, SliceSource.mk image) =
      (acceptResolved (resolveStream (attemptAt inflater image chain.limits) chain.cursor chain.stop
        chain.limits)).exec (chain, ⟨image⟩) := by
  have hSkips : ∀ skip ∈ skips chain.limits, skip < 2 ^ 8 := by
    intro skip hSkip
    have hMax := chain.limits.maxResyncSkip.toNat_lt
    have hRange := List.mem_range'_1.mp hSkip
    omega
  have hResync (first : Except WiseError StreamMetrics) :=
    resync_exec inflater first hImage hStop hCursor hSkips
  rw [nextStream, exec_bind]
  change exec (attempt inflater chain.cursor >>= _) (chain, SliceSource.mk image) = _
  rw [exec_bind, attempt_exec hImage (by omega), resolveStream]
  cases attemptAt inflater image chain.limits chain.cursor with
  | ok metrics =>
    simp only [Except.mapError]
    split
    · rfl
    · exact hResync (.ok metrics)
  | error e =>
    by_cases hFinal : e.isFinal = true
    · simp only [Except.mapError, Stop.isFinal, hFinal, if_true]
      rfl
    · simp only [Except.mapError, Stop.isFinal, hFinal]
      exact hResync (.error e)

section Collect

variable {records : List StreamRecord} {metrics : StreamMetrics} {skip : Nat}

def behind (chain : Chain) (metrics : StreamMetrics) : Chain :=
  { chain with
    totalInflated := chain.totalInflated + metrics.inflatedLen
    index := chain.index + 1
    cursor := metrics.compressedOffset + metrics.compressedLen + metrics.trailer }

theorem nextOffset_eq {τ : Type}
    (h : metrics.compressedOffset + metrics.compressedLen < 2 ^ 63) :
    (metrics.nextOffset : Machine (Stop WiseError) τ Nat) =
      pure (metrics.compressedOffset + metrics.compressedLen + metrics.trailer) := by
  have hTrailer : metrics.trailer ≤ 4 := by
    unfold StreamMetrics.trailer
    split <;> omega
  rw [StreamMetrics.nextOffset, addOrPanic, if_neg (by omega), pure_bind, addOrPanic, if_neg (by omega)]

theorem accept_overflow (hTotal : 2 ^ 64 ≤ chain.totalInflated + metrics.inflatedLen) :
    (accept metrics skip).exec chain = (.error (.error .malformedExecutable), chain) := by
  rw [accept, exec_bind]
  change exec (checkedAddBounded _ _ >>= _) chain = _
  rw [checkedAddBounded, if_pos hTotal]
  rfl

theorem accept_limit (hTotal : chain.totalInflated + metrics.inflatedLen < 2 ^ 64)
    (hMax : chain.limits.maxTotalInflatedBytes.toNat < chain.totalInflated + metrics.inflatedLen) :
    (accept metrics skip).exec chain = (.error (.error (.limitExceeded .totalInflatedBytes)),
      { chain with totalInflated := chain.totalInflated + metrics.inflatedLen }) := by
  rw [accept, exec_bind]
  change exec (checkedAddBounded _ _ >>= _) chain = _
  rw [checkedAddBounded, if_neg (by omega), pure_bind, rejectIf, if_pos hMax]
  rfl

theorem accept_exec (hTotal : chain.totalInflated + metrics.inflatedLen < 2 ^ 64)
    (hMax : chain.totalInflated + metrics.inflatedLen ≤ chain.limits.maxTotalInflatedBytes.toNat)
    (hIndex : chain.index + 1 < 2 ^ 32) (hNext : metrics.compressedOffset + metrics.compressedLen < 2 ^ 63) :
    (accept metrics skip).exec chain =
      (announce ⟨chain.index, metrics, skip⟩).exec (chain.behind metrics) := by
  rw [accept, exec_bind]
  change exec (checkedAddBounded _ _ >>= _) chain = _
  rw [checkedAddBounded, if_neg (by omega), pure_bind, rejectIf, if_neg (by omega), checkedIncrement,
    if_neg (by omega), nextOffset_eq hNext]
  rfl

structure Running (chain : Chain) : Prop where
  finished : chain.finished = false
  pending : chain.pending = none

theorem collectTurn_exec (hRunning : chain.Running) :
    (collectTurn inflater).exec (records, chain, SliceSource.mk image) =
      match (step inflater).exec (chain, SliceSource.mk image) with
      | (.ok none, chain, source) => (.ok (some ()), records, { chain with finished := true }, source)
      | (.ok (some (.stream record)), s) => (.ok none, records ++ [record], s)
      | (.ok (some (.resynced _ _)), s) => (.ok none, records, s)
      | (.error e, chain, source) => (.error e, records, { chain with finished := true }, source) := by
  have hEvent : (nextEvent inflater).exec (chain, SliceSource.mk image) =
      match (step inflater).exec (chain, SliceSource.mk image) with
      | (.ok none, chain, source) => (.ok none, { chain with finished := true }, source)
      | (.ok (some event), s) => (.ok (some event), s)
      | (.error e, chain, source) => (.error e, { chain with finished := true }, source) := by
    rw [nextEvent, exec_bind, exec_get]
    simp only [hRunning.pending]
    rw [if_neg (by rw [hRunning.finished]; exact Bool.false_ne_true), exec_bind, Machine.attempt, exec_ofFun]
    rcases (step inflater).exec (chain, SliceSource.mk image) with ⟨e | _ | event, t⟩ <;> rfl
  rw [collectTurn, exec_bind, zoom, exec_ofFun]
  simp only [hEvent]
  rcases (step inflater).exec (chain, SliceSource.mk image) with ⟨e | _ | _ | _, t⟩ <;> rfl

theorem collect_pending {record : StreamRecord} (hPending : chain.pending = some record) :
    (collectTurn inflater).exec (records, chain, SliceSource.mk image) =
      (.ok none, records ++ [record], { chain with pending := none }, ⟨image⟩) := by
  have hEvent : (nextEvent inflater).exec (chain, SliceSource.mk image) =
      (.ok (some (.stream record)), { chain with pending := none }, ⟨image⟩) := by
    rw [nextEvent, exec_bind, exec_get]
    simp only [hPending]
    rfl
  rw [collectTurn, exec_bind, zoom, exec_ofFun]
  simp only [hEvent]
  rfl

theorem step_exec (hImage : image.length < 2 ^ 63) (hStop : chain.stop ≤ image.length)
    (hRoom : chain.cursor + minStreamBytes ≤ chain.stop) (hIndex : chain.index < chain.limits.maxStreams.toNat) :
    (step inflater).exec (chain, SliceSource.mk image) =
      (some <$> acceptResolved (resolveStream (attemptAt inflater image chain.limits) chain.cursor chain.stop
        chain.limits)).exec (chain, ⟨image⟩) := by
  have hMore : ¬ (chain.cursor ≥ chain.stop ∨ chain.stop - chain.cursor < minStreamBytes) := by
    rw [minStreamBytes] at hRoom ⊢
    omega
  have hCursor : chain.cursor < chain.stop := by
    rw [minStreamBytes] at hRoom
    omega
  rw [step, exec_bind]
  change exec (if _ then _ else _) (chain, SliceSource.mk image) = _
  rw [if_neg hMore, rejectIf, if_neg (by omega), pure_bind, exec_bind, nextStream_exec hImage hStop hCursor,
    map_eq_pure_bind, exec_bind]

theorem collect_end (hRunning : chain.Running) (hEnd : chain.stop < chain.cursor + minStreamBytes) :
    (collectTurn inflater).exec (records, chain, SliceSource.mk image) =
      (.ok (some ()), records, { chain with finished := true }, ⟨image⟩) := by
  have hStep : (step inflater).exec (chain, SliceSource.mk image) = (.ok none, chain, ⟨image⟩) := by
    rw [step, exec_bind]
    change exec (if _ then _ else _) (chain, SliceSource.mk image) = _
    rw [if_pos (by rw [minStreamBytes] at hEnd ⊢; omega)]
    rfl
  rw [collectTurn_exec hRunning, hStep]

theorem collect_full (hRunning : chain.Running) (hRoom : chain.cursor + minStreamBytes ≤ chain.stop)
    (hIndex : chain.limits.maxStreams.toNat ≤ chain.index) :
    (collectTurn inflater).exec (records, chain, SliceSource.mk image) =
      (.error (.error (.limitExceeded .streams)), records, { chain with finished := true }, ⟨image⟩) := by
  have hStep : (step inflater).exec (chain, SliceSource.mk image) =
      (.error (.error (.limitExceeded .streams)), chain, ⟨image⟩) := by
    rw [step, exec_bind]
    change exec (if _ then _ else _) (chain, SliceSource.mk image) = _
    rw [if_neg (by rw [minStreamBytes] at hRoom ⊢; omega), rejectIf, if_pos hIndex]
    rfl
  rw [collectTurn_exec hRunning, hStep]

variable (inflater) (records) (metrics) (skip) in
theorem collect_accepted (hRunning : chain.Running) (hImage : image.length < 2 ^ 63)
    (hStop : chain.stop ≤ image.length) (hRoom : chain.cursor + minStreamBytes ≤ chain.stop)
    (hIndex : chain.index < chain.limits.maxStreams.toNat) (hResyncs : chain.resyncs ≤ chain.index)
    (hResolved : resolveStream (attemptAt inflater image chain.limits) chain.cursor chain.stop chain.limits =
      .ok (metrics, skip))
    (hTotal : chain.totalInflated + metrics.inflatedLen < 2 ^ 64)
    (hMax : chain.totalInflated + metrics.inflatedLen ≤ chain.limits.maxTotalInflatedBytes.toNat)
    (hNext : metrics.compressedOffset + metrics.compressedLen < 2 ^ 63) :
    ∃ resyncs ≤ chain.index + 1, ∀ final,
      Loops (collectTurn inflater) (records ++ [⟨chain.index, metrics, skip⟩],
          { chain.behind metrics with resyncs }, SliceSource.mk image) final →
        Loops (collectTurn inflater) (records, chain, ⟨image⟩) final := by
  have hMaxStreams := chain.limits.maxStreams.toNat_lt
  have hStep : (step inflater).exec (chain, SliceSource.mk image) =
      (some <$> onChain (announce ⟨chain.index, metrics, skip⟩)).exec (chain.behind metrics, ⟨image⟩) := by
    rw [step_exec hImage hStop hRoom hIndex, hResolved, map_eq_pure_bind, exec_bind, map_eq_pure_bind,
      exec_bind]
    rw [acceptResolved, onChain, zoom, exec_ofFun, onChain, zoom, exec_ofFun,
      accept_exec hTotal hMax (by omega) hNext]
  by_cases hSkip : skip > 0
  · refine ⟨chain.resyncs + 1, by omega, fun final h => ?_⟩
    have hAnnounce : (announce ⟨chain.index, metrics, skip⟩).exec (chain.behind metrics) =
        (.ok (.resynced chain.index skip),
          { chain.behind metrics with
            resyncs := chain.resyncs + 1
            pending := some ⟨chain.index, metrics, skip⟩ }) := by
      rw [announce, if_pos hSkip, exec_bind]
      change exec (checkedIncrement chain.resyncs >>= _) (chain.behind metrics) = _
      rw [checkedIncrement, if_neg (by omega)]
      rfl
    let pending : Chain := { chain.behind metrics with
      resyncs := chain.resyncs + 1
      pending := some ⟨chain.index, metrics, skip⟩ }
    have hOwed : { pending with pending := none } =
        { chain.behind metrics with resyncs := chain.resyncs + 1 } := by
      simp only [pending, behind, hRunning.pending]
    have hFirst : (collectTurn inflater).exec (records, chain, SliceSource.mk image) =
        (.ok none, records, pending, ⟨image⟩) := by
      rw [collectTurn_exec hRunning, hStep, map_eq_pure_bind, exec_bind, onChain, zoom, exec_ofFun, hAnnounce]
      rfl
    have hSecond : (collectTurn inflater).exec (records, pending, SliceSource.mk image) =
        (.ok none, records ++ [⟨chain.index, metrics, skip⟩], { pending with pending := none }, ⟨image⟩) :=
      collect_pending rfl
    exact .turn hFirst (.turn hSecond (hOwed ▸ h))
  · refine ⟨chain.resyncs, by omega, fun final h => .turn ?_ h⟩
    have hAnnounce : (announce ⟨chain.index, metrics, skip⟩).exec (chain.behind metrics) =
        (.ok (.stream ⟨chain.index, metrics, skip⟩), chain.behind metrics) := by
      rw [announce, if_neg hSkip]
      rfl
    rw [collectTurn_exec hRunning, hStep, map_eq_pure_bind, exec_bind, onChain, zoom, exec_ofFun, hAnnounce]
    rfl

variable (inflater) (records) in
theorem collect_failed (e : Stop WiseError) (chain' : Chain) (hRunning : chain.Running)
    (hImage : image.length < 2 ^ 63) (hStop : chain.stop ≤ image.length)
    (hRoom : chain.cursor + minStreamBytes ≤ chain.stop) (hIndex : chain.index < chain.limits.maxStreams.toNat)
    (hFails : (acceptResolved (resolveStream (attemptAt inflater image chain.limits) chain.cursor chain.stop
      chain.limits)).exec (chain, ⟨image⟩) = (.error e, chain', ⟨image⟩)) :
    (collectTurn inflater).exec (records, chain, SliceSource.mk image) =
      (.error e, records, { chain' with finished := true }, ⟨image⟩) := by
  rw [collectTurn_exec hRunning, step_exec hImage hStop hRoom hIndex, map_eq_pure_bind, exec_bind, hFails]

end Collect

end Chain

end OpenHalfLife.Wise
