import OpenHalfLife.Isz.Archive

/-! # Every call of an entry reader

However the container answers, a call comes to an end, and what the calls
return is the entry's bytes, or what the decoder makes of them in one call.
-/

namespace OpenHalfLife.Isz

open Machine

set_option autoImplicit false

namespace EntryReader

variable {ω : Type} {c : Container ω} {content data made bytes : List UInt8} {r : EntryReader} {w : ω}

def ahead (r : EntryReader) (content : List UInt8) : List UInt8 := (content.drop r.position).take r.storedLeft

def pending (r : EntryReader) : List UInt8 := r.output.drop r.outputPosition

theorem ahead_eq_append (hLeft : bytes.length ≤ r.storedLeft)
    (hServed : bytes = (content.drop r.position).take bytes.length) :
    r.ahead content = bytes ++ (r.queue bytes).ahead content := by
  obtain ⟨left, hSum⟩ := Nat.exists_eq_add_of_le hLeft
  simp only [ahead, queue, hSum, Nat.add_sub_cancel_left]
  rw [List.take_add, ← hServed, List.drop_drop]

/-- `made` is what the reader has got out of `data` so far. -/
inductive Made (content data : List UInt8) (r : EntryReader) (made : List UInt8) : Prop
  | stored (hStored : r.stored = true) (hData : data = made ++ r.ahead content)
      (hEnd : r.finished = true → r.storedLeft = 0)
  | imploding (hStored : r.stored = false) (hRunning : r.finished = false) {front : List UInt8}
      (hData : data = front ++ (r.input ++ r.ahead content))
      (hMakes : Explode.Makes data made r.explode
        ⟨data, front.length, r.explode.savedBuffer, r.explode.savedCount⟩)
  | imploded (hStored : r.stored = false) (hFinished : r.finished = true) (hExplodes : Explode.Explodes data made)

/-- The stored bytes are good for exactly the recorded size. -/
def Whole (data : List UInt8) (r : EntryReader) : Prop :=
  if r.stored then data.length = r.expandedSize
  else ∃ outs, Explode.Explodes data outs ∧ outs.length = r.expandedSize

section Stored

variable (hStored : r.stored = true) (hData : data = made ++ r.ahead content)

include hStored hData

theorem made_end (hNone : r.storedLeft = 0) : Made content data { r with finished := true } (made ++ []) := by
  apply Made.stored
  · exact hStored
  · rw [List.append_nil]
    exact hData
  · exact fun _ => hNone

theorem made_take (hRunning : r.finished = false) (hCopied : Copied c r bytes) (hServes : c.Serves content) :
    Made content data (r.take bytes) (made ++ bytes) := by
  apply Made.stored
  · exact hStored
  · have hLength := hCopied.length
    rw [hData, ahead_eq_append (by omega) (hCopied.served content hServes), List.append_assoc]
    rfl
  · intro hFinished
    exact absurd (hRunning.symm.trans hFinished) (by decide)

theorem not_whole_end (hWritten : r.written = made.length) (hNone : r.storedLeft = 0)
    (hShort : r.written ≠ r.expandedSize) : ¬ Whole data r := by
  simp only [Whole, hStored, if_true, hData, ahead, hNone, List.take_zero, List.append_nil]
  omega

theorem not_whole_take (hWritten : r.written = made.length) (hCopied : Copied c r bytes)
    (hServes : c.Serves content) (hLong : r.expandedSize < (r.take bytes).written) : ¬ Whole data r := by
  have hLength := hCopied.length
  have hAhead := ahead_eq_append (by omega) (hCopied.served content hServes)
  simp only [take] at hLong
  simp only [Whole, hStored, if_true, hData, hAhead, List.length_append]
  omega

end Stored

section Imploding

open Explode

variable {front : List UInt8} (hRunning : r.finished = false)
  (hData : data = front ++ (r.input ++ r.ahead content))
  (hMakes : Makes data made r.explode ⟨data, front.length, r.explode.savedBuffer, r.explode.savedCount⟩)
  (hFilled : Filled c r bytes) (hServes : c.Serves content) (hOutput : r.output = []) (hChunk : 2 * maxMatch ≤ r.chunk)

include hData hMakes hFilled hServes hOutput hChunk

theorem exploded_makes : ∃ e s, Trail turn r.explode ⟨r.input ++ bytes, 0, r.explode.savedBuffer, r.explode.savedCount⟩
      (r.exploded bytes).out e s ∧
    Makes data (made ++ (r.exploded bytes).out) e (s.within front ((r.queue bytes).ahead content)) ∧
    e.At s ∧ s.Over (r.input ++ bytes) ∧
    Stop (r.storedLeft - bytes.length = 0) r.chunk e s (r.exploded bytes).out (r.exploded bytes).result
      (r.exploded bytes).explode := by
  have hWhole : data = front ++ (r.input ++ bytes) ++ (r.queue bytes).ahead content := by
    rw [hData, ahead_eq_append hFilled.left (hFilled.served content hServes)]
    simp only [List.append_assoc]
  have hAt := (new_at data).trail hMakes
  have hBudget : maxMatch ≤ r.chunk := by omega
  obtain ⟨pushed, e, s, hTrail, hOut, hStop⟩ := decode_follows (decide (r.storedLeft - bytes.length = 0))
    (r.input ++ bytes) hBudget hAt.running
  have hExploded : r.exploded bytes = r.explode.decode (r.input ++ bytes) (r.storedLeft - bytes.length = 0) [] r.chunk := by
    rw [exploded, hOutput]
  rw [← hExploded] at hOut hStop
  rw [List.nil_append] at hOut
  rw [← hOut] at hTrail
  have hLift := hTrail.within turn_steady front ((r.queue bytes).ahead content)
  have hStart : bitFeed.within front ((r.queue bytes).ahead content)
      ⟨r.input ++ bytes, 0, r.explode.savedBuffer, r.explode.savedCount⟩ =
        ⟨data, front.length, r.explode.savedBuffer, r.explode.savedCount⟩ := by
    simp only [bitFeed, BitReader.within, ← hWhole, Nat.add_zero]
  rw [hStart] at hLift
  have hHere : r.explode.At ⟨r.input ++ bytes, 0, r.explode.savedBuffer, r.explode.savedCount⟩ :=
    ⟨rfl, hAt.dictionary, hAt.running⟩
  have hOver : s.Over (r.input ++ bytes) :=
    hTrail.keeps (P := fun _ s => s.Over (r.input ++ bytes))
      (fun e s out e' s' hOver hTurn => e.turn_regular.keeps _ s _ s' hOver hTurn) ⟨rfl, Nat.zero_le _⟩
  exact ⟨e, s, hTrail, hMakes.trans hLift, hHere.trail hTrail, hOver, hStop⟩

omit hData hMakes hServes hOutput hChunk hFilled in
theorem within_eq {s : BitReader} {e : Explode} {more : List UInt8} (hAt : e.At s) (hOver : s.Over (r.input ++ bytes))
    (hWhole : data = front ++ (r.input ++ bytes) ++ more) : s.within front more =
      ⟨data, (front ++ (r.input ++ bytes).take s.position).length, e.savedBuffer, e.savedCount⟩ := by
  obtain ⟨hInput, hPosition⟩ := hOver
  have hTake : ((r.input ++ bytes).take s.position).length = s.position := by
    rw [List.length_take]
    omega
  rw [← hAt.saved, List.length_append, hTake]
  simp only [BitReader.within, save, hInput, hWhole]

theorem made_settle (hStored : r.stored = false) {progress : Progress}
    (hResult : (r.exploded bytes).result = .ok progress) :
    Made content data (r.settle bytes progress) (made ++ (r.exploded bytes).out) ∧
      progress.consumed ≤ (r.input ++ bytes).length := by
  obtain ⟨e, s, -, hLift, hAt, hOver, hStop⟩ := exploded_makes hData hMakes hFilled hServes hOutput hChunk
  have hWhole : data = front ++ (r.input ++ bytes) ++ (r.queue bytes).ahead content := by
    rw [hData, ahead_eq_append hFilled.left (hFilled.served content hServes)]
    simp only [List.append_assoc]
  have hGoesOn (hState : (r.exploded bytes).explode = e) (hProgress : progress = ⟨s.position, false⟩) :
      Made content data (r.settle bytes progress) (made ++ (r.exploded bytes).out) := by
    rw [within_eq hAt hOver hWhole, ← hState] at hLift
    apply Made.imploding
    · exact hStored
    · rw [hProgress]
      rfl
    · simp only [settle, hProgress]
      rw [hWhole, List.append_assoc, List.append_assoc front, ← List.append_assoc (List.take _ _),
        List.take_append_drop]
      rfl
    · exact hLift
  rw [hResult] at hStop
  generalize hAfter : (r.exploded bytes).explode = after at hStop
  cases hStop with
  | full => exact ⟨hGoesOn hAfter rfl, hOver.2⟩
  | short => exact ⟨hGoesOn hAfter rfl, hOver.2⟩
  | @finished s' hNone =>
    have hSteady := e.turn_steady front ((r.queue bytes).ahead content) s
    rw [hNone] at hSteady
    have hOver' := e.turn_regular.keeps _ s _ s' hOver hNone
    exact ⟨.imploded hStored rfl ⟨e, _, _, hLift, hSteady⟩, hOver'.2⟩

theorem not_whole_settle (hStored : r.stored = false) (hWritten : r.written = made.length) {x : IszError}
    (hRefused : Refused c r bytes x) : ¬ Whole data r := by
  obtain ⟨e, s, hTrail, hLift, hAt, hOver, hStop⟩ := exploded_makes hData hMakes hFilled hServes hOutput hChunk
  simp only [Whole, hStored, Bool.false_eq_true, if_false]
  rintro ⟨outs, hExplodes, hSize⟩
  have hPrefix := (hExplodes.made_front hLift).length_le
  rw [List.length_append] at hPrefix
  cases hRefused with
  | decoder hError =>
    rw [hError] at hStop
    generalize (r.exploded bytes).explode = after at hStop
    cases hStop with
    | failed hFailed =>
      have hSteady := e.turn_steady front ((r.queue bytes).ahead content) s
      rcases hFailed with hFailed | ⟨hFailed, hLast⟩
      · rw [hFailed] at hSteady
        exact hExplodes.not_error hLift _ (hSteady (fun h => by cases h))
      · rw [hFailed] at hSteady
        have hNone : (r.queue bytes).ahead content = [] := by
          simp only [ahead, queue, of_decide_eq_true hLast, List.take_zero]
        exact hExplodes.not_error hLift _ (hSteady fun _ => hNone)
  | @consumed progress hResult hMore =>
    have hConsumed := (made_settle hData hMakes hFilled hServes hOutput hChunk hStored hResult).2
    omega
  | long hResult hLong =>
    simp only [settle] at hLong
    omega
  | @short progress hResult hFinished hShort =>
    have hMade := (made_settle hData hMakes hFilled hServes hOutput hChunk hStored hResult).1
    cases hMade with
    | stored hOther => exact absurd (hStored.symm.trans hOther) (by decide)
    | imploding _ hOther => exact absurd (hFinished.symm.trans hOther) (by decide)
    | imploded _ _ hAll =>
      have hLength := congrArg List.length (hExplodes.unique hAll)
      rw [List.length_append] at hLength
      simp only [settle] at hShort
      omega
  | stuck hResult hFinished hConsumed hOut hBytes =>
    rw [hResult, hOut] at hStop
    generalize (r.exploded bytes).explode = after at hStop
    cases hStop with
    | full hFull =>
      rw [List.length_nil] at hFull
      simp only [maxMatch] at hFull hChunk
      omega
    | short hShort hLast =>
      -- A full queue holds far more than the bits of a token.
      have hLeft := of_decide_eq_false hLast
      have hFull := (hFilled.full hBytes).resolve_left (by omega)
      apply hAt.not_short _ hShort
      obtain ⟨hInput, -⟩ := hOver
      simp only [BitReader.left, hInput, hBytes, List.append_nil]
      simp only [maxMatch] at hChunk hConsumed
      omega
    | finished => cases hFinished

end Imploding

/-! ## The invariant of a reader -/

variable {r₀ : EntryReader} {returned : List UInt8}

theorem Made.output (h : Made content data r made) (output : List UInt8) (outputPosition : Nat) :
    Made content data { r with output := output, outputPosition := outputPosition } made := by
  cases h with
  | stored hStored hData hEnd => exact .stored hStored hData hEnd
  | imploding hStored hRunning hData hMakes => exact .imploding hStored hRunning hData hMakes
  | imploded hStored hFinished hExplodes => exact .imploded hStored hFinished hExplodes

/-- A reader that began as `r₀` and whose calls have returned `returned`. -/
structure Inv (c : Container ω) (r₀ r : EntryReader) (returned : List UInt8) : Prop where
  size : r.expandedSize = r₀.expandedSize
  kind : r.stored = r₀.stored
  chunk : 2 * maxMatch ≤ r.chunk
  counted : r.written = (returned ++ r.pending).length
  bounded : r.written ≤ r.expandedSize
  ended : r.finished = true → r.written = r.expandedSize
  spent : r.stored = true → r.written + r.storedLeft = r₀.storedLeft
  made : ∀ content, c.Serves content → Made content (r₀.ahead content) r (returned ++ r.pending)

theorem Inv.clear (h : Inv c r₀ r returned) (hDrained : r.pending = []) : Inv c r₀ r.clear returned := by
  have hCounted := h.counted
  have hMade := h.made
  rw [hDrained] at hCounted hMade
  exact ⟨h.size, h.kind, h.chunk, hCounted, h.bounded, h.ended, h.spent, fun content hServes => (hMade content hServes).output [] 0⟩

theorem Inv.whole_iff (h : Inv c r₀ r returned) (data : List UInt8) : Whole data r₀ ↔ Whole data r := by
  rw [Whole, Whole, h.size, h.kind]

theorem Inv.ahead_eq (h : Inv c r₀ r returned) (hDrained : r.pending = []) (hStored : r.stored = true)
    (hServes : c.Serves content) : r₀.ahead content = returned ++ r.ahead content := by
  have hMade := h.made content hServes
  rw [hDrained, List.append_nil] at hMade
  cases hMade with
  | stored _ hData _ => exact hData
  | imploding hOther | imploded hOther => exact absurd (hStored.symm.trans hOther) (by decide)

theorem Inv.makes (h : Inv c r₀ r returned) (hDrained : r.pending = []) (hImploded : r.stored = false)
    (hRunning : r.finished = false) (hServes : c.Serves content) :
    ∃ front, r₀.ahead content = front ++ (r.input ++ r.ahead content) ∧ Explode.Makes (r₀.ahead content) returned
      r.explode ⟨r₀.ahead content, front.length, r.explode.savedBuffer, r.explode.savedCount⟩ := by
  have hMade := h.made content hServes
  rw [hDrained, List.append_nil] at hMade
  cases hMade with
  | stored hOther => exact absurd (hImploded.symm.trans hOther) (by decide)
  | imploding _ _ hData hMakes => exact ⟨_, hData, hMakes⟩
  | imploded _ hOther => exact absurd (hRunning.symm.trans hOther) (by decide)

def Deserved (c : Container ω) (r₀ : EntryReader) (x : IszError) : Prop :=
  x.OfEntry → ∀ content, c.Serves content → ¬ Whole (r₀.ahead content) r₀

def work (r : EntryReader) : Nat := 2 * r.storedLeft + r.input.length

theorem stepStored_inv (h : Inv c r₀ r returned) (hDrained : r.pending = []) (hRunning : r.finished = false)
    (hStored : r.stored = true) (hPosition : r.outputPosition = 0) : Ensures (stepStored c) (r, w)
      (fun _ t => Inv c r₀ t.1 returned ∧ (t.1.finished = true ∨ t.1.pending ≠ []))
      (fun x _ => Deserved c r₀ x) := by
  have hWritten : r.written = returned.length := by rw [h.counted, hDrained, List.append_nil]
  apply (stepStored_spec c r w).mono
  · rintro _ ⟨t, w'⟩ (⟨hNone, rfl, hWhole⟩ | ⟨hSome, bytes, hCopied, rfl, hBounded⟩)
    · refine ⟨⟨h.size, h.kind, h.chunk, h.counted, h.bounded, fun _ => hWhole, h.spent, fun content hServes => ?_⟩, .inl rfl⟩
      have hMade := made_end hStored (h.ahead_eq hDrained hStored hServes) hNone
      rwa [← hDrained] at hMade
    · have hLength := hCopied.length
      have hChunk := h.chunk
      have hPending : (r.take bytes).pending = bytes := by rw [pending, take, hPosition, List.drop_zero]
      have hSpent := h.spent hStored
      refine ⟨⟨h.size, h.kind, h.chunk, ?_, hBounded, ?_, fun _ => ?_, fun content hServes => ?_⟩, .inr ?_⟩
      · rw [hPending, List.length_append, ← hWritten, take]
      · intro hFinished
        exact absurd (hRunning.symm.trans hFinished) (by decide)
      · simp only [take]
        omega
      · rw [hPending]
        exact made_take hStored (h.ahead_eq hDrained hStored hServes) hRunning hCopied hServes
      · rw [hPending]
        apply List.ne_nil_of_length_pos
        simp only [maxMatch] at hChunk
        omega
  · rintro x _ hReason hBlame content hServes
    rw [h.whole_iff]
    have hData := h.ahead_eq hDrained hStored hServes
    rcases hReason hBlame with ⟨hNone, hShort⟩ | ⟨bytes, hCopied, hLong⟩
    · exact not_whole_end hStored hData hWritten hNone hShort
    · exact not_whole_take hStored hData hWritten hCopied hServes hLong

theorem stepImploded_inv (h : Inv c r₀ r returned) (hDrained : r.output = []) (hRunning : r.finished = false)
    (hImploded : r.stored = false) (hPosition : r.outputPosition = 0) : Ensures (stepImploded c) (r, w)
      (fun _ t => Inv c r₀ t.1 returned ∧ (t.1.finished = true ∨ t.1.pending ≠ [] ∨ t.1.work < r.work))
      (fun x _ => Deserved c r₀ x) := by
  have hNothing : r.pending = [] := by rw [pending, hDrained, List.drop_nil]
  have hWritten : r.written = returned.length := by rw [h.counted, hNothing, List.append_nil]
  apply (stepImploded_spec c r w hRunning).mono
  · rintro _ ⟨t, w'⟩ ⟨bytes, progress, hStepped, rfl⟩
    have hPending : (r.settle bytes progress).pending = (r.exploded bytes).out := by
      rw [pending, settle, queue, hPosition, List.drop_zero]
    refine ⟨⟨h.size, h.kind, h.chunk, ?_, hStepped.bounded, hStepped.ended, ?_, fun content hServes => ?_⟩, ?_⟩
    · rw [hPending, List.length_append, ← hWritten, settle]
    · intro hOther
      exact absurd (hImploded.symm.trans hOther) (by decide)
    · rw [hPending]
      obtain ⟨front, hData, hMakes⟩ := h.makes hNothing hImploded hRunning hServes
      exact (made_settle hData hMakes hStepped.filled hServes hDrained h.chunk hImploded hStepped.result).1
    · rw [hPending]
      by_cases hOut : (r.exploded bytes).out = []
      · cases hFinished : progress.finished with
        | true => exact .inl hFinished
        | false =>
          have hMoved : progress.consumed = 0 → 0 < bytes.length := fun hZero =>
            List.length_pos_of_ne_nil (hStepped.moved hFinished hZero hOut)
          have hLeft := hStepped.filled.left
          have hConsumed := hStepped.consumed
          refine .inr (.inr ?_)
          simp only [work, settle, queue, List.length_drop, List.length_append] at hConsumed ⊢
          omega
      · exact .inr (.inl hOut)
  · rintro x _ hReason hBlame content hServes
    rw [h.whole_iff]
    obtain ⟨bytes, hFilled, hRefused⟩ := hReason hBlame
    obtain ⟨front, hData, hMakes⟩ := h.makes hNothing hImploded hRunning hServes
    exact not_whole_settle hData hMakes hFilled hServes hDrained h.chunk hImploded hWritten hRefused

theorem step_inv (h : Inv c r₀ r returned) (hDrained : r.pending = []) (hRunning : r.finished = false) :
    Ensures (step c) (r, w)
      (fun _ t => Inv c r₀ t.1 returned ∧ (t.1.finished = true ∨ t.1.pending ≠ [] ∨ t.1.work < r.work))
      (fun x _ => Deserved c r₀ x) := by
  have hClear := h.clear hDrained
  apply ensures_step
  · intro hStored
    apply (stepStored_inv hClear rfl hRunning hStored rfl).mono
    · exact fun _ t ht => ⟨ht.1, ht.2.imp_right .inl⟩
    · exact fun _ _ hx => hx
  · intro hImploded
    exact stepImploded_inv hClear rfl hRunning hImploded rfl

/-! ## Calls -/

def turnsLeft (r : EntryReader) : Nat := if r.pending = [] ∧ r.finished = false then r.work + 1 else 0

theorem pending_drain (r : EntryReader) (n : Nat) :
    r.pending.take n ++ { r with outputPosition := r.outputPosition + n }.pending = r.pending := by
  rw [pending, pending, ← List.drop_drop, List.take_append_drop]

theorem readTurn_inv {length : Nat} (h : Inv c r₀ r returned) (hLength : 0 < length) : Ensures (readTurn c length) (r, w)
    (fun answer t => match answer with
      | none => Inv c r₀ t.1 returned ∧ turnsLeft t.1 < turnsLeft r
      | some bytes => Inv c r₀ t.1 (returned ++ bytes) ∧ (bytes = [] → t.1.finished = true ∧ t.1.pending = []))
    (fun x _ => Deserved c r₀ x) := by
  simp only [readTurn, ensures_bind, ensures_reader, ensures_ite, ensures_update, ensures_pure]
  refine ⟨fun hPending => ?_, fun hDrained => ⟨fun hFinished => ?_, fun hRunning => ?_⟩⟩
  · have hSplit : returned ++ r.pending = returned ++ List.take (min r.pending.length length) r.pending ++
        { r with outputPosition := r.outputPosition + min r.pending.length length }.pending := by
      rw [List.append_assoc, pending_drain]
    refine ⟨⟨h.size, h.kind, h.chunk, ?_, h.bounded, h.ended, h.spent, fun content hServes => ?_⟩, fun hNone => ?_⟩
    · exact h.counted.trans (congrArg List.length hSplit)
    · have hMade := (h.made content hServes).output r.output (r.outputPosition + min r.pending.length length)
      rwa [hSplit] at hMade
    · have hSome := List.length_pos_of_ne_nil hPending
      have hTaken := congrArg List.length hNone
      simp only [List.length_take, List.length_nil] at hTaken
      omega
  · have hNothing : r.pending = [] := not_not.mp hDrained
    exact ⟨by rwa [List.append_nil], fun _ => ⟨hFinished, hNothing⟩⟩
  · have hNothing : r.pending = [] := not_not.mp hDrained
    rw [Bool.not_eq_true] at hRunning
    simp only [onWorld, ensures_zoom, checkCancelled, ensures_ofFun]
    refine ⟨fun _ w' _ => ?_, fun x w' hCancelled hBlame => ?_⟩
    · apply (step_inv h hNothing hRunning).mono
      · rintro _ ⟨t, w''⟩ ⟨hInv, hMoved⟩
        refine ⟨hInv, ?_⟩
        have hBefore : r.turnsLeft = r.work + 1 := if_pos ⟨hNothing, hRunning⟩
        rw [hBefore, turnsLeft]
        split
        · rename_i hStill
          have hWork := (hMoved.resolve_left (by rw [hStill.2]; decide)).resolve_left (not_not.mpr hStill.1)
          omega
        · exact Nat.zero_lt_succ _
      · exact fun _ _ hx => hx
    · split at hCancelled <;> cases hCancelled
      cases hBlame

theorem read_inv {length : Nat} (h : Inv c r₀ r returned) (hLength : 0 < length) {fuel : Nat} (hFuel : r.turnsLeft < fuel) :
    ∃ answer, read c length fuel (r, w) = some answer ∧ Outcome
      (fun bytes t => Inv c r₀ t.1 (returned ++ bytes) ∧ (bytes = [] → t.1.finished = true ∧ t.1.pending = []))
      (fun x _ => Deserved c r₀ x) answer := by
  rw [read, if_neg (by omega)]
  apply repeatFor_ensures (fun s => Inv c r₀ s.1 returned) (fun s => s.1.turnsLeft) _ fuel (r, w) h hFuel
  intro s hInv
  apply (readTurn_inv (w := s.2) hInv hLength).mono
  · intro turn t ht
    cases turn <;> exact ht
  · exact fun _ _ hx => hx

theorem read_unique {length fuel fuel' : Nat} {s : EntryReader × ω} {a b : Except IszError (List UInt8) × EntryReader × ω}
    (h : read c length fuel s = some a) (h' : read c length fuel' s = some b) : a = b := by
  rw [read] at h h'
  split at h
  · rename_i hZero
    rw [if_pos hZero] at h'
    exact Option.some.inj (h.symm.trans h')
  · rename_i hLength
    rw [if_neg hLength] at h'
    exact repeatFor_unique h h'

theorem Returned.inv {s t : EntryReader × ω} (h : Returned c s bytes t) (hInv : Inv c r₀ s.1 []) : Inv c r₀ t.1 bytes := by
  induction h with
  | none => exact hInv
  | @read bytes more t u length fuel _ hLength hRead ih =>
    obtain ⟨answer, hAnswer, hOutcome⟩ := read_inv (w := t.2) ih hLength (Nat.lt_succ_self _)
    rw [read_unique hAnswer hRead] at hOutcome
    exact hOutcome.1

end EntryReader

/-! ## The entries of an archive -/

def Archive.storedBytes (archive : Archive) (entry : Entry) (content : List UInt8) : List UInt8 :=
  (content.drop (archive.base.toNat + entry.offset.toNat)).take entry.storedSize.toNat

def Entry.explode (entry : Entry) (data : List UInt8) : Explode.Decoded :=
  Explode.new.decode data true [] (entry.expandedSize.toNat + maxMatch)

/-- What calls have returned, and how the next one is answered, is as the stored bytes have it. -/
structure Exact (entry : Entry) (data bytes : List UInt8) (answer : Except IszError (List UInt8)) : Prop where
  copied : entry.isStored = true → bytes <+: data
  copiedAll : entry.isStored = true → answer = .ok [] → bytes = data ∧ data.length = entry.storedSize.toNat
  copyBlamed : entry.isStored = true → ∀ x, answer = .error x → x.OfEntry → data.length ≠ entry.expandedSize.toNat
  exploded : entry.isStored = false → bytes <+: (entry.explode data).out
  explodedAll : entry.isStored = false → answer = .ok [] →
    (entry.explode data).out = bytes ∧ ∃ consumed, (entry.explode data).result = .ok ⟨consumed, true⟩
  explodeBlamed : entry.isStored = false → ∀ x, answer = .error x → x.OfEntry → ∀ consumed,
    (entry.explode data).result = .ok ⟨consumed, true⟩ → (entry.explode data).out.length ≠ entry.expandedSize.toNat

namespace Archive

open EntryReader

variable {ω : Type} {c : Container ω} {content bytes : List UInt8} {archive archive' : Archive} {entry : Entry}
  {index : Nat} {reader r : EntryReader}

theorem openEntry_eq_ok (h : (openEntry index).exec archive = (.ok reader, archive')) :
    ∃ entry, archive.entries[index]? = some entry ∧ reader = archive.entryReader entry := by
  have hOpen : Ensures (openEntry index) archive
      (fun reader _ => ∃ entry, archive.entries[index]? = some entry ∧ reader = archive.entryReader entry)
      (fun _ _ => True) := by
    simp only [openEntry, ensures_bind, ensures_get]
    cases hEntry : archive.entries[index]? with
    | none => simp
    | some entry =>
      simp only [ensures_bind, ensures_rejectIf, ensures_set, ensures_pure]
      simp
  exact hOpen.of_ok h

theorem entryReader_inv (c : Container ω) (archive : Archive) (entry : Entry) :
    Inv c (archive.entryReader entry) (archive.entryReader entry) [] := by
  refine ⟨rfl, rfl, ?_, rfl, Nat.zero_le _, fun h => absurd h (by simp [entryReader]), fun _ => Nat.zero_add _, ?_⟩
  · simp only [entryReader]
    omega
  · intro content _
    cases hStored : entry.isStored with
    | true => exact .stored hStored rfl (fun h => absurd h (by simp [entryReader]))
    | false => exact .imploding hStored rfl (List.nil_append _).symm (.here _ _)

theorem whole_entryReader_stored (hStored : entry.isStored = true) (data : List UInt8) :
    Whole data (archive.entryReader entry) ↔ data.length = entry.expandedSize.toNat := by
  simp [Whole, entryReader, hStored]

theorem whole_entryReader_imploded (hImploded : entry.isStored = false) {data : List UInt8} {consumed : Nat}
    (hResult : (entry.explode data).result = .ok ⟨consumed, true⟩)
    (hSize : (entry.explode data).out.length = entry.expandedSize.toNat) : Whole data (archive.entryReader entry) := by
  simp only [Whole, entryReader, hImploded, Bool.false_eq_true, if_false]
  exact ⟨_, Explode.explodes_of_whole (Nat.le_add_left _ _) hResult, hSize⟩

theorem exact_of_inv (h : Inv c (archive.entryReader entry) r bytes) (hServes : c.Serves content)
    {answer : Except IszError (List UInt8)}
    (hEnd : answer = .ok [] → r.finished = true ∧ r.pending = [])
    (hBlamed : ∀ x, answer = .error x → Deserved c (archive.entryReader entry) x) :
    Exact entry (archive.storedBytes entry content) bytes answer := by
  have hMade := h.made content hServes
  have hData : (archive.entryReader entry).ahead content = archive.storedBytes entry content := rfl
  have hKind : r.stored = entry.isStored := h.kind
  have hCounted := h.counted
  have hBounded : r.written ≤ entry.expandedSize.toNat := le_of_le_of_eq h.bounded h.size
  rw [hData] at hMade
  have hFront : bytes <+: bytes ++ r.pending := List.prefix_append _ _
  constructor
  · intro hStored
    rw [← hKind] at hStored
    cases hMade with
    | stored _ hAll _ => exact hAll ▸ hFront.trans (List.prefix_append _ _)
    | imploding hOther | imploded hOther => exact absurd (hStored.symm.trans hOther) (by decide)
  · intro hStored hAnswer
    obtain ⟨hFinished, hNone⟩ := hEnd hAnswer
    rw [← hKind] at hStored
    have hSpent := h.spent hStored
    rw [hNone, List.append_nil] at hMade hCounted
    cases hMade with
    | stored _ hAll hLeft =>
      have hSame : bytes = archive.storedBytes entry content := by
        rw [hAll, ahead, hLeft hFinished, List.take_zero, List.append_nil]
      refine ⟨hSame, ?_⟩
      rw [← hSame, ← hCounted]
      rw [hLeft hFinished] at hSpent
      exact hSpent
    | imploding hOther | imploded hOther => exact absurd (hStored.symm.trans hOther) (by decide)
  · intro hStored x hError hBlame hLength
    exact hBlamed x hError hBlame content hServes ((whole_entryReader_stored hStored _).mpr hLength)
  · intro hImploded
    rw [← hKind] at hImploded
    have hBudget : (bytes ++ r.pending).length + maxMatch ≤ entry.expandedSize.toNat + maxMatch := by omega
    cases hMade with
    | stored hOther => exact absurd (hImploded.symm.trans hOther) (by decide)
    | imploding _ _ _ hMakes => exact hFront.trans (Explode.prefix_whole hMakes hBudget)
    | imploded _ _ hExplodes =>
      obtain ⟨e, s, s', hMakes, -⟩ := hExplodes
      exact hFront.trans (Explode.prefix_whole hMakes hBudget)
  · intro hImploded hAnswer
    obtain ⟨hFinished, hNone⟩ := hEnd hAnswer
    rw [← hKind] at hImploded
    rw [hNone, List.append_nil] at hMade hCounted
    cases hMade with
    | stored hOther => exact absurd (hImploded.symm.trans hOther) (by decide)
    | imploding _ hOther => exact absurd (hFinished.symm.trans hOther) (by decide)
    | imploded _ _ hExplodes => exact hExplodes.whole (by omega)
  · intro hImploded x hError hBlame consumed hResult hSize
    exact hBlamed x hError hBlame content hServes (whole_entryReader_imploded hImploded hResult hSize)

def storedEntry : Entry := ⟨3, 3, 1, 0x10, false, 1, 1⟩

def storedArchive : Archive := ⟨1, [storedEntry], ⟨10, 10, 1⟩, 10⟩

def storedContent : List UInt8 := [0, 0, 7, 8, 9]

end Archive

end OpenHalfLife.Isz
