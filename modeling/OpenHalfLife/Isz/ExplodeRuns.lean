import OpenHalfLife.Isz.Explode

/-! # What the decoder makes of a stream

The header and every token are turns of one trail over the stream. A call of
the decoder follows the trail for a while, and where the input is cut and where
a call stops for want of room do not change where the trail leads.
-/

namespace OpenHalfLife.Isz

set_option autoImplicit false

namespace Explode

variable {e e' : Explode} {r r' : BitReader} {pushed out : List UInt8} {last : Bool} {outBudget : Nat}

/-! ## Turns -/

def keep (e : Explode) : Partial Explode := fun r => .ok (e.save r, r)

def keepToken (e : Option (List UInt8 × Explode)) : Partial (Option (List UInt8 × Explode)) :=
  match e with
  | none => pure none
  | some (pushed, e) => return some (pushed, ← e.keep)

/-- The header, then a token at a time, each with what is held back of its last byte. -/
def turn (e : Explode) : Partial (Option (List UInt8 × Explode)) :=
  if e.headerRead then e.token >>= keepToken
  else e.header >>= fun e => keepToken (some ([], e))

theorem keep_regular (e : Explode) : bitFeed.Regular 0 e.keep := by
  constructor
  · intro front rest r
    rfl
  · intro r
    exact ⟨Nat.le_refl _, Nat.le_refl _⟩
  · intro input r a r' hOver h
    cases h
    exact hOver

theorem keepToken_regular (a : Option (List UInt8 × Explode)) : bitFeed.Regular (0 + 0) (keepToken a) := by
  cases a with
  | none => exact Feed.regular_pure none
  | some a => exact a.2.keep_regular.bind fun e => Feed.regular_pure _

theorem turn_regular (e : Explode) : bitFeed.Regular (1 + (2 * maxBits + 8 + max 2 e.distanceBits)) e.turn := by
  apply Feed.Regular.ite
  · exact e.token_regular.bind keepToken_regular
  · apply Feed.Regular.mono (e.header_regular.bind fun e => keepToken_regular (some ([], e)))
    simp only [maxBits]
    omega

theorem turn_steady (e : Explode) : bitFeed.Steady e.turn := e.turn_regular.steady

/-! ## What tokens leave alone -/

def settings (e : Explode) : Bool × Nat × Bool × Bool := (e.codedLiterals, e.distanceBits, e.headerRead, e.finished)

@[simp] theorem settings_push (e : Explode) (byte : UInt8) : (e.push byte).settings = e.settings := rfl

@[simp] theorem settings_copyBytes (e : Explode) (distance length : Nat) :
    (e.copyBytes distance length).2.settings = e.settings := by
  induction length generalizing e with
  | zero => rfl
  | succ length ih => simp [copyBytes, ih]

def SameSettings (e : Explode) (a : Option (List UInt8 × Explode)) : Prop :=
  ∀ pushed e', a = some (pushed, e') → e'.settings = e.settings

theorem literal_settings (e : Explode) : Feed.Yields e.SameSettings e.literal := by
  apply Feed.yields_bind
  intro literal
  apply Feed.Yields.ite
  · apply Feed.yields_pure
    intro pushed e' h
    cases h
    simp
  · exact Feed.yields_throw _

theorem copy_settings (e : Explode) (distance length : Nat) : Feed.Yields e.SameSettings (e.copy distance length) := by
  apply Feed.Yields.ite
  · exact Feed.yields_throw _
  · apply Feed.yields_pure
    intro pushed e' h
    have hSame := settings_copyBytes e distance length
    rwa [Option.some.inj h] at hSame

theorem pair_settings (e : Explode) : Feed.Yields e.SameSettings e.pair := by
  apply Feed.yields_bind
  intro lengthSymbol
  apply Feed.yields_bind
  intro extra
  apply Feed.Yields.ite
  · apply Feed.yields_pure
    intro pushed e' h
    cases h
  · apply Feed.yields_bind
    intro distanceSymbol
    apply Feed.yields_bind
    intro low
    exact copy_settings e _ _

theorem token_settings (e : Explode) : Feed.Yields e.SameSettings e.token := by
  apply Feed.yields_bind
  intro flag
  exact e.literal_settings.ite e.pair_settings

theorem header_settings (e : Explode) :
    Feed.Yields (fun e' => e'.distanceBits ≤ maxDictionaryCode ∧ e'.finished = e.finished) e.header := by
  apply Feed.yields_bind
  intro literalFlag
  apply Feed.yields_bind
  intro dictionary
  apply Feed.Yields.ite
  · exact Feed.yields_throw _
  · by_cases hRange : dictionary < minDictionaryCode ∨ maxDictionaryCode < dictionary
    · rw [if_pos hRange]
      exact Feed.yields_throw _
    · rw [if_neg hRange]
      apply Feed.yields_pure
      simp only [and_true]
      omega

/-- A decoder that has not come to the end code, at a reader with the bits it holds. -/
structure At (e : Explode) (r : BitReader) : Prop where
  saved : e.save r = e
  dictionary : e.distanceBits ≤ maxDictionaryCode
  running : e.finished = false

theorem new_at (input : List UInt8) : new.At ⟨input, 0, 0, 0⟩ := ⟨rfl, Nat.zero_le _, rfl⟩

theorem turn_some (h : e.turn.run r = .ok (some (pushed, e'), r')) :
    ∃ e'', e' = e''.save r' ∧ ((e.headerRead = true ∧ e.token.run r = .ok (some (pushed, e''), r')) ∨
      (e.headerRead = false ∧ pushed = [] ∧ e.header.run r = .ok (e'', r'))) := by
  rw [turn] at h
  split at h
  · rename_i hRead
    obtain ⟨a, s, hToken, hKeep⟩ := Feed.run_bind_eq_ok.mp h
    rcases a with _ | ⟨pushed, e''⟩ <;> cases hKeep
    exact ⟨e'', rfl, .inl ⟨hRead, hToken⟩⟩
  · rename_i hRead
    obtain ⟨e'', s, hHeader, hKeep⟩ := Feed.run_bind_eq_ok.mp h
    cases hKeep
    exact ⟨e'', rfl, .inr ⟨by simpa using hRead, rfl, hHeader⟩⟩

theorem At.next (hAt : e.At r) (h : e.turn.run r = .ok (some (pushed, e'), r')) : e'.At r' := by
  obtain ⟨e'', rfl, ⟨-, hToken⟩ | ⟨-, -, hHeader⟩⟩ := turn_some h
  · have hSame := token_settings e r _ r' hToken pushed e'' rfl
    simp only [settings, Prod.mk.injEq] at hSame
    exact ⟨rfl, hSame.2.1 ▸ hAt.dictionary, hSame.2.2.2.trans hAt.running⟩
  · obtain ⟨hDictionary, hFinished⟩ := header_settings e r e'' r' hHeader
    exact ⟨rfl, hDictionary, hFinished.trans hAt.running⟩

theorem At.trail (hAt : e.At r) (h : Trail turn e r pushed e' r') : e'.At r' :=
  h.keeps (fun _ _ _ _ _ hAt hTurn => hAt.next hTurn) hAt

theorem At.not_short (hAt : e.At r) (hLeft : 41 ≤ r.left) : e.turn.run r ≠ .error .needMoreInput := by
  intro h
  have hSpends := e.turn_regular.spends r
  rw [h] at hSpends
  have hDictionary := hAt.dictionary
  have := hSpends rfl
  simp only [bitFeed, maxBits, maxDictionaryCode] at this hDictionary
  omega

/-! ## Calls -/

/-- How a call ends that has come to `e` at `r` with `out`. -/
inductive Stop (last : Bool) (outBudget : Nat) (e : Explode) (r : BitReader) (out : List UInt8) :
    Except IszError Progress → Explode → Prop
  | full (h : outBudget < out.length + maxMatch) : Stop last outBudget e r out (.ok ⟨r.position, false⟩) e
  | finished {r' : BitReader} (h : e.turn.run r = .ok (none, r')) :
      Stop last outBudget e r out (.ok ⟨r'.position, true⟩) ({ e with finished := true }.save r')
  | short (h : e.turn.run r = .error .needMoreInput) (hLast : last = false) :
      Stop last outBudget e r out (.ok ⟨r.position, false⟩) e
  | failed {e' : Explode}
      (h : e.turn.run r = .error .failed ∨ e.turn.run r = .error .needMoreInput ∧ last = true) :
      Stop last outBudget e r out (.error .decompressionFailed) e'

/-- A call follows the trail from `e` at `r`. -/
def Follows (last : Bool) (outBudget : Nat) (e : Explode) (r : BitReader) (out : List UInt8) (d : Decoded) : Prop :=
  ∃ pushed e' r', Trail turn e r pushed e' r' ∧ d.out = out ++ pushed ∧
    Stop last outBudget e' r' d.out d.result d.explode

theorem Follows.next {d : Decoded} (hTurn : e.turn.run r = .ok (some (pushed, e'), r'))
    (h : Follows last outBudget e' r' (out ++ pushed) d) : Follows last outBudget e r out d := by
  obtain ⟨more, e'', r'', hTrail, hOut, hStop⟩ := h
  refine ⟨pushed ++ more, e'', r'', hTrail.next hTurn, ?_, hStop⟩
  rw [hOut, List.append_assoc]

theorem Stop.follows {result : Except IszError Progress} (h : Stop last outBudget e r out result e') :
    Follows last outBudget e r out ⟨result, e', out⟩ :=
  ⟨[], e, r, .here e r, by simp, h⟩

theorem turn_run_token (hRead : e.headerRead = true) : e.turn.run r = match e.token.run r with
    | .ok (none, r') => .ok (none, r')
    | .ok (some (pushed, e'), r') => .ok (some (pushed, e'.save r'), r')
    | .error x => .error x := by
  rw [turn, if_pos hRead, StateT.run_bind]
  rcases e.token.run r with x | ⟨_ | ⟨pushed, e'⟩, r'⟩ <;> rfl

theorem turn_run_header (hRead : e.headerRead = false) : e.turn.run r = match e.header.run r with
    | .ok (e', r') => .ok (some ([], e'.save r'), r')
    | .error x => .error x := by
  rw [turn, if_neg (by simp [hRead]), StateT.run_bind]
  rcases e.header.run r with x | ⟨e', r'⟩ <;> rfl

theorem decodeLoop_follows (hRead : e.headerRead = true) (hSaved : e.save r = e) :
    Follows last outBudget e r out (e.decodeLoop r last out outBudget) := by
  fun_induction decodeLoop e r last out outBudget with
  | case1 e r out hFull =>
    rw [hSaved]
    exact (Stop.full hFull).follows
  | case2 e r out hRoom r' hToken =>
    apply Stop.follows
    apply Stop.finished
    rw [turn_run_token hRead, hToken]
  | case3 e r out hRoom pushed e' r' hToken ih =>
    have hSame := token_settings e r _ r' hToken pushed e' rfl
    simp only [settings, Prod.mk.injEq] at hSame
    have hTurn : e.turn.run r = .ok (some (pushed, e'.save r'), r') := by rw [turn_run_token hRead, hToken]
    exact Follows.next hTurn (ih (hSame.2.2.1.trans hRead) rfl)
  | case4 e r out hRoom hToken =>
    apply Stop.follows
    apply Stop.failed
    rw [turn_run_token hRead, hToken]
    exact .inl rfl
  | case5 e r out hRoom hToken hLast =>
    apply Stop.follows
    apply Stop.failed
    rw [turn_run_token hRead, hToken]
    exact .inr ⟨rfl, hLast⟩
  | case6 e r out hRoom hToken hLast =>
    rw [hSaved]
    apply Stop.follows
    apply Stop.short _ (by simpa using hLast)
    rw [turn_run_token hRead, hToken]

theorem header_read (e : Explode) : Feed.Yields (fun e' => e'.headerRead = true) e.header := by
  apply Feed.yields_bind
  intro literalFlag
  apply Feed.yields_bind
  intro dictionary
  apply Feed.Yields.ite
  · exact Feed.yields_throw _
  · exact (Feed.yields_throw _).ite (Feed.yields_pure rfl)

theorem decode_follows (last : Bool) (input : List UInt8) (hBudget : maxMatch ≤ outBudget) (hRunning : e.finished = false) :
    Follows last outBudget e ⟨input, 0, e.savedBuffer, e.savedCount⟩ [] (e.decode input last [] outBudget) := by
  rw [decode, if_neg (by omega), if_neg (by simp [hRunning])]
  simp only
  split
  · rename_i hRead
    exact decodeLoop_follows hRead rfl
  · rename_i hRead
    rw [Bool.not_eq_true] at hRead
    split
    · rename_i e' r' hHeader
      have hTurn : e.turn.run ⟨input, 0, e.savedBuffer, e.savedCount⟩ = .ok (some ([], e'.save r'), r') := by
        rw [turn_run_header hRead, hHeader]
      exact Follows.next hTurn (decodeLoop_follows (header_read e _ e' r' hHeader) rfl)
    · rename_i hHeader
      apply Stop.follows
      apply Stop.failed
      rw [turn_run_header hRead, hHeader]
      exact .inl rfl
    · rename_i hHeader
      have hTurn : e.turn.run ⟨input, 0, e.savedBuffer, e.savedCount⟩ = .error .needMoreInput := by
        rw [turn_run_header hRead, hHeader]
      cases last with
      | true => exact (Stop.failed (.inr ⟨hTurn, rfl⟩)).follows
      | false => exact (Stop.short hTurn rfl).follows

/-! ## The whole stream at once -/

variable {data made outs : List UInt8}

/-- `made` is what the stream gives up to `e` at `r`. -/
abbrev Makes (data made : List UInt8) (e : Explode) (r : BitReader) : Prop := Trail turn new ⟨data, 0, 0, 0⟩ made e r

/-- The stream comes to its end code with `outs`. -/
def Explodes (data outs : List UInt8) : Prop := ∃ e r r', Makes data outs e r ∧ e.turn.run r = .ok (none, r')

theorem halts_of_none (h : e.turn.run r = .ok (none, r')) : Halts turn e r := by
  intro out e' r'' hNext
  rw [h] at hNext
  cases hNext

theorem halts_of_error {x : TokenStop} (h : e.turn.run r = .error x) : Halts turn e r := by
  intro out e' r'' hNext
  rw [h] at hNext
  cases hNext

theorem Explodes.made_front (h : Explodes data outs) (hMakes : Makes data made e r) : made <+: outs := by
  obtain ⟨e', r', r'', hEnd, hNone⟩ := h
  obtain ⟨more, rfl, -⟩ := hEnd.to_halt (halts_of_none hNone) hMakes
  exact List.prefix_append _ _

theorem Explodes.unique (h : Explodes data outs) (h' : Explodes data made) : made = outs := by
  obtain ⟨e, r, s, hEnd, hNone⟩ := h
  obtain ⟨e', r', s', hEnd', hNone'⟩ := h'
  exact (hEnd.halt_unique (halts_of_none hNone) hEnd' (halts_of_none hNone')).1

theorem Explodes.not_error (h : Explodes data outs) (hMakes : Makes data made e r) (x : TokenStop) :
    e.turn.run r ≠ .error x := by
  intro hError
  obtain ⟨e', r', s', hEnd, hNone⟩ := h
  obtain ⟨-, rfl, rfl⟩ := hEnd.halt_unique (halts_of_none hNone) hMakes (halts_of_error hError)
  rw [hNone] at hError
  cases hError

def whole (data : List UInt8) (outBudget : Nat) : Decoded := new.decode data true [] outBudget

theorem whole_follows (data : List UInt8) (hBudget : maxMatch ≤ outBudget) :
    ∃ e r, Makes data (whole data outBudget).out e r ∧
      Stop true outBudget e r (whole data outBudget).out (whole data outBudget).result (whole data outBudget).explode := by
  obtain ⟨pushed, e, r, hTrail, hOut, hStop⟩ := decode_follows true data hBudget (show new.finished = false from rfl)
  rw [List.nil_append] at hOut
  exact ⟨e, r, by rw [whole, hOut]; exact hTrail, hStop⟩

theorem Explodes.whole (h : Explodes data outs) (hBudget : outs.length + maxMatch ≤ outBudget) :
    (whole data outBudget).out = outs ∧ ∃ consumed, (whole data outBudget).result = .ok ⟨consumed, true⟩ := by
  obtain ⟨e, r, hMakes, hStop⟩ := whole_follows data (show maxMatch ≤ outBudget by omega)
  have hLength := (h.made_front hMakes).length_le
  generalize (Explode.whole data outBudget).result = result, (Explode.whole data outBudget).explode = after at hStop ⊢
  cases hStop with
  | full hFull => omega
  | finished hNone => exact ⟨h.unique ⟨e, r, _, hMakes, hNone⟩, _, rfl⟩
  | short _ hLast => cases hLast
  | failed hFailed =>
    rcases hFailed with hFailed | ⟨hFailed, -⟩
    · exact absurd hFailed (h.not_error hMakes _)
    · exact absurd hFailed (h.not_error hMakes _)

theorem explodes_of_whole {consumed : Nat} (hBudget : maxMatch ≤ outBudget)
    (h : (whole data outBudget).result = .ok ⟨consumed, true⟩) : Explodes data (whole data outBudget).out := by
  obtain ⟨e, r, hMakes, hStop⟩ := whole_follows data hBudget
  rw [h] at hStop
  generalize (whole data outBudget).explode = after at hStop
  cases hStop with
  | finished hNone => exact ⟨e, r, _, hMakes, hNone⟩

theorem prefix_whole (hMakes : Makes data made e r) (hBudget : made.length + maxMatch ≤ outBudget) :
    made <+: (whole data outBudget).out := by
  obtain ⟨e', r', hWhole, hStop⟩ := whole_follows data (show maxMatch ≤ outBudget by omega)
  rcases hMakes.compare hWhole with ⟨more, hOut, -⟩ | ⟨more, hMade, hMore⟩
  · rw [hOut]
    exact List.prefix_append _ _
  · have hEnd (hHalts : Halts turn e' r') : made <+: (whole data outBudget).out := by
      rw [hMade, (hHalts.trail_eq hMore).1, List.append_nil]
    generalize (whole data outBudget).result = result, (whole data outBudget).explode = after at hStop
    cases hStop with
    | full hFull =>
      rw [hMade, List.length_append] at hBudget
      omega
    | finished hNone => exact hEnd (halts_of_none hNone)
    | short _ hLast => cases hLast
    | failed hFailed =>
      rcases hFailed with hFailed | ⟨hFailed, -⟩
      · exact hEnd (halts_of_error hFailed)
      · exact hEnd (halts_of_error hFailed)

end Explode

end OpenHalfLife.Isz
