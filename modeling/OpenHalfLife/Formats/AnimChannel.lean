import OpenHalfLife.Formats.Slice
import OpenHalfLife.Lib.Checked
import OpenHalfLife.Lib.Records

/-! # Compressed animation channels

A channel is a chain of runs. Each one stores some values and covers some
frames, and the chain is walked from its start to the run that has the frame.
-/

namespace OpenHalfLife.Formats

set_option autoImplicit false

open Machine (Stop)

/-! ## Runs -/

structure AnimRun where
  valid : UInt8
  total : UInt8
  values : List Int16
  stored : values.length = valid.toNat

namespace AnimRun

def encode (run : AnimRun) : List UInt8 := run.valid :: run.total :: run.values.flatMap Layout.i16.encode

def count (run : AnimRun) : Nat := max run.total.toNat 1

def frame (run : AnimRun) (within : Nat) : Int16 :=
  if h : within < run.values.length then run.values[within] else run.values.getLast?.getD 0

def frames (run : AnimRun) : List Int16 := (List.range run.count).map run.frame

@[simp] theorem length_frames (run : AnimRun) : run.frames.length = run.count := by
  rw [frames, List.length_map, List.length_range]

theorem count_lt (run : AnimRun) : run.count < 256 := by
  have hTotal := run.total.toNat_lt
  unfold count
  omega

theorem length_encode (run : AnimRun) : run.encode.length = 2 + 2 * run.valid.toNat := by
  have hWidth : Layout.i16.width = 2 := rfl
  rw [encode, List.length_cons, List.length_cons, Layout.length_flatMap_encode, run.stored, hWidth]
  omega

theorem getElem?_frames {run : AnimRun} {within : Nat} (h : within < run.count) :
    run.frames[within]? = some (run.frame within) := by
  rw [frames, List.getElem?_map, List.getElem?_range h, Option.map_some]

end AnimRun

/-! ## Decoding -/

def readRun (data : List UInt8) (cursor : Nat) : Except FormatError AnimRun := do
  match ← subSlice data cursor 2 with
  | [valid, total] =>
    let bytes ← subSlice data (← checkedAdd cursor 2) (valid.toNat * 2)
    .ok ⟨valid, total, Layout.i16.table valid.toNat bytes, Layout.length_table _ _ _⟩
  | _ => .error .truncated

def afterRun (cursor : Nat) (run : AnimRun) : Except FormatError Nat := do
  checkedAdd (← checkedAdd cursor 2) (run.valid.toNat * 2)

/-- The loop, with the runs it may still look at and the frames behind it. The sum of
frames is a plain `u32` addition. -/
def walkRuns (data : List UInt8) (frame : UInt32) :
    Nat → Nat → Nat → Except (Stop FormatError) Int16
  | 0, _, _ => .error (.error .recursionLimitExceeded)
  | left + 1, cursor, framesSeen =>
    match readRun data cursor with
    | .error e => .error (.error e)
    | .ok run =>
      if 2 ^ 32 ≤ framesSeen + run.count then .error .panic
      else if frame.toNat < framesSeen + run.count then .ok (run.frame (frame.toNat - framesSeen))
      else match afterRun cursor run with
        | .error e => .error (.error e)
        | .ok cursor => walkRuns data frame left cursor (framesSeen + run.count)

/-- The value of a channel at a frame; its conversion to `f32` is exact. -/
def decodeAnimChannel (data : List UInt8) (start : Nat) (frame : UInt32) (maxFrameWalk : Nat) :
    Except (Stop FormatError) Int16 :=
  walkRuns data frame maxFrameWalk start 0

/-! ## What a run is -/

section Runs

variable {data : Slice} {cursor : Nat} {run : AnimRun}

theorem readRun_eq_ok :
    readRun data.bytes cursor = .ok run ↔ run.encode <+: data.bytes.drop cursor := by
  constructor
  · intro h
    obtain ⟨header, hHeader, h⟩ := Result.bind_eq_ok.mp h
    obtain ⟨_, hDrop⟩ := drop_of_subSlice hHeader
    split at h
    · rename_i valid total
      obtain ⟨place, hPlace, h⟩ := Result.bind_eq_ok.mp h
      obtain ⟨bytes, hBytes, h⟩ := Result.bind_eq_ok.mp h
      cases h
      rw [checkedAdd] at hPlace
      split at hPlace
      · cases hPlace
      · cases hPlace
        obtain ⟨hLength, hRest⟩ := drop_of_subSlice hBytes
        rw [AnimRun.encode, Layout.flatMap_encode_table _ hLength, hDrop, hRest]
        exact ⟨_, rfl⟩
    · cases h
  · rintro ⟨rest, hRest⟩
    have hLength := congrArg List.length hRest
    rw [List.length_append, AnimRun.length_encode, List.length_drop] at hLength
    have hData := data.length_lt
    have hNext : data.bytes.drop (cursor + 2) = run.values.flatMap Layout.i16.encode ++ rest := by
      rw [← List.drop_drop, ← hRest]
      rfl
    have hFront : data.bytes.drop cursor =
        [run.valid, run.total] ++ (run.values.flatMap Layout.i16.encode ++ rest) := hRest.symm
    have hHeader : subSlice data.bytes cursor 2 = .ok [run.valid, run.total] :=
      subSlice_append hFront (by omega)
    have hWidth : Layout.i16.width = 2 := rfl
    have hValues := subSlice_append hNext (by omega)
    rw [Layout.length_flatMap_encode, run.stored, hWidth] at hValues
    have hTable : Layout.i16.table run.valid.toNat (run.values.flatMap Layout.i16.encode) = run.values := by
      rw [← run.stored, Layout.table_flatMap_encode]
    rw [readRun, hHeader, Result.ok_bind]
    dsimp only
    rw [checkedAdd_of_lt (by omega), Result.ok_bind, hValues, Result.ok_bind]
    simp only [hTable]

theorem afterRun_stored (h : run.encode <+: data.bytes.drop cursor) :
    afterRun cursor run = .ok (cursor + run.encode.length) ∧ cursor + run.encode.length ≤ data.bytes.length := by
  have hData := data.length_lt
  have hLength := h.length_le
  rw [AnimRun.length_encode, List.length_drop] at hLength
  rw [afterRun, checkedAdd_of_lt (by omega), Result.ok_bind, checkedAdd_of_lt (by omega),
    AnimRun.length_encode]
  exact ⟨by congr 1; omega, by omega⟩

theorem AnimRun.eq_of_stored {run' : AnimRun} (h : run.encode <+: data.bytes.drop cursor)
    (h' : run'.encode <+: data.bytes.drop cursor) : run = run' := by
  have hSame := (readRun_eq_ok.mpr h).symm.trans (readRun_eq_ok.mpr h')
  exact Except.ok.inj hSame

end Runs

/-! ## The frame expansion -/

def expandRuns (runs : List AnimRun) : List Int16 := runs.flatMap AnimRun.frames

/-- The runs from `start` up to the one that has the frame, all of them inside the data. -/
structure Reaches (data : Slice) (start maxFrameWalk frame : Nat) (runs : List AnimRun) : Prop where
  stored : runs.flatMap AnimRun.encode <+: data.bytes.drop start
  walked : runs.length ≤ maxFrameWalk
  before : (expandRuns runs.dropLast).length ≤ frame
  inside : frame < (expandRuns runs).length

section Walk

variable {data : Slice} {cursor left frame : Nat} {run : AnimRun} {runs : List AnimRun}

theorem expandRuns_cons (run : AnimRun) (runs : List AnimRun) :
    expandRuns (run :: runs) = run.frames ++ expandRuns runs := List.flatMap_cons ..

theorem length_expandRuns_cons (run : AnimRun) (runs : List AnimRun) :
    (expandRuns (run :: runs)).length = run.count + (expandRuns runs).length := by
  rw [expandRuns_cons, List.length_append, AnimRun.length_frames]

theorem Reaches.ne_nil (h : Reaches data cursor left frame runs) : runs ≠ [] := by
  rintro rfl
  exact Nat.not_lt_zero _ h.inside

theorem Reaches.first (h : Reaches data cursor left frame runs) :
    ∃ run : AnimRun, run.encode <+: data.bytes.drop cursor := by
  cases runs with
  | nil => exact absurd rfl h.ne_nil
  | cons run rest =>
    exact ⟨run, (List.prefix_append _ _).trans (List.flatMap_cons ▸ h.stored)⟩

theorem encode_cons_prefix_iff (hRun : run.encode <+: data.bytes.drop cursor) :
    (run :: runs).flatMap AnimRun.encode <+: data.bytes.drop cursor ↔
      runs.flatMap AnimRun.encode <+: data.bytes.drop (cursor + run.encode.length) := by
  obtain ⟨rest, hRest⟩ := hRun
  rw [← List.drop_drop, ← hRest, List.drop_left, List.flatMap_cons, List.prefix_append_right_inj]

theorem reaches_succ_iff (hRun : run.encode <+: data.bytes.drop cursor) :
    Reaches data cursor (left + 1) frame runs ↔
      (frame < run.count ∧ runs = [run]) ∨
      (run.count ≤ frame ∧ ∃ rest, runs = run :: rest ∧
        Reaches data (cursor + run.encode.length) left (frame - run.count) rest) := by
  constructor
  · intro h
    cases runs with
    | nil => exact absurd rfl h.ne_nil
    | cons first rest =>
      have hFirst : first = run := AnimRun.eq_of_stored
        ((List.prefix_append _ _).trans (List.flatMap_cons ▸ h.stored)) hRun
      subst hFirst
      have hInside := h.inside
      have hBefore := h.before
      rw [length_expandRuns_cons] at hInside
      cases rest with
      | nil =>
        refine .inl ⟨?_, rfl⟩
        simpa [expandRuns] using hInside
      | cons next rest =>
        rw [List.dropLast_cons_cons, length_expandRuns_cons] at hBefore
        have hWalked := h.walked
        rw [List.length_cons] at hWalked
        refine .inr ⟨by omega, _, rfl, ?_⟩
        exact ⟨(encode_cons_prefix_iff hRun).mp h.stored, by omega, by omega, by omega⟩
  · rintro (⟨hHere, rfl⟩ | ⟨hPast, rest, rfl, h⟩)
    · refine ⟨(encode_cons_prefix_iff hRun).mpr List.nil_prefix, ?_, ?_, ?_⟩
      · simp
      · simp [expandRuns]
      · rw [length_expandRuns_cons]
        omega
    · have hInside := h.inside
      have hBefore := h.before
      have hWalked := h.walked
      refine ⟨(encode_cons_prefix_iff hRun).mpr h.stored, ?_, ?_, ?_⟩
      · rw [List.length_cons]
        omega
      · rw [List.dropLast_cons_of_ne_nil h.ne_nil, length_expandRuns_cons]
        omega
      · rw [length_expandRuns_cons]
        omega

theorem getElem?_expandRuns_cons (hPast : run.count ≤ frame) :
    (expandRuns (run :: runs))[frame]? = (expandRuns runs)[frame - run.count]? := by
  rw [expandRuns_cons, List.getElem?_append_right (by rwa [AnimRun.length_frames]),
    AnimRun.length_frames]

end Walk

section Outcome

variable (data : Slice) (frame : UInt32) {left cursor framesSeen : Nat}

theorem walkRuns_succ {run : AnimRun} (hRun : run.encode <+: data.bytes.drop cursor) :
    walkRuns data.bytes frame (left + 1) cursor framesSeen =
      if 2 ^ 32 ≤ framesSeen + run.count then .error .panic
      else if frame.toNat < framesSeen + run.count then .ok (run.frame (frame.toNat - framesSeen))
      else walkRuns data.bytes frame left (cursor + run.encode.length) (framesSeen + run.count) := by
  rw [walkRuns, readRun_eq_ok.mpr hRun]
  simp only [(afterRun_stored hRun).1]

/-- The walk ends at the run that has the frame, unless there is none or its end is no `u32`. -/
theorem walkRuns_spec (left cursor : Nat) (hSeen : framesSeen ≤ frame.toNat) :
    (∃ runs value, Reaches data cursor left (frame.toNat - framesSeen) runs ∧
      (expandRuns runs)[frame.toNat - framesSeen]? = some value ∧
      walkRuns data.bytes frame left cursor framesSeen =
        if 2 ^ 32 ≤ framesSeen + (expandRuns runs).length then .error .panic else .ok value) ∨
    (∀ runs, ¬ Reaches data cursor left (frame.toNat - framesSeen) runs) ∧
      ∃ e, walkRuns data.bytes frame left cursor framesSeen = .error (.error e) := by
  induction left generalizing cursor framesSeen with
  | zero =>
    refine .inr ⟨fun runs h => h.ne_nil ?_, _, rfl⟩
    exact List.length_eq_zero_iff.mp (Nat.le_zero.mp h.walked)
  | succ left ih =>
    cases hRead : readRun data.bytes cursor with
    | error e =>
      refine .inr ⟨fun runs h => ?_, e, by rw [walkRuns, hRead]⟩
      obtain ⟨run, hRun⟩ := h.first
      cases hRead.symm.trans (readRun_eq_ok.mpr hRun)
    | ok run =>
      have hRun := readRun_eq_ok.mp hRead
      have hCount := run.count_lt
      have hFrame := frame.toNat_lt
      rw [walkRuns_succ data frame hRun]
      simp only [reaches_succ_iff hRun]
      rcases Nat.lt_or_ge (frame.toNat - framesSeen) run.count with hHere | hPast
      · refine .inl ⟨[run], run.frame (frame.toNat - framesSeen), .inl ⟨hHere, rfl⟩, ?_, ?_⟩
        · rw [expandRuns_cons, List.getElem?_append_left (by rwa [AnimRun.length_frames]),
            AnimRun.getElem?_frames hHere]
        · have hLength : (expandRuns [run]).length = run.count := by
            rw [length_expandRuns_cons]
            rfl
          rw [hLength, if_pos (show frame.toNat < framesSeen + run.count by omega)]
      · have hFits : ¬ 2 ^ 32 ≤ framesSeen + run.count := by omega
        have hLater : ¬ frame.toNat < framesSeen + run.count := by omega
        have hLeft : frame.toNat - framesSeen - run.count = frame.toNat - (framesSeen + run.count) := by
          omega
        rw [if_neg hFits, if_neg hLater, hLeft]
        have hAfter : framesSeen + run.count ≤ frame.toNat := by omega
        rcases ih (cursor + run.encode.length) hAfter with ⟨runs, value, hReaches, hValue, hWalk⟩ | ⟨hNone, hError⟩
        · refine .inl ⟨run :: runs, value, .inr ⟨hPast, runs, rfl, hReaches⟩, ?_, ?_⟩
          · rw [getElem?_expandRuns_cons hPast, hLeft, hValue]
          · rw [hWalk, length_expandRuns_cons, Nat.add_assoc]
        · refine .inr ⟨?_, hError⟩
          rintro runs (⟨hHere, _⟩ | ⟨_, rest, _, hRest⟩)
          · omega
          · exact hNone rest hRest

end Outcome

section Reach

variable {data : Slice} {start maxFrameWalk frame : Nat} {runs runs' : List AnimRun}

theorem Reaches.unique (h : Reaches data start maxFrameWalk frame runs)
    (h' : Reaches data start maxFrameWalk frame runs') : runs = runs' := by
  induction maxFrameWalk generalizing start frame runs runs' with
  | zero => exact absurd (List.length_eq_zero_iff.mp (Nat.le_zero.mp h.walked)) h.ne_nil
  | succ left ih =>
    obtain ⟨run, hRun⟩ := h.first
    rw [reaches_succ_iff hRun] at h h'
    rcases h with ⟨hHere, rfl⟩ | ⟨hPast, rest, rfl, hRest⟩
    · rcases h' with ⟨_, rfl⟩ | ⟨hPast, _⟩
      · rfl
      · omega
    · rcases h' with ⟨hHere, _⟩ | ⟨_, rest', rfl, hRest'⟩
      · omega
      · rw [ih hRest hRest']

theorem Reaches.earlier {frame' : Nat} (h : Reaches data start maxFrameWalk frame runs)
    (hLe : frame' ≤ frame) :
    ∃ runs', Reaches data start maxFrameWalk frame' runs' ∧
      (expandRuns runs').length ≤ (expandRuns runs).length := by
  induction maxFrameWalk generalizing start frame frame' runs with
  | zero => exact absurd (List.length_eq_zero_iff.mp (Nat.le_zero.mp h.walked)) h.ne_nil
  | succ left ih =>
    obtain ⟨run, hRun⟩ := h.first
    simp only [reaches_succ_iff hRun] at h ⊢
    rcases Nat.lt_or_ge frame' run.count with hHere | hPast
    · refine ⟨[run], .inl ⟨hHere, rfl⟩, ?_⟩
      rcases h with ⟨_, rfl⟩ | ⟨_, rest, rfl, _⟩
      · exact Nat.le_refl _
      · simp [expandRuns]
    · rcases h with ⟨hHere, _⟩ | ⟨_, rest, rfl, hRest⟩
      · omega
      · obtain ⟨rest', hRest', hLength⟩ := ih hRest (show frame' - run.count ≤ frame - run.count by omega)
        refine ⟨run :: rest', .inr ⟨hPast, rest', rfl, hRest'⟩, ?_⟩
        rw [length_expandRuns_cons, length_expandRuns_cons]
        omega

theorem length_expandRuns_le (runs : List AnimRun) :
    (expandRuns runs).length ≤ 255 * runs.length := by
  induction runs with
  | nil => simp [expandRuns]
  | cons run runs ih =>
    have hCount := run.count_lt
    rw [length_expandRuns_cons, List.length_cons]
    omega

end Reach

/-! ## Exactness -/

/-- The channel decodes at a frame exactly when its run is reached, to that frame's element. -/
def DecodesExactly (data : Slice) (start : Nat) (frame : UInt32) (maxFrameWalk : Nat) : Prop :=
  ∀ value, decodeAnimChannel data.bytes start frame maxFrameWalk = .ok value ↔
    ∃ runs, Reaches data start maxFrameWalk frame.toNat runs ∧
      (expandRuns runs)[frame.toNat]? = some value

section Exactness

variable {data : Slice} {start maxFrameWalk : Nat} {frame : UInt32}

variable (data start maxFrameWalk frame) in
theorem decodeAnimChannel_outcome :
    (∃ runs value, Reaches data start maxFrameWalk frame.toNat runs ∧
      (expandRuns runs)[frame.toNat]? = some value ∧
      decodeAnimChannel data.bytes start frame maxFrameWalk =
        if 2 ^ 32 ≤ (expandRuns runs).length then .error .panic else .ok value) ∨
    (∀ runs, ¬ Reaches data start maxFrameWalk frame.toNat runs) ∧
      ∃ e, decodeAnimChannel data.bytes start frame maxFrameWalk = .error (.error e) := by
  have hSpec := walkRuns_spec data frame maxFrameWalk start (Nat.zero_le _)
  simp only [Nat.sub_zero, Nat.zero_add] at hSpec
  exact hSpec

theorem decodeAnimChannel_eq_ok {value : Int16} :
    decodeAnimChannel data.bytes start frame maxFrameWalk = .ok value ↔
      ∃ runs, Reaches data start maxFrameWalk frame.toNat runs ∧
        (expandRuns runs)[frame.toNat]? = some value ∧ (expandRuns runs).length < 2 ^ 32 := by
  rcases decodeAnimChannel_outcome data start maxFrameWalk frame with
    ⟨runs, found, hReaches, hFound, hDecode⟩ | ⟨hNone, e, hDecode⟩
  · rw [hDecode]
    constructor
    · intro hOk
      split at hOk
      · cases hOk
      · cases hOk
        exact ⟨runs, hReaches, hFound, by omega⟩
    · rintro ⟨runs', hReaches', hValue, hShort⟩
      cases hReaches.unique hReaches'
      rw [if_neg (by omega), Option.some.inj (hFound.symm.trans hValue)]
  · rw [hDecode]
    constructor
    · intro hOk
      cases hOk
    · rintro ⟨runs, hReaches, _⟩
      exact absurd hReaches (hNone runs)

theorem decodesExactly_iff : DecodesExactly data start frame maxFrameWalk ↔
    ∀ runs, Reaches data start maxFrameWalk frame.toNat runs → (expandRuns runs).length < 2 ^ 32 := by
  constructor
  · intro hExact runs hReaches
    have hValue := List.getElem?_eq_getElem hReaches.inside
    obtain ⟨runs', hReaches', _, hShort⟩ :=
      decodeAnimChannel_eq_ok.mp ((hExact _).mpr ⟨runs, hReaches, hValue⟩)
    rwa [hReaches.unique hReaches']
  · intro hFits value
    rw [decodeAnimChannel_eq_ok]
    constructor
    · rintro ⟨runs, hReaches, hValue, _⟩
      exact ⟨runs, hReaches, hValue⟩
    · rintro ⟨runs, hReaches, hValue⟩
      exact ⟨runs, hReaches, hValue, hFits runs hReaches⟩

theorem decodeAnimChannel_earlier {frame' : UInt32} (hLe : frame' ≤ frame)
    (hOk : (decodeAnimChannel data.bytes start frame maxFrameWalk).isOk) :
    (decodeAnimChannel data.bytes start frame' maxFrameWalk).isOk := by
  obtain ⟨value, hValue⟩ := Result.exists_ok hOk
  obtain ⟨runs, hReaches, _, hShort⟩ := decodeAnimChannel_eq_ok.mp hValue
  obtain ⟨runs', hReaches', hLength⟩ := hReaches.earlier (UInt32.le_iff_toNat_le.mp hLe)
  have hElement := List.getElem?_eq_getElem hReaches'.inside
  rw [decodeAnimChannel_eq_ok.mpr ⟨runs', hReaches', hElement, by omega⟩]
  rfl

theorem decodeAnimChannel_ne_panic (hWalk : maxFrameWalk < 2 ^ 24) :
    decodeAnimChannel data.bytes start frame maxFrameWalk ≠ .error .panic := by
  rcases decodeAnimChannel_outcome data start maxFrameWalk frame with
    ⟨runs, value, hReaches, _, hDecode⟩ | ⟨_, e, hDecode⟩
  · have hLength := length_expandRuns_le runs
    have hRuns := hReaches.walked
    rw [hDecode, if_neg (by omega)]
    exact nofun
  · rw [hDecode]
    exact nofun

end Exactness

/-- The decoder is exact except where the run of the frame ends past the last `u32`; a frame
before a decoded one decodes, and short walks never overflow. -/
theorem decodeAnimChannel_exact (data : Slice) (start : Nat) (maxFrameWalk : Nat) :
    (∀ frame, DecodesExactly data start frame maxFrameWalk ↔
      ∀ runs, Reaches data start maxFrameWalk frame.toNat runs → (expandRuns runs).length < 2 ^ 32) ∧
    (∀ frame frame' : UInt32, frame' ≤ frame →
      (decodeAnimChannel data.bytes start frame maxFrameWalk).isOk →
        (decodeAnimChannel data.bytes start frame' maxFrameWalk).isOk) ∧
    (maxFrameWalk < 2 ^ 24 → ∀ frame,
      decodeAnimChannel data.bytes start frame maxFrameWalk ≠ .error .panic) :=
  ⟨fun _ => decodesExactly_iff, fun _ _ hLe hOk => decodeAnimChannel_earlier hLe hOk,
    fun hWalk _ => decodeAnimChannel_ne_panic hWalk⟩

/-! ## A channel past the last frame -/

section Overrun

def emptyRun : AnimRun := ⟨0, 255, [], rfl⟩

theorem length_flatMap_replicate {α : Type} (f : AnimRun → List α) (run : AnimRun) (n : Nat) :
    ((List.replicate n run).flatMap f).length = n * (f run).length := by
  induction n with
  | zero => simp
  | succ n ih => rw [List.replicate_succ, List.flatMap_cons, List.length_append, ih, Nat.succ_mul, Nat.add_comm]

def emptyRuns (n : Nat) (h : n < 2 ^ 32) : Slice where
  bytes := (List.replicate n emptyRun).flatMap AnimRun.encode
  length_lt := by
    rw [length_flatMap_replicate, show emptyRun.encode.length = 2 from rfl]
    omega

theorem decodeAnimChannel_overruns :
    ¬ DecodesExactly (emptyRuns 16843010 (by decide)) 0 4294967295 16843010 := by
  rw [decodesExactly_iff]
  intro hFits
  have hFrame : (4294967295 : UInt32).toNat = 4294967295 := rfl
  have hLength (n : Nat) : (expandRuns (List.replicate n emptyRun)).length = n * 255 := by
    rw [expandRuns, length_flatMap_replicate, AnimRun.length_frames, show emptyRun.count = 255 from rfl]
  have hLong := hFits (List.replicate 16843010 emptyRun) ⟨List.prefix_refl _, ?_, ?_, ?_⟩
  · rw [hLength] at hLong
    omega
  · rw [List.length_replicate]
  · have hBefore := hLength (16843010 - 1)
    rw [List.dropLast_replicate]
    omega
  · have hInside := hLength 16843010
    omega

end Overrun

end OpenHalfLife.Formats
