import OpenHalfLife.Formats.Slice
import OpenHalfLife.Lib.Machine

/-! # Visibility decoded on demand

A zero byte begins a run of zeros whose length is the next byte, and any other
byte stands for itself. One bit is looked up without writing a row out.
-/

namespace OpenHalfLife.Formats

set_option autoImplicit false

/-! ## Full decompression -/

/-- The bytes written until `left` of them are, and whether they all were. -/
def expand : List UInt8 → Nat → List UInt8 × Bool
  | _, 0 => ([], true)
  | [], _ + 1 => ([], false)
  | marker :: code, left + 1 =>
    if marker = 0 then
      match code with
      | [] => ([], false)
      | run :: code =>
        -- a run of no zeros, or one past the end
        if run = 0 ∨ left + 1 < run.toNat then ([], false)
        else
          let (row, complete) := expand code (left + 1 - run.toNat)
          (List.replicate run.toNat 0 ++ row, complete)
    else
      let (row, complete) := expand code left
      (marker :: row, complete)

theorem expand_complete (code : List UInt8) (left : Nat) :
    (expand code left).1.length ≤ left ∧ ((expand code left).2 ↔ (expand code left).1.length = left) := by
  fun_induction expand code left with
  | case1 => simp
  | case2 => simp
  | case3 => simp
  | case4 => simp
  | case5 left run code h row complete hRow ih =>
    rw [hRow] at ih
    simp only [not_or, Nat.not_lt] at h ih
    obtain ⟨hRoom, hComplete⟩ := ih
    simp only [List.length_append, List.length_replicate]
    exact ⟨by omega, hComplete.trans (by omega)⟩
  | case6 marker code left h row complete hRow ih =>
    rw [hRow] at ih
    simp only at ih
    obtain ⟨hRoom, hComplete⟩ := ih
    simp only [List.length_cons]
    exact ⟨by omega, hComplete.trans (by omega)⟩

/-! ## The lookup -/

def bitOf (byte : UInt8) (bit : Nat) : Bool := (byte >>> UInt8.ofNat bit) &&& 1 != 0

def visibilityTurn (vis : List UInt8) (decompressedLen : UInt64) (target bit pos byteIndex : Nat) :
    Except FormatError (Bool ⊕ Nat × Nat) :=
  if decompressedLen.toNat < byteIndex then .error .invalidInput
  else match vis[pos]? with
    | none => .error .outOfBounds
    | some marker =>
      if marker = 0 then
        match vis[pos + 1]? with
        | none => .error .outOfBounds
        | some run =>
          if run = 0 then .error .invalidInput
          else do
            let runEnd ← checkedAdd byteIndex run.toNat
            if decompressedLen.toNat < runEnd then .error .invalidInput
            else if target < runEnd then .ok (.inl false)
            else .ok (.inr (pos + 2, runEnd))
      else if byteIndex = target then .ok (.inl (bitOf marker bit))
      else .ok (.inr (pos + 1, byteIndex + 1))

theorem visibilityTurn_pos {vis : List UInt8} {decompressedLen : UInt64}
    {target bit pos byteIndex pos' byteIndex' : Nat}
    (h : visibilityTurn vis decompressedLen target bit pos byteIndex = .ok (.inr (pos', byteIndex'))) :
    pos < vis.length ∧ pos < pos' := by
  unfold visibilityTurn at h
  split at h
  · cases h
  · split at h
    · cases h
    · rename_i marker hMarker
      refine ⟨(List.getElem?_eq_some_iff.mp hMarker).1, ?_⟩
      split at h
      · split at h
        · cases h
        · split at h
          · cases h
          · unfold checkedAdd at h
            split at h
            · cases h
            · simp only [Result.ok_bind] at h
              split at h
              · cases h
              · split at h
                · cases h
                · cases h
                  omega
      · split at h
        · cases h
        · cases h
          omega

def visibilityWalk (vis : List UInt8) (decompressedLen : UInt64) (target bit pos byteIndex : Nat) :
    Except FormatError Bool :=
  match _h : visibilityTurn vis decompressedLen target bit pos byteIndex with
  | .error e => .error e
  | .ok (.inl visible) => .ok visible
  | .ok (.inr (pos', byteIndex')) => visibilityWalk vis decompressedLen target bit pos' byteIndex'
termination_by vis.length - pos
decreasing_by
  have hPos := visibilityTurn_pos _h
  omega

def isVisible (vis : List UInt8) (start bitIndex : Nat) (decompressedLen : UInt64) :
    Except FormatError Bool :=
  if decompressedLen.toNat ≤ bitIndex / 8 then .error .indexOutOfRange
  else visibilityWalk vis decompressedLen (bitIndex / 8) (bitIndex % 8) start 0

inductive VisibilityVisits (vis : List UInt8) (start bitIndex : Nat) (decompressedLen : UInt64) :
    Nat → Nat → Prop
  | start : bitIndex / 8 < decompressedLen.toNat → VisibilityVisits vis start bitIndex decompressedLen start 0
  | next {pos byteIndex pos' byteIndex' : Nat} :
    VisibilityVisits vis start bitIndex decompressedLen pos byteIndex →
      visibilityTurn vis decompressedLen (bitIndex / 8) (bitIndex % 8) pos byteIndex =
          .ok (.inr (pos', byteIndex')) →
        VisibilityVisits vis start bitIndex decompressedLen pos' byteIndex'

/-! ## Agreement -/

section Agreement

variable {vis : List UInt8} {decompressedLen : UInt64} {target bit pos byteIndex : Nat}

variable (vis bit pos) in
theorem visibilityTurn_spec (hIndex : byteIndex ≤ target) (hTarget : target < decompressedLen.toNat) :
    match visibilityTurn vis decompressedLen target bit pos byteIndex with
    | .error _ =>
      (expand (vis.drop pos) (decompressedLen.toNat - byteIndex)).1[target - byteIndex]? = none
    | .ok (.inl visible) => ∃ byte,
      (expand (vis.drop pos) (decompressedLen.toNat - byteIndex)).1[target - byteIndex]? = some byte ∧
        visible = bitOf byte bit
    | .ok (.inr (pos', byteIndex')) => byteIndex' ≤ target ∧
      (expand (vis.drop pos) (decompressedLen.toNat - byteIndex)).1[target - byteIndex]? =
        (expand (vis.drop pos') (decompressedLen.toNat - byteIndex')).1[target - byteIndex']? := by
  have hLen := decompressedLen.toNat_lt
  obtain ⟨left, hLeft⟩ : ∃ left, decompressedLen.toNat - byteIndex = left + 1 := ⟨_, (by omega : _ = (decompressedLen.toNat - byteIndex - 1) + 1)⟩
  rw [visibilityTurn, if_neg (by omega), hLeft]
  cases hMarker : vis[pos]? with
  | none =>
    have hDrop : vis.drop pos = [] := List.drop_eq_nil_of_le (List.getElem?_eq_none_iff.mp hMarker)
    simp [hDrop, expand]
  | some marker =>
    have hDrop : vis.drop pos = marker :: vis.drop (pos + 1) := by
      obtain ⟨hPos, hGet⟩ := List.getElem?_eq_some_iff.mp hMarker
      rw [← hGet, List.drop_eq_getElem_cons hPos]
    rw [hDrop]
    by_cases hZero : marker = 0
    · cases hRun : vis[pos + 1]? with
      | none =>
        have hEnd : vis.drop (pos + 1) = [] := List.drop_eq_nil_of_le (List.getElem?_eq_none_iff.mp hRun)
        simp [hZero, hEnd, expand]
      | some run =>
        have hNext : vis.drop (pos + 1) = run :: vis.drop (pos + 2) := by
          obtain ⟨hPos, hGet⟩ := List.getElem?_eq_some_iff.mp hRun
          rw [← hGet, List.drop_eq_getElem_cons hPos]
        by_cases hNone : run = 0
        · simp [hZero, hNext, hNone, expand]
        · have hRunLt := run.toNat_lt
          have hShort : decompressedLen.toNat < byteIndex + run.toNat ↔ left + 1 < run.toNat := by
            omega
          have hRow : expand (0 :: run :: vis.drop (pos + 2)) (left + 1) =
              if left + 1 < run.toNat then ([], false)
              else (List.replicate run.toNat 0 ++ (expand (vis.drop (pos + 2)) (left + 1 - run.toNat)).1,
                (expand (vis.drop (pos + 2)) (left + 1 - run.toNat)).2) := by
            simp [expand, hNone]
          simp only [if_neg hNone, hNext, hZero, if_true, hRow]
          by_cases hPast : left + 1 < run.toNat
          · by_cases hWide : 2 ^ 64 ≤ byteIndex + run.toNat
            · simp only [checkedAdd, if_pos hWide, Result.error_bind]
              simp [hPast]
            · simp only [checkedAdd, if_neg hWide, Result.ok_bind, hShort, if_pos hPast]
              simp
          · have hWide : ¬ 2 ^ 64 ≤ byteIndex + run.toNat := by omega
            simp only [checkedAdd, if_neg hWide, Result.ok_bind, hShort, if_neg hPast]
            by_cases hHere : target < byteIndex + run.toNat
            · rw [if_pos hHere]
              refine ⟨0, ?_, by simp [bitOf]⟩
              rw [List.getElem?_append_left (by rw [List.length_replicate]; omega), List.getElem?_replicate,
                if_pos (by omega)]
            · rw [if_neg hHere]
              refine ⟨by omega, ?_⟩
              rw [List.getElem?_append_right (by rw [List.length_replicate]; omega), List.length_replicate,
                show left + 1 - run.toNat = decompressedLen.toNat - (byteIndex + run.toNat) by omega,
                show target - byteIndex - run.toNat = target - (byteIndex + run.toNat) by omega]
    · have hRow : expand (marker :: vis.drop (pos + 1)) (left + 1) =
          (marker :: (expand (vis.drop (pos + 1)) left).1, (expand (vis.drop (pos + 1)) left).2) := by
        rw [expand.eq_def]
        simp only [hZero, if_false]
      rw [hRow]
      dsimp only
      rw [if_neg hZero]
      by_cases hHere : byteIndex = target
      · rw [if_pos hHere]
        exact ⟨marker, by simp [hHere], rfl⟩
      · rw [if_neg hHere]
        refine ⟨by omega, ?_⟩
        rw [show target - byteIndex = target - (byteIndex + 1) + 1 by omega,
          show decompressedLen.toNat - (byteIndex + 1) = left by omega, List.getElem?_cons_succ]

theorem visibilityWalk_eq_ok (hIndex : byteIndex ≤ target) (hTarget : target < decompressedLen.toNat)
    (visible : Bool) :
    visibilityWalk vis decompressedLen target bit pos byteIndex = .ok visible ↔ ∃ byte,
      (expand (vis.drop pos) (decompressedLen.toNat - byteIndex)).1[target - byteIndex]? = some byte ∧
        visible = bitOf byte bit := by
  have hSpec := fun pos byteIndex (h : byteIndex ≤ target) =>
    visibilityTurn_spec vis bit pos h hTarget
  induction pos, byteIndex using visibilityWalk.induct vis decompressedLen target bit with
  | case1 pos byteIndex e hTurn =>
    have hNone := hSpec pos byteIndex hIndex
    rw [hTurn] at hNone
    rw [visibilityWalk, hTurn]
    simp [hNone]
  | case2 pos byteIndex found hTurn =>
    have hFound := hSpec pos byteIndex hIndex
    rw [hTurn] at hFound
    obtain ⟨byte, hByte, hBit⟩ := hFound
    rw [visibilityWalk, hTurn]
    simp [hByte, hBit, eq_comm]
  | case3 pos byteIndex pos' byteIndex' hTurn ih =>
    have hOn := hSpec pos byteIndex hIndex
    rw [hTurn] at hOn
    rw [visibilityWalk, hTurn, hOn.2]
    exact ih hOn.1

end Agreement

section Lookup

variable {vis : List UInt8} {start bitIndex : Nat} {decompressedLen : UInt64}

theorem isVisible_eq_ok {visible : Bool} :
    isVisible vis start bitIndex decompressedLen = .ok visible ↔ ∃ byte,
      (expand (vis.drop start) decompressedLen.toNat).1[bitIndex / 8]? = some byte ∧
        visible = bitOf byte (bitIndex % 8) := by
  unfold isVisible
  split
  · rename_i hPast
    have hShort := (expand_complete (vis.drop start) decompressedLen.toNat).1
    rw [List.getElem?_eq_none (by omega)]
    simp
  · rename_i hTarget
    exact visibilityWalk_eq_ok (Nat.zero_le _) (by omega) visible

variable (vis start bitIndex decompressedLen) in
theorem isVisible_isOk :
    (∃ visible, isVisible vis start bitIndex decompressedLen = .ok visible) ↔
      bitIndex / 8 < (expand (vis.drop start) decompressedLen.toNat).1.length := by
  constructor
  · rintro ⟨visible, hOk⟩
    obtain ⟨byte, hByte, _⟩ := isVisible_eq_ok.mp hOk
    exact (List.getElem?_eq_some_iff.mp hByte).1
  · intro hLt
    exact ⟨_, isVisible_eq_ok.mpr ⟨_, List.getElem?_eq_getElem hLt, rfl⟩⟩

theorem VisibilityVisits.bound {pos byteIndex : Nat}
    (h : VisibilityVisits vis start bitIndex decompressedLen pos byteIndex) :
    bitIndex / 8 < decompressedLen.toNat ∧ byteIndex ≤ bitIndex / 8 := by
  induction h with
  | start hTarget => exact ⟨hTarget, Nat.zero_le _⟩
  | @next pos _ _ _ _ hTurn ih =>
    obtain ⟨hTarget, hIndex⟩ := ih
    have hSpec := visibilityTurn_spec vis (bitIndex % 8) pos hIndex hTarget
    rw [hTurn] at hSpec
    exact ⟨hTarget, hSpec.1⟩

end Lookup

/-- The lookup reads the fully decompressed vector as far as that goes, and never counts
past its length. -/
theorem isVisible_agrees_with_expansion (vis : List UInt8) (start : Nat) (decompressedLen : UInt64) :
    (∀ i visible, isVisible vis start i decompressedLen = .ok visible →
      ∃ byte, (expand (vis.drop start) decompressedLen.toNat).1[i / 8]? = some byte ∧
        visible = bitOf byte (i % 8)) ∧
    (∀ i j, j ≤ i → (isVisible vis start i decompressedLen).isOk →
      (isVisible vis start j decompressedLen).isOk) ∧
    ((∀ i < 8 * decompressedLen.toNat, (isVisible vis start i decompressedLen).isOk) ↔
      (expand (vis.drop start) decompressedLen.toNat).2) ∧
    ∀ i pos byteIndex, VisibilityVisits vis start i decompressedLen pos byteIndex →
      byteIndex ≤ decompressedLen.toNat := by
  have hIsOk (i : Nat) : (isVisible vis start i decompressedLen).isOk ↔
      i / 8 < (expand (vis.drop start) decompressedLen.toNat).1.length := by
    rw [← isVisible_isOk vis start i decompressedLen]
    exact ⟨Result.exists_ok, fun ⟨_, h⟩ => by rw [h]; rfl⟩
  obtain ⟨hRoom, hComplete⟩ := expand_complete (vis.drop start) decompressedLen.toNat
  refine ⟨fun i visible hOk => isVisible_eq_ok.mp hOk, ?_, ?_, ?_⟩
  · intro i j hLe hOk
    rw [hIsOk] at hOk ⊢
    omega
  · rw [hComplete]
    constructor
    · intro hAll
      by_contra hShort
      have hLast := (hIsOk _).mp (hAll
        (8 * (expand (vis.drop start) decompressedLen.toNat).1.length) (by omega))
      omega
    · intro hLength i hi
      rw [hIsOk]
      omega
  · intro i pos byteIndex hVisits
    have hBound := hVisits.bound
    omega

end OpenHalfLife.Formats
