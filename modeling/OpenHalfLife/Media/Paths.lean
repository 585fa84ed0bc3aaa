import OpenHalfLife.Lib.Pieces
import OpenHalfLife.Media.Listing

/-! # Normalized paths

A normalized path is one spelling of the pieces a path is cut into. The readers
normalize it again, so it has to be its own normalized path; it is one separator
longer than a path of the greatest length that is made of pieces only.
-/

namespace OpenHalfLife.Media

set_option autoImplicit false

def isSeparator (byte : UInt8) : Bool := byte = slash ∨ byte = backslash

def pieces (path : Text) : List Text := (path.splitOnP isSeparator).filter fun piece => !piece.isEmpty

def Reference (piece : Text) : Prop := piece = [dot] ∨ piece = [dot, dot]

def spelling (parts : List Text) : Text := if parts = [] then [slash] else rooted slash parts

theorem spelling_nil : spelling [] = [slash] := rfl

theorem spelling_of_ne_nil {parts : List Text} (h : parts ≠ []) : spelling parts = rooted slash parts := if_neg h

theorem spelling_concat (parts : List Text) (part : Text) :
    spelling (parts ++ [part]) = rooted slash parts ++ slash :: part := by
  rw [spelling_of_ne_nil (by simp), rooted_concat]

theorem length_spelling {parts : List Text} (h : ∀ part ∈ parts, part ≠ []) :
    (spelling parts).length > 1 ↔ parts ≠ [] := by
  cases parts with
  | nil => simp [spelling_nil]
  | cons part parts =>
    have hPart := List.length_pos_of_ne_nil (h part List.mem_cons_self)
    rw [spelling_of_ne_nil (List.cons_ne_nil _ _), rooted_cons, List.length_cons, List.length_append]
    simp only [ne_eq, reduceCtorEq, not_false_eq_true, iff_true]
    omega

theorem foldlM_eq_some {taken : List Text} (h : ∀ part ∈ taken, part ≠ []) (parts : List Text) (normalized : Text) :
    parts.foldlM (fun normalized component =>
      if component.isEmpty then some normalized
      else if component = [dot] ∨ component = [dot, dot] then none
      else some ((if normalized.length > 1 then normalized ++ [slash] else normalized) ++ component))
      (spelling taken) = some normalized ↔
    (∀ part ∈ parts, ¬Reference part) ∧ normalized = spelling (taken ++ parts.filter fun part => !part.isEmpty) := by
  induction parts generalizing taken with
  | nil =>
    rw [List.foldlM_nil, List.filter_nil, List.append_nil]
    constructor
    · rintro ⟨⟩
      exact ⟨by simp, rfl⟩
    · rintro ⟨-, rfl⟩
      rfl
  | cons part parts ih =>
    rw [List.foldlM_cons]
    by_cases hEmpty : part = []
    · subst hEmpty
      simpa [Reference] using ih h
    · have hSome : part.isEmpty = false := by simpa using hEmpty
      by_cases hRef : Reference part
      · simp [hSome, show part = [dot] ∨ part = [dot, dot] from hRef, hRef]
      · have hNext : (if (spelling taken).length > 1 then spelling taken ++ [slash] else spelling taken) ++ part =
            spelling (taken ++ [part]) := by
          rw [spelling_concat]
          by_cases hTaken : taken = []
          · simp [hTaken, spelling_nil, rooted]
          · rw [if_pos ((length_spelling h).mpr hTaken), spelling_of_ne_nil hTaken, List.append_assoc]
            rfl
        have hKept : ∀ other ∈ taken ++ [part], other ≠ [] := by
          simpa [or_imp, forall_and] using ⟨h, hEmpty⟩
        rw [if_neg (by simp [hSome]), if_neg (show ¬(part = [dot] ∨ part = [dot, dot]) from hRef), hNext, Option.bind_eq_bind, Option.bind_some, ih hKept,
          List.filter_cons_of_pos (by simp [hSome]), List.append_assoc, List.singleton_append]
        simp [hRef]

theorem normalizePath_eq_some {path normalized : Text} :
    normalizePath path = some normalized ↔ path.length ≤ maxPathBytes ∧ 0 ∉ path ∧
      (∀ part ∈ path.splitOnP isSeparator, ¬Reference part) ∧ normalized = spelling (pieces path) := by
  rw [normalizePath]
  by_cases hBad : path.length > maxPathBytes ∨ path.contains 0
  · rw [if_pos hBad]
    rcases hBad with hLong | hNul
    · simp [Nat.not_le.mpr hLong]
    · simp [List.contains_iff_mem.mp hNul]
  · rw [if_neg hBad]
    obtain ⟨hShort, hNul⟩ := not_or.mp hBad
    have hNone : ∀ part ∈ ([] : List Text), part ≠ [] := by simp
    have hLoop := foldlM_eq_some hNone (path.splitOnP isSeparator) normalized
    rw [spelling_nil] at hLoop
    rw [show (fun byte => decide (byte = slash ∨ byte = backslash)) = isSeparator from rfl, hLoop]
    simp [Nat.not_lt.mp hShort, (by simpa using hNul : 0 ∉ path), pieces]

/-! ### Spelling and cutting -/

structure Plain (part : Text) : Prop where
  ne_nil : part ≠ []
  kept : ∀ byte ∈ part, isSeparator byte = false
  noNul : 0 ∉ part
  notReference : ¬Reference part

theorem Plain.of_mem_pieces {path part : Text} (hNul : 0 ∉ path)
    (hParts : ∀ part ∈ path.splitOnP isSeparator, ¬Reference part) (h : part ∈ pieces path) : Plain part := by
  obtain ⟨hMem, hSome⟩ := List.mem_filter.mp h
  have hBytes := forall_mem_splitOnP path part hMem
  exact ⟨by simpa using hSome, fun byte hByte => (hBytes byte hByte).2, fun hZero => hNul (hBytes 0 hZero).1,
    hParts part hMem⟩

theorem Plain.noSlash {part : Text} (h : Plain part) : ∀ byte ∈ part, decide (byte = slash) = false := by
  intro byte hByte
  have hSep := h.kept byte hByte
  simp only [isSeparator, decide_eq_false_iff_not, not_or] at hSep ⊢
  exact hSep.1

section Spelled

variable {parts : List Text}

theorem mem_spelling {byte : UInt8} (h : byte ∈ spelling parts) :
    byte = slash ∨ ∃ part ∈ parts, byte ∈ part := by
  rw [spelling] at h
  split at h
  · exact .inl (List.mem_singleton.mp h)
  · exact mem_rooted h

theorem splitOnP_spelling {cut : UInt8 → Bool} (hSlash : cut slash = true)
    (hKept : ∀ part ∈ parts, ∀ byte ∈ part, cut byte = false) :
    (spelling parts).splitOnP cut = if parts = [] then [[], []] else [] :: parts := by
  rw [spelling]
  split
  · rw [splitOnP_separator hSlash, List.splitOnP_nil]
  · exact splitOnP_rooted hSlash hKept

variable (hParts : ∀ part ∈ parts, Plain part)

include hParts

theorem filter_splitOnP_spelling {cut : UInt8 → Bool} (hSlash : cut slash = true)
    (hKept : ∀ part ∈ parts, ∀ byte ∈ part, cut byte = false) :
    ((spelling parts).splitOnP cut).filter (fun part => !part.isEmpty) = parts := by
  have hAll : parts.filter (fun part => !part.isEmpty) = parts := by
    rw [List.filter_eq_self]
    exact fun part hPart => by simpa using (hParts part hPart).ne_nil
  rw [splitOnP_spelling hSlash hKept]
  split
  · simp [*]
  · simpa using hAll

theorem pieces_spelling : pieces (spelling parts) = parts :=
  filter_splitOnP_spelling hParts (by decide) fun part hPart => (hParts part hPart).kept

theorem components_spelling : components (spelling parts) = parts := by
  have hFilter := filter_splitOnP_spelling hParts (decide_eq_true rfl) fun part hPart => (hParts part hPart).noSlash
  refine (List.filter_congr fun part _ => ?_).trans hFilter
  cases part <;> rfl

theorem normalizePath_spelling :
    normalizePath (spelling parts) = some (spelling parts) ↔ (spelling parts).length ≤ maxPathBytes := by
  rw [normalizePath_eq_some, pieces_spelling hParts]
  have hNul : 0 ∉ spelling parts := by
    intro hZero
    rcases mem_spelling hZero with hSlash | ⟨part, hPart, hByte⟩
    · exact absurd hSlash (by decide)
    · exact (hParts part hPart).noNul hByte
  have hRefs : ∀ part ∈ (spelling parts).splitOnP isSeparator, ¬Reference part := by
    rw [splitOnP_spelling (by decide) fun part hPart => (hParts part hPart).kept]
    split
    · simp [Reference]
    · simpa [Reference] using fun part hPart => not_or.mp (hParts part hPart).notReference
  exact ⟨fun h => h.1, fun h => ⟨h, hNul, hRefs, rfl⟩⟩

end Spelled

theorem length_spelling_pieces (path : Text) :
    (rooted slash (pieces path)).length + (path.splitOnP isSeparator).countP List.isEmpty = path.length + 1 := by
  rw [length_rooted, pieces, sum_length_filter, sum_length_splitOnP]

/-- A path as long as any the readers take, with no piece to leave out. -/
structure Outgrows (path : Text) : Prop where
  length : path.length = maxPathBytes
  noNul : 0 ∉ path
  full : ∀ part ∈ path.splitOnP isSeparator, part ≠ [] ∧ ¬Reference part

/-- What a normalized path is: its own normalized path, and one spelling of the pieces. -/
structure Canonical (path normalized : Text) : Prop where
  again : normalizePath normalized = some normalized
  rooted : normalized.head? = some slash
  noBackslash : backslash ∉ normalized
  noNul : 0 ∉ normalized
  parts : normalized = [slash] ∨
    ∀ part ∈ normalized.tail.splitOnP (· = slash), part ≠ [] ∧ part ≠ [dot] ∧ part ≠ [dot, dot]
  components_eq : components normalized = pieces path
  same_iff : ∀ other normalized', normalizePath other = some normalized' →
    (normalized' = normalized ↔ pieces other = pieces path)

theorem Outgrows.normalized_longer {path : Text} (h : Outgrows path) :
    ∃ normalized, normalizePath path = some normalized ∧ maxPathBytes < normalized.length := by
  refine ⟨_, normalizePath_eq_some.mpr ⟨Nat.le_of_eq h.length, h.noNul, fun part hPart => (h.full part hPart).2, rfl⟩, ?_⟩
  have hNone : (path.splitOnP isSeparator).countP List.isEmpty = 0 :=
    List.countP_eq_zero.mpr fun part hPart => by simpa using (h.full part hPart).1
  have hLength := length_spelling_pieces path
  have hSome : pieces path ≠ [] := by
    intro hNil
    rw [hNil, hNone, h.length] at hLength
    cases hLength
  rw [hNone, h.length] at hLength
  rw [spelling_of_ne_nil hSome]
  omega

theorem normalizePath_length {path normalized : Text} (h : normalizePath path = some normalized) :
    normalizePath normalized = some normalized ↔ normalized.length ≤ maxPathBytes := by
  obtain ⟨-, hNul, hRefs, rfl⟩ := normalizePath_eq_some.mp h
  exact normalizePath_spelling fun part hPart => Plain.of_mem_pieces hNul hRefs hPart

theorem Outgrows.not_canonical {path : Text} (h : Outgrows path) :
    ¬∀ normalized, normalizePath path = some normalized → Canonical path normalized := by
  intro hCanonical
  obtain ⟨normalized, hNormalized, hLonger⟩ := h.normalized_longer
  have hAgain := (hCanonical normalized hNormalized).again
  exact absurd ((normalizePath_length hNormalized).mp hAgain) (Nat.not_le.mpr hLonger)

theorem length_le_of_not_outgrows {path normalized : Text} (hPath : normalizePath path = some normalized)
    (h : ¬Outgrows path) : normalized.length ≤ maxPathBytes := by
  obtain ⟨hLength, hNul, hRefs, rfl⟩ := normalizePath_eq_some.mp hPath
  have hCount := length_spelling_pieces path
  rw [spelling]
  split
  · decide
  · by_cases hShort : path.length = maxPathBytes
    · have hEmpty : 0 < (path.splitOnP isSeparator).countP List.isEmpty := by
        rw [List.countP_pos_iff]
        by_contra hNone
        exact h ⟨hShort, hNul, fun part hPart =>
          ⟨fun hNil => hNone ⟨part, hPart, by simp [hNil]⟩, hRefs part hPart⟩⟩
      omega
    · omega

theorem normalized_spelling {path normalized : Text} (h : normalizePath path = some normalized)
    (hLength : normalized.length ≤ maxPathBytes) : Canonical path normalized := by
  have hAgain := (normalizePath_length h).mpr hLength
  obtain ⟨-, hNul, hRefs, rfl⟩ := normalizePath_eq_some.mp h
  have hPlain : ∀ part ∈ pieces path, Plain part := fun part hPart => Plain.of_mem_pieces hNul hRefs hPart
  refine ⟨hAgain, ?_, ?_, (normalizePath_eq_some.mp hAgain).2.1, ?_, components_spelling hPlain, ?_⟩
  · cases hPieces : pieces path with
    | nil => rfl
    | cons part parts => rw [spelling_of_ne_nil (List.cons_ne_nil _ _), rooted_cons, List.head?_cons]
  · intro hMem
    rcases mem_spelling hMem with hSlash | ⟨part, hPart, hByte⟩
    · exact absurd hSlash (by decide)
    · exact absurd ((hPlain part hPart).kept backslash hByte) (by decide)
  · by_cases hNone : pieces path = []
    · exact .inl (by rw [hNone, spelling_nil])
    · right
      have hSplit := splitOnP_spelling (decide_eq_true rfl) fun part hPart => (hPlain part hPart).noSlash
      rw [if_neg hNone, spelling_of_ne_nil hNone] at hSplit
      obtain ⟨first, rest, hPieces⟩ := List.exists_cons_of_ne_nil hNone
      rw [spelling_of_ne_nil hNone]
      rw [hPieces, rooted_cons, splitOnP_separator (by decide)] at hSplit
      rw [hPieces, rooted_cons, List.tail_cons, (List.cons.inj hSplit).2, ← hPieces]
      exact fun part hPart => ⟨(hPlain part hPart).ne_nil, not_or.mp (hPlain part hPart).notReference⟩
  · intro other normalized' hOther
    obtain ⟨-, hNul', hRefs', rfl⟩ := normalizePath_eq_some.mp hOther
    constructor
    · intro hSame
      have hPieces := congrArg pieces hSame
      rwa [pieces_spelling fun part hPart => Plain.of_mem_pieces hNul' hRefs' hPart, pieces_spelling hPlain] at hPieces
    · intro hSame
      rw [hSame]

/-- Normalizing is canonical for every path but those that outgrow the readers' bound. -/
theorem normalizes_canonically_iff (path : Text) :
    (∀ normalized, normalizePath path = some normalized → Canonical path normalized) ↔ ¬Outgrows path := by
  constructor
  · intro hCanonical hOutgrows
    exact hOutgrows.not_canonical hCanonical
  · intro hFits normalized hNormalized
    exact normalized_spelling hNormalized (length_le_of_not_outgrows hNormalized hFits)

def longestName : Text := List.replicate maxPathBytes 0x61

theorem longestName_outgrows : Outgrows longestName := by
  have hSplit : longestName.splitOnP isSeparator = [longestName] :=
    List.splitOnP_eq_singleton fun byte hByte => by rw [List.eq_of_mem_replicate hByte]; rfl
  refine ⟨List.length_replicate, fun hZero => absurd (List.eq_of_mem_replicate hZero) (by decide), ?_⟩
  rw [hSplit]
  intro part hPart
  rw [List.mem_singleton.mp hPart]
  constructor
  · exact List.ne_nil_of_length_pos (by rw [longestName, List.length_replicate]; decide)
  · rintro (hDot | hDots)
    · exact absurd (congrArg List.length hDot) (by rw [longestName, List.length_replicate]; decide)
    · exact absurd (congrArg List.length hDots) (by rw [longestName, List.length_replicate]; decide)

theorem longestName_not_canonical :
    ¬∀ normalized, normalizePath longestName = some normalized → Canonical longestName normalized :=
  longestName_outgrows.not_canonical

end OpenHalfLife.Media
