import Mathlib.Algebra.Ring.Nat
import Mathlib.Algebra.BigOperators.Group.List.Basic

/-! # Words cut at separators

Cutting a word at its separators and joining the pieces again. A rooted word
has one separator before every piece.
-/

namespace OpenHalfLife

set_option autoImplicit false

universe u

section Pieces

variable {α : Type u} {cut : α → Bool} {sep : α}

def rooted (sep : α) (pieces : List (List α)) : List α := pieces.flatMap (sep :: ·)

theorem rooted_cons (sep : α) (piece : List α) (pieces : List (List α)) :
    rooted sep (piece :: pieces) = sep :: (piece ++ rooted sep pieces) := rfl

theorem rooted_concat (sep : α) (pieces : List (List α)) (piece : List α) :
    rooted sep (pieces ++ [piece]) = rooted sep pieces ++ sep :: piece := by
  simp [rooted]

theorem length_rooted (sep : α) (pieces : List (List α)) :
    (rooted sep pieces).length = (pieces.map fun piece => piece.length + 1).sum := by
  rw [rooted, List.length_flatMap]
  rfl

theorem mem_rooted {pieces : List (List α)} {a : α} (h : a ∈ rooted sep pieces) :
    a = sep ∨ ∃ piece ∈ pieces, a ∈ piece := by
  obtain ⟨piece, hPiece, ha⟩ := List.mem_flatMap.mp h
  rcases List.mem_cons.mp ha with rfl | ha
  · exact .inl rfl
  · exact .inr ⟨piece, hPiece, ha⟩

theorem splitOnP_separator (hSep : cut sep = true) (word : List α) :
    (sep :: word).splitOnP cut = [] :: word.splitOnP cut := by
  rw [List.splitOnP_cons_eq_if_modifyHead, if_pos hSep]

theorem splitOnP_rooted (hSep : cut sep = true) {pieces : List (List α)}
    (h : ∀ piece ∈ pieces, ∀ a ∈ piece, cut a = false) :
    (rooted sep pieces).splitOnP cut = [] :: pieces := by
  induction pieces with
  | nil => exact List.splitOnP_nil
  | cons piece pieces ih =>
    have hPiece := h piece List.mem_cons_self
    have hRest := ih fun other hOther => h other (List.mem_cons_of_mem _ hOther)
    rw [rooted_cons, splitOnP_separator hSep]
    cases pieces with
    | nil =>
      rw [rooted, List.flatMap_nil, List.append_nil, List.splitOnP_eq_singleton hPiece]
    | cons next pieces =>
      rw [rooted_cons, splitOnP_separator hSep] at hRest
      rw [rooted_cons, List.splitOnP_append_cons_of_forall_mem hPiece sep hSep, (List.cons.inj hRest).2]

theorem forall_mem_splitOnP (word : List α) :
    ∀ piece ∈ word.splitOnP cut, ∀ a ∈ piece, a ∈ word ∧ cut a = false := by
  induction word with
  | nil =>
    intro piece hPiece a ha
    rw [List.mem_singleton.mp hPiece] at ha
    cases ha
  | cons first word ih =>
    intro piece hPiece a ha
    rw [List.splitOnP_cons_eq_if_modifyHead] at hPiece
    by_cases hCut : cut first = true
    · rw [if_pos hCut] at hPiece
      rcases List.mem_cons.mp hPiece with rfl | hPiece
      · cases ha
      · obtain ⟨hMem, hKept⟩ := ih piece hPiece a ha
        exact ⟨List.mem_cons_of_mem _ hMem, hKept⟩
    · rw [if_neg hCut] at hPiece
      cases hPieces : word.splitOnP cut with
      | nil => exact absurd hPieces (List.splitOnP_ne_nil cut word)
      | cons head pieces =>
        rw [hPieces, List.modifyHead_cons] at hPiece
        rw [hPieces] at ih
        rcases List.mem_cons.mp hPiece with rfl | hPiece
        · rcases List.mem_cons.mp ha with rfl | ha
          · exact ⟨List.mem_cons_self, Bool.eq_false_iff.mpr hCut⟩
          · obtain ⟨hMem, hKept⟩ := ih head List.mem_cons_self a ha
            exact ⟨List.mem_cons_of_mem _ hMem, hKept⟩
        · obtain ⟨hMem, hKept⟩ := ih piece (List.mem_cons_of_mem _ hPiece) a ha
          exact ⟨List.mem_cons_of_mem _ hMem, hKept⟩

theorem sum_length_splitOnP (cut : α → Bool) (word : List α) :
    ((word.splitOnP cut).map fun piece => piece.length + 1).sum = word.length + 1 := by
  induction word with
  | nil => rfl
  | cons first word ih =>
    rw [List.splitOnP_cons_eq_if_modifyHead]
    split
    · rw [List.map_cons, List.sum_cons, ih, List.length_nil, List.length_cons]
      omega
    · cases hPieces : word.splitOnP cut with
      | nil => exact absurd hPieces (List.splitOnP_ne_nil cut word)
      | cons head pieces =>
        rw [hPieces, List.map_cons, List.sum_cons] at ih
        rw [List.modifyHead_cons, List.map_cons, List.sum_cons, List.length_cons, List.length_cons]
        omega

theorem sum_length_filter (pieces : List (List α)) :
    ((pieces.filter fun piece => !piece.isEmpty).map fun piece => piece.length + 1).sum +
        pieces.countP List.isEmpty =
      (pieces.map fun piece => piece.length + 1).sum := by
  induction pieces with
  | nil => rfl
  | cons piece pieces ih =>
    cases piece with
    | nil =>
      rw [List.filter_cons_of_neg (by simp), List.countP_cons_of_pos (by simp), List.map_cons, List.sum_cons, ← ih,
        List.length_nil]
      omega
    | cons a piece =>
      rw [List.filter_cons_of_pos (by simp), List.countP_cons_of_neg (by simp), List.map_cons, List.map_cons,
        List.sum_cons, List.sum_cons, ← ih]
      omega

end Pieces

end OpenHalfLife
