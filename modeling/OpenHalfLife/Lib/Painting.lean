import Mathlib.Data.List.Basic
import Mathlib.Data.List.Induction
import Mathlib.Data.List.Nodup

/-! # Painting a buffer

A step that paints a patch puts the values of the patch in their places and
leaves every other place as it is. Of several patches the last one is seen,
unless they lie apart.
-/

namespace OpenHalfLife

set_option autoImplicit false

variable {α ι : Type*}

/-- The buffers of one length, and what is painted at each place, if anything. -/
structure Paints (length : Nat) (patch : Nat → Option α) (paint : List α → List α) : Prop where
  length_eq : ∀ buffer, buffer.length = length → (paint buffer).length = length
  getElem?_eq : ∀ buffer, buffer.length = length → ∀ i, (paint buffer)[i]? = (patch i).or buffer[i]?

theorem paints_id (length : Nat) : Paints length (fun _ => none) (id : List α → List α) where
  length_eq _ h := h
  getElem?_eq _ _ _ := rfl

theorem Paints.congr {length : Nat} {patch : Nat → Option α} {paint other : List α → List α}
    (h : Paints length patch paint) (hSame : ∀ buffer, buffer.length = length → other buffer = paint buffer) :
    Paints length patch other where
  length_eq buffer hBuffer := by
    rw [hSame buffer hBuffer]
    exact h.length_eq buffer hBuffer
  getElem?_eq buffer hBuffer := by
    rw [hSame buffer hBuffer]
    exact h.getElem?_eq buffer hBuffer

def overpaint (start : Nat) (piece buffer : List α) : List α :=
  buffer.take start ++ (piece ++ buffer.drop (start + piece.length))

theorem paints_overpaint {start length : Nat} {piece : List α} (h : start + piece.length ≤ length) :
    Paints length (fun i => if start ≤ i then piece[i - start]? else none) (overpaint start piece) where
  length_eq buffer hBuffer := by
    simp only [overpaint, List.length_append, List.length_take, List.length_drop]
    omega
  getElem?_eq buffer hBuffer i := by
    have hStart : (buffer.take start).length = start := by
      rw [List.length_take]
      omega
    rw [overpaint]
    by_cases hBefore : i < start
    · rw [List.getElem?_append_left (hStart.symm ▸ hBefore), List.getElem?_take_of_lt hBefore,
        if_neg (Nat.not_le.mpr hBefore), Option.none_or]
    · have hAfter := Nat.not_lt.mp hBefore
      rw [List.getElem?_append_right (hStart.symm ▸ hAfter), hStart, if_pos hAfter]
      by_cases hPiece : i - start < piece.length
      · rw [List.getElem?_append_left hPiece, List.getElem?_eq_getElem hPiece]
        rfl
      · have hPast := Nat.not_lt.mp hPiece
        rw [List.getElem?_append_right hPast, List.getElem?_eq_none hPast, Option.none_or, List.getElem?_drop]
        congr 1
        omega

def lastPatch (patch : ι → Nat → Option α) (keys : List ι) (i : Nat) : Option α :=
  keys.reverse.findSome? fun key => patch key i

theorem Paints.foldl {length : Nat} {patch : ι → Nat → Option α} {paint : ι → List α → List α} {keys : List ι}
    (h : ∀ key ∈ keys, Paints length (patch key) (paint key)) :
    Paints length (lastPatch patch keys) fun buffer => keys.foldl (fun buffer key => paint key buffer) buffer := by
  induction keys using List.reverseRecOn with
  | nil => exact paints_id length
  | append_singleton keys key ih =>
    have hKeys := ih fun other hOther => h other (List.mem_append_left _ hOther)
    have hKey := h key (List.mem_append_right _ (List.mem_singleton_self key))
    constructor
    · intro buffer hBuffer
      rw [List.foldl_append]
      exact hKey.length_eq _ (hKeys.length_eq buffer hBuffer)
    · intro buffer hBuffer i
      rw [List.foldl_append]
      refine (hKey.getElem?_eq _ (hKeys.length_eq buffer hBuffer) i).trans ?_
      rw [hKeys.getElem?_eq buffer hBuffer, lastPatch, lastPatch, List.reverse_append, List.reverse_singleton,
        List.singleton_append, List.findSome?_cons]
      cases patch key i with
      | none => rfl
      | some value => rfl

theorem lastPatch_eq_none {patch : ι → Nat → Option α} {keys : List ι} {i : Nat}
    (h : ∀ key ∈ keys, patch key i = none) : lastPatch patch keys i = none :=
  List.findSome?_eq_none_iff.mpr fun key hKey => h key (List.mem_reverse.mp hKey)

theorem lastPatch_eq {patch : ι → Nat → Option α} {before after : List ι} {key : ι} {i : Nat}
    (hBefore : ∀ other ∈ before, patch other i = none) (hAfter : ∀ other ∈ after, patch other i = none) :
    lastPatch patch (before ++ key :: after) i = patch key i := by
  have hLater : after.reverse.findSome? (fun key => patch key i) = none := lastPatch_eq_none hAfter
  have hEarlier : before.reverse.findSome? (fun key => patch key i) = none := lastPatch_eq_none hBefore
  rw [lastPatch, List.reverse_append, List.reverse_cons, List.append_assoc, List.findSome?_append, hLater,
    Option.none_or, List.singleton_append, List.findSome?_cons]
  cases patch key i with
  | none => exact hEarlier
  | some value => rfl

theorem lastPatch_range {patch : Nat → Nat → Option α} {count key i : Nat} (hKey : key < count)
    (hOther : ∀ other < count, other ≠ key → patch other i = none) :
    lastPatch patch (List.range count) i = patch key i := by
  obtain ⟨before, after, hSplit⟩ := List.append_of_mem (List.mem_range.mpr hKey)
  have hNodup := hSplit ▸ List.nodup_range
  rw [hSplit]
  refine lastPatch_eq (fun other hMem => ?_) fun other hMem => ?_
  · have hLt := List.mem_range.mp (hSplit ▸ List.mem_append_left _ hMem)
    refine hOther other hLt ?_
    rintro rfl
    exact (List.nodup_append.mp hNodup).2.2 other hMem other List.mem_cons_self rfl
  · have hLt := List.mem_range.mp (hSplit ▸ List.mem_append_right _ (List.mem_cons_of_mem _ hMem))
    refine hOther other hLt ?_
    rintro rfl
    exact (List.nodup_cons.mp (List.nodup_append.mp hNodup).2.1).1 hMem

end OpenHalfLife
