import Mathlib.Algebra.Ring.Nat
import Mathlib.Data.List.Basic
import Mathlib.Order.Lattice

/-! # Batches of a sequence

Items that are sorted by a key are written out one after another, and each batch says which stretch of the
writing belongs to a key.
-/

namespace OpenHalfLife

set_option autoImplicit false

structure Batch (κ : Type) where
  key : κ
  first : Nat
  count : Nat

variable {α κ ι : Type}

def Batch.part (batch : Batch κ) (written : List ι) : List ι := (written.drop batch.first).take batch.count

def Tiled : Nat → List (Batch κ) → Nat → Prop
  | start, [], stop => start = stop
  | start, batch :: rest, stop => batch.first = start ∧ Tiled (start + batch.count) rest stop

/-- The batches of the items that were written: one to a key, with the parts of all its items. -/
structure Batched [LinearOrder κ] (key : α → κ) (parts : α → List ι) (items : List α) (written : List ι)
    (batches : List (Batch κ)) : Prop where
  written_eq : written = items.flatMap parts
  tiled : Tiled 0 batches written.length
  own : ∀ batch ∈ batches, batch.part written = (items.filter fun item => key item = batch.key).flatMap parts
  sorted : (batches.map Batch.key).Pairwise (· < ·)
  covered : ∀ item ∈ items, ∃ batch ∈ batches, batch.key = key item
  used : ∀ batch ∈ batches, ∃ item ∈ items, key item = batch.key

theorem tiled_append {start stop : Nat} {batches more : List (Batch κ)} :
    Tiled start (batches ++ more) stop ↔ ∃ middle, Tiled start batches middle ∧ Tiled middle more stop := by
  induction batches generalizing start with
  | nil => simp [Tiled]
  | cons batch batches ih => simp [Tiled, ih, and_assoc]

theorem Tiled.le {start stop : Nat} {batches : List (Batch κ)} (h : Tiled start batches stop) : start ≤ stop := by
  induction batches generalizing start with
  | nil => exact le_of_eq h
  | cons batch batches ih => exact (Nat.le_add_right _ _).trans (ih h.2)

theorem Tiled.inside {start stop : Nat} {batches : List (Batch κ)} (h : Tiled start batches stop) :
    ∀ batch ∈ batches, batch.first + batch.count ≤ stop := by
  induction batches generalizing start with
  | nil => nofun
  | cons first batches ih =>
    obtain ⟨hFirst, hRest⟩ := h
    intro batch hMem
    rcases List.mem_cons.mp hMem with rfl | hMem
    · rw [hFirst]
      exact hRest.le
    · exact ih hRest batch hMem

theorem Batch.part_append {batch : Batch κ} {written more : List ι} (h : batch.first + batch.count ≤ written.length) :
    batch.part (written ++ more) = batch.part written := by
  rw [part, part, List.drop_append_of_le_length (by omega), List.take_append_of_le_length (by simp; omega)]

namespace Batched

variable [LinearOrder κ] {key : α → κ} {parts : α → List ι} {items : List α} {written : List ι}
  {batches : List (Batch κ)} {batch : Batch κ} {item : α}

theorem nil : Batched key parts [] [] [] where
  written_eq := rfl
  tiled := rfl
  own := nofun
  sorted := .nil
  covered := nofun
  used := nofun

theorem own_append (h : Batched key parts items written batches) (hMem : batch ∈ batches) (hKey : batch.key < key item) :
    batch.part (written ++ parts item) =
      ((items ++ [item]).filter fun item => key item = batch.key).flatMap parts := by
  rw [Batch.part_append (h.tiled.inside batch hMem), h.own batch hMem, List.filter_append]
  simp [hKey.ne']

theorem begin (h : Batched key parts items written batches) (hLater : ∀ batch ∈ batches, batch.key < key item) :
    Batched key parts (items ++ [item]) (written ++ parts item)
      (batches ++ [⟨key item, written.length, (parts item).length⟩]) where
  written_eq := by rw [h.written_eq, List.flatMap_append, List.flatMap_singleton]
  tiled := by
    rw [tiled_append, List.length_append]
    exact ⟨_, h.tiled, rfl, rfl⟩
  own batch hMem := by
    rcases List.mem_append.mp hMem with hMem | hMem
    · exact h.own_append hMem (hLater batch hMem)
    · obtain rfl := List.mem_singleton.mp hMem
      have hNone : (items.filter fun other => key other = key item) = [] := by
        rw [List.filter_eq_nil_iff]
        intro other hOther hSame
        obtain ⟨batch, hBatch, hKey⟩ := h.covered other hOther
        exact (hLater batch hBatch).ne (hKey.trans (of_decide_eq_true hSame))
      simp [Batch.part, List.filter_append, hNone]
  sorted := by
    rw [List.map_append, List.pairwise_append]
    refine ⟨h.sorted, List.pairwise_singleton _ _, ?_⟩
    rintro _ hOld _ hNew
    obtain ⟨batch, hBatch, rfl⟩ := List.mem_map.mp hOld
    rw [List.mem_singleton.mp hNew]
    exact hLater batch hBatch
  covered other hOther := by
    rcases List.mem_append.mp hOther with hOld | hNew
    · obtain ⟨batch, hBatch, hKey⟩ := h.covered other hOld
      exact ⟨batch, List.mem_append_left _ hBatch, hKey⟩
    · exact ⟨_, List.mem_append_right _ List.mem_cons_self, by rw [List.mem_singleton.mp hNew]⟩
  used batch hMem := by
    rcases List.mem_append.mp hMem with hMem | hMem
    · obtain ⟨other, hOther, hKey⟩ := h.used batch hMem
      exact ⟨other, List.mem_append_left _ hOther, hKey⟩
    · exact ⟨item, List.mem_append_right _ List.mem_cons_self, by rw [List.mem_singleton.mp hMem]⟩

theorem grow (h : Batched key parts items written (batches ++ [batch])) (hKey : batch.key = key item) :
    Batched key parts (items ++ [item]) (written ++ parts item)
      (batches ++ [{ batch with count := batch.count + (parts item).length }]) where
  written_eq := by rw [h.written_eq, List.flatMap_append, List.flatMap_singleton]
  tiled := by
    obtain ⟨middle, hBefore, hFirst, hStop⟩ := tiled_append.mp h.tiled
    refine tiled_append.mpr ⟨middle, hBefore, hFirst, ?_⟩
    rw [List.length_append, ← hStop, Nat.add_assoc]
    rfl
  own other hMem := by
    have hLast : batch ∈ batches ++ [batch] := List.mem_append_right _ List.mem_cons_self
    rcases List.mem_append.mp hMem with hMem | hMem
    · refine h.own_append (List.mem_append_left _ hMem) (hKey ▸ ?_)
      have hSorted := h.sorted
      rw [List.map_append, List.pairwise_append] at hSorted
      exact hSorted.2.2 _ (List.mem_map_of_mem hMem) _ List.mem_cons_self
    · obtain rfl := List.mem_singleton.mp hMem
      obtain ⟨middle, -, hFirst, hStop⟩ := tiled_append.mp h.tiled
      have hStop : batch.first + batch.count = written.length := hFirst ▸ hStop
      have hOwn := h.own batch hLast
      rw [Batch.part, List.take_of_length_le (by simp; omega)] at hOwn
      rw [Batch.part]
      dsimp only
      rw [List.drop_append_of_le_length (by omega), List.take_of_length_le (by simp; omega), hOwn,
        List.filter_append, List.flatMap_append]
      simp [hKey]
  sorted := by
    have hSorted := h.sorted
    rwa [List.map_append] at hSorted ⊢
  covered other hOther := by
    rcases List.mem_append.mp hOther with hOld | hNew
    · obtain ⟨old, hBatch, hSame⟩ := h.covered other hOld
      rcases List.mem_append.mp hBatch with hBatch | hBatch
      · exact ⟨old, List.mem_append_left _ hBatch, hSame⟩
      · refine ⟨_, List.mem_append_right _ List.mem_cons_self, ?_⟩
        rw [← hSame, List.mem_singleton.mp hBatch]
    · exact ⟨_, List.mem_append_right _ List.mem_cons_self, by rw [List.mem_singleton.mp hNew]; exact hKey⟩
  used other hMem := by
    rcases List.mem_append.mp hMem with hMem | hMem
    · obtain ⟨old, hOld, hSame⟩ := h.used other (List.mem_append_left _ hMem)
      exact ⟨old, List.mem_append_left _ hOld, hSame⟩
    · exact ⟨item, List.mem_append_right _ List.mem_cons_self, by rw [List.mem_singleton.mp hMem]; exact hKey.symm⟩

theorem lt_last (h : Batched key parts items written (batches ++ [batch])) :
    ∀ other ∈ batches ++ [batch], other.key ≤ batch.key := by
  have hSorted := h.sorted
  rw [List.map_append, List.pairwise_append] at hSorted
  intro other hMem
  rcases List.mem_append.mp hMem with hMem | hMem
  · exact (hSorted.2.2 _ (List.mem_map_of_mem hMem) _ List.mem_cons_self).le
  · rw [List.mem_singleton.mp hMem]

end Batched

end OpenHalfLife
