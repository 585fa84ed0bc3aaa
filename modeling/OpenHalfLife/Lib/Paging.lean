import Mathlib.Algebra.Order.Group.Nat
import Mathlib.Data.List.Basic

/-! # Pages of bounded length and weight

A list is cut into pages, each as long as the bounds on its items and on their
weights allow. No page is empty if every item fits a page of its own.
-/

namespace OpenHalfLife.Paging

set_option autoImplicit false

structure Bounds where
  maxItems : Nat
  maxWeight : Nat

variable {α : Type} (bounds : Bounds) (weight : α → Nat)

def total : List α → Nat
  | [] => 0
  | item :: items => weight item + total items

/-- How many more items a page takes that has `taken` of weight `sum`. -/
def room : Nat → Nat → List α → Nat
  | _, _, [] => 0
  | taken, sum, item :: items =>
    if bounds.maxItems ≤ taken ∨ bounds.maxWeight < sum + weight item then 0
    else room (taken + 1) (sum + weight item) items + 1

/-- A page from the front of a list, and no longer page would be within the bounds. -/
structure Full (items : List α) (count : Nat) : Prop where
  le_length : count ≤ items.length
  le_items : count ≤ bounds.maxItems
  le_weight : total weight (items.take count) ≤ bounds.maxWeight
  greatest : ∀ other ≤ items.length, other ≤ bounds.maxItems → total weight (items.take other) ≤ bounds.maxWeight →
    other ≤ count

def page (items : List α) : List α := items.take (room bounds weight 0 0 items)

/-- The pages of a list, at most `fuel` of them. -/
def pages : Nat → List α → List (List α)
  | 0, _ => []
  | fuel + 1, items =>
    if items.isEmpty then [] else page bounds weight items :: pages fuel (items.drop (room bounds weight 0 0 items))

def cut (items : List α) : List (List α) := pages bounds weight items.length items

variable {bounds weight} {items : List α} {item : α} {taken sum fuel : Nat}

theorem pages_cons : pages bounds weight (fuel + 1) (item :: items) = page bounds weight (item :: items) ::
    pages bounds weight fuel ((item :: items).drop (room bounds weight 0 0 (item :: items))) := rfl

theorem total_cons : total weight (item :: items) = weight item + total weight items := rfl

theorem room_le_length : room bounds weight taken sum items ≤ items.length := by
  induction items generalizing taken sum with
  | nil => exact Nat.le_refl 0
  | cons item items ih =>
    rw [room]
    split
    · exact Nat.zero_le _
    · exact Nat.succ_le_succ ih

theorem room_within (hTaken : taken ≤ bounds.maxItems) (hSum : sum ≤ bounds.maxWeight) :
    taken + room bounds weight taken sum items ≤ bounds.maxItems ∧
      sum + total weight (items.take (room bounds weight taken sum items)) ≤ bounds.maxWeight := by
  induction items generalizing taken sum with
  | nil => exact ⟨hTaken, hSum⟩
  | cons item items ih =>
    rw [room]
    split
    · exact ⟨hTaken, hSum⟩
    · next hRoom =>
      obtain ⟨hItems, hWeight⟩ := not_or.mp hRoom
      have hMore : taken + 1 ≤ bounds.maxItems := by omega
      obtain ⟨hLength, hTotal⟩ := ih hMore (Nat.le_of_not_lt hWeight)
      rw [List.take_succ_cons, total_cons]
      omega

theorem room_greatest {other : Nat} (hLength : other ≤ items.length) (hItems : taken + other ≤ bounds.maxItems)
    (hWeight : sum + total weight (items.take other) ≤ bounds.maxWeight) : other ≤ room bounds weight taken sum items := by
  induction items generalizing taken sum other with
  | nil => exact hLength
  | cons item items ih =>
    cases other with
    | zero => exact Nat.zero_le _
    | succ other =>
      rw [List.take_succ_cons, total_cons] at hWeight
      rw [List.length_cons] at hLength
      rw [room, if_neg (by omega)]
      exact Nat.succ_le_succ (ih (by omega) (by omega) (by omega))

theorem full_room : Full bounds weight items (room bounds weight 0 0 items) := by
  have hWithin : 0 + room bounds weight 0 0 items ≤ bounds.maxItems ∧
      0 + total weight (items.take (room bounds weight 0 0 items)) ≤ bounds.maxWeight :=
    room_within (Nat.zero_le _) (Nat.zero_le _)
  rw [Nat.zero_add, Nat.zero_add] at hWithin
  refine ⟨room_le_length, hWithin.1, hWithin.2, fun other hLength hItems hWeight => ?_⟩
  exact room_greatest hLength (by omega) (by omega)

theorem le_total (h : item ∈ items) : weight item ≤ total weight items := by
  induction items with
  | nil => cases h
  | cons head items ih =>
    rw [total_cons]
    rcases List.mem_cons.mp h with rfl | hRest
    · exact Nat.le_add_right _ _
    · exact (ih hRest).trans (Nat.le_add_left _ _)

theorem light_of_mem_page (h : item ∈ page bounds weight items) : weight item ≤ bounds.maxWeight :=
  (le_total h).trans full_room.le_weight

theorem room_pos (hItems : 0 < bounds.maxItems) (hItem : weight item ≤ bounds.maxWeight) :
    0 < room bounds weight 0 0 (item :: items) := by
  rw [room, if_neg (by omega)]
  exact Nat.succ_pos _

/-! ### A whole list -/

variable (hItems : 0 < bounds.maxItems) (hLight : ∀ item ∈ items, weight item ≤ bounds.maxWeight)

include hItems hLight

theorem room_pos_of_ne_nil (hSome : items ≠ []) : 0 < room bounds weight 0 0 items := by
  cases items with
  | nil => exact absurd rfl hSome
  | cons item items => exact room_pos hItems (hLight item List.mem_cons_self)

theorem pages_eq {fuel' : Nat} (hFuel : items.length ≤ fuel) (hFuel' : items.length ≤ fuel') :
    pages bounds weight fuel items = pages bounds weight fuel' items := by
  induction fuel generalizing items fuel' with
  | zero =>
    rw [List.length_eq_zero_iff.mp (Nat.le_zero.mp hFuel)]
    cases fuel' <;> rfl
  | succ fuel ih =>
    cases items with
    | nil => cases fuel' <;> rfl
    | cons item items =>
      rw [List.length_cons] at hFuel hFuel'
      obtain ⟨more, rfl⟩ : ∃ more, fuel' = more + 1 := ⟨fuel' - 1, by omega⟩
      have hRoom := room_pos_of_ne_nil hItems hLight (List.cons_ne_nil _ _)
      have hShort : ((item :: items).drop (room bounds weight 0 0 (item :: items))).length ≤ items.length := by
        rw [List.length_drop, List.length_cons]
        omega
      have hRest : pages bounds weight fuel ((item :: items).drop (room bounds weight 0 0 (item :: items))) =
          pages bounds weight more ((item :: items).drop (room bounds weight 0 0 (item :: items))) :=
        ih (fun other hOther => hLight other (List.mem_of_mem_drop hOther)) (by omega) (by omega)
      rw [pages_cons, pages_cons, hRest]

theorem cut_of_ne_nil (hSome : items ≠ []) : cut bounds weight items =
    page bounds weight items :: cut bounds weight (items.drop (room bounds weight 0 0 items)) := by
  cases items with
  | nil => exact absurd rfl hSome
  | cons item items =>
    have hRoom := room_pos_of_ne_nil hItems hLight hSome
    have hShort : ((item :: items).drop (room bounds weight 0 0 (item :: items))).length ≤ items.length := by
      rw [List.length_drop, List.length_cons]
      omega
    have hRest := pages_eq hItems (fun other hOther => hLight other (List.mem_of_mem_drop hOther)) hShort (Nat.le_refl _)
    rw [cut, List.length_cons, pages_cons, hRest]
    rfl

theorem ne_nil_of_mem_cut {chosen : List α} (h : chosen ∈ cut bounds weight items) : chosen ≠ [] := by
  unfold cut at h
  generalize items.length = fuel at h
  induction fuel generalizing items with
  | zero => cases h
  | succ fuel ih =>
    rw [pages] at h
    split at h
    · cases h
    · next hSome =>
      rcases List.mem_cons.mp h with rfl | hRest
      · have hRoom := room_pos_of_ne_nil hItems hLight fun hNil => hSome (by rw [hNil]; rfl)
        intro hNil
        have hLength := congrArg List.length hNil
        rw [page, List.length_take, List.length_nil, Nat.min_eq_left room_le_length] at hLength
        omega
      · exact ih (fun other hOther => hLight other (List.mem_of_mem_drop hOther)) hRest

end OpenHalfLife.Paging
