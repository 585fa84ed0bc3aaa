import Mathlib.Data.List.Basic
import Mathlib.Data.List.DropRight
import Mathlib.Data.List.Nodup
import Mathlib.Order.Lattice

/-! # Removing an element by swapping

The element at an index is taken out of a list and the last one put in its
place, as a vector does when its order does not matter.
-/

namespace OpenHalfLife

set_option autoImplicit false

variable {α : Type}

def swapRemove (l : List α) (index : Nat) : List α :=
  match l.getLast? with
  | none => []
  | some last => (l.set index last).dropLast

theorem swapRemove_last (front : List α) (a : α) : swapRemove (front ++ [a]) front.length = front := by
  rw [swapRemove, List.getLast?_concat]
  simp

theorem swapRemove_inner (front middle : List α) (a last : α) :
    swapRemove (front ++ a :: (middle ++ [last])) front.length = front ++ last :: middle := by
  have hLast : (front ++ a :: (middle ++ [last])).getLast? = some last := by
    rw [← List.cons_append, ← List.append_assoc, List.getLast?_concat]
  rw [swapRemove, hLast]
  change ((front ++ a :: (middle ++ [last])).set front.length last).dropLast = _
  rw [List.set_append_right _ _ (Nat.le_refl _), Nat.sub_self, List.set_cons_zero, ← List.cons_append,
    ← List.append_assoc, List.dropLast_concat]

theorem swapRemove_perm (front back : List α) (a : α) :
    (front ++ a :: back).Perm (a :: swapRemove (front ++ a :: back) front.length) := by
  rcases List.eq_nil_or_concat back with rfl | ⟨middle, last, rfl⟩
  · rw [swapRemove_last]
    exact List.perm_append_comm
  · rw [List.concat_eq_append, swapRemove_inner]
    apply List.perm_middle.trans
    apply List.Perm.cons
    apply List.Perm.append_left
    exact List.perm_append_comm

theorem findIdx?_split {p : α → Bool} {l : List α} {index : Nat} (h : l.findIdx? p = some index) :
    ∃ front a back, l = front ++ a :: back ∧ front.length = index ∧ p a = true ∧ ∀ b ∈ front, p b = false := by
  rw [List.findIdx?_eq_some_iff_getElem] at h
  obtain ⟨hIndex, hHolds, hBefore⟩ := h
  refine ⟨l.take index, l[index], l.drop (index + 1), ?_, List.length_take_of_le (Nat.le_of_lt hIndex), hHolds, ?_⟩
  · rw [← List.drop_eq_getElem_cons hIndex, List.take_append_drop]
  · intro b hMem
    obtain ⟨j, hj, rfl⟩ := List.mem_take_iff_getElem.mp hMem
    have hLess : j < index := (Nat.lt_min.mp hj).1
    simpa using hBefore j hLess

end OpenHalfLife

namespace OpenHalfLife

set_option autoImplicit false

/-! ## Draining a queue by swaps

The first due element is taken again and again, the last one fills its place,
and every removal may push new elements. When are the due elements taken in the
order of their keys?
-/

variable {α κ : Type} (due : α → Bool)

def takeFirst (l : List α) : Option (α × List α) :=
  (l.findIdx? due).bind fun index => l[index]?.map fun a => (a, swapRemove l index)

section TakeFirst

variable {due} {front middle rest l : List α} {a last : α}

theorem takeFirst_some (h : takeFirst due l = some (a, rest)) :
    ∃ front, due a = true ∧ (∀ b ∈ front, due b = false) ∧
      ((l = front ++ [a] ∧ rest = front) ∨
        ∃ middle last, l = front ++ a :: (middle ++ [last]) ∧ rest = front ++ last :: middle) := by
  rw [takeFirst, Option.bind_eq_some_iff] at h
  obtain ⟨index, hFound, hTaken⟩ := h
  obtain ⟨front, first, back, rfl, rfl, hDue, hFront⟩ := findIdx?_split hFound
  rw [List.getElem?_append_right (Nat.le_refl _), Nat.sub_self, List.getElem?_cons_zero, Option.map_some] at hTaken
  cases hTaken
  refine ⟨front, hDue, hFront, ?_⟩
  rcases List.eq_nil_or_concat back with rfl | ⟨middle, last, rfl⟩
  · exact .inl ⟨rfl, swapRemove_last front a⟩
  · rw [List.concat_eq_append]
    exact .inr ⟨middle, last, rfl, swapRemove_inner front middle a last⟩

theorem takeFirst_split (hDue : due a = true) (hFront : ∀ b ∈ front, due b = false) (back : List α) :
    takeFirst due (front ++ a :: back) = some (a, swapRemove (front ++ a :: back) front.length) := by
  have hFound : (front ++ a :: back).findIdx? due = some front.length := by
    rw [List.findIdx?_append, List.findIdx?_eq_none_iff.mpr hFront, List.findIdx?_cons, if_pos hDue]
    simp
  rw [takeFirst, hFound, Option.bind_some, List.getElem?_append_right (Nat.le_refl _), Nat.sub_self,
    List.getElem?_cons_zero, Option.map_some]

theorem takeFirst_none : takeFirst due l = none ↔ ∀ a ∈ l, due a = false := by
  rw [← List.findIdx?_eq_none_iff]
  constructor
  · intro h
    cases hFound : l.findIdx? due with
    | none => rfl
    | some index =>
      obtain ⟨front, first, back, rfl, rfl, -, -⟩ := findIdx?_split hFound
      rw [takeFirst, hFound, Option.bind_some, List.getElem?_append_right (Nat.le_refl _), Nat.sub_self,
        List.getElem?_cons_zero] at h
      cases h
  · intro h
    rw [takeFirst, h, Option.bind_none]

theorem takeFirst_perm (h : takeFirst due l = some (a, rest)) : l.Perm (a :: rest) := by
  rw [takeFirst, Option.bind_eq_some_iff] at h
  obtain ⟨index, hFound, hTaken⟩ := h
  obtain ⟨front, first, back, rfl, rfl, -, -⟩ := findIdx?_split hFound
  rw [List.getElem?_append_right (Nat.le_refl _), Nat.sub_self, List.getElem?_cons_zero, Option.map_some] at hTaken
  cases hTaken
  exact swapRemove_perm front back a

theorem filter_front (h : ∀ b ∈ front, due b = false) : front.filter due = [] :=
  List.filter_eq_nil_iff.mpr fun b hMem => by simp [h b hMem]

end TakeFirst

/-- A queue is drained in this order; it may stop where `stops` says so, and a removal pushes
what `pushes` allows. -/
inductive Drains (stops pushes : List α → Prop) : List α → List α → Prop
  | stop (queue : List α) : stops queue → Drains stops pushes queue []
  | take (queue : List α) (a : α) (rest pushed order : List α) : takeFirst due queue = some (a, rest) →
    pushes pushed → Drains stops pushes (rest ++ pushed) order → Drains stops pushes queue (a :: order)

variable [LinearOrder κ] (key : α → κ)

/-- Of two due elements of the queue, the one with the smaller key comes first. -/
def InOrder (queue order : List α) : Prop :=
  ∀ a ∈ queue, ∀ b ∈ queue, due a = true → due b = true → key a < key b →
    ∀ before after, order = before ++ b :: after → a ∈ before

/-- The due elements stand in the order of their keys, and enough others stand behind them. -/
structure InPlace (queue : List α) : Prop where
  sorted : (queue.filter due).Pairwise fun a b => key a < key b
  behind : (queue.filter due).length ≤ (queue.rtakeWhile fun a => !due a).length + 2

/-- The first due element is the least, and without it the others are in place. -/
def InStep (queue : List α) : Prop :=
  ∀ a rest, takeFirst due queue = some (a, rest) →
    (∀ b ∈ rest, due b = true → key a < key b) ∧ InPlace due key rest

/-- A queue whose old due elements will be taken in order: at most one new element stands before
them, and every removal finds something else at the end. -/
inductive Orderly (fresh : α → Prop) (queue : List α) : Prop
  | settled : (∀ a ∈ queue, due a = true → fresh a) → Orderly fresh queue
  | split (front tail ahead olds : List α) : queue = front ++ tail → (∀ a ∈ tail, due a = true → fresh a) →
    front.filter due = ahead ++ olds → ahead.length ≤ 1 → (∀ a ∈ ahead, fresh a) → (∀ a ∈ olds, ¬ fresh a) →
    (olds.Pairwise fun a b => key a < key b) → ahead.length + olds.length ≤ tail.countP (fun a => !due a) + 2 →
    Orderly fresh queue

section Orderly

variable {due key} {fresh : α → Prop} {queue rest pushed order : List α} {a : α}

theorem Orderly.push (h : Orderly due key fresh queue) (hPushed : ∀ b ∈ pushed, fresh b) :
    Orderly due key fresh (queue ++ pushed) := by
  cases h with
  | settled hFresh =>
    refine .settled fun b hMem hDue => ?_
    rcases List.mem_append.mp hMem with hMem | hMem
    · exact hFresh b hMem hDue
    · exact hPushed b hMem
  | split front tail ahead olds hQueue hTail hFront hAhead hFresh hOlds hSorted hBehind =>
    refine .split front (tail ++ pushed) ahead olds ?_ ?_ hFront hAhead hFresh hOlds hSorted ?_
    · rw [hQueue, List.append_assoc]
    · intro b hMem hDue
      rcases List.mem_append.mp hMem with hMem | hMem
      · exact hTail b hMem hDue
      · exact hPushed b hMem
    · rw [List.countP_append]
      omega

theorem pairwise_of_length_le_one {r : α → α → Prop} {l : List α} (h : l.length ≤ 1) : l.Pairwise r := by
  match l, h with
  | [], _ => exact .nil
  | [b], _ => exact List.pairwise_singleton _ _

/-- The first due element stands in `front` and `olds` behind it. -/
theorem orderly_swapRemove {front behind tail : List α} (hFront : ∀ b ∈ front, due b = false)
    (hTail : ∀ b ∈ tail, due b = true → fresh b) (hOlds : ∀ b ∈ behind, due b = true → ¬ fresh b)
    (hSorted : (behind.filter due).Pairwise fun a b => key a < key b)
    (hBehind : (behind.filter due).length ≤ tail.countP (fun a => !due a) + 1) :
    Orderly due key fresh (swapRemove (front ++ a :: (behind ++ tail)) front.length) := by
  have hOld {b : α} (hMem : b ∈ behind.filter due) : ¬ fresh b :=
    hOlds b (List.mem_filter.mp hMem).1 (List.mem_filter.mp hMem).2
  rcases List.eq_nil_or_concat tail with rfl | ⟨tail, last, rfl⟩
  · rw [List.append_nil]
    rw [List.countP_nil, Nat.zero_add] at hBehind
    rcases List.eq_nil_or_concat behind with rfl | ⟨behind, last, rfl⟩
    · rw [swapRemove_last]
      exact .settled fun b hMem hDue => absurd (hFront b hMem) (by simp [hDue])
    · rw [List.concat_eq_append] at hOld hBehind ⊢
      rw [swapRemove_inner]
      have hPerm : ((last :: behind).filter due).Perm ((behind ++ [last]).filter due) :=
        List.Perm.filter _ (@List.perm_append_comm _ [last] behind)
      have hLength := hPerm.length_eq
      refine .split (front ++ last :: behind) [] [] ((last :: behind).filter due) ?_ ?_ ?_ ?_ ?_ ?_ ?_ ?_
      · rw [List.append_nil]
      · exact fun b hMem => absurd hMem List.not_mem_nil
      · rw [List.filter_append, filter_front hFront]
      · exact Nat.zero_le _
      · exact fun b hMem => absurd hMem List.not_mem_nil
      · exact fun b hMem => hOld (hPerm.mem_iff.mp hMem)
      · exact pairwise_of_length_le_one (hLength ▸ hBehind)
      · rw [List.length_nil, List.countP_nil]
        omega
  · rw [List.concat_eq_append] at hTail hBehind ⊢
    rw [← List.append_assoc, swapRemove_inner]
    have hLast : [last].countP (fun a => !due a) + ([last].filter due).length = 1 := by
      cases hDue : due last <;> simp [hDue]
    rw [List.countP_append] at hBehind
    refine .split (front ++ last :: behind) tail ([last].filter due) (behind.filter due) ?_ ?_ ?_ ?_ ?_ ?_ hSorted ?_
    · simp
    · exact fun b hMem => hTail b (List.mem_append_left _ hMem)
    · rw [List.filter_append, filter_front hFront, ← List.singleton_append, List.filter_append]
      rfl
    · exact (List.length_filter_le _ _)
    · intro b hMem
      obtain ⟨hMem, hDue⟩ := List.mem_filter.mp hMem
      exact hTail b (List.mem_append_right _ hMem) hDue
    · exact fun b hMem => hOld hMem
    · omega

theorem Orderly.take (h : Orderly due key fresh queue) (hTake : takeFirst due queue = some (a, rest)) :
    Orderly due key fresh rest ∧ (¬ fresh a → ∀ b ∈ rest, due b = true → ¬ fresh b → key a ≤ key b) := by
  have hPerm := takeFirst_perm hTake
  obtain ⟨-, hDue, -, -⟩ := takeFirst_some hTake
  cases h with
  | settled hFresh =>
    refine ⟨.settled fun b hMem hDue => hFresh b (hPerm.mem_iff.mpr (List.mem_cons_of_mem _ hMem)) hDue, fun hOld => ?_⟩
    exact absurd (hFresh a (hPerm.mem_iff.mpr List.mem_cons_self) hDue) hOld
  | split front tail ahead olds hQueue hTail hFront hAhead hFresh hOlds hSorted hBehind =>
    subst hQueue
    have hWhere {b : α} (hMem : b ∈ front ++ tail) (hDue : due b = true) (hOld : ¬ fresh b) : b ∈ ahead ++ olds := by
      rcases List.mem_append.mp hMem with hMem | hMem
      · exact hFront ▸ List.mem_filter.mpr ⟨hMem, hDue⟩
      · exact absurd (hTail b hMem hDue) hOld
    -- What stands first is the element ahead, or the least of the old ones.
    have hFirst (first : α) (others : List α) (hSplit : front.filter due = first :: others)
        (hOthers : ∀ b ∈ others, ¬ fresh b) (hSorted : others.Pairwise fun a b => key a < key b)
        (hCount : others.length ≤ tail.countP (fun a => !due a) + 1) : a = first ∧ Orderly due key fresh rest := by
      obtain ⟨before, behind, rfl, hBefore, hDue, rfl⟩ := List.filter_eq_cons_iff.mp hSplit
      have hUndue : ∀ b ∈ before, due b = false := fun b hMem => by simpa using hBefore b hMem
      rw [List.append_assoc, List.cons_append, takeFirst_split hDue hUndue] at hTake
      cases hTake
      refine ⟨rfl, orderly_swapRemove hUndue hTail (fun b hMem hDue => ?_) hSorted hCount⟩
      exact hOthers b (List.mem_filter.mpr ⟨hMem, hDue⟩)
    cases ahead with
    | nil =>
      cases olds with
      | nil =>
        refine ⟨.settled fun b hMem hDue => ?_, fun hOld => ?_⟩
        · by_contra hOld
          exact List.not_mem_nil (hWhere (hPerm.mem_iff.mpr (List.mem_cons_of_mem _ hMem)) hDue hOld)
        · exact absurd (hWhere (hPerm.mem_iff.mpr List.mem_cons_self) hDue hOld) List.not_mem_nil
      | cons first olds =>
        rw [List.pairwise_cons] at hSorted
        rw [List.length_nil, List.length_cons] at hBehind
        obtain ⟨rfl, hOrderly⟩ := hFirst first olds hFront (fun b hMem => hOlds b (List.mem_cons_of_mem _ hMem))
          hSorted.2 (by omega)
        refine ⟨hOrderly, fun _ b hMem hDue hOld => ?_⟩
        rcases List.mem_cons.mp (hWhere (hPerm.mem_iff.mpr (List.mem_cons_of_mem _ hMem)) hDue hOld) with rfl | hMem
        · exact le_refl _
        · exact (hSorted.1 b hMem).le
    | cons first ahead =>
      have hNone : ahead = [] := List.eq_nil_of_length_eq_zero (by simpa using hAhead)
      subst hNone
      rw [List.length_singleton] at hBehind
      obtain ⟨rfl, hOrderly⟩ := hFirst first olds hFront hOlds hSorted (by omega)
      exact ⟨hOrderly, fun hOld => absurd (hFresh a List.mem_cons_self) hOld⟩

theorem Orderly.inOrder (h : Orderly due key fresh queue) {stops : List α → Prop}
    (hDrains : Drains due stops (fun pushed => ∀ b ∈ pushed, fresh b) queue order) {b : α} (hMem : a ∈ queue)
    (hDue : due a = true) (hOld : ¬ fresh a) (hOld' : ¬ fresh b) (hLess : key a < key b) (before after : List α)
    (hOrder : order = before ++ b :: after) : a ∈ before := by
  induction hDrains generalizing before with
  | stop queue hStops => simp at hOrder
  | take queue first rest pushed order hTake hPushed _ ih =>
    obtain ⟨hRest, hLeast⟩ := h.take hTake
    have hWhere := (takeFirst_perm hTake).mem_iff.mp hMem
    cases before with
    | nil =>
      cases hOrder
      rcases List.mem_cons.mp hWhere with rfl | hMem
      · exact absurd hLess (lt_irrefl _)
      · exact absurd (hLeast hOld' a hMem hDue hOld) (not_le.mpr hLess)
    | cons head before =>
      cases hOrder
      rcases List.mem_cons.mp hWhere with rfl | hMem
      · exact List.mem_cons_self
      · exact List.mem_cons_of_mem _ (ih (hRest.push hPushed) (List.mem_append_left _ hMem) before rfl)

theorem InPlace.orderly (h : InPlace due key queue) (hOld : ∀ a ∈ queue, ¬ fresh a) : Orderly due key fresh queue := by
  have hSplit : queue = queue.rdropWhile (fun a => !due a) ++ queue.rtakeWhile fun a => !due a :=
    List.rdropWhile_append_rtakeWhile.symm
  have hTail : ∀ a ∈ queue.rtakeWhile fun a => !due a, due a = false := fun a hMem => by
    simpa using List.mem_rtakeWhile_imp hMem
  have hFilter : (queue.rdropWhile fun a => !due a).filter due = queue.filter due := by
    conv_rhs => rw [hSplit, List.filter_append, filter_front hTail, List.append_nil]
  refine .split _ _ [] (queue.filter due) hSplit ?_ hFilter ?_ ?_ ?_ h.sorted ?_
  · exact fun a hMem hDue => absurd (hTail a hMem) (by simp [hDue])
  · exact Nat.zero_le _
  · exact fun a hMem => absurd hMem List.not_mem_nil
  · exact fun a hMem => hOld a (List.mem_filter.mp hMem).1
  · have hAll : (queue.rtakeWhile fun a => !due a).countP (fun a => !due a) = (queue.rtakeWhile fun a => !due a).length :=
      List.countP_eq_length.mpr fun a hMem => by simpa using hTail a hMem
    rw [hAll, List.length_nil, Nat.zero_add]
    exact h.behind

theorem InStep.inOrder (h : InStep due key queue) (hOld : ∀ a ∈ queue, ¬ fresh a) {stops : List α → Prop}
    (hDrains : Drains due stops (fun pushed => ∀ b ∈ pushed, fresh b) queue order) : InOrder due key queue order := by
  intro a hA b hB hDue _ hLess before after hOrder
  cases hDrains with
  | stop queue hStops => simp at hOrder
  | take queue first rest pushed order hTake hPushed hDrains =>
    obtain ⟨hLeast, hPlace⟩ := h first rest hTake
    have hPerm := takeFirst_perm hTake
    have hWhere := hPerm.mem_iff.mp hA
    cases before with
    | nil =>
      cases hOrder
      rcases List.mem_cons.mp hWhere with rfl | hMem
      · exact absurd hLess (lt_irrefl _)
      · exact absurd (hLeast a hMem hDue) (not_lt.mpr hLess.le)
    | cons head before =>
      cases hOrder
      rcases List.mem_cons.mp hWhere with rfl | hMem
      · exact List.mem_cons_self
      · have hRest : Orderly due key fresh (rest ++ pushed) :=
          (hPlace.orderly fun a hMem => hOld a (hPerm.mem_iff.mpr (List.mem_cons_of_mem _ hMem))).push hPushed
        exact List.mem_cons_of_mem _
          (hRest.inOrder hDrains (List.mem_append_left _ hMem) hDue (hOld a hA) (hOld b hB) hLess before after rfl)

end Orderly

section Disorder

variable {due key} {queue rest order : List α} {a : α}

def Drained (due : α → Bool) (queue : List α) : Prop := takeFirst due queue = none

def Silent (pushed : List α) : Prop := pushed = []

def Padded (due : α → Bool) (pushed : List α) : Prop := ∃ b, pushed = [b] ∧ due b = false

theorem Drains.padded_order (h : Drains due (Drained due) (Padded due) queue order)
    (hLast : ∀ b, queue.getLast? = some b → due b = false) : order = queue.filter due := by
  induction h with
  | stop queue hDrained =>
    exact (filter_front (takeFirst_none.mp hDrained)).symm
  | take queue a rest pushed order hTake hPushed _ ih =>
    obtain ⟨b, rfl, hUndue⟩ := hPushed
    obtain ⟨front, hDue, hFront, hSplit⟩ := takeFirst_some hTake
    have hOrder := ih (by simpa using hUndue)
    rcases hSplit with ⟨rfl, rfl⟩ | ⟨middle, last, rfl, rfl⟩
    · exact absurd (hLast a List.getLast?_concat) (by simp [hDue])
    · have hEnd : due last = false := by
        apply hLast
        rw [← List.cons_append, ← List.append_assoc, List.getLast?_concat]
      rw [hOrder, List.filter_append, List.filter_append, List.filter_append, filter_front hFront]
      simp [hDue, hEnd, hUndue]

theorem InOrder.tail {first : α} (h : InOrder due key queue (first :: order)) (hPerm : queue.Perm (first :: rest))
    (hNodup : queue.Nodup) : InOrder due key rest order := by
  intro a hA b hB hDue hDue' hLess before after hOrder
  have hMem {c : α} (hC : c ∈ rest) : c ∈ queue := hPerm.mem_iff.mpr (List.mem_cons_of_mem _ hC)
  have hHere := h a (hMem hA) b (hMem hB) hDue hDue' hLess (first :: before) after (by rw [hOrder]; rfl)
  rcases List.mem_cons.mp hHere with rfl | hHere
  · exact absurd hA (List.nodup_cons.mp (hPerm.nodup_iff.mp hNodup)).1
  · exact hHere

theorem rtakeWhile_append {middle : List α} (front : List α) (hSome : middle.filter due ≠ []) :
    (front ++ middle).rtakeWhile (fun a => !due a) = middle.rtakeWhile fun a => !due a := by
  induction middle using List.reverseRecOn with
  | nil => exact absurd rfl hSome
  | append_singleton middle last ih =>
    rw [← List.append_assoc, List.rtakeWhile_concat, List.rtakeWhile_concat]
    split
    · rename_i hUndue
      rw [ih]
      intro hNone
      rw [List.filter_append, hNone] at hSome
      simp [show due last = false by simpa using hUndue] at hSome
    · rfl

theorem Drains.not_inOrder (h : Drains due (Drained due) Silent queue order) (hKeys : (queue.map key).Nodup)
    (hSorted : (queue.filter due).Pairwise fun a b => key a < key b)
    (hShort : (queue.rtakeWhile fun a => !due a).length + 2 < (queue.filter due).length) :
    ¬ InOrder due key queue order := by
  induction h with
  | stop queue hDrained =>
    rw [filter_front (takeFirst_none.mp hDrained)] at hShort
    exact absurd hShort (Nat.not_lt_zero _)
  | take queue a rest pushed order hTake hPushed hDrains ih =>
    intro hOrder
    cases hPushed
    rw [List.append_nil] at ih hDrains
    have hPerm := takeFirst_perm hTake
    have hTail := hOrder.tail hPerm hKeys.of_map
    obtain ⟨front, hDue, hFront, hSplit⟩ := takeFirst_some hTake
    rcases hSplit with ⟨rfl, rfl⟩ | ⟨middle, last, rfl, rfl⟩
    · rw [List.filter_append, filter_front hFront, List.nil_append] at hShort
      have hOne := List.length_filter_le due [a]
      rw [List.length_singleton] at hOne
      omega
    · have hFilter : (front ++ a :: (middle ++ [last])).filter due = a :: (middle.filter due ++ [last].filter due) := by
        rw [List.filter_append, filter_front hFront, List.filter_cons_of_pos hDue, List.filter_append, List.nil_append]
      rw [hFilter] at hSorted hShort
      have hSome : middle.filter due ≠ [] := by
        intro hNone
        have hOne := List.length_filter_le due [last]
        rw [hNone, List.nil_append, List.length_cons] at hShort
        rw [List.length_singleton] at hOne
        omega
      obtain ⟨hHead, hRest⟩ := List.pairwise_cons.mp hSorted
      cases hEnd : due last with
      | true =>
        -- The last one is taken next, before those in the middle.
        obtain ⟨between, others, hBetween⟩ := List.exists_cons_of_ne_nil hSome
        have hMem : between ∈ middle.filter due := hBetween ▸ List.mem_cons_self
        have hLess : key between < key last :=
          (List.pairwise_append.mp hRest).2.2 between hMem last (by simp [hEnd])
        cases hDrains with
        | stop queue hDrained => exact absurd (takeFirst_none.mp hDrained last (by simp)) (by simp [hEnd])
        | take queue next rest' pushed order hTake' hPushed hDrains =>
          rw [takeFirst_split hEnd hFront] at hTake'
          cases hTake'
          have hIn := hOrder between (by simp [(List.mem_filter.mp hMem).1]) last (by simp) (List.mem_filter.mp hMem).2 hEnd
            hLess [a] order rfl
          have hSelf := hHead between (List.mem_append_left _ hMem)
          rw [List.mem_singleton.mp hIn] at hSelf
          exact lt_irrefl _ hSelf
      | false =>
        have hNone : [last].filter due = [] := by simp [hEnd]
        rw [hNone, List.append_nil] at hRest hShort
        have hFilter' : (front ++ last :: middle).filter due = middle.filter due := by
          rw [List.filter_append, filter_front hFront, List.filter_cons_of_neg (by simp [hEnd]), List.nil_append]
        have hKeys' : ((front ++ last :: middle).map key).Nodup :=
          (List.nodup_cons.mp ((hPerm.map key).nodup_iff.mp hKeys)).2
        refine ih hKeys' ?_ ?_ hTail
        · rw [hFilter']
          exact hRest
        · have hBehind : ((front ++ a :: (middle ++ [last])).rtakeWhile fun a => !due a) =
              (middle.rtakeWhile fun a => !due a) ++ [last] := by
            rw [← List.cons_append, ← List.append_assoc, List.rtakeWhile_concat_pos _ _ _ (by simp [hEnd]),
              ← List.singleton_append, ← List.append_assoc, rtakeWhile_append _ hSome]
          have hBehind' : ((front ++ last :: middle).rtakeWhile fun a => !due a) = middle.rtakeWhile fun a => !due a := by
            rw [← List.singleton_append, ← List.append_assoc, rtakeWhile_append _ hSome]
          rw [hBehind, List.length_append, List.length_singleton, List.length_cons] at hShort
          rw [hFilter', hBehind']
          omega

theorem pairwise_of_split {r : α → α → Prop} {l : List α}
    (h : ∀ before a after, l = before ++ a :: after → ∀ b ∈ after, r a b) : l.Pairwise r := by
  induction l with
  | nil => exact .nil
  | cons a l ih =>
    refine List.pairwise_cons.mpr ⟨h [] a l rfl, ih fun before b after hSplit => ?_⟩
    exact h (a :: before) b after (by rw [hSplit]; rfl)

theorem sorted_of_inOrder (h : InOrder due key queue (queue.filter due)) (hKeys : (queue.map key).Nodup) :
    (queue.filter due).Pairwise fun a b => key a < key b := by
  apply pairwise_of_split
  intro before a after hSplit b hMem
  have hA : a ∈ queue ∧ due a = true := List.mem_filter.mp (hSplit ▸ List.mem_append_right _ List.mem_cons_self)
  have hB : b ∈ queue ∧ due b = true :=
    List.mem_filter.mp (hSplit ▸ List.mem_append_right _ (List.mem_cons_of_mem _ hMem))
  have hNodup : (before ++ a :: after).Nodup := hSplit ▸ hKeys.of_map.filter _
  rw [List.nodup_append, List.nodup_cons] at hNodup
  rcases lt_trichotomy (key a) (key b) with hLess | hSame | hMore
  · exact hLess
  · have hEq := List.inj_on_of_nodup_map hKeys hA.1 hB.1 hSame
    exact absurd (hEq ▸ hMem) hNodup.2.1.1
  · have hIn := h b hB.1 a hA.1 hB.2 hA.2 hMore before after hSplit
    exact absurd rfl (hNodup.2.2 b hIn b (List.mem_cons_of_mem _ hMem))

/-- In order whatever is pushed, therefore in step: it is enough to push nothing, or one element
that is not due at every removal. -/
theorem InStep.of_inOrder (hKeys : (queue.map key).Nodup) {silent padded : List α}
    (hSilent : Drains due (Drained due) Silent queue silent) (hPadded : Drains due (Drained due) (Padded due) queue padded)
    (hSilent' : InOrder due key queue silent) (hPadded' : InOrder due key queue padded) : InStep due key queue := by
  intro a rest hTake
  have hPerm := takeFirst_perm hTake
  have hKeys' := (hPerm.map key).nodup_iff.mp hKeys
  rw [List.map_cons, List.nodup_cons] at hKeys'
  obtain ⟨-, hDue, -, -⟩ := takeFirst_some hTake
  cases hSilent with
  | stop queue hDrained => cases hTake.symm.trans hDrained
  | take queue first rest' pushed silent hFirst hPushed hSilent =>
    cases hTake.symm.trans hFirst
    cases hPushed
    rw [List.append_nil] at hSilent
    cases hPadded with
    | stop queue hDrained => cases hTake.symm.trans hDrained
    | take queue first rest' pushed padded hFirst hPushed hPadded =>
      cases hTake.symm.trans hFirst
      obtain ⟨b, rfl, hUndue⟩ := hPushed
      have hOrder : padded = rest.filter due := by
        rw [hPadded.padded_order (by simpa using hUndue), List.filter_append]
        simp [hUndue]
      subst hOrder
      have hSorted := sorted_of_inOrder (hPadded'.tail hPerm hKeys.of_map) hKeys'.2
      refine ⟨fun b hMem hDueB => ?_, hSorted, ?_⟩
      · rcases lt_trichotomy (key a) (key b) with hLess | hSame | hMore
        · exact hLess
        · exact absurd (hSame ▸ List.mem_map_of_mem hMem) hKeys'.1
        · have hIn := hSilent' b (hPerm.mem_iff.mpr (List.mem_cons_of_mem _ hMem)) a (hPerm.mem_iff.mpr List.mem_cons_self)
            hDueB hDue hMore [] silent rfl
          cases hIn
      · by_contra hShort
        exact hSilent.not_inOrder hKeys'.2 hSorted (Nat.lt_of_not_le hShort) (hSilent'.tail hPerm hKeys.of_map)

end Disorder

end OpenHalfLife
