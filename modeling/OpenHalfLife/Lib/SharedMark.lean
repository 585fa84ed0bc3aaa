import Mathlib.Data.List.Basic

/-! # One mark for several holders

Holders take turns. One that is active after its turn sets the mark, one that
ends its activity in its turn clears it, and any other leaves it. The mark then
stands for "some holder is active" unless a holder clears it over the head of an
earlier one.
-/

namespace OpenHalfLife

set_option autoImplicit false

structure Turn where
  before : Bool
  after : Bool
  deriving DecidableEq

namespace Turn

def Ends (t : Turn) : Prop := t.before = true ∧ t.after = false

def mark (marked : Bool) (t : Turn) : Bool := t.after || (marked && !t.before)

def settle (marked : Bool) (turns : List Turn) : Bool := turns.foldl mark marked

/-- A holder ends its activity after an earlier one has turned out active, and no
later one is active to repair the mark. -/
def EndsOver (turns : List Turn) : Prop :=
  ∃ front t back, turns = front ++ t :: back ∧ t.Ends ∧ (∃ e ∈ front, e.after = true) ∧
    ∀ l ∈ back, l.after = false

variable {turns front back : List Turn} {t : Turn}

@[simp] theorem settle_append (marked : Bool) (front back : List Turn) :
    settle marked (front ++ back) = settle (settle marked front) back := by
  simp [settle]

@[simp] theorem settle_cons (marked : Bool) (t : Turn) (turns : List Turn) :
    settle marked (t :: turns) = settle (mark marked t) turns := rfl

theorem mark_active (marked : Bool) (h : t.after = true) : mark marked t = true := by
  simp [mark, h]

theorem mark_ends (marked : Bool) (h : t.Ends) : mark marked t = false := by
  simp [mark, h.1, h.2]

theorem settle_inactive (marked : Bool) (h : ∀ t ∈ turns, t.after = false) :
    settle marked turns = (marked && turns.all fun t => !t.before) := by
  induction turns generalizing marked with
  | nil => simp [settle]
  | cons t turns ih =>
    simp only [List.mem_cons, forall_eq_or_imp] at h
    rw [settle_cons, ih _ h.2, mark, h.1]
    simp [Bool.and_assoc]

theorem split_last_active (h : ∃ t ∈ turns, t.after = true) :
    ∃ front t back, turns = front ++ t :: back ∧ t.after = true ∧ ∀ l ∈ back, l.after = false := by
  induction turns with
  | nil => simp at h
  | cons first turns ih =>
    by_cases hMore : ∃ t ∈ turns, t.after = true
    · obtain ⟨front, t, back, rfl, hActive, hBack⟩ := ih hMore
      exact ⟨first :: front, t, back, rfl, hActive, hBack⟩
    · have hBack : ∀ l ∈ turns, l.after = false := by simpa using hMore
      obtain ⟨t, hMem, hActive⟩ := h
      rcases List.mem_cons.mp hMem with rfl | hMem
      · exact ⟨[], t, turns, rfl, hActive, hBack⟩
      · simp [hBack t hMem] at hActive

/-- A round that starts with the mark in order ends so, exactly unless an
activity is ended over the head of another. -/
theorem settle_iff {marked : Bool} (hStart : marked = turns.any Turn.before) :
    settle marked turns = turns.any Turn.after ↔ ¬ EndsOver turns := by
  constructor
  · rintro hSettled ⟨front, t, back, rfl, hEnds, ⟨e, hMem, hActive⟩, hBack⟩
    have hAny : (front ++ t :: back).any Turn.after = true :=
      List.any_eq_true.mpr ⟨e, List.mem_append_left _ hMem, hActive⟩
    rw [hAny, settle_append, settle_cons, mark_ends _ hEnds, settle_inactive _ hBack] at hSettled
    simp at hSettled
  · intro hNot
    by_cases hSome : ∃ t ∈ turns, t.after = true
    · rw [List.any_eq_true.mpr hSome]
      obtain ⟨front, t, back, rfl, hActive, hBack⟩ := split_last_active hSome
      rw [settle_append, settle_cons, mark_active _ hActive, settle_inactive _ hBack, Bool.true_and,
        List.all_eq_true]
      intro l hMem
      by_contra hBefore
      obtain ⟨between, behind, rfl⟩ := List.append_of_mem hMem
      refine hNot ⟨front ++ t :: between, l, behind, by simp, ⟨by simpa using hBefore, hBack l hMem⟩,
        ⟨t, by simp, hActive⟩, fun m hm => hBack m (by simp [hm])⟩
    · have hInactive : ∀ t ∈ turns, t.after = false := by simpa using hSome
      have hNone : turns.any Turn.after = false := by simpa using hInactive
      rw [hNone, settle_inactive _ hInactive, hStart]
      cases hAny : turns.any Turn.before with
      | false => rfl
      | true =>
        obtain ⟨t, hMem, hBefore⟩ := List.any_eq_true.mp hAny
        rw [Bool.true_and]
        exact List.all_eq_false.mpr ⟨t, hMem, by simp [hBefore]⟩

theorem not_endsOver_of_length (h : turns.length ≤ 1) : ¬ EndsOver turns := by
  rintro ⟨front, t, back, rfl, -, ⟨e, hMem, -⟩, -⟩
  have hFront := List.length_pos_of_mem hMem
  rw [List.length_append, List.length_cons] at h
  omega

end Turn

end OpenHalfLife
