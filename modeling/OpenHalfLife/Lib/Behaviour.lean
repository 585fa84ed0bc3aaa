import Mathlib.Data.List.Basic

/-! # Traces

A condition on what happens next, given all that happened before, at every
place of a trace.
-/

namespace OpenHalfLife

set_option autoImplicit false

variable {α : Type*} {may : List α → α → Prop} {trace : List α} {event : α}

def Throughout (may : List α → α → Prop) (trace : List α) : Prop :=
  ∀ before event after, trace = before ++ event :: after → may before event

theorem throughout_append : Throughout may (trace ++ [event]) ↔ Throughout may trace ∧ may trace event := by
  constructor
  · intro h
    refine ⟨fun before other after hSplit => ?_, h trace event [] rfl⟩
    exact h before other (after ++ [event]) (by rw [hSplit]; simp)
  · rintro ⟨hBefore, hLast⟩ before other after hSplit
    rcases List.eq_nil_or_concat after with rfl | ⟨after, last, rfl⟩
    · obtain ⟨rfl, hSame⟩ := List.append_inj' hSplit rfl
      cases hSame
      exact hLast
    · rw [List.concat_eq_append, ← List.cons_append, ← List.append_assoc] at hSplit
      exact hBefore before other after (List.append_inj' hSplit rfl).1

theorem Throughout.init {before after : List α} (h : Throughout may (before ++ after)) : Throughout may before := by
  intro front event back hSplit
  exact h front event (back ++ after) (by rw [hSplit]; simp)

theorem Throughout.snoc (h : Throughout may trace) (next : α) (hMay : may trace next) : Throughout may (trace ++ [next]) :=
  throughout_append.mpr ⟨h, hMay⟩

theorem throughout_nil : Throughout may [] := by
  intro before event after h
  simp at h

end OpenHalfLife

namespace OpenHalfLife

set_option autoImplicit false

/-! ## Machines that answer

A machine takes an input and answers it. Two states that no sequence of inputs
tells apart are the same to their user, whatever is inside them; a relation
that is kept by every input shows that they are.
-/

variable {σ ι ο : Type*}

namespace Responses

def answers (step : σ → ι → ο × σ) : σ → List ι → List ο
  | _, [] => []
  | s, input :: inputs => (step s input).1 :: answers step (step s input).2 inputs

def after (step : σ → ι → ο × σ) (s : σ) (inputs : List ι) : σ :=
  inputs.foldl (fun s input => (step s input).2) s

def Indistinguishable (step : σ → ι → ο × σ) (s t : σ) : Prop :=
  ∀ inputs, answers step s inputs = answers step t inputs

structure IsBisimulation (step : σ → ι → ο × σ) (R : σ → σ → Prop) : Prop where
  answer {s t : σ} : R s t → ∀ input, (step s input).1 = (step t input).1
  next {s t : σ} : R s t → ∀ input, R (step s input).2 (step t input).2

variable {step : σ → ι → ο × σ} {R : σ → σ → Prop} {s t : σ}

theorem IsBisimulation.indistinguishable (h : IsBisimulation step R) (hR : R s t) :
    Indistinguishable step s t := by
  intro inputs
  induction inputs generalizing s t with
  | nil => rfl
  | cons input inputs ih => rw [answers, answers, h.answer hR input, ih (h.next hR input)]

theorem answers_append (s : σ) (inputs inputs' : List ι) : answers step s (inputs ++ inputs') =
    answers step s inputs ++ answers step (after step s inputs) inputs' := by
  induction inputs generalizing s with
  | nil => rfl
  | cons input inputs ih =>
    rw [List.cons_append, answers, ih, answers, List.cons_append]
    rfl

theorem length_answers (s : σ) (inputs : List ι) : (answers step s inputs).length = inputs.length := by
  induction inputs generalizing s with
  | nil => rfl
  | cons input inputs ih => rw [answers, List.length_cons, ih, List.length_cons]

theorem Indistinguishable.answer (h : Indistinguishable step s t) (inputs : List ι) (input : ι) :
    (step (after step s inputs) input).1 = (step (after step t inputs) input).1 := by
  have hAnswers := h (inputs ++ [input])
  rw [answers_append, answers_append] at hAnswers
  have hLast := (List.append_inj hAnswers (by rw [length_answers, length_answers])).2
  exact (List.cons.inj hLast).1

section Following

variable {τ : Type*}

/-- Embedded states of a second machine answer as the second machine does, as long as it keeps `I`. -/
structure Follows (step : σ → ι → ο × σ) (model : τ → ι → ο × τ) (embed : τ → σ) (I : τ → Prop) : Prop where
  answer {t : τ} : I t → ∀ input, step (embed t) input = ((model t input).1, embed (model t input).2)
  keeps {t : τ} : I t → ∀ input, I (model t input).2

theorem Follows.run {model : τ → ι → ο × τ} {embed : τ → σ} {I : τ → Prop} {t : τ} (h : Follows step model embed I) (ht : I t)
    (inputs : List ι) : answers step (embed t) inputs = answers model t inputs ∧
      after step (embed t) inputs = embed (after model t inputs) ∧ I (after model t inputs) := by
  induction inputs generalizing t with
  | nil => exact ⟨rfl, rfl, ht⟩
  | cons input inputs ih =>
    obtain ⟨hAnswers, hAfter, hKept⟩ := ih (h.keeps ht input)
    refine ⟨?_, ?_, hKept⟩
    · rw [answers, answers, h.answer ht input, hAnswers]
    · unfold after at hAfter ⊢
      rw [List.foldl_cons, List.foldl_cons, h.answer ht input, hAfter]

end Following

end Responses

end OpenHalfLife
