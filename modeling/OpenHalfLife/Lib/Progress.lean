import Mathlib.Algebra.Order.Archimedean.Basic
import Mathlib.Tactic.Linarith

/-! # Progress

A step that is repeated comes to its goal if each time it does not, it lowers
a stage that is a number, or keeps the stage and takes one off an effort that
is never negative.
-/

namespace OpenHalfLife

set_option autoImplicit false

universe u v

variable {σ : Type u} {K : Type v}

def repeated (step : σ → Option σ) : Nat → σ → Option σ
  | 0, s => some s
  | n + 1, s => (step s).bind (repeated step n)

variable [Field K] [LinearOrder K] [IsStrictOrderedRing K]

/-- One step from a stage: there already, at a lower stage, or with less to do at the same one. -/
structure Progresses (step : σ → Option σ) (At : Nat → σ → Prop) (Goal : σ → Prop) (effort : σ → K) : Prop where
  effort_nonneg : ∀ stage s, At stage s → 0 ≤ effort s
  step_spec : ∀ stage s, At stage s → ∃ next, step s = some next ∧
    (Goal next ∨ (∃ lower < stage, At lower next) ∨ At stage next ∧ effort next + 1 ≤ effort s)

variable {step : σ → Option σ} {At : Nat → σ → Prop} {Goal : σ → Prop} {effort : σ → K}

theorem Progresses.exists_goal [Archimedean K] (h : Progresses step At Goal effort) {stage : Nat} {s : σ}
    (hAt : At stage s) : ∃ n last, repeated step n s = some last ∧ Goal last := by
  induction stage using Nat.strong_induction_on generalizing s with
  | _ stage ihStage =>
    obtain ⟨bound, hBound⟩ := exists_nat_ge (effort s)
    induction bound generalizing s with
    | zero =>
      obtain ⟨next, hNext, hGoal | ⟨lower, hLower, hThere⟩ | ⟨hSame, hLess⟩⟩ := h.step_spec stage s hAt
      · exact ⟨1, next, by rw [repeated, hNext]; rfl, hGoal⟩
      · obtain ⟨n, last, hRun, hGoal⟩ := ihStage lower hLower hThere
        exact ⟨n + 1, last, by rw [repeated, hNext]; exact hRun, hGoal⟩
      · have hNonneg := h.effort_nonneg stage next hSame
        rw [Nat.cast_zero] at hBound
        linarith
    | succ bound ih =>
      obtain ⟨next, hNext, hGoal | ⟨lower, hLower, hThere⟩ | ⟨hSame, hLess⟩⟩ := h.step_spec stage s hAt
      · exact ⟨1, next, by rw [repeated, hNext]; rfl, hGoal⟩
      · obtain ⟨n, last, hRun, hGoal⟩ := ihStage lower hLower hThere
        exact ⟨n + 1, last, by rw [repeated, hNext]; exact hRun, hGoal⟩
      · rw [Nat.cast_succ] at hBound
        obtain ⟨n, last, hRun, hGoal⟩ := ih hSame (by linarith)
        exact ⟨n + 1, last, by rw [repeated, hNext]; exact hRun, hGoal⟩

end OpenHalfLife
