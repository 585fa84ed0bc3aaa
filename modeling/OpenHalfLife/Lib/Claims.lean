import Mathlib.Data.Finset.Insert
import Mathlib.Data.List.Basic

/-! # Claiming things one by one

Takers come in a row; each may claim one thing nobody claimed before, for a
reason. The claims made so far are a partial injection.
-/

namespace OpenHalfLife

set_option autoImplicit false

universe u v

structure Claims (κ : Type u) where
  claimed : Finset Nat
  resolved : List (Option (Nat × κ))

namespace Claims

variable {κ : Type u} {α : Type v}

def none (takers : Nat) : Claims κ := ⟨∅, List.replicate takers .none⟩

def taken (claims : Claims κ) (taker : Nat) : Option (Nat × κ) := claims.resolved.getD taker .none

def claim (claims : Claims κ) (taker thing : Nat) (reason : κ) : Claims κ where
  claimed := insert thing claims.claimed
  resolved := claims.resolved.set taker (some (thing, reason))

variable {claims : Claims κ} {taker other thing thing' : Nat} {reason reason' : κ}

@[simp] theorem taken_none (takers : Nat) : (none takers : Claims κ).taken taker = .none := by
  rw [none, taken, List.getD_eq_getElem?_getD, List.getElem?_replicate]
  split <;> rfl

@[simp] theorem length_claim : (claims.claim taker thing reason).resolved.length = claims.resolved.length := by
  simp [claim]

variable (other thing reason) in
theorem taken_claim (h : taker < claims.resolved.length) :
    (claims.claim taker thing reason).taken other =
      if other = taker then some (thing, reason) else claims.taken other := by
  by_cases hSame : other = taker
  · subst hSame
    simp [claim, taken, List.getD_eq_getElem?_getD, h]
  · simp [claim, taken, List.getD_eq_getElem?_getD, hSame, Ne.symm hSame]

/-- Every claim has its evidence, nothing is claimed twice, and what is claimed is somebody's. -/
structure Sound (evidence : Nat → Nat → κ → Prop) (claims : Claims κ) : Prop where
  evident : ∀ taker thing reason, claims.taken taker = some (thing, reason) → evidence taker thing reason
  injective : ∀ taker other thing reason reason', claims.taken taker = some (thing, reason) →
    claims.taken other = some (thing, reason') → taker = other
  claimed_iff : ∀ thing, thing ∈ claims.claimed ↔ ∃ taker reason, claims.taken taker = some (thing, reason)

variable {evidence : Nat → Nat → κ → Prop}

theorem Sound.none (takers : Nat) : Sound evidence (Claims.none takers) := by
  constructor
  · simp
  · simp
  · intro thing
    simp [Claims.none, show ∀ taker, (⟨∅, List.replicate takers .none⟩ : Claims κ).taken taker = .none from
      fun taker => taken_none takers]

theorem Sound.claim (h : Sound evidence claims) (hTaker : taker < claims.resolved.length)
    (hFree : claims.taken taker = .none) (hThing : thing ∉ claims.claimed) (hEvidence : evidence taker thing reason) :
    Sound evidence (claims.claim taker thing reason) := by
  have hUntaken (other : Nat) (reason' : κ) : claims.taken other ≠ some (thing, reason') :=
    fun hOther => hThing ((h.claimed_iff thing).mpr ⟨other, reason', hOther⟩)
  constructor
  · intro other thing' reason' hOther
    rw [taken_claim _ _ _ hTaker] at hOther
    split at hOther
    · cases hOther
      rwa [‹other = taker›]
    · exact h.evident other thing' reason' hOther
  · intro first second thing' reason' reason'' hFirst hSecond
    rw [taken_claim _ _ _ hTaker] at hFirst hSecond
    split at hFirst <;> split at hSecond
    · simp [*]
    · cases hFirst
      exact absurd hSecond (hUntaken _ _)
    · cases hSecond
      exact absurd hFirst (hUntaken _ _)
    · exact h.injective first second thing' reason' reason'' hFirst hSecond
  · intro thing'
    rw [Claims.claim, Finset.mem_insert, h.claimed_iff]
    constructor
    · rintro (rfl | ⟨other, reason', hOther⟩)
      · exact ⟨taker, reason, (taken_claim _ _ _ hTaker).trans (if_pos rfl)⟩
      · refine ⟨other, reason', (taken_claim _ _ _ hTaker).trans ?_⟩
        rw [if_neg (by rintro rfl; simp [hFree] at hOther), hOther]
    · rintro ⟨other, reason', hOther⟩
      have hOther := (taken_claim _ _ _ hTaker).symm.trans hOther
      split at hOther
      · cases hOther
        exact .inl rfl
      · exact .inr ⟨other, reason', hOther⟩

/-! ### A pass over the takers -/

def turn (reason : κ) (wants : Claims κ → α × Nat → Option Nat) (claims : Claims κ) (taker : α × Nat) : Claims κ :=
  match wants claims taker with
  | some thing => claims.claim taker.2 thing reason
  | .none => claims

def pass (reason : κ) (wants : Claims κ → α × Nat → Option Nat) (takers : List α) (claims : Claims κ) : Claims κ :=
  takers.zipIdx.foldl (turn reason wants) claims

variable {wants : Claims κ → α × Nat → Option Nat} {takers : List α}

/-- What a later state of the claims keeps of an earlier one. -/
structure Extends (claims claims' : Claims κ) : Prop where
  length : claims'.resolved.length = claims.resolved.length
  claimed : claims.claimed ⊆ claims'.claimed
  taken : ∀ taker, claims'.taken taker = .none → claims.taken taker = .none

theorem Extends.refl (claims : Claims κ) : Extends claims claims := ⟨rfl, subset_rfl, fun _ h => h⟩

theorem extends_claim (h : taker < claims.resolved.length) : Extends claims (claims.claim taker thing reason) := by
  refine ⟨length_claim, Finset.subset_insert _ _, fun other hOther => ?_⟩
  rw [taken_claim _ _ _ h] at hOther
  split at hOther
  · cases hOther
  · exact hOther

theorem extends_turn {taker : α × Nat} (h : taker.2 < claims.resolved.length) :
    Extends claims (turn reason wants claims taker) := by
  rw [turn]
  split
  · exact extends_claim h
  · exact Extends.refl claims

theorem pass_induction {motive : Nat → Claims κ → Prop} (hStart : motive 0 claims)
    (hTurn : ∀ taker a claims, takers[taker]? = some a → motive taker claims →
      motive (taker + 1) (turn reason wants claims (a, taker))) :
    motive takers.length (pass reason wants takers claims) := by
  have hFrom (rest : List α) (start : Nat) (claims : Claims κ) (hRest : ∀ i a, rest[i]? = some a → takers[start + i]? = some a)
      (hMotive : motive start claims) :
      motive (start + rest.length) ((rest.zipIdx start).foldl (turn reason wants) claims) := by
    induction rest generalizing start claims with
    | nil => exact hMotive
    | cons a rest ih =>
      have hNext := hTurn start a claims (hRest 0 a rfl) hMotive
      have hLater : ∀ i b, rest[i]? = some b → takers[start + 1 + i]? = some b := by
        intro i b hb
        have hb' := hRest (i + 1) b hb
        rwa [← Nat.add_assoc, Nat.add_right_comm] at hb'
      rw [List.zipIdx_cons, List.foldl_cons, List.length_cons, ← Nat.add_assoc, Nat.add_right_comm]
      exact ih (start + 1) _ hLater hNext
  simpa [pass] using hFrom takers 0 claims (by simp) hStart

end Claims

end OpenHalfLife
