import Mathlib.Data.List.Basic
import Mathlib.Data.List.Infix

/-! # Tokens read from a stream that comes in chunks

A reading that runs short of input is undone and repeated when more has come.
What it reads is then the same wherever the stream is cut. A trail is a run of
such readings, each from where the last one stopped.
-/

namespace OpenHalfLife

set_option autoImplicit false

/-- A reader of `β`s; `short` is the error of one without enough input. -/
structure Feed (β ρ ε : Type) where
  /-- The reader with more input before and behind its own. -/
  within : List β → List β → ρ → ρ
  /-- What the reader has taken and not given back is from this input. -/
  borrows : List β → ρ → Prop
  size : ρ → Nat
  short : ε

abbrev Reading (ρ ε α : Type) := StateT ρ (Except ε) α

namespace Feed

variable {β ρ ε α α' : Type} (f : Feed β ρ ε)

/-- More input changes nothing but an end that came too soon. -/
def Steady (m : Reading ρ ε α) : Prop :=
  ∀ (front rest : List β) (r : ρ), match m.run r with
    | .ok (a, r') => m.run (f.within front rest r) = .ok (a, f.within front rest r')
    | .error e => (e = f.short → rest = []) → m.run (f.within front rest r) = .error e

/-- Takes at most `n`, and runs short only where there is less. -/
def Spends (n : Nat) (m : Reading ρ ε α) : Prop :=
  ∀ r : ρ, match m.run r with
    | .ok (_, r') => f.size r' ≤ f.size r ∧ f.size r ≤ f.size r' + n
    | .error e => e = f.short → f.size r < n

def Keeps (P : ρ → Prop) (m : Reading ρ ε α) : Prop :=
  ∀ (r : ρ) (a : α) (r' : ρ), P r → m.run r = .ok (a, r') → P r'

variable {f}

theorem run_bind_eq_ok {m : Reading ρ ε α} {k : α → Reading ρ ε α'} {r r' : ρ} {a' : α'} :
    (m >>= k).run r = .ok (a', r') ↔ ∃ a s, m.run r = .ok (a, s) ∧ (k a).run s = .ok (a', r') := by
  rw [StateT.run_bind]
  rcases m.run r with e | ⟨a, s⟩ <;> simp [bind, Except.bind]

theorem steady_pure (a : α) : f.Steady (pure a : Reading ρ ε α) := by
  intro front rest r
  rfl

theorem steady_throw (e : ε) : f.Steady (throw e : Reading ρ ε α) := by
  intro front rest r _
  rfl

theorem Steady.bind {m : Reading ρ ε α} {k : α → Reading ρ ε α'} (hm : f.Steady m)
    (hk : ∀ a, f.Steady (k a)) : f.Steady (m >>= k) := by
  intro front rest r
  have hFirst := hm front rest r
  simp only [StateT.run_bind]
  rcases h : m.run r with e | ⟨a, s⟩ <;> simp only [h] at hFirst
  · intro hShort
    simp [hFirst hShort, Bind.bind, Except.bind]
  · simpa [hFirst, Bind.bind, Except.bind] using hk a front rest s

theorem Steady.ite {p : Prop} [Decidable p] {m n : Reading ρ ε α} (hm : f.Steady m)
    (hn : f.Steady n) : f.Steady (if p then m else n) := by
  split
  · exact hm
  · exact hn

theorem Spends.mono {n n' : Nat} {m : Reading ρ ε α} (h : f.Spends n m) (hn : n ≤ n') : f.Spends n' m := by
  intro r
  have hr := h r
  rcases hRun : m.run r with e | ⟨a, s⟩ <;> simp only [hRun] at hr ⊢
  · intro hShort
    have := hr hShort
    omega
  · omega

theorem spends_pure (a : α) : f.Spends 0 (pure a : Reading ρ ε α) := by
  intro r
  rw [StateT.run_pure]
  exact ⟨Nat.le_refl _, Nat.le_refl _⟩

theorem spends_throw {e : ε} (h : e ≠ f.short) : f.Spends 0 (throw e : Reading ρ ε α) := by
  intro r hShort
  exact absurd hShort h

theorem Spends.bind {n n' : Nat} {m : Reading ρ ε α} {k : α → Reading ρ ε α'} (hm : f.Spends n m)
    (hk : ∀ a, f.Spends n' (k a)) : f.Spends (n + n') (m >>= k) := by
  intro r
  have hFirst := hm r
  rw [StateT.run_bind]
  rcases hRun : m.run r with e | ⟨a, s⟩ <;> simp only [hRun] at hFirst
  · intro hShort
    have := hFirst hShort
    omega
  · have hSecond := hk a s
    simp only [Bind.bind, Except.bind]
    rcases hRun' : (k a).run s with e | ⟨a', s'⟩ <;> simp only [hRun'] at hSecond ⊢
    · intro hShort
      have := hSecond hShort
      omega
    · omega

theorem Spends.ite {n : Nat} {p : Prop} [Decidable p] {m k : Reading ρ ε α} (hm : f.Spends n m)
    (hk : f.Spends n k) : f.Spends n (if p then m else k) := by
  split
  · exact hm
  · exact hk

variable {P : ρ → Prop}

theorem keeps_pure (a : α) : Keeps P (pure a : Reading ρ ε α) := by
  intro r a' r' hr h
  cases h
  exact hr

theorem keeps_throw (e : ε) : Keeps P (throw e : Reading ρ ε α) := by
  intro r a r' hr h
  cases h

theorem Keeps.bind {m : Reading ρ ε α} {k : α → Reading ρ ε α'} (hm : Keeps P m)
    (hk : ∀ a, Keeps P (k a)) : Keeps P (m >>= k) := by
  intro r a' r' hr h
  obtain ⟨a, s, hFirst, hSecond⟩ := run_bind_eq_ok.mp h
  exact hk a s a' r' (hm r a s hr hFirst) hSecond

theorem Keeps.ite {p : Prop} [Decidable p] {m k : Reading ρ ε α} (hm : Keeps P m)
    (hk : Keeps P k) : Keeps P (if p then m else k) := by
  split
  · exact hm
  · exact hk

def Yields (Q : α → Prop) (m : Reading ρ ε α) : Prop := ∀ r a r', m.run r = .ok (a, r') → Q a

section Yields

variable {Q : α → Prop}

theorem yields_pure {a : α} (h : Q a) : Yields Q (pure a : Reading ρ ε α) := by
  intro r a' r' hRun
  cases hRun
  exact h

theorem yields_throw (e : ε) : Yields Q (throw e : Reading ρ ε α) := by
  intro r a r' hRun
  cases hRun

theorem yields_bind {m : Reading ρ ε α'} {k : α' → Reading ρ ε α} (hk : ∀ a, Yields Q (k a)) :
    Yields Q (m >>= k) := by
  intro r a r' hRun
  obtain ⟨a', s, -, hSecond⟩ := run_bind_eq_ok.mp hRun
  exact hk a' s a r' hSecond

theorem Yields.ite {p : Prop} [Decidable p] {m k : Reading ρ ε α} (hm : Yields Q m)
    (hk : Yields Q k) : Yields Q (if p then m else k) := by
  split
  · exact hm
  · exact hk

end Yields

/-- A reading of at most `n` that the cut of the stream does not change. -/
structure Regular (f : Feed β ρ ε) (n : Nat) (m : Reading ρ ε α) : Prop where
  steady : f.Steady m
  spends : f.Spends n m
  keeps : ∀ input, Keeps (f.borrows input) m

theorem regular_pure (a : α) : f.Regular 0 (pure a : Reading ρ ε α) :=
  ⟨steady_pure a, spends_pure a, fun _ => keeps_pure a⟩

theorem regular_throw {e : ε} (h : e ≠ f.short) : f.Regular 0 (throw e : Reading ρ ε α) :=
  ⟨steady_throw e, spends_throw h, fun _ => keeps_throw e⟩

theorem Regular.mono {n n' : Nat} {m : Reading ρ ε α} (h : f.Regular n m) (hn : n ≤ n') : f.Regular n' m :=
  ⟨h.steady, h.spends.mono hn, h.keeps⟩

theorem Regular.bind {n n' : Nat} {m : Reading ρ ε α} {k : α → Reading ρ ε α'} (hm : f.Regular n m)
    (hk : ∀ a, f.Regular n' (k a)) : f.Regular (n + n') (m >>= k) :=
  ⟨hm.steady.bind fun a => (hk a).steady, hm.spends.bind fun a => (hk a).spends,
    fun input => (hm.keeps input).bind fun a => (hk a).keeps input⟩

theorem Regular.ite {n : Nat} {p : Prop} [Decidable p] {m k : Reading ρ ε α} (hm : f.Regular n m)
    (hk : f.Regular n k) : f.Regular n (if p then m else k) :=
  ⟨hm.steady.ite hk.steady, hm.spends.ite hk.spends, fun input => (hm.keeps input).ite (hk.keeps input)⟩

end Feed

/-! ## Trails -/

section Trail

variable {β ρ ε σ γ : Type} {f : Feed β ρ ε}

/-- A token, with what it gives and the state behind it; `none` is the last one. -/
abbrev Tokens (ρ ε σ γ : Type) := σ → Reading ρ ε (Option (List γ × σ))

inductive Trail (turn : Tokens ρ ε σ γ) : σ → ρ → List γ → σ → ρ → Prop
  | here (s : σ) (r : ρ) : Trail turn s r [] s r
  | next {s s' t : σ} {r r' u : ρ} {out outs : List γ} (hTurn : (turn s).run r = .ok (some (out, s'), r'))
      (hRest : Trail turn s' r' outs t u) : Trail turn s r (out ++ outs) t u

def Halts (turn : Tokens ρ ε σ γ) (s : σ) (r : ρ) : Prop :=
  ∀ out s' r', (turn s).run r ≠ .ok (some (out, s'), r')

variable {turn : Tokens ρ ε σ γ} {s t t' : σ} {r u u' : ρ} {outs outs' : List γ}

theorem Trail.trans (h : Trail turn s r outs t u) (h' : Trail turn t u outs' t' u') :
    Trail turn s r (outs ++ outs') t' u' := by
  induction h with
  | here => exact h'
  | next hTurn _ ih =>
    rw [List.append_assoc]
    exact .next hTurn (ih h')

theorem Trail.within (hSteady : ∀ s, f.Steady (turn s)) (h : Trail turn s r outs t u) (front rest : List β) :
    Trail turn s (f.within front rest r) outs t (f.within front rest u) := by
  induction h with
  | here => exact .here _ _
  | @next s s' t r r' u out outs hTurn _ ih =>
    have hMore := hSteady s front rest r
    rw [hTurn] at hMore
    exact .next hMore ih

theorem Trail.keeps {P : σ → ρ → Prop} (hTurn : ∀ s r out s' r', P s r →
    (turn s).run r = .ok (some (out, s'), r') → P s' r') (h : Trail turn s r outs t u) (hP : P s r) :
    P t u := by
  induction h with
  | here => exact hP
  | next hNext _ ih => exact ih (hTurn _ _ _ _ _ hP hNext)

theorem Trail.compare (h : Trail turn s r outs t u) (h' : Trail turn s r outs' t' u') :
    (∃ more, outs' = outs ++ more ∧ Trail turn t u more t' u') ∨
      ∃ more, outs = outs' ++ more ∧ Trail turn t' u' more t u := by
  induction h generalizing outs' with
  | here => exact .inl ⟨outs', rfl, h'⟩
  | next hTurn hRest ih =>
    cases h' with
    | here => exact .inr ⟨_, rfl, .next hTurn hRest⟩
    | next hTurn' hRest' =>
      rw [hTurn] at hTurn'
      cases hTurn'
      rcases ih hRest' with ⟨more, rfl, hMore⟩ | ⟨more, rfl, hMore⟩
      · exact .inl ⟨more, by rw [List.append_assoc], hMore⟩
      · exact .inr ⟨more, by rw [List.append_assoc], hMore⟩

theorem Halts.trail_eq (hHalts : Halts turn s r) (h : Trail turn s r outs t u) :
    outs = [] ∧ t = s ∧ u = r := by
  cases h with
  | here => exact ⟨rfl, rfl, rfl⟩
  | next hTurn _ => exact absurd hTurn (hHalts _ _ _)

theorem Trail.to_halt (h : Trail turn s r outs t u) (hHalts : Halts turn t u)
    (h' : Trail turn s r outs' t' u') : ∃ more, outs = outs' ++ more ∧ Trail turn t' u' more t u := by
  rcases h.compare h' with ⟨more, rfl, hMore⟩ | hMore
  · obtain ⟨rfl, rfl, rfl⟩ := hHalts.trail_eq hMore
    exact ⟨[], by simp, .here _ _⟩
  · exact hMore

theorem Trail.halt_unique (h : Trail turn s r outs t u) (hHalts : Halts turn t u)
    (h' : Trail turn s r outs' t' u') (hHalts' : Halts turn t' u') : outs' = outs ∧ t' = t ∧ u' = u := by
  obtain ⟨more, rfl, hMore⟩ := h.to_halt hHalts h'
  obtain ⟨rfl, rfl, rfl⟩ := hHalts'.trail_eq hMore
  exact ⟨by simp, rfl, rfl⟩

end Trail

end OpenHalfLife
