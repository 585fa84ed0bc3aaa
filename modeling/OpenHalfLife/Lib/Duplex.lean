import Mathlib.Logic.Relation

/-! # Two peers over one FIFO channel per direction

Both peers run the same partial automaton over the letters of the left and
of the right peer, but they see crossing letters in different orders. An
order on the states that left letters climb, right letters descend and a
crossing closes is enough to exclude a rejected receipt in every interleaving.
-/

namespace OpenHalfLife.Duplex

set_option autoImplicit false

universe u v w

/-- The partial automaton of one peer; `none` rejects the letter. -/
structure Automaton (σ : Type u) (α : Type v) (β : Type w) where
  left : σ → α → Option σ
  right : σ → β → Option σ

/-- `le s t` lets the left peer stand in `s` and the right peer in `t` while
nothing is in flight. -/
structure Coherent {σ : Type u} {α : Type v} {β : Type w} (A : Automaton σ α β)
    (le : σ → σ → Prop) : Prop where
  refl : ∀ s, le s s
  trans : ∀ {s t r}, le s t → le t r → le s r
  left_mono : ∀ {s t f s'}, le s t → A.left s f = some s' → ∃ t', A.left t f = some t' ∧ le s' t'
  right_mono : ∀ {s t g t'}, le s t → A.right t g = some t' → ∃ s', A.right s g = some s' ∧ le s' t'
  diamond : ∀ {s f g a b}, A.left s f = some a → A.right s g = some b →
    ∃ c d, A.right a g = some c ∧ A.left b f = some d ∧ le c d

structure Config (σ : Type u) (α : Type v) (β : Type w) where
  leftState : σ
  rightState : σ
  toRight : List α
  toLeft : List β

variable {σ : Type u} {α : Type v} {β : Type w} {A : Automaton σ α β} {le : σ → σ → Prop}

inductive Step (A : Automaton σ α β) : Config σ α β → Config σ α β → Prop
  | leftSend {s t s' : σ} {fs : List α} {gs : List β} {f : α} (h : A.left s f = some s') :
      Step A ⟨s, t, fs, gs⟩ ⟨s', t, fs ++ [f], gs⟩
  | rightSend {s t t' : σ} {fs : List α} {gs : List β} {g : β} (h : A.right t g = some t') :
      Step A ⟨s, t, fs, gs⟩ ⟨s, t', fs, gs ++ [g]⟩
  | leftReceive {s t s' : σ} {fs : List α} {gs : List β} {g : β} (h : A.right s g = some s') :
      Step A ⟨s, t, fs, g :: gs⟩ ⟨s', t, fs, gs⟩
  | rightReceive {s t t' : σ} {fs : List α} {gs : List β} {f : α} (h : A.left t f = some t') :
      Step A ⟨s, t, f :: fs, gs⟩ ⟨s, t', fs, gs⟩

/-- Each peer accepts everything that is in flight towards it, and the two
states after that are ordered. -/
def Settled (A : Automaton σ α β) (le : σ → σ → Prop) (c : Config σ α β) : Prop :=
  ∃ s t, c.toLeft.foldlM A.right c.leftState = some s ∧
    c.toRight.foldlM A.left c.rightState = some t ∧ le s t

theorem Coherent.run_right_mono (h : Coherent A le) {s t t' : σ} (gs : List β) (hle : le s t)
    (hRun : gs.foldlM A.right t = some t') : ∃ s', gs.foldlM A.right s = some s' ∧ le s' t' := by
  induction gs generalizing s t with
  | nil =>
    cases hRun
    exact ⟨s, rfl, hle⟩
  | cons g gs ih =>
    rw [List.foldlM_cons] at hRun
    obtain ⟨t₁, hHead, hTail⟩ := Option.bind_eq_some_iff.mp hRun
    obtain ⟨s₁, hs₁, hle₁⟩ := h.right_mono hle hHead
    obtain ⟨s', hs', hle'⟩ := ih hle₁ hTail
    refine ⟨s', ?_, hle'⟩
    rw [List.foldlM_cons, hs₁]
    exact hs'

theorem Coherent.run_left_mono (h : Coherent A le) {s t s' : σ} (fs : List α) (hle : le s t)
    (hRun : fs.foldlM A.left s = some s') : ∃ t', fs.foldlM A.left t = some t' ∧ le s' t' := by
  induction fs generalizing s t with
  | nil =>
    cases hRun
    exact ⟨t, rfl, hle⟩
  | cons f fs ih =>
    rw [List.foldlM_cons] at hRun
    obtain ⟨s₁, hHead, hTail⟩ := Option.bind_eq_some_iff.mp hRun
    obtain ⟨t₁, ht₁, hle₁⟩ := h.left_mono hle hHead
    obtain ⟨t', ht', hle'⟩ := ih hle₁ hTail
    refine ⟨t', ?_, hle'⟩
    rw [List.foldlM_cons, ht₁]
    exact ht'

theorem Coherent.left_past (h : Coherent A le) {s a r : σ} {f : α} (gs : List β)
    (hSend : A.left s f = some a) (hRun : gs.foldlM A.right s = some r) :
    ∃ c d, gs.foldlM A.right a = some c ∧ A.left r f = some d ∧ le c d := by
  induction gs generalizing s a with
  | nil =>
    cases hRun
    exact ⟨a, a, rfl, hSend, h.refl a⟩
  | cons g gs ih =>
    rw [List.foldlM_cons] at hRun
    obtain ⟨b, hHead, hTail⟩ := Option.bind_eq_some_iff.mp hRun
    obtain ⟨c₁, d₁, hc₁, hd₁, hle₁⟩ := h.diamond hSend hHead
    obtain ⟨c₂, d₂, hc₂, hd₂, hle₂⟩ := ih hd₁ hTail
    obtain ⟨c, hc, hle⟩ := h.run_right_mono gs hle₁ hc₂
    refine ⟨c, d₂, ?_, hd₂, h.trans hle hle₂⟩
    rw [List.foldlM_cons, hc₁]
    exact hc

theorem Coherent.right_past (h : Coherent A le) {t b r : σ} {g : β} (fs : List α)
    (hSend : A.right t g = some b) (hRun : fs.foldlM A.left t = some r) :
    ∃ c d, A.right r g = some c ∧ fs.foldlM A.left b = some d ∧ le c d := by
  induction fs generalizing t b with
  | nil =>
    cases hRun
    exact ⟨b, b, hSend, rfl, h.refl b⟩
  | cons f fs ih =>
    rw [List.foldlM_cons] at hRun
    obtain ⟨a, hHead, hTail⟩ := Option.bind_eq_some_iff.mp hRun
    obtain ⟨c₁, d₁, hc₁, hd₁, hle₁⟩ := h.diamond hHead hSend
    obtain ⟨c₂, d₂, hc₂, hd₂, hle₂⟩ := ih hc₁ hTail
    obtain ⟨d, hd, hle⟩ := h.run_left_mono fs hle₁ hd₂
    refine ⟨c₂, d, hc₂, ?_, h.trans hle₂ hle⟩
    rw [List.foldlM_cons, hd₁]
    exact hd

theorem Coherent.settled_start (h : Coherent A le) (s : σ) : Settled A le ⟨s, s, [], []⟩ :=
  ⟨s, s, rfl, rfl, h.refl s⟩

theorem Coherent.settled_step (h : Coherent A le) {c c' : Config σ α β} (hStep : Step A c c')
    (hc : Settled A le c) : Settled A le c' := by
  obtain ⟨s, t, hs, ht, hle⟩ := hc
  cases hStep with
  | leftSend hSend =>
    obtain ⟨a, b, ha, hb, hab⟩ := h.left_past _ hSend hs
    obtain ⟨t', ht', hle'⟩ := h.left_mono hle hb
    refine ⟨a, t', ha, ?_, h.trans hab hle'⟩
    rw [List.foldlM_append, ht]
    simpa using ht'
  | rightSend hSend =>
    obtain ⟨a, b, ha, hb, hab⟩ := h.right_past _ hSend ht
    obtain ⟨s', hs', hle'⟩ := h.right_mono hle ha
    refine ⟨s', b, ?_, hb, h.trans hle' hab⟩
    rw [List.foldlM_append, hs]
    simpa using hs'
  | leftReceive hReceive =>
    rw [List.foldlM_cons, hReceive] at hs
    exact ⟨s, t, hs, ht, hle⟩
  | rightReceive hReceive =>
    rw [List.foldlM_cons, hReceive] at ht
    exact ⟨s, t, hs, ht, hle⟩

theorem Settled.left_accepts {c : Config σ α β} (h : Settled A le c) {g : β} {gs : List β}
    (hHead : c.toLeft = g :: gs) : ∃ s', A.right c.leftState g = some s' := by
  obtain ⟨s, _, hs, _, _⟩ := h
  rw [hHead, List.foldlM_cons] at hs
  obtain ⟨s', hs', _⟩ := Option.bind_eq_some_iff.mp hs
  exact ⟨s', hs'⟩

theorem Settled.right_accepts {c : Config σ α β} (h : Settled A le c) {f : α} {fs : List α}
    (hHead : c.toRight = f :: fs) : ∃ t', A.left c.rightState f = some t' := by
  obtain ⟨_, t, _, ht, _⟩ := h
  rw [hHead, List.foldlM_cons] at ht
  obtain ⟨t', ht', _⟩ := Option.bind_eq_some_iff.mp ht
  exact ⟨t', ht'⟩

end OpenHalfLife.Duplex
