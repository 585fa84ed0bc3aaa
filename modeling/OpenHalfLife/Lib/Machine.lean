import Mathlib.Logic.Basic

/-! # Fallible computations

A guard that returns an error passes exactly when its condition is false, and
a `?` passes exactly when the inner result is a value.
-/

namespace OpenHalfLife.Result

set_option autoImplicit false

universe u v

theorem ite_error_eq_ok {ε : Type u} {α : Type v} {p : Prop} [Decidable p] {e : ε}
    {r : Except ε α} {a : α} : (if p then .error e else r) = .ok a ↔ ¬ p ∧ r = .ok a := by
  by_cases hp : p <;> simp [hp]

theorem bind_eq_ok {ε : Type u} {α β : Type v} {r : Except ε α} {f : α → Except ε β} {b : β} :
    r >>= f = .ok b ↔ ∃ a, r = .ok a ∧ f a = .ok b := by
  cases r <;> simp [bind, Except.bind]

theorem exists_ok {ε : Type u} {α : Type v} {r : Except ε α} (h : r.isOk = true) : ∃ a, r = .ok a := by
  cases r with
  | ok a => exact ⟨a, rfl⟩
  | error e => cases h

theorem ok_bind {ε : Type u} {α β : Type v} (a : α) (f : α → Except ε β) : (Except.ok a >>= f) = f a := rfl

theorem error_bind {ε : Type u} {α β : Type v} (e : ε) (f : α → Except ε β) :
    (Except.error e >>= f) = .error e := rfl

theorem forall_of_mapM {ε : Type u} {α β : Type v} {f : α → Except ε β} {l : List α} {out : List β}
    (h : l.mapM f = .ok out) : out.length = l.length ∧ ∀ b ∈ out, ∃ a ∈ l, f a = .ok b := by
  induction l generalizing out with
  | nil =>
    cases h
    exact ⟨rfl, fun _ hNone => absurd hNone List.not_mem_nil⟩
  | cons a l ih =>
    rw [List.mapM_cons, bind_eq_ok] at h
    obtain ⟨first, hFirst, h⟩ := h
    obtain ⟨rest, hRest, h⟩ := bind_eq_ok.mp h
    cases h
    obtain ⟨hLength, hEach⟩ := ih hRest
    refine ⟨by rw [List.length_cons, List.length_cons, hLength], fun b hb => ?_⟩
    rcases List.mem_cons.mp hb with rfl | hb
    · exact ⟨a, List.mem_cons_self, hFirst⟩
    · obtain ⟨other, hOther, hOk⟩ := hEach b hb
      exact ⟨other, List.mem_cons_of_mem _ hOther, hOk⟩

end OpenHalfLife.Result

namespace OpenHalfLife

set_option autoImplicit false

/-! ## Computations that keep their state through an error

A method on `&mut self` returns an error without undoing what it did to its
object. `ExceptT ε (StateM σ)` is that monad; `Ensures` is its precondition
calculus, with one postcondition for a value and one for an error.
-/

abbrev Machine (ε σ α : Type) := ExceptT ε (StateM σ) α

namespace Machine

variable {ε ε' σ τ α β : Type}

def exec (m : Machine ε σ α) (s : σ) : Except ε α × σ := m.run.run s

def ofFun (f : σ → Except ε α × σ) : Machine ε σ α := ExceptT.mk f

def ofExcept (wrap : ε' → ε) : Except ε' α → Machine ε σ α
  | .ok a => pure a
  | .error e => throw (wrap e)

def rejectIf (p : Prop) [Decidable p] (e : ε) : Machine ε σ Unit := if p then throw e else pure ()

def zoom (view : σ → τ) (update : τ → σ → σ) (wrap : ε' → ε) (m : Machine ε' τ α) :
    Machine ε σ α :=
  ofFun fun s => match m.exec (view s) with
    | (.ok a, t) => (.ok a, update t s)
    | (.error e, t) => (.error (wrap e), update t s)

def Outcome (Q : α → σ → Prop) (E : ε → σ → Prop) : Except ε α × σ → Prop
  | (.ok a, t) => Q a t
  | (.error e, t) => E e t

def Ensures (m : Machine ε σ α) (s : σ) (Q : α → σ → Prop) (E : ε → σ → Prop) : Prop :=
  Outcome Q E (m.exec s)

section Rules

variable {s : σ} {Q : α → σ → Prop} {E : ε → σ → Prop}

theorem exec_bind (m : Machine ε σ α) (f : α → Machine ε σ β) (s : σ) :
    exec (m >>= f) s = match m.exec s with
      | (.ok a, t) => (f a).exec t
      | (.error e, t) => (.error e, t) := by
  simp only [exec, ExceptT.run_bind, StateT.run_bind]
  generalize m.run.run s = r
  rcases r with ⟨_ | _, _⟩ <;> rfl

theorem exec_ofFun (f : σ → Except ε α × σ) (s : σ) : (ofFun f).exec s = f s := rfl

theorem exec_get (s : σ) : exec (get : Machine ε σ σ) s = (.ok s, s) := rfl

theorem exec_pure (a : α) (s : σ) : exec (pure a : Machine ε σ α) s = (.ok a, s) := rfl

theorem exec_throw (e : ε) (s : σ) : exec (throw e : Machine ε σ α) s = (.error e, s) := rfl

theorem exec_bind_eq_ok {m : Machine ε σ α} {f : α → Machine ε σ β} {b : β} {t : σ} :
    exec (m >>= f) s = (.ok b, t) ↔ ∃ a s', m.exec s = (.ok a, s') ∧ (f a).exec s' = (.ok b, t) := by
  rw [exec_bind]
  rcases m.exec s with ⟨_ | _, _⟩ <;> simp [and_assoc]

theorem exec_ofExcept_eq_ok {wrap : ε' → ε} {r : Except ε' α} {a : α} {t : σ} :
    exec (ofExcept wrap r) s = (.ok a, t) ↔ r = .ok a ∧ t = s := by
  cases r <;> simp [ofExcept, exec_pure, exec_throw, eq_comm]

theorem exec_rejectIf_eq_ok {p : Prop} [Decidable p] {e : ε} {t : σ} :
    exec (rejectIf p e) s = (.ok (), t) ↔ ¬ p ∧ t = s := by
  by_cases hp : p <;> simp [rejectIf, hp, exec_pure, exec_throw, eq_comm]

@[simp] theorem ensures_pure {a : α} : Ensures (pure a) s Q E ↔ Q a s := Iff.rfl

@[simp] theorem ensures_throw {e : ε} : Ensures (throw e) s Q E ↔ E e s := Iff.rfl

@[simp] theorem ensures_get {Q : σ → σ → Prop} : Ensures get s Q E ↔ Q s s := Iff.rfl

@[simp] theorem ensures_set {t : σ} {Q : PUnit → σ → Prop} : Ensures (set t) s Q E ↔ Q ⟨⟩ t := Iff.rfl

@[simp] theorem ensures_modify {f : σ → σ} {Q : PUnit → σ → Prop} :
    Ensures (modify f) s Q E ↔ Q ⟨⟩ (f s) := Iff.rfl

@[simp] theorem ensures_bind {m : Machine ε σ α} {f : α → Machine ε σ β} {Q : β → σ → Prop} :
    Ensures (m >>= f) s Q E ↔ Ensures m s (fun a t => Ensures (f a) t Q E) E := by
  unfold Ensures
  rw [exec_bind]
  rcases m.exec s with ⟨_ | _, _⟩ <;> rfl

@[simp] theorem ensures_ofExcept {wrap : ε' → ε} {r : Except ε' α} :
    Ensures (ofExcept wrap r) s Q E ↔
      (∀ a, r = .ok a → Q a s) ∧ ∀ e, r = .error e → E (wrap e) s := by
  cases r <;> simp [ofExcept]

@[simp] theorem ensures_rejectIf {p : Prop} [Decidable p] {e : ε} {Q : Unit → σ → Prop} :
    Ensures (rejectIf p e) s Q E ↔ (p → E e s) ∧ (¬ p → Q () s) := by
  by_cases hp : p <;> simp [rejectIf, hp]

theorem ensures_ite {p : Prop} [Decidable p] {m n : Machine ε σ α} :
    Ensures (if p then m else n) s Q E ↔ (p → Ensures m s Q E) ∧ (¬ p → Ensures n s Q E) := by
  by_cases hp : p <;> simp [hp]

theorem ensures_ofFun {f : σ → Except ε α × σ} :
    Ensures (ofFun f) s Q E ↔
      (∀ a t, f s = (.ok a, t) → Q a t) ∧ ∀ e t, f s = (.error e, t) → E e t := by
  unfold Ensures
  rw [exec_ofFun]
  rcases f s with ⟨_ | _, _⟩ <;> simp [Outcome]

theorem ensures_zoom {view : σ → τ} {update : τ → σ → σ} {wrap : ε' → ε} {m : Machine ε' τ α} :
    Ensures (zoom view update wrap m) s Q E ↔
      Ensures m (view s) (fun a t => Q a (update t s)) fun e t => E (wrap e) (update t s) := by
  unfold Ensures
  rw [zoom, exec_ofFun]
  rcases m.exec (view s) with ⟨_ | _, _⟩ <;> rfl

theorem Ensures.mono {m : Machine ε σ α} {Q' : α → σ → Prop} {E' : ε → σ → Prop}
    (h : Ensures m s Q E) (hQ : ∀ a t, Q a t → Q' a t) (hE : ∀ e t, E e t → E' e t) :
    Ensures m s Q' E' := by
  unfold Ensures at h ⊢
  rcases hm : m.exec s with ⟨_ | _, _⟩ <;> rw [hm] at h
  · exact hE _ _ h
  · exact hQ _ _ h

theorem Ensures.and {m : Machine ε σ α} {Q' : α → σ → Prop} {E' : ε → σ → Prop}
    (h : Ensures m s Q E) (h' : Ensures m s Q' E') :
    Ensures m s (fun a t => Q a t ∧ Q' a t) fun e t => E e t ∧ E' e t := by
  unfold Ensures at h h' ⊢
  rcases hm : m.exec s with ⟨_ | _, _⟩ <;> rw [hm] at h h' <;> exact ⟨h, h'⟩

theorem Ensures.of_ok {m : Machine ε σ α} (h : Ensures m s Q E) {a : α} {t : σ}
    (hm : m.exec s = (.ok a, t)) : Q a t := by
  rwa [Ensures, hm] at h

theorem Ensures.of_error {m : Machine ε σ α} (h : Ensures m s Q E) {e : ε} {t : σ}
    (hm : m.exec s = (.error e, t)) : E e t := by
  rwa [Ensures, hm] at h

theorem Ensures.exec {m : Machine ε σ α} (h : Ensures m s Q E) :
    Ensures m s (fun a t => m.exec s = (.ok a, t) ∧ Q a t) fun e t => m.exec s = (.error e, t) ∧ E e t := by
  unfold Ensures at h ⊢
  rcases hm : m.exec s with ⟨_ | _, _⟩ <;> rw [hm] at h <;> exact ⟨rfl, h⟩

theorem Ensures.exists_ok {m : Machine ε σ α} (h : Ensures m s Q fun _ _ => False) :
    ∃ a t, m.exec s = (.ok a, t) ∧ Q a t := by
  unfold Ensures at h
  rcases hm : m.exec s with ⟨_ | a, t⟩ <;> rw [hm] at h
  · cases h
  · exact ⟨a, t, rfl, h⟩

theorem Ensures.exists_error {m : Machine ε σ α} (h : Ensures m s (fun _ _ => False) E) :
    ∃ e t, m.exec s = (.error e, t) ∧ E e t := by
  unfold Ensures at h
  rcases hm : m.exec s with ⟨e | _, t⟩ <;> rw [hm] at h
  · exact ⟨e, t, rfl, h⟩
  · cases h

theorem ensures_iff {m : Machine ε σ α} :
    Ensures m s Q E ↔ (∀ a t, m.exec s = (.ok a, t) → Q a t) ∧
      ∀ e t, m.exec s = (.error e, t) → E e t := by
  unfold Ensures
  rcases m.exec s with ⟨_ | _, _⟩ <;> simp [Outcome]

end Rules

def Preserves (I : σ → Prop) (m : Machine ε σ α) : Prop :=
  ∀ s, I s → Ensures m s (fun _ t => I t) fun _ t => I t

section Preserves

variable {I : σ → Prop}

theorem preserves_pure (a : α) : Preserves I (pure a : Machine ε σ α) := fun _ h => h

theorem preserves_throw (e : ε) : Preserves I (throw e : Machine ε σ α) := fun _ h => h

theorem preserves_true (m : Machine ε σ α) : Preserves (fun _ => True) m := by
  intro s _
  exact ensures_iff.mpr ⟨fun _ _ _ => trivial, fun _ _ _ => trivial⟩

theorem preserves_get : Preserves I (get : Machine ε σ σ) := fun _ h => h

theorem preserves_modify {f : σ → σ} (hf : ∀ s, I s → I (f s)) :
    Preserves I (modify f : Machine ε σ PUnit) := fun s h => hf s h

theorem preserves_ofExcept (wrap : ε' → ε) (r : Except ε' α) :
    Preserves I (ofExcept wrap r : Machine ε σ α) := by
  intro s h
  exact ensures_ofExcept.mpr ⟨fun _ _ => h, fun _ _ => h⟩

theorem preserves_rejectIf (p : Prop) [Decidable p] (e : ε) :
    Preserves I (rejectIf p e : Machine ε σ Unit) := by
  intro s h
  exact ensures_rejectIf.mpr ⟨fun _ => h, fun _ => h⟩

theorem Preserves.bind {m : Machine ε σ α} {f : α → Machine ε σ β} (hm : Preserves I m)
    (hf : ∀ a, Preserves I (f a)) : Preserves I (m >>= f) := by
  intro s h
  exact ensures_bind.mpr ((hm s h).mono (fun a t ht => hf a t ht) fun _ _ ht => ht)

theorem Preserves.ite {p : Prop} [Decidable p] {m n : Machine ε σ α} (hm : Preserves I m)
    (hn : Preserves I n) : Preserves I (if p then m else n) := by
  split
  · exact hm
  · exact hn

theorem Preserves.zoom {view : σ → τ} {update : τ → σ → σ} {wrap : ε' → ε} {J : τ → Prop}
    {m : Machine ε' τ α} (hm : Preserves J m) (hView : ∀ s, I s → J (view s))
    (hUpdate : ∀ s t, I s → J t → I (update t s)) : Preserves I (Machine.zoom view update wrap m) := by
  intro s h
  exact ensures_zoom.mpr ((hm (view s) (hView s h)).mono (fun _ t ht => hUpdate s t h ht)
    fun _ t ht => hUpdate s t h ht)

/-- Both outcomes keep an invariant, and a value has a property of its own. -/
def Yields (I : σ → Prop) (P : α → Prop) (m : Machine ε σ α) : Prop :=
  ∀ s, I s → Ensures m s (fun a t => I t ∧ P a) fun _ t => I t

theorem Preserves.yields {m : Machine ε σ α} {P : α → Prop} (h : Preserves I m) (hP : ∀ a, P a) :
    Yields I P m := by
  intro s hs
  exact (h s hs).mono (fun a t ht => ⟨ht, hP a⟩) fun _ _ ht => ht

theorem yields_pure {P : α → Prop} {a : α} (h : P a) : Yields I P (pure a : Machine ε σ α) :=
  fun _ hs => ⟨hs, h⟩

theorem yields_throw {P : α → Prop} (e : ε) : Yields I P (throw e : Machine ε σ α) := fun _ hs => hs

theorem Yields.bind {m : Machine ε σ α} {f : α → Machine ε σ β} {P : α → Prop} {Q : β → Prop}
    (hm : Yields I P m) (hf : ∀ a, P a → Yields I Q (f a)) : Yields I Q (m >>= f) := by
  intro s hs
  exact ensures_bind.mpr ((hm s hs).mono (fun a t ht => hf a ht.2 t ht.1) fun _ _ ht => ht)

theorem Yields.preserves {m : Machine ε σ α} {P : α → Prop} (h : Yields I P m) : Preserves I m := by
  intro s hs
  exact (h s hs).mono (fun _ _ ht => ht.1) fun _ _ ht => ht

theorem Yields.ite {p : Prop} [Decidable p] {m n : Machine ε σ α} {P : α → Prop}
    (hm : p → Yields I P m) (hn : ¬ p → Yields I P n) : Yields I P (if p then m else n) := by
  split
  · exact hm ‹_›
  · exact hn ‹_›

theorem yields_get : Yields I I (get : Machine ε σ σ) := fun _ hs => ⟨hs, hs⟩

theorem yields_ofExcept {P : α → Prop} (wrap : ε' → ε) {r : Except ε' α} (h : ∀ a, r = .ok a → P a) :
    Yields I P (ofExcept wrap r : Machine ε σ α) := by
  intro s hs
  exact ensures_ofExcept.mpr ⟨fun a ha => ⟨hs, h a ha⟩, fun _ _ => hs⟩

end Preserves

/-- Runs a loop body until it returns a value, for at most `fuel` turns. -/
def repeatFor (body : Machine ε σ (Option α)) : Nat → σ → Option (Except ε α × σ)
  | 0, _ => none
  | fuel + 1, s => match body.exec s with
    | (.ok none, t) => repeatFor body fuel t
    | (.ok (some a), t) => some (.ok a, t)
    | (.error e, t) => some (.error e, t)

theorem repeatFor_unique {body : Machine ε σ (Option α)} {fuel fuel' : Nat} {s : σ} {r r' : Except ε α × σ}
    (h : repeatFor body fuel s = some r) (h' : repeatFor body fuel' s = some r') : r = r' := by
  induction fuel generalizing s fuel' with
  | zero => cases h
  | succ fuel ih =>
    cases fuel' with
    | zero => cases h'
    | succ fuel' =>
      rw [repeatFor] at h h'
      rcases hExec : body.exec s with ⟨e | _ | a, t⟩ <;> simp only [hExec] at h h'
      · exact Option.some.inj (h.symm.trans h')
      · exact ih h h'
      · exact Option.some.inj (h.symm.trans h')

/-- The loop rule: an invariant of the body and a measure that every turn
lowers give termination and the postcondition. -/
theorem repeatFor_ensures {body : Machine ε σ (Option α)} {Q : α → σ → Prop} {E : ε → σ → Prop}
    (Inv : σ → Prop) (measure : σ → Nat)
    (hBody : ∀ s, Inv s → Ensures body s
      (fun r t => match r with
        | none => Inv t ∧ measure t < measure s
        | some a => Q a t) E) (fuel : Nat) (s : σ) (hInv : Inv s) (hFuel : measure s < fuel) :
    ∃ r, repeatFor body fuel s = some r ∧ Outcome Q E r := by
  induction fuel generalizing s with
  | zero => omega
  | succ fuel ih =>
    have hTurn := hBody s hInv
    unfold Ensures at hTurn
    rw [repeatFor]
    rcases hExec : body.exec s with ⟨e | _ | a, t⟩ <;> rw [hExec] at hTurn
    · exact ⟨(.error e, t), rfl, hTurn⟩
    · exact ih t hTurn.1 (by have := hTurn.2; omega)
    · exact ⟨(.ok a, t), rfl, hTurn⟩

end Machine

end OpenHalfLife
