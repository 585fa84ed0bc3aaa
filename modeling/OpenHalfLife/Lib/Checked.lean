import Mathlib.Data.Nat.Bitwise
import OpenHalfLife.Lib.Machine

/-! # Checked arithmetic, indexing and loops

The operations of a language that stops a program at an overflow, a shift past
the width, an index out of range or a failed assertion. Values are `Nat` below
their width. Loops are bounded, and a loop that outruns its bound is told
apart from both kinds of failure.
-/

namespace OpenHalfLife.Machine

set_option autoImplicit false

inductive Stop (ε : Type)
  | error (e : ε)
  | panic
  | stuck
  deriving DecidableEq, Repr

variable {ε σ α β : Type}

def assertOrPanic (p : Prop) [Decidable p] : Machine (Stop ε) σ Unit := if p then pure () else throw .panic

def subOrPanic (a b : Nat) : Machine (Stop ε) σ Nat := if a < b then throw .panic else pure (a - b)

def addOrPanic (width a b : Nat) : Machine (Stop ε) σ Nat :=
  if a + b ≥ 2 ^ width then throw .panic else pure (a + b)

def shlOrPanic (width value amount : Nat) : Machine (Stop ε) σ Nat :=
  if amount ≥ width then throw .panic else pure (value * 2 ^ amount % 2 ^ width)

def shrOrPanic (width value amount : Nat) : Machine (Stop ε) σ Nat :=
  if amount ≥ width then throw .panic else pure (value / 2 ^ amount)

def signedOrPanic (width : Nat) (value : Int) : Machine (Stop ε) σ Int :=
  if -2 ^ (width - 1) ≤ value ∧ value < 2 ^ (width - 1) then pure value else throw .panic

def getOrPanic (values : List α) (index : Nat) : Machine (Stop ε) σ α :=
  match values[index]? with
  | some value => pure value
  | none => throw .panic

def setOrPanic (values : List α) (index : Nat) (value : α) : Machine (Stop ε) σ (List α) :=
  if index < values.length then pure (values.set index value) else throw .panic

def sliceOrPanic (values : List α) (start stop : Nat) : Machine (Stop ε) σ (List α) :=
  if start ≤ stop ∧ stop ≤ values.length then pure ((values.drop start).take (stop - start))
  else throw .panic

/-- A loop over its local variables; `none` leaves it. -/
def iterate (body : β → Machine (Stop ε) σ (Option β)) : Nat → β → Machine (Stop ε) σ Unit
  | 0, _ => throw .stuck
  | fuel + 1, b => do
    match ← body b with
    | some b' => iterate body fuel b'
    | none => return ()

def loop (body : Machine (Stop ε) σ (Option α)) : Nat → Machine (Stop ε) σ α
  | 0 => throw .stuck
  | fuel + 1 => do
    match ← body with
    | none => loop body fuel
    | some a => return a

def attempt {ε' : Type} (m : Machine ε σ α) : Machine ε' σ (Except ε α) :=
  .ofFun fun s => (.ok (m.exec s).1, (m.exec s).2)

def onLocal {τ : Type} (m : Machine (Stop ε) τ Unit) (t : τ) : Machine (Stop ε) σ τ :=
  .ofFun fun s => match m.exec t with
    | (.ok _, t') => (.ok t', s)
    | (.error e, _) => (.error e, s)

section Rules

variable {s : σ} {E : Stop ε → σ → Prop} {a b width : Nat}

theorem ensures_assertOrPanic {p : Prop} [Decidable p] {Q : Unit → σ → Prop} (h : p) :
    Ensures (assertOrPanic p) s Q E ↔ Q () s := by
  rw [assertOrPanic, if_pos h, ensures_pure]

theorem ensures_subOrPanic {Q : Nat → σ → Prop} (h : b ≤ a) :
    Ensures (subOrPanic a b) s Q E ↔ Q (a - b) s := by
  rw [subOrPanic, if_neg (by omega), ensures_pure]

theorem ensures_addOrPanic {Q : Nat → σ → Prop} (h : a + b < 2 ^ width) :
    Ensures (addOrPanic width a b) s Q E ↔ Q (a + b) s := by
  rw [addOrPanic, if_neg (by omega), ensures_pure]

theorem ensures_shlOrPanic {Q : Nat → σ → Prop} (h : b < width) :
    Ensures (shlOrPanic width a b) s Q E ↔ Q (a * 2 ^ b % 2 ^ width) s := by
  rw [shlOrPanic, if_neg (by omega), ensures_pure]

theorem ensures_shrOrPanic {Q : Nat → σ → Prop} (h : b < width) :
    Ensures (shrOrPanic width a b) s Q E ↔ Q (a / 2 ^ b) s := by
  rw [shrOrPanic, if_neg (by omega), ensures_pure]

theorem ensures_signedOrPanic {value : Int} {Q : Int → σ → Prop}
    (h : -2 ^ (width - 1) ≤ value ∧ value < 2 ^ (width - 1)) :
    Ensures (signedOrPanic width value) s Q E ↔ Q value s := by
  rw [signedOrPanic, if_pos h, ensures_pure]

theorem ensures_getOrPanic {values : List α} {index : Nat} {Q : α → σ → Prop}
    (h : index < values.length) : Ensures (getOrPanic values index) s Q E ↔ Q values[index] s := by
  rw [getOrPanic, List.getElem?_eq_getElem h, ensures_pure]

theorem ensures_setOrPanic {values : List α} {index : Nat} {value : α} {Q : List α → σ → Prop}
    (h : index < values.length) :
    Ensures (setOrPanic values index value) s Q E ↔ Q (values.set index value) s := by
  rw [setOrPanic, if_pos h, ensures_pure]

theorem ensures_sliceOrPanic {values : List α} {start stop : Nat} {Q : List α → σ → Prop}
    (h : start ≤ stop ∧ stop ≤ values.length) :
    Ensures (sliceOrPanic values start stop) s Q E ↔ Q ((values.drop start).take (stop - start)) s := by
  rw [sliceOrPanic, if_pos h, ensures_pure]

theorem ensures_attempt {ε' : Type} {m : Machine ε σ α} {Q : Except ε α → σ → Prop} {E : ε' → σ → Prop} :
    Ensures (attempt m) s Q E ↔ Ensures m s (fun a t => Q (.ok a) t) fun e t => Q (.error e) t := by
  unfold Ensures
  rw [attempt, exec_ofFun]
  rcases m.exec s with ⟨_ | _, _⟩ <;> rfl

theorem ensures_onLocal {τ : Type} {m : Machine (Stop ε) τ Unit} {t : τ} {Q : τ → σ → Prop} :
    Ensures (onLocal m t) s Q E ↔ Ensures m t (fun _ t' => Q t' s) fun e _ => E e s := by
  unfold Ensures
  rw [onLocal, exec_ofFun]
  rcases m.exec t with ⟨_ | _, _⟩ <;> rfl

theorem ensures_iterate {body : β → Machine (Stop ε) σ (Option β)} {Q : Unit → σ → Prop}
    (Inv : β → σ → Prop) (measure : β → σ → Nat)
    (hBody : ∀ b s, Inv b s → Ensures (body b) s
      (fun next t => match next with
        | some b' => Inv b' t ∧ measure b' t < measure b s
        | none => Q () t) E) (fuel : Nat) (b : β) (s : σ) (hInv : Inv b s) (hFuel : measure b s < fuel) :
    Ensures (iterate body fuel b) s Q E := by
  induction fuel generalizing b s with
  | zero => omega
  | succ fuel ih =>
    rw [iterate, ensures_bind]
    refine (hBody b s hInv).mono ?_ fun _ _ h => h
    intro next t hNext
    cases next with
    | some b' => exact ih b' t hNext.1 (by have := hNext.2; omega)
    | none => exact hNext

theorem ensures_loop {body : Machine (Stop ε) σ (Option α)} {Q : α → σ → Prop} (Inv : σ → Prop)
    (measure : σ → Nat)
    (hBody : ∀ s, Inv s → Ensures body s
      (fun next t => match next with
        | none => Inv t ∧ measure t < measure s
        | some a => Q a t) E) (fuel : Nat) (s : σ) (hInv : Inv s) (hFuel : measure s < fuel) :
    Ensures (loop body fuel) s Q E := by
  induction fuel generalizing s with
  | zero => omega
  | succ fuel ih =>
    rw [loop, ensures_bind]
    refine (hBody s hInv).mono ?_ fun _ _ h => h
    intro next t hNext
    cases next with
    | none => exact ih t hNext.1 (by have := hNext.2; omega)
    | some a => exact hNext

theorem ensures_loop_fails {body : Machine (Stop ε) σ (Option α)} {Q : α → σ → Prop} {fuel : Nat}
    (hFuel : 0 < fuel) (h : Ensures body s (fun _ _ => False) E) : Ensures (loop body fuel) s Q E := by
  obtain ⟨fuel, rfl⟩ := Nat.exists_eq_succ_of_ne_zero hFuel.ne'
  rw [loop, ensures_bind]
  exact h.mono (fun _ _ h => h.elim) fun _ _ h => h

inductive Loops (body : Machine (Stop ε) σ (Option α)) : σ → Except (Stop ε) α × σ → Prop
  | done {s t : σ} {a : α} : body.exec s = (.ok (some a), t) → Loops body s (.ok a, t)
  | fail {s t : σ} {e : Stop ε} : body.exec s = (.error e, t) → Loops body s (.error e, t)
  | turn {s t : σ} {r : Except (Stop ε) α × σ} :
    body.exec s = (.ok none, t) → Loops body t r → Loops body s r

def Continues (body : Machine (Stop ε) σ (Option α)) :
    Except (Stop ε) (Option α) × σ → Except (Stop ε) α × σ → Prop
  | (.ok none, t), r => Loops body t r
  | (.ok (some a), t), r => r = (.ok a, t)
  | (.error e, t), r => r = (.error e, t)

theorem Continues.loops {body : Machine (Stop ε) σ (Option α)} {s : σ} {r : Except (Stop ε) α × σ}
    (h : Continues body (body.exec s) r) : Loops body s r := by
  rcases hExec : body.exec s with ⟨e | _ | a, t⟩ <;> rw [hExec] at h
  · cases h
    exact .fail hExec
  · exact .turn hExec h
  · cases h
    exact .done hExec

theorem Loops.exec {body : Machine (Stop ε) σ (Option α)} {s : σ} {r : Except (Stop ε) α × σ}
    (h : Loops body s r) : ∃ turns, ∀ fuel, turns ≤ fuel → (loop body fuel).exec s = r := by
  induction h with
  | done hExec =>
    refine ⟨1, ?_⟩
    rintro (_ | fuel) hFuel
    · omega
    · rw [loop, exec_bind, hExec]
      rfl
  | fail hExec =>
    refine ⟨1, ?_⟩
    rintro (_ | fuel) hFuel
    · omega
    · rw [loop, exec_bind, hExec]
  | turn hExec _ ih =>
    obtain ⟨turns, hTurns⟩ := ih
    refine ⟨turns + 1, ?_⟩
    rintro (_ | fuel) hFuel
    · omega
    · rw [loop, exec_bind, hExec]
      exact hTurns fuel (by omega)

theorem yields_loop {I : σ → Prop} {P : α → Prop} {body : Machine (Stop ε) σ (Option α)}
    (h : Yields I (fun next => ∀ a, next = some a → P a) body) (fuel : Nat) :
    Yields I P (loop body fuel) := by
  induction fuel with
  | zero => exact yields_throw Stop.stuck
  | succ fuel ih =>
    rw [loop]
    apply h.bind
    rintro (_ | a) ha
    · exact ih
    · exact yields_pure (ha a rfl)

theorem Preserves.loop {I : σ → Prop} {body : Machine (Stop ε) σ (Option α)} (h : Preserves I body)
    (fuel : Nat) : Preserves I (Machine.loop body fuel) :=
  (yields_loop (h.yields fun _ _ _ => trivial) fuel).preserves

theorem preserves_attempt {ε' : Type} {I : σ → Prop} {m : Machine ε σ α} (h : Preserves I m) :
    Preserves I (attempt m : Machine ε' σ (Except ε α)) := by
  intro s hs
  exact ensures_attempt.mpr (h s hs)

theorem ensures_foldlM {γ : Type} {f : β → γ → Machine (Stop ε) σ β} {values : List γ} {b : β}
    {Q : β → σ → Prop} (Inv : List γ → β → σ → Prop)
    (hStep : ∀ done value b s, done ++ [value] <+: values → Inv done b s →
      Ensures (f b value) s (fun b' t => Inv (done ++ [value]) b' t) E)
    (hInv : Inv [] b s) (hQ : ∀ b t, Inv values b t → Q b t) : Ensures (values.foldlM f b) s Q E := by
  have hRest (rest done : List γ) (b : β) (s : σ) (hSplit : done ++ rest = values) (hInv : Inv done b s) :
      Ensures (rest.foldlM f b) s Q E := by
    induction rest generalizing done b s with
    | nil =>
      rw [List.append_nil] at hSplit
      exact hQ b s (hSplit ▸ hInv)
    | cons value rest ih =>
      have hPrefix : done ++ [value] <+: values := ⟨rest, by simp [← hSplit]⟩
      rw [List.foldlM_cons, ensures_bind]
      refine (hStep done value b s hPrefix hInv).mono ?_ fun _ _ h => h
      intro b' t hInv'
      exact ih (done ++ [value]) b' t (by simp [← hSplit]) hInv'
  exact hRest values [] b s rfl hInv

theorem ensures_forM {γ : Type} {f : γ → Machine (Stop ε) σ PUnit} {values : List γ} {Q : PUnit → σ → Prop}
    (Inv : List γ → σ → Prop)
    (hStep : ∀ done value s, done ++ [value] <+: values → Inv done s →
      Ensures (f value) s (fun _ t => Inv (done ++ [value]) t) E)
    (hInv : Inv [] s) (hQ : ∀ t, Inv values t → Q ⟨⟩ t) : Ensures (values.forM f) s Q E := by
  have hRest (rest done : List γ) (s : σ) (hSplit : done ++ rest = values) (hInv : Inv done s) :
      Ensures (rest.forM f) s Q E := by
    induction rest generalizing done s with
    | nil =>
      rw [List.append_nil] at hSplit
      exact hQ s (hSplit ▸ hInv)
    | cons value rest ih =>
      have hPrefix : done ++ [value] <+: values := ⟨rest, by simp [← hSplit]⟩
      change Ensures (f value >>= fun _ => rest.forM f) s Q E
      rw [ensures_bind]
      refine (hStep done value s hPrefix hInv).mono ?_ fun _ _ h => h
      intro _ t hInv'
      exact ih (done ++ [value]) t (by simp [← hSplit]) hInv'
  exact hRest values [] s rfl hInv

end Rules

def Stop.IsError : Stop ε → Prop
  | .error _ => True
  | _ => False

/-- No check fails: from a state with `I` the computation returns a value with `P`
and a state with `I`, or an error and a state with `K`. -/
def Safe (I K : σ → Prop) (P : α → Prop) (m : Machine (Stop ε) σ α) : Prop :=
  ∀ s, I s → Ensures m s (fun a t => I t ∧ P a) fun stop t => stop.IsError ∧ K t

section Safe

variable {I K : σ → Prop} {P P' : α → Prop} {Q : β → Prop}

theorem Safe.bind {m : Machine (Stop ε) σ α} {f : α → Machine (Stop ε) σ β} (hm : Safe I K P m)
    (hf : ∀ a, P a → Safe I K Q (f a)) : Safe I K Q (m >>= f) := by
  intro s hs
  rw [ensures_bind]
  exact (hm s hs).mono (fun a t ht => hf a ht.2 t ht.1) fun _ _ h => h

theorem Safe.mono {m : Machine (Stop ε) σ α} (hm : Safe I K P m) (h : ∀ a, P a → P' a) :
    Safe I K P' m := by
  intro s hs
  exact (hm s hs).mono (fun a t ht => ⟨ht.1, h a ht.2⟩) fun _ _ h => h

theorem safe_pure {a : α} (h : P a) : Safe I K P (pure a : Machine (Stop ε) σ α) := fun _ hs => ⟨hs, h⟩

theorem safe_error {e : ε} (h : ∀ s, I s → K s) : Safe I K P (throw (.error e) : Machine (Stop ε) σ α) :=
  fun s hs => ⟨trivial, h s hs⟩

theorem safe_get {f : σ → Machine (Stop ε) σ β}
    (hf : ∀ s, I s → Ensures (f s) s (fun b t => I t ∧ Q b) fun stop t => stop.IsError ∧ K t) :
    Safe I K Q (get >>= f) := by
  intro s hs
  rw [ensures_bind, ensures_get]
  exact hf s hs

theorem safe_modify {f : σ → σ} (h : ∀ s, I s → I (f s)) {P : PUnit → Prop} (hP : P ⟨⟩) :
    Safe I K P (modify f : Machine (Stop ε) σ PUnit) := fun s hs => ⟨h s hs, hP⟩

theorem Safe.ite {p : Prop} [Decidable p] {m n : Machine (Stop ε) σ α} (hm : p → Safe I K P m)
    (hn : ¬ p → Safe I K P n) : Safe I K P (if p then m else n) := by
  split
  · exact hm ‹_›
  · exact hn ‹_›

theorem Safe.zoom {τ : Type} {view : σ → τ} {update : τ → σ → σ} {J L : τ → Prop}
    {m : Machine (Stop ε) τ α} (hm : Safe J L P m) (hView : ∀ s, I s → J (view s))
    (hUpdate : ∀ s t, I s → J t → I (update t s)) (hKept : ∀ s t, I s → L t → K (update t s)) :
    Safe I K P (Machine.zoom view update id m) := by
  intro s hs
  rw [ensures_zoom]
  exact (hm (view s) (hView s hs)).mono (fun _ t ht => ⟨hUpdate s t hs ht.1, ht.2⟩)
    fun _ t ht => ⟨ht.1, hKept s t hs ht.2⟩

theorem Safe.iterate {body : β → Machine (Stop ε) σ (Option β)} {R : Unit → Prop} (Inv : β → Prop)
    (measure : β → Nat) (hR : R ())
    (hBody : ∀ b, Inv b → Safe I K (fun next => ∀ b', next = some b' → Inv b' ∧ measure b' < measure b)
      (body b)) (fuel : Nat) (b : β) (hInv : Inv b) (hFuel : measure b < fuel) :
    Safe I K R (Machine.iterate body fuel b) := by
  intro s hs
  refine ensures_iterate (fun b s => I s ∧ Inv b) (fun b _ => measure b) ?_ fuel b s ⟨hs, hInv⟩ hFuel
  rintro b s ⟨hs, hInv⟩
  refine (hBody b hInv s hs).mono ?_ fun _ _ h => h
  rintro next t ⟨ht, hNext⟩
  cases next with
  | some b' => exact ⟨⟨ht, (hNext b' rfl).1⟩, (hNext b' rfl).2⟩
  | none => exact ⟨ht, hR⟩

end Safe

end OpenHalfLife.Machine
