import OpenHalfLife.Lib.Checked
import Mathlib.Data.List.Basic
import Mathlib.Data.List.Infix

/-! # Byte transducers

A decoder that is a function of its byte stream alone: each move takes the next
byte, gives one, or ends. `run` makes moves while it has input and room for
output.
-/

namespace OpenHalfLife

set_option autoImplicit false

inductive Move (σ : Type)
  | take (next : UInt8 → σ)
  | give (byte : UInt8) (next : σ)
  | finish
  | fail

structure Transducer (σ : Type) where
  init : σ
  move : σ → Move σ

namespace Transducer

variable {σ : Type}

inductive Status
  | paused
  | finished
  | failed
  deriving DecidableEq, Repr

structure Piece (σ : Type) where
  state : σ
  taken : Nat
  given : List UInt8
  status : Status

def run (t : Transducer σ) (s : σ) (input : List UInt8) (room : Nat) : Piece σ :=
  match t.move s with
  | .take next => match input with
    | [] => ⟨s, 0, [], .paused⟩
    | byte :: input =>
      let piece := run t (next byte) input room
      { piece with taken := piece.taken + 1 }
  | .give byte next => match room with
    | 0 => ⟨s, 0, [], .paused⟩
    | room + 1 =>
      let piece := run t next input room
      { piece with given := byte :: piece.given }
  | .finish => ⟨s, 0, [], .finished⟩
  | .fail => ⟨s, 0, [], .failed⟩
termination_by input.length + room

theorem run_taken_le (t : Transducer σ) (s : σ) (input : List UInt8) (room : Nat) :
    (t.run s input room).taken ≤ input.length := by
  fun_induction run t s input room with
  | case2 s room next hMove byte input piece ih => simpa using ih
  | case4 s input byte next hMove room piece ih => exact ih
  | _ => exact Nat.zero_le _

theorem run_progress {t : Transducer σ} {s : σ} {input : List UInt8} {room : Nat}
    (hInput : input ≠ []) (hRoom : 0 < room) (hPaused : (t.run s input room).status = .paused) :
    0 < (t.run s input room).taken ∨ 0 < (t.run s input room).given.length := by
  rw [run] at hPaused ⊢
  split <;> simp_all
  · split <;> simp_all
  · split <;> simp_all

end Transducer

end OpenHalfLife

namespace OpenHalfLife

set_option autoImplicit false

/-! ## Streams read through one block at a time

A reader holds what is left of one block and can fill itself with the next.
A caller takes as much as it asks for, over as many blocks as that needs.
What a stream delivers is a property of the blocks alone, so neither the sizes
of the calls nor where they end inside a block can change it.
-/

namespace Machine

variable {ε σ α β : Type}

def loopFrom (body : β → Machine (Stop ε) σ (β ⊕ α)) : Nat → β → Machine (Stop ε) σ α
  | 0, _ => throw .stuck
  | fuel + 1, b => do
    let turn ← body b
    turn.elim (loopFrom body fuel) pure

end Machine

open Machine

/-- A state that holds values of one block, drops a number of them, and fills
itself with the next block; `false` is the end of the stream. -/
structure BlockStream (ε σ α : Type) where
  held : σ → Except (Stop ε) (List α)
  drop : Nat → σ → σ
  fill : Machine (Stop ε) σ Bool
  /-- A bound on the blocks to come. -/
  left : σ → Nat
  held_drop : ∀ {s : σ} {values : List α} {n : Nat}, held s = .ok values → n ≤ values.length →
    held (drop n s) = .ok (values.drop n)
  drop_zero : ∀ s : σ, drop 0 s = s
  drop_drop : ∀ (m n : Nat) (s : σ), drop m (drop n s) = drop (n + m) s
  left_drop : ∀ (n : Nat) (s : σ), left (drop n s) = left s
  left_fill : ∀ {s t : σ}, fill.exec s = (.ok true, t) → left t < left s

namespace BlockStream

variable {ε σ α : Type} (b : BlockStream ε σ α)

/-- One turn of a caller that wants `want` values and has `taken`. -/
def takeTurn (want : Nat) (taken : List α) : Machine (Stop ε) σ (List α ⊕ List α) := do
  if taken.length < want then
    let values ← ofExcept id (b.held (← get))
    if values = [] then
      if ← b.fill then return .inl taken else return .inr taken
    else
      let count := min values.length (want - taken.length)
      modify (b.drop count)
      return .inl (taken ++ values.take count)
  else return .inr taken

def takeUpTo (want : Nat) : Machine (Stop ε) σ (List α) := do
  let s ← get
  loopFrom (b.takeTurn want) (want + b.left s + 1) []

/-- `values` can be had from `s` without an error. -/
inductive Delivers : σ → List α → Prop
  | nil {s : σ} : Delivers s []
  | held {s : σ} {values : List α} (h : b.held s = .ok values) {front : List α}
      (hFront : front <+: values) : Delivers s front
  | next {s t : σ} {values rest : List α} (h : b.held s = .ok values)
      (hFill : b.fill.exec (b.drop values.length s) = (.ok true, t)) (hRest : Delivers t rest) :
      Delivers s (values ++ rest)

variable {b}

theorem Delivers.drop {s : σ} {content values : List α} {n : Nat} (h : b.Delivers s content)
    (hHeld : b.held s = .ok values) (hValues : n ≤ values.length) :
    b.Delivers (b.drop n s) (content.drop n) := by
  cases h with
  | nil =>
    rw [List.drop_nil]
    exact .nil
  | held h hFront =>
    rw [hHeld, Except.ok.injEq] at h
    subst h
    apply Delivers.held (b.held_drop hHeld hValues)
    obtain ⟨behind, rfl⟩ := hFront
    rw [List.drop_append]
    exact List.prefix_append _ _
  | next h hFill hRest =>
    rw [hHeld, Except.ok.injEq] at h
    subst h
    rw [List.drop_append_of_le_length hValues]
    refine .next (b.held_drop hHeld hValues) ?_ hRest
    rw [b.drop_drop, List.length_drop, Nat.add_sub_cancel' hValues]
    exact hFill

theorem Delivers.take_prefix {s : σ} {content values : List α} {n : Nat} (h : b.Delivers s content)
    (hHeld : b.held s = .ok values) (hValues : n ≤ values.length) :
    content.take n <+: values.take n := by
  cases h with
  | nil => simp
  | held h hFront =>
    rw [hHeld, Except.ok.injEq] at h
    subst h
    obtain ⟨behind, rfl⟩ := hFront
    rw [List.take_append]
    exact List.prefix_append _ _
  | next h _ _ =>
    rw [hHeld, Except.ok.injEq] at h
    subst h
    rw [List.take_append_of_le_length hValues]

variable {want : Nat} {s : σ} {taken : List α}

theorem takeTurn_cases (b : BlockStream ε σ α) (want : Nat) (s : σ) (taken : List α)
    {Q : List α ⊕ List α → σ → Prop} {E : Stop ε → σ → Prop}
    (hFull : want ≤ taken.length → Q (.inr taken) s)
    (hStop : taken.length < want → ∀ e, b.held s = .error e → E e s)
    (hFill : taken.length < want → b.held s = .ok [] →
      Ensures b.fill s (fun more t => Q (if more then .inl taken else .inr taken) t) E)
    (hTake : ∀ values count, taken.length < want → b.held s = .ok values → values ≠ [] →
      count = min values.length (want - taken.length) →
      Q (.inl (taken ++ values.take count)) (b.drop count s)) :
    Ensures (b.takeTurn want taken) s Q E := by
  rw [takeTurn, ensures_ite]
  refine ⟨fun hWant => ?_, fun hWant => hFull (by omega)⟩
  rw [ensures_bind, ensures_get, ensures_bind, ensures_ofExcept]
  refine ⟨fun values hValues => ?_, hStop hWant⟩
  rw [ensures_ite]
  constructor
  · intro hEmpty
    subst hEmpty
    rw [ensures_bind]
    apply (hFill hWant hValues).mono
    · intro more t h
      cases more with
      | true => exact h
      | false => exact h
    · exact fun _ _ h => h
  · intro hSome
    exact hTake values _ hWant hValues hSome rfl

theorem loop_extends (b : BlockStream ε σ α) (want fuel : Nat) (s : σ) (hTaken : taken.length ≤ want) :
    Ensures (loopFrom (b.takeTurn want) fuel taken) s
      (fun all _ => taken <+: all ∧ all.length ≤ want) fun _ _ => True := by
  induction fuel generalizing s taken with
  | zero => trivial
  | succ fuel ih =>
    rw [loopFrom, ensures_bind]
    apply takeTurn_cases
    · exact fun _ => ⟨List.prefix_rfl, hTaken⟩
    · exact fun _ _ _ => trivial
    · intro _ _
      apply (preserves_true b.fill s trivial).mono
      · intro more t _
        cases more with
        | true => exact ih t hTaken
        | false => exact ⟨List.prefix_rfl, hTaken⟩
      · exact fun _ _ _ => trivial
    · intro values count hWant _ _ hCount
      have hMore : (taken ++ values.take count).length ≤ want := by
        simp only [List.length_append, List.length_take]
        omega
      apply (ih (b.drop count s) hMore).mono
      · exact fun all _ h => ⟨(List.prefix_append _ _).trans h.1, h.2⟩
      · exact fun _ _ h => h

/-- What a caller that wants `want` values of `all` may end with. -/
def Served (b : BlockStream ε σ α) (want : Nat) (all result : List α) (t : σ) : Prop :=
  result.length ≤ want ∧ all.take want <+: result ∧
    (result.length ≤ all.length → b.Delivers t (all.drop result.length))

theorem served_of_extends {all : List α} {result : List α} {t : σ} (hLength : result.length ≤ want)
    (hPrefix : all <+: result) : b.Served want all result t := by
  refine ⟨hLength, (List.take_prefix want all).trans hPrefix, fun hShort => ?_⟩
  rw [List.drop_eq_nil_of_le hPrefix.length_le]
  exact .nil

theorem loop_short (b : BlockStream ε σ α) (fuel : Nat) (hWant : taken.length < want) :
    Ensures b.fill s (fun more t =>
        Ensures ((if more then .inl taken else .inr taken : List α ⊕ List α).elim
          (loopFrom (b.takeTurn want) fuel) pure) t (b.Served want taken) fun _ _ => taken.length < want)
      fun _ _ => taken.length < want := by
  apply (preserves_true b.fill s trivial).mono
  · intro more t _
    cases more with
    | true =>
      apply (loop_extends b want fuel t (Nat.le_of_lt hWant)).mono
      · exact fun all _ h => served_of_extends h.2 h.1
      · exact fun _ _ _ => hWant
    | false => exact served_of_extends (Nat.le_of_lt hWant) List.prefix_rfl
  · exact fun _ _ _ => hWant

theorem loop_delivers {content : List α} (hDelivers : b.Delivers s content) (fuel : Nat)
    (hTaken : taken.length ≤ want) (hFuel : want - taken.length + b.left s < fuel) :
    Ensures (loopFrom (b.takeTurn want) fuel taken) s (b.Served want (taken ++ content))
      fun _ _ => (taken ++ content).length < want := by
  induction fuel generalizing s taken content with
  | zero => omega
  | succ fuel ih =>
    rw [loopFrom, ensures_bind]
    apply takeTurn_cases
    · intro hWant
      have hLength : taken.length = want := by omega
      refine ⟨hTaken, ?_, fun _ => ?_⟩
      · rw [List.take_left' hLength]
      · rw [List.drop_left]
        exact hDelivers
    · intro hWant e hStop
      cases hDelivers with
      | nil => simpa using hWant
      | held h _ => rw [hStop] at h; cases h
      | next h _ _ => rw [hStop] at h; cases h
    · intro hWant hHeld
      have hShort := loop_short b fuel (s := s) hWant
      cases hDelivers with
      | nil =>
        rw [List.append_nil]
        exact hShort
      | held h hFront =>
        rw [hHeld, Except.ok.injEq] at h
        subst h
        rw [List.prefix_nil.mp hFront, List.append_nil]
        exact hShort
      | next h hFill hRest =>
        rw [hHeld, Except.ok.injEq] at h
        subst h
        rw [List.length_nil, b.drop_zero] at hFill
        have hLeft := b.left_fill hFill
        rw [Ensures, hFill]
        exact ih hRest hTaken (by omega)
    · intro values count hWant hHeld hSome hCount
      have hPositive := List.length_pos_iff.mpr hSome
      have hValues : count ≤ values.length := by omega
      have hPrefix := hDelivers.take_prefix hHeld hValues
      have hMore : (taken ++ values.take count).length ≤ want := by
        simp only [List.length_append, List.length_take]
        omega
      rcases Nat.lt_or_ge content.length count with hContent | hContent
      · rw [List.take_of_length_le (Nat.le_of_lt hContent)] at hPrefix
        have hAll : taken ++ content <+: taken ++ values.take count :=
          (List.prefix_append_right_inj taken).mpr hPrefix
        apply (loop_extends b want fuel (b.drop count s) hMore).mono
        · exact fun all _ h => served_of_extends h.2 (hAll.trans h.1)
        · intro _ _ _
          rw [List.length_append]
          omega
      · have hTake : content.take count = values.take count :=
          hPrefix.eq_of_length (by simp only [List.length_take]; omega)
        have hRest := ih (hDelivers.drop hHeld hValues) hMore (by
          simp only [List.length_append, List.length_take, b.left_drop]
          omega)
        rw [List.append_assoc, ← hTake, List.take_append_drop] at hRest
        rw [← hTake]
        exact hRest

theorem takeUpTo_served {content : List α} (hDelivers : b.Delivers s content) (want : Nat) :
    Ensures (b.takeUpTo want) s (b.Served want content) fun _ _ => content.length < want := by
  rw [takeUpTo, ensures_bind, ensures_get]
  have h := loop_delivers hDelivers (want + b.left s + 1) (show ([] : List α).length ≤ want from Nat.zero_le _) (by simp)
  rwa [List.nil_append] at h

theorem takeUpTo_delivers {content : List α} (hDelivers : b.Delivers s content)
    (hWant : want ≤ content.length) : Ensures (b.takeUpTo want) s
      (fun all t => all = content.take want ∧ b.Delivers t (content.drop want)) fun _ _ => False := by
  apply (takeUpTo_served hDelivers want).mono
  · rintro all t ⟨hLength, hPrefix, hRest⟩
    have hAll : content.take want = all :=
      hPrefix.eq_of_length_le (by rw [List.length_take]; omega)
    subst hAll
    rw [List.length_take, Nat.min_eq_left hWant] at hRest
    exact ⟨rfl, hRest hWant⟩
  · intro _ _ hShort
    omega

end BlockStream

end OpenHalfLife
