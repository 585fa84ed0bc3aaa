import Mathlib.Data.List.Rotate
import Mathlib.Logic.Function.Iterate

/-! # Going round a list

One place forward or back in a list without duplicates, from the last place to
the first and the other way round.
-/

namespace OpenHalfLife

set_option autoImplicit false

variable {α : Type} [DecidableEq α]

/-- The place after that of `current`; the first one if `current` has none. -/
def nextPlace (xs : List α) (current : Option α) : Nat :=
  match current.bind fun x => xs.idxOf? x with
  | some index => (index + 1) % xs.length
  | none => 0

/-- The place before that of `current`; the last one if `current` has none. -/
def prevPlace (xs : List α) (current : Option α) : Nat :=
  match current.bind fun x => xs.idxOf? x with
  | some index => (index + xs.length - 1) % xs.length
  | none => xs.length - 1

def goNext (xs : List α) (current : Option α) : Option α := xs[nextPlace xs current]?

def goPrev (xs : List α) (current : Option α) : Option α := xs[prevPlace xs current]?

theorem nextPlace_lt {xs : List α} (h : xs ≠ []) (current : Option α) : nextPlace xs current < xs.length := by
  have hLength := List.length_pos_of_ne_nil h
  rw [nextPlace]
  split
  · exact Nat.mod_lt _ hLength
  · exact hLength

theorem mem_of_goNext {xs : List α} {current : Option α} {x : α} (h : goNext xs current = some x) : x ∈ xs :=
  List.mem_of_getElem? h

theorem mem_of_goPrev {xs : List α} {current : Option α} {x : α} (h : goPrev xs current = some x) : x ∈ xs :=
  List.mem_of_getElem? h

section Nodup

variable {xs : List α} (hNodup : xs.Nodup)

include hNodup

theorem idxOf?_getElem {i : Nat} (h : i < xs.length) : xs.idxOf? xs[i] = some i := by
  rw [List.idxOf?_eq_some_iff]
  refine ⟨h, rfl, fun j hj hSame => ?_⟩
  exact hj.ne ((List.Nodup.getElem_inj_iff hNodup).mp hSame)

theorem goNext_getElem {i : Nat} (h : i < xs.length) : goNext xs (some xs[i]) = xs[(i + 1) % xs.length]? := by
  rw [goNext, nextPlace, Option.bind_some, idxOf?_getElem hNodup h]

theorem goPrev_getElem {i : Nat} (h : i < xs.length) :
    goPrev xs (some xs[i]) = xs[(i + xs.length - 1) % xs.length]? := by
  rw [goPrev, prevPlace, Option.bind_some, idxOf?_getElem hNodup h]

theorem goPrev_goNext {x : α} (h : x ∈ xs) : goPrev xs (goNext xs (some x)) = some x := by
  obtain ⟨i, hi, rfl⟩ := List.getElem_of_mem h
  have hNext : (i + 1) % xs.length < xs.length := Nat.mod_lt _ (Nat.zero_lt_of_lt hi)
  have hBack : ((i + 1) % xs.length + xs.length - 1) % xs.length = i := by
    rcases Nat.lt_or_eq_of_le (Nat.succ_le_of_lt hi) with hInside | hLast
    · rw [Nat.mod_eq_of_lt hInside, show i + 1 + xs.length - 1 = i + xs.length by omega, Nat.add_mod_right,
        Nat.mod_eq_of_lt hi]
    · rw [← hLast, Nat.mod_self, Nat.zero_add, Nat.succ_sub_one, Nat.mod_eq_of_lt (Nat.lt_succ_self i)]
  rw [goNext_getElem hNodup hi, List.getElem?_eq_getElem hNext, goPrev_getElem hNodup hNext, hBack,
    List.getElem?_eq_getElem hi]

theorem iterate_goNext (current : Option α) (steps : Nat) :
    (goNext xs)^[steps + 1] current = xs[(nextPlace xs current + steps) % xs.length]? := by
  by_cases hNil : xs = []
  · rw [Function.iterate_succ_apply', goNext, hNil]
    rfl
  · induction steps with
    | zero => exact (congrArg (xs[·]?) (Nat.mod_eq_of_lt (nextPlace_lt hNil current))).symm
    | succ steps ih =>
      have hHere := Nat.mod_lt (nextPlace xs current + steps) (List.length_pos_of_ne_nil hNil)
      rw [Function.iterate_succ_apply', ih, List.getElem?_eq_getElem hHere, goNext_getElem hNodup hHere,
        Nat.mod_add_mod, Nat.add_assoc]

theorem visits_perm (current : Option α) :
    ((List.range xs.length).map fun steps => (goNext xs)^[steps + 1] current).Perm (xs.map some) := by
  have hRotated : (List.range xs.length).map (fun steps => (goNext xs)^[steps + 1] current) =
      (xs.rotate (nextPlace xs current)).map some := by
    refine List.ext_getElem (by simp) fun k hk _ => ?_
    have hLength : k < xs.length := by simpa using hk
    have hPlace := Nat.mod_lt (nextPlace xs current + k) (Nat.zero_lt_of_lt hLength)
    rw [List.getElem_map, List.getElem_range, iterate_goNext hNodup, List.getElem?_eq_getElem hPlace,
      List.getElem_map, List.getElem_rotate]
    simp only [Nat.add_comm]
  rw [hRotated]
  exact (xs.rotate_perm _).map some

end Nodup

end OpenHalfLife
