import Mathlib.Algebra.Ring.Nat
import Mathlib.Data.List.Basic
import OpenHalfLife.Lib.Machine

/-! # Bounded reads of a byte string -/

namespace OpenHalfLife.Formats

set_option autoImplicit false

inductive FormatError
  | truncated
  | badSignature
  | outOfBounds
  | sizeNotMultiple
  | indexOutOfRange
  | limitExceeded
  | invalidText
  | recursionLimitExceeded
  | invalidInput
  deriving DecidableEq, Repr

/-- A sum that has to fit a `usize`. -/
def checkedAdd (a b : Nat) : Except FormatError Nat :=
  if 2 ^ 64 ≤ a + b then .error .outOfBounds else .ok (a + b)

def subSlice (data : List UInt8) (offset length : Nat) : Except FormatError (List UInt8) := do
  let stop ← checkedAdd offset length
  if data.length < stop then .error .outOfBounds else .ok ((data.drop offset).take length)

/-- A slice in memory: none is longer than `isize::MAX`. -/
structure Slice where
  bytes : List UInt8
  length_lt : bytes.length < 2 ^ 63

theorem checkedAdd_of_lt {a b : Nat} (h : a + b < 2 ^ 64) : checkedAdd a b = .ok (a + b) := by
  rw [checkedAdd, if_neg (by omega)]

theorem subSlice_eq_ok (data : Slice) {offset length : Nat} {bytes : List UInt8} :
    subSlice data.bytes offset length = .ok bytes ↔
      offset + length ≤ data.bytes.length ∧ bytes = (data.bytes.drop offset).take length := by
  have hData := data.length_lt
  unfold subSlice checkedAdd
  by_cases hWide : 2 ^ 64 ≤ offset + length
  · rw [if_pos hWide, Result.error_bind]
    simp only [reduceCtorEq, false_iff]
    omega
  · rw [if_neg hWide, Result.ok_bind, Result.ite_error_eq_ok, Except.ok.injEq, Nat.not_lt, eq_comm]

theorem drop_of_subSlice {data : Slice} {offset length : Nat} {bytes : List UInt8}
    (h : subSlice data.bytes offset length = .ok bytes) :
    bytes.length = length ∧ data.bytes.drop offset = bytes ++ data.bytes.drop (offset + length) := by
  obtain ⟨hInside, rfl⟩ := (subSlice_eq_ok data).mp h
  constructor
  · rw [List.length_take, List.length_drop]
    omega
  · rw [← List.drop_drop, List.take_append_drop]

theorem subSlice_append {data : Slice} {offset : Nat} {bytes rest : List UInt8}
    (h : data.bytes.drop offset = bytes ++ rest) (hInside : offset ≤ data.bytes.length) :
    subSlice data.bytes offset bytes.length = .ok bytes := by
  have hLength := congrArg List.length h
  rw [List.length_drop, List.length_append] at hLength
  rw [subSlice_eq_ok, h, List.take_left]
  exact ⟨by omega, rfl⟩

end OpenHalfLife.Formats
