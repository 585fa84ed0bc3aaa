import Mathlib.Data.List.Basic
import OpenHalfLife.Lib.Bytes

/-! # Records of a fixed width

A layout writes every value in the same number of bytes and reads every such
string of bytes back. Layouts are composed field by field, and a table of
records is a concatenation.
-/

namespace OpenHalfLife

set_option autoImplicit false

universe u v

structure Layout (α : Type u) where
  width : Nat
  encode : α → List UInt8
  decode : List UInt8 → α
  length_encode (a : α) : (encode a).length = width
  decode_encode (a : α) : decode (encode a) = a
  encode_decode (bytes : List UInt8) : bytes.length = width → encode (decode bytes) = bytes

namespace Layout

variable {α : Type u} {β : Type v}

/-! ## Fields -/

def u16 : Layout UInt16 where
  width := 2
  encode value := toLe 2 value.toNat
  decode bytes := UInt16.ofNat (fromLe bytes)
  length_encode _ := length_toLe _ _
  decode_encode _ := (toLe_uint16_iff.mp rfl).2
  encode_decode _ hWidth := (toLe_uint16_iff.mpr ⟨hWidth, rfl⟩).symm

def i16 : Layout Int16 where
  width := 2
  encode value := u16.encode value.toUInt16
  decode bytes := (u16.decode bytes).toInt16
  length_encode _ := u16.length_encode _
  decode_encode value := by rw [u16.decode_encode, Int16.toInt16_toUInt16]
  encode_decode bytes hWidth := by rw [UInt16.toUInt16_toInt16, u16.encode_decode bytes hWidth]

def pair (first : Layout α) (second : Layout β) : Layout (α × β) where
  width := first.width + second.width
  encode value := first.encode value.1 ++ second.encode value.2
  decode bytes := (first.decode (bytes.take first.width), second.decode (bytes.drop first.width))
  length_encode value := by rw [List.length_append, first.length_encode, second.length_encode]
  decode_encode value := by
    rw [List.take_left' (first.length_encode _), List.drop_left' (first.length_encode _),
      first.decode_encode, second.decode_encode]
  encode_decode bytes hWidth := by
    rw [first.encode_decode _ (by rw [List.length_take]; omega),
      second.encode_decode _ (by rw [List.length_drop]; omega), List.take_append_drop]

def reading (fields : Layout α) (build : α → β) (parts : β → α)
    (hBuild : ∀ b, build (parts b) = b) (hParts : ∀ a, parts (build a) = a) : Layout β where
  width := fields.width
  encode value := fields.encode (parts value)
  decode bytes := build (fields.decode bytes)
  length_encode _ := fields.length_encode _
  decode_encode value := by rw [fields.decode_encode, hBuild]
  encode_decode bytes hWidth := by rw [hParts, fields.encode_decode bytes hWidth]

/-! ## Tables -/

variable (layout : Layout α)

def table : Nat → List UInt8 → List α
  | 0, _ => []
  | count + 1, bytes =>
    layout.decode (bytes.take layout.width) :: table count (bytes.drop layout.width)

@[simp] theorem length_table (count : Nat) (bytes : List UInt8) :
    (layout.table count bytes).length = count := by
  induction count generalizing bytes with
  | zero => rfl
  | succ count ih => rw [table, List.length_cons, ih]

theorem length_flatMap_encode (values : List α) :
    (values.flatMap layout.encode).length = values.length * layout.width := by
  induction values with
  | nil => simp
  | cons value values ih =>
    rw [List.flatMap_cons, List.length_append, layout.length_encode, ih, List.length_cons,
      Nat.succ_mul, Nat.add_comm]

theorem table_flatMap_encode (values : List α) :
    layout.table values.length (values.flatMap layout.encode) = values := by
  induction values with
  | nil => rfl
  | cons value values ih =>
    rw [List.flatMap_cons, List.length_cons, table, List.take_left' (layout.length_encode _),
      List.drop_left' (layout.length_encode _), layout.decode_encode, ih]

theorem flatMap_encode_table {count : Nat} {bytes : List UInt8}
    (h : bytes.length = count * layout.width) :
    (layout.table count bytes).flatMap layout.encode = bytes := by
  induction count generalizing bytes with
  | zero =>
    rw [Nat.zero_mul, List.length_eq_zero_iff] at h
    rw [h]
    rfl
  | succ count ih =>
    rw [Nat.succ_mul] at h
    rw [table, List.flatMap_cons, ih (by rw [List.length_drop]; omega),
      layout.encode_decode _ (by rw [List.length_take]; omega), List.take_append_drop]

end Layout

end OpenHalfLife
