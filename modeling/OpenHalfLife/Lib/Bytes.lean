import Mathlib.Algebra.Order.Ring.Nat
import Mathlib.Data.Nat.Digits.Defs
import Mathlib.Data.UInt
import Mathlib.Data.List.Basic

/-! # Bytes of numbers and of strings -/

namespace OpenHalfLife

set_option autoImplicit false

def fromLe (bytes : List UInt8) : Nat := Nat.ofDigits 256 (bytes.map UInt8.toNat)

/-- The `width` low bytes of `value`, least significant first. -/
def toLe (width value : Nat) : List UInt8 :=
  (List.range width).map fun i => UInt8.ofNat (value / 256 ^ i)

@[simp] theorem length_toLe (width value : Nat) : (toLe width value).length = width := by
  simp [toLe]

theorem toLe_succ (width value : Nat) :
    toLe (width + 1) value = UInt8.ofNat value :: toLe width (value / 256) := by
  rw [toLe, List.range_succ_eq_map, List.map_cons, List.map_map]
  congr 1
  · rw [Nat.pow_zero, Nat.div_one]
  · apply List.map_congr_left
    intro i _
    rw [Function.comp_apply, Nat.succ_eq_add_one, Nat.pow_succ', Nat.div_div_eq_div_mul]

theorem fromLe_cons (byte : UInt8) (bytes : List UInt8) :
    fromLe (byte :: bytes) = byte.toNat + 256 * fromLe bytes := by
  rw [fromLe, List.map_cons, Nat.ofDigits_cons, fromLe]

theorem fromLe_lt (bytes : List UInt8) : fromLe bytes < 256 ^ bytes.length := by
  induction bytes with
  | nil => decide
  | cons byte bytes ih =>
    have hByte := byte.toNat_lt
    rw [fromLe_cons, List.length_cons, Nat.pow_succ']
    omega

theorem fromLe_toLe (width value : Nat) : fromLe (toLe width value) = value % 256 ^ width := by
  induction width generalizing value with
  | zero => rw [Nat.pow_zero, Nat.mod_one]; rfl
  | succ width ih =>
    have hFirst : (UInt8.ofNat value).toNat = value % 256 := UInt8.toNat_ofNat'
    have hSplit : value % 256 ^ (width + 1) = value % 256 + 256 * (value / 256 % 256 ^ width) := by
      rw [Nat.pow_succ', Nat.mod_mul]
    rw [toLe_succ, fromLe_cons, ih, hFirst, hSplit]

theorem toLe_fromLe (bytes : List UInt8) : toLe bytes.length (fromLe bytes) = bytes := by
  induction bytes with
  | nil => rfl
  | cons byte bytes ih =>
    have hByte := byte.toNat_lt
    have hRest : (byte.toNat + 256 * fromLe bytes) / 256 = fromLe bytes := by omega
    have hFirst : UInt8.ofNat (byte.toNat + 256 * fromLe bytes) = byte := by
      apply UInt8.toNat_inj.mp
      rw [UInt8.toNat_ofNat']
      omega
    rw [List.length_cons, fromLe_cons, toLe_succ, hRest, ih, hFirst]

section Words

/-- A word of `width` bytes and its little-endian image determine each other. -/
theorem eq_toLe_iff {bytes : List UInt8} {width value : Nat} (h : value < 256 ^ width) :
    bytes = toLe width value ↔ bytes.length = width ∧ fromLe bytes = value := by
  constructor
  · rintro rfl
    exact ⟨length_toLe _ _, by rw [fromLe_toLe, Nat.mod_eq_of_lt h]⟩
  · rintro ⟨rfl, rfl⟩
    exact (toLe_fromLe bytes).symm

theorem toLe_uint16_iff {bytes : List UInt8} {value : UInt16} :
    bytes = toLe 2 value.toNat ↔ bytes.length = 2 ∧ UInt16.ofNat (fromLe bytes) = value := by
  rw [eq_toLe_iff value.toNat_lt]
  refine and_congr_right fun hLength => ?_
  have hValue : fromLe bytes < 2 ^ 16 := by
    have hBound := fromLe_lt bytes
    rwa [hLength] at hBound
  rw [← UInt16.toNat_inj, UInt16.toNat_ofNat_of_lt' hValue]

theorem toLe_uint32_iff {bytes : List UInt8} {value : UInt32} :
    bytes = toLe 4 value.toNat ↔ bytes.length = 4 ∧ UInt32.ofNat (fromLe bytes) = value := by
  rw [eq_toLe_iff value.toNat_lt]
  refine and_congr_right fun hLength => ?_
  have hValue : fromLe bytes < 2 ^ 32 := by
    have hBound := fromLe_lt bytes
    rwa [hLength] at hBound
  rw [← UInt32.toNat_inj, UInt32.toNat_ofNat_of_lt' hValue]

theorem toLe_uint64_iff {bytes : List UInt8} {value : UInt64} :
    bytes = toLe 8 value.toNat ↔ bytes.length = 8 ∧ UInt64.ofNat (fromLe bytes) = value := by
  rw [eq_toLe_iff value.toNat_lt]
  refine and_congr_right fun hLength => ?_
  have hValue : fromLe bytes < 2 ^ 64 := by
    have hBound := fromLe_lt bytes
    rwa [hLength] at hBound
  rw [← UInt64.toNat_inj, UInt64.toNat_ofNat_of_lt' hValue]

end Words

end OpenHalfLife

namespace OpenHalfLife

set_option autoImplicit false

/-! ## Strings as their UTF-8 bytes -/

def utf8Bytes (text : String) : List UInt8 := text.toByteArray.data.toList

def decodeUtf8 (bytes : List UInt8) : Option String := String.fromUTF8? bytes.toByteArray

theorem decodeUtf8_utf8Bytes (text : String) : decodeUtf8 (utf8Bytes text) = some text := by
  have hBytes : (utf8Bytes text).toByteArray = text.toByteArray := by
    apply ByteArray.ext
    apply Array.toList_inj.mp
    rw [List.toList_data_toByteArray, utf8Bytes]
  rw [decodeUtf8, hBytes, String.fromUTF8?, dif_pos text.isValidUTF8]
  rfl

theorem utf8Bytes_eq_flatMap (text : String) :
    utf8Bytes text = text.toList.flatMap String.utf8EncodeChar := by
  conv_lhs => rw [← String.ofList_toList (s := text)]
  exact List.toList_data_toByteArray

theorem mem_utf8EncodeChar {c : Char} {byte : UInt8} (h : byte ∈ String.utf8EncodeChar c)
    (hAscii : byte.toNat < 128) : c.toNat = byte.toNat := by
  have hValue : c.val.toNat = c.toNat := rfl
  unfold String.utf8EncodeChar at h
  dsimp only at h
  split at h
  · rw [List.mem_singleton] at h
    rw [h, UInt8.toNat_ofNat']
    omega
  · -- every byte of a longer encoding has its top bit set
    exfalso
    split at h
    · simp only [List.mem_cons, List.not_mem_nil, or_false] at h
      rcases h with rfl | rfl <;> · rw [UInt8.toNat_ofNat'] at hAscii; omega
    · split at h
      · simp only [List.mem_cons, List.not_mem_nil, or_false] at h
        rcases h with rfl | rfl | rfl <;> · rw [UInt8.toNat_ofNat'] at hAscii; omega
      · simp only [List.mem_cons, List.not_mem_nil, or_false] at h
        rcases h with rfl | rfl | rfl | rfl <;> · rw [UInt8.toNat_ofNat'] at hAscii; omega

theorem mem_utf8Bytes {text : String} {byte : UInt8} (h : byte ∈ utf8Bytes text)
    (hAscii : byte.toNat < 128) : ∃ c ∈ text.toList, c.toNat = byte.toNat := by
  rw [utf8Bytes_eq_flatMap] at h
  obtain ⟨c, hMem, hByte⟩ := List.mem_flatMap.mp h
  exact ⟨c, hMem, mem_utf8EncodeChar hByte hAscii⟩

end OpenHalfLife
