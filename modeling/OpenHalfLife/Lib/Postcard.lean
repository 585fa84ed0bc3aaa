import Mathlib.Data.Option.Basic
import Mathlib.Data.UInt

/-! # Codecs in the manner of `postcard`

A value is written without a description of its type and read from the front
of its bytes. Lengths are numbers of seven bits a byte.
-/

namespace OpenHalfLife

set_option autoImplicit false

structure Codec (α : Type) where
  encode : α → List UInt8
  decode : List UInt8 → Option (α × List UInt8)

namespace Codec

variable {α β : Type}

/-- What is written is read back, with nothing of what follows. -/
def Restores (codec : Codec α) (value : α) : Prop :=
  ∀ rest, codec.decode (codec.encode value ++ rest) = some (value, rest)

/-! ## Numbers -/

def encodeDigits : Nat → Nat → List UInt8
  | 0, _ => []
  | fuel + 1, value =>
    if value < 128 then [UInt8.ofNat value] else UInt8.ofNat (value % 128 + 128) :: encodeDigits fuel (value / 128)

def decodeDigits : List UInt8 → Option (Nat × List UInt8)
  | [] => none
  | digit :: rest =>
    if digit.toNat < 128 then some (digit.toNat, rest)
    else (decodeDigits rest).map fun (value, rest) => (digit.toNat - 128 + 128 * value, rest)

def varint : Codec Nat := ⟨fun value => encodeDigits (value + 1) value, decodeDigits⟩

theorem decodeDigits_encodeDigits (fuel : Nat) :
    ∀ value rest, value < fuel → decodeDigits (encodeDigits fuel value ++ rest) = some (value, rest) := by
  induction fuel with
  | zero =>
    intro value rest small
    omega
  | succ fuel ih =>
    intro value rest small
    rw [encodeDigits]
    split
    · rename_i last
      have byte : (UInt8.ofNat value).toNat = value := UInt8.toNat_ofNat_of_lt' (by change value < 256; omega)
      rw [List.singleton_append, decodeDigits, byte, if_pos last]
    · rename_i more
      have byte : (UInt8.ofNat (value % 128 + 128)).toNat = value % 128 + 128 :=
        UInt8.toNat_ofNat_of_lt' (by change _ < 256; omega)
      rw [List.cons_append, decodeDigits, byte, if_neg (by omega), ih (value / 128) rest (by omega)]
      have whole : value % 128 + 128 - 128 + 128 * (value / 128) = value := by omega
      exact congrArg some (Prod.ext whole rfl)

theorem varint_restores (value : Nat) : varint.Restores value := fun rest =>
  decodeDigits_encodeDigits (value + 1) value rest (Nat.lt_succ_self value)

/-! ## Composition -/

def byte : Codec UInt8 where
  encode value := [value]
  decode
    | [] => none
    | value :: rest => some (value, rest)

def pair (first : Codec α) (second : Codec β) : Codec (α × β) where
  encode value := first.encode value.1 ++ second.encode value.2
  decode bytes := do
    let (a, rest) ← first.decode bytes
    let (b, rest) ← second.decode rest
    return ((a, b), rest)

def view (codec : Codec α) (into : α → β) (back : β → α) : Codec β where
  encode value := codec.encode (back value)
  decode bytes := (codec.decode bytes).map fun (value, rest) => (into value, rest)

def guarded (codec : Codec α) (passes : α → Bool) : Codec α where
  encode := codec.encode
  decode bytes := (codec.decode bytes).filter fun (value, _) => passes value

def option (codec : Codec α) : Codec (Option α) where
  encode
    | none => [0]
    | some value => 1 :: codec.encode value
  decode
    | 0 :: rest => some (none, rest)
    | 1 :: rest => (codec.decode rest).map fun (value, rest) => (some value, rest)
    | _ => none

def blob : Codec (List UInt8) where
  encode value := varint.encode value.length ++ value
  decode bytes := do
    let (count, rest) ← varint.decode bytes
    if rest.length < count then none else some (rest.take count, rest.drop count)

theorem byte_restores (value : UInt8) : byte.Restores value := fun _ => rfl

theorem Restores.pair {first : Codec α} {second : Codec β} {value : α × β} (h : first.Restores value.1)
    (h' : second.Restores value.2) : (first.pair second).Restores value := by
  intro rest
  simp only [Codec.pair, List.append_assoc]
  rw [h, Option.bind_eq_bind, Option.bind_some]
  simp only [h' rest]
  rfl

theorem Restores.view {codec : Codec α} {into : α → β} {back : β → α} {value : β} (h : codec.Restores (back value))
    (inverse : into (back value) = value) : (codec.view into back).Restores value := by
  intro rest
  simp only [Codec.view]
  rw [h, Option.map_some, inverse]

theorem Restores.guarded {codec : Codec α} {passes : α → Bool} {value : α} (h : codec.Restores value)
    (pass : passes value = true) : (codec.guarded passes).Restores value := by
  intro rest
  simp only [Codec.guarded]
  rw [h, Option.filter_some, if_pos pass]

theorem Restores.option {codec : Codec α} {value : Option α} (h : ∀ inner ∈ value, codec.Restores inner) :
    codec.option.Restores value := by
  intro rest
  cases value with
  | none => rfl
  | some inner =>
    change (codec.decode (codec.encode inner ++ rest)).map _ = _
    rw [h inner rfl, Option.map_some]

theorem blob_restores (value : List UInt8) : blob.Restores value := by
  intro rest
  simp only [blob, List.append_assoc]
  rw [varint_restores, Option.bind_eq_bind, Option.bind_some]
  simp

structure Exact (α : Type) extends Codec α where
  restores : ∀ value, toCodec.Restores value

/-! ## Bounded sequences -/

def elements (element : Codec α) (cap : Nat) : Nat → List α → List UInt8 → Option (List α × List UInt8)
  | 0, values, bytes => some (values, bytes)
  | count + 1, values, bytes =>
    match element.decode bytes with
    | none => none
    | some (value, rest) => if values.length ≥ cap then none else elements element cap count (values ++ [value]) rest

def encodeAll (element : Codec α) (values : List α) : List UInt8 :=
  varint.encode values.length ++ values.flatMap element.encode

def bounded (element : Codec α) (cap : Nat) : Codec (List α) where
  encode := element.encodeAll
  decode bytes := do
    let (count, rest) ← varint.decode bytes
    if count > cap then none else elements element cap count [] rest

theorem elements_append {element : Codec α} {cap : Nat} (values : List α) :
    ∀ before rest, (∀ value ∈ values, element.Restores value) → before.length ≤ cap →
      elements element cap values.length before (values.flatMap element.encode ++ rest) =
        if before.length + values.length ≤ cap then some (before ++ values, rest) else none := by
  induction values with
  | nil =>
    intro before rest _ room
    rw [List.append_nil, List.length_nil, Nat.add_zero, if_pos room]
    rfl
  | cons value values ih =>
    intro before rest restores room
    rw [List.length_cons, elements, List.flatMap_cons, List.append_assoc, restores value List.mem_cons_self]
    dsimp only
    by_cases full : before.length ≥ cap
    · rw [if_pos full, if_neg (by omega)]
    · rw [if_neg full, ih _ rest (fun other member => restores other (List.mem_cons_of_mem _ member)) (by
        rw [List.length_append, List.length_singleton]; omega)]
      rw [List.length_append, List.length_singleton, List.append_assoc, List.singleton_append]
      have sum : before.length + 1 + values.length = before.length + (values.length + 1) := by omega
      rw [sum]

theorem Restores.bounded {element : Codec α} {cap : Nat} {values : List α}
    (h : ∀ value ∈ values, element.Restores value) (few : values.length ≤ cap) :
    (element.bounded cap).Restores values := by
  intro rest
  simp only [Codec.bounded, encodeAll, List.append_assoc]
  rw [varint_restores, Option.bind_eq_bind, Option.bind_some]
  dsimp only
  rw [if_neg (by omega), elements_append values [] rest h (Nat.zero_le cap), if_pos (by simpa using few),
    List.nil_append]

end Codec

end OpenHalfLife
