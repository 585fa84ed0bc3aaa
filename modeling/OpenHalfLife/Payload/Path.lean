import OpenHalfLife.Import.Catalog
import OpenHalfLife.Lib.Pieces
import OpenHalfLife.Lib.Machine
import OpenHalfLife.Payload.Plan

/-! # Payload paths

Which archive names may become destinations, on every host alike. A path that
passed carries its spelling with plain slashes and the folded key under which
spellings collide.
-/

namespace OpenHalfLife.Payload

open Import (slash backslash dot toAsciiLowercase)

set_option autoImplicit false

def maximumPathBytes : Nat := 4096

def maximumComponentBytes : Nat := 255

def maximumComponentCount : Nat := 32

def forbiddenBytes : List UInt8 := text "<>:\"|?*"

inductive PayloadPathError
  | empty
  | tooLong
  | rooted
  | emptyComponent
  | traversal
  | tooDeep
  | invalidCharacter
  | componentTooLong
  | reservedName
  deriving DecidableEq, Repr

def equalIgnoreCase (a b : Text) : Bool := toAsciiLowercase a = toAsciiLowercase b

def reservedNames : List Text := ["CON", "PRN", "AUX", "NUL", "CLOCK$", "CONIN$", "CONOUT$"].map text

def isReservedWindowsName (component : Text) : Bool :=
  let stem := component.takeWhile (· ≠ dot)
  reservedNames.any (equalIgnoreCase stem) ||
    (stem.length = 4 && (equalIgnoreCase (stem.take 3) (text "COM") || equalIgnoreCase (stem.take 3) (text "LPT")) &&
      (stem.drop 3).all fun byte => 0x30 ≤ byte && byte ≤ 0x39)

def validateComponent (component : Text) : Except PayloadPathError Unit :=
  if component = [] then .error .emptyComponent
  else if component = [dot] ∨ component = [dot, dot] then .error .traversal
  else if component.length > maximumComponentBytes then .error .componentTooLong
  else if component.getLast? = some dot ∨ component.getLast? = some 0x20 then .error .invalidCharacter
  else if component.any fun byte => ¬(0x20 ≤ byte ∧ byte ≤ 0x7e) ∨ byte ∈ forbiddenBytes then .error .invalidCharacter
  else if isReservedWindowsName component then .error .reservedName
  else .ok ()

structure PayloadPath where
  relativePath : Text
  portabilityKey : Text
  folded : portabilityKey = toAsciiLowercase relativePath
  deriving DecidableEq

namespace PayloadPath

def empty : PayloadPath := ⟨[], [], rfl⟩

theorem toAsciiLowercase_append (a b : Text) : toAsciiLowercase (a ++ b) = toAsciiLowercase a ++ toAsciiLowercase b :=
  List.map_append

def push (path : PayloadPath) (component : Text) : PayloadPath where
  relativePath := (if path.relativePath = [] then [] else path.relativePath ++ [slash]) ++ component
  portabilityKey := (if path.relativePath = [] then [] else path.portabilityKey ++ [slash]) ++ toAsciiLowercase component
  folded := by
    rw [toAsciiLowercase_append, path.folded]
    split
    · rfl
    · rw [toAsciiLowercase_append]
      rfl

def parseComponent (parsed : Nat × PayloadPath) (component : Text) : Except PayloadPathError (Nat × PayloadPath) := do
  let components := parsed.1 + 1
  if components > maximumComponentCount then .error .tooDeep
  else
    validateComponent component
    return (components, parsed.2.push component)

def isSeparator (byte : UInt8) : Bool := byte = slash ∨ byte = backslash

def parse (path : Text) : Except PayloadPathError PayloadPath :=
  if path = [] then .error .empty
  else if path.length > maximumPathBytes then .error .tooLong
  else if path.head? = some slash ∨ path.head? = some backslash ∨ path[1]? = some 0x3a then .error .rooted
  else do
    let parsed ← (path.splitOnP isSeparator).foldlM parseComponent (0, empty)
    return parsed.2

def slashes (path : PayloadPath) : List Nat :=
  (List.range path.portabilityKey.length).filter fun offset => path.portabilityKey[offset]? = some slash

def ancestorKeys (path : PayloadPath) : List (Text × Text) :=
  path.slashes.map fun offset => (path.portabilityKey.take offset, path.relativePath.take offset)

variable {path : PayloadPath} {key spelling : Text}

@[simp] theorem length_portabilityKey (path : PayloadPath) : path.portabilityKey.length = path.relativePath.length := by
  rw [path.folded, toAsciiLowercase, List.length_map]

theorem mem_ancestorKeys : (key, spelling) ∈ path.ancestorKeys ↔
    ∃ offset < path.relativePath.length, path.portabilityKey[offset]? = some slash ∧
      key = path.portabilityKey.take offset ∧ spelling = path.relativePath.take offset := by
  simp only [ancestorKeys, slashes, List.mem_map, List.mem_filter, List.mem_range, length_portabilityKey,
    decide_eq_true_eq, Prod.mk.injEq, and_assoc]
  constructor
  · rintro ⟨offset, hOffset, hSlash, rfl, rfl⟩
    exact ⟨offset, hOffset, hSlash, rfl, rfl⟩
  · rintro ⟨offset, hOffset, hSlash, rfl, rfl⟩
    exact ⟨offset, hOffset, hSlash, rfl, rfl⟩

theorem ancestor_spelling {spelling' : Text} (h : (key, spelling) ∈ path.ancestorKeys)
    (h' : (key, spelling') ∈ path.ancestorKeys) : spelling = spelling' := by
  obtain ⟨offset, hOffset, -, rfl, rfl⟩ := mem_ancestorKeys.mp h
  obtain ⟨offset', hOffset', -, hKey, rfl⟩ := mem_ancestorKeys.mp h'
  have hLength := congrArg List.length hKey
  simp only [List.length_take, length_portabilityKey] at hLength
  rw [show offset = offset' by omega]

theorem ancestor_ne_key (h : (key, spelling) ∈ path.ancestorKeys) : key ≠ path.portabilityKey := by
  obtain ⟨offset, hOffset, -, rfl, -⟩ := mem_ancestorKeys.mp h
  intro hSame
  have hLength := congrArg List.length hSame
  simp only [List.length_take, length_portabilityKey] at hLength
  omega

/-- What a text that parses is like, and how its pieces are spelled. -/
structure Parsed (text : Text) (path : PayloadPath) : Prop where
  length : text.length ≤ maximumPathBytes
  count : (text.splitOnP isSeparator).length ≤ maximumComponentCount
  valid : ∀ component ∈ text.splitOnP isSeparator, validateComponent component = .ok ()
  spelling : slash :: path.relativePath = rooted slash (text.splitOnP isSeparator)

theorem valid_spec {component : Text} (h : validateComponent component = .ok ()) :
    component ≠ [] ∧ ¬(component = [dot] ∨ component = [dot, dot]) ∧ ∀ byte ∈ component, 0x20 ≤ byte ∧ byte ≤ 0x7e := by
  simp only [validateComponent, Result.ite_error_eq_ok] at h
  obtain ⟨hSome, hReference, -, -, hBytes, -⟩ := h
  refine ⟨hSome, hReference, fun byte hByte => ?_⟩
  by_contra hNot
  exact hBytes (List.any_eq_true.mpr ⟨byte, hByte, decide_eq_true (.inl hNot)⟩)

theorem parseComponent_eq_ok {parsed parsed' : Nat × PayloadPath} {component : Text} :
    parseComponent parsed component = .ok parsed' ↔ parsed.1 + 1 ≤ maximumComponentCount ∧
      validateComponent component = .ok () ∧ parsed' = (parsed.1 + 1, parsed.2.push component) := by
  rw [parseComponent, Result.ite_error_eq_ok, Result.bind_eq_ok]
  constructor
  · rintro ⟨hCount, _, hValid, h⟩
    exact ⟨Nat.not_lt.mp hCount, hValid, (Except.ok.inj h).symm⟩
  · rintro ⟨hCount, hValid, rfl⟩
    exact ⟨Nat.not_lt.mpr hCount, (), hValid, rfl⟩

theorem foldlM_parseComponent {components : List Text} {parsed parsed' : Nat × PayloadPath}
    (hSome : parsed.2.relativePath ≠ []) (h : components.foldlM parseComponent parsed = .ok parsed') :
    parsed'.1 = parsed.1 + components.length ∧ (components ≠ [] → parsed'.1 ≤ maximumComponentCount) ∧
      (∀ component ∈ components, validateComponent component = .ok ()) ∧
      parsed'.2.relativePath = parsed.2.relativePath ++ rooted slash components := by
  induction components generalizing parsed with
  | nil =>
    cases h
    simp [rooted]
  | cons component components ih =>
    rw [List.foldlM_cons, Result.bind_eq_ok] at h
    obtain ⟨next, hNext, h⟩ := h
    obtain ⟨hCount, hValid, rfl⟩ := parseComponent_eq_ok.mp hNext
    have hPush : (parsed.2.push component).relativePath = parsed.2.relativePath ++ slash :: component := by
      simp [push, hSome]
    obtain ⟨hTotal, hBound, hRest, hSpelling⟩ := ih (by simp [hPush]) h
    refine ⟨by simp [hTotal]; omega, fun _ => ?_, by simpa [hValid] using hRest, ?_⟩
    · cases components with
      | nil => simpa [hTotal] using hCount
      | cons _ _ => exact hBound (List.cons_ne_nil _ _)
    · rw [hSpelling, hPush, rooted_cons, List.append_assoc, List.cons_append]

theorem parsed_of_parse {text : Text} (h : parse text = .ok path) : Parsed text path := by
  simp only [parse, Result.ite_error_eq_ok, Result.bind_eq_ok] at h
  obtain ⟨-, hLength, -, parsed, hLoop, hPath⟩ := h
  obtain rfl : parsed.2 = path := Except.ok.inj hPath
  obtain ⟨component, components, hPieces⟩ := List.exists_cons_of_ne_nil (List.splitOnP_ne_nil isSeparator text)
  rw [hPieces, List.foldlM_cons, Result.bind_eq_ok] at hLoop
  obtain ⟨next, hNext, hLoop⟩ := hLoop
  obtain ⟨hCount, hValid, rfl⟩ := parseComponent_eq_ok.mp hNext
  have hFirst : (empty.push component).relativePath = component := by simp [push, empty]
  obtain ⟨hTotal, hBound, hRest, hSpelling⟩ :=
    foldlM_parseComponent (by rw [hFirst]; exact (valid_spec hValid).1) hLoop
  refine ⟨Nat.not_lt.mp hLength, ?_, by simpa [hPieces, hValid] using hRest, ?_⟩
  · rw [hPieces, List.length_cons]
    cases components with
    | nil => decide
    | cons other components =>
      have hMany := hBound (List.cons_ne_nil _ _)
      rw [hTotal] at hMany
      simpa [Nat.add_comm] using hMany
  · rw [hPieces, rooted_cons, hSpelling, hFirst]

theorem length_le_of_parse {text : Text} (h : parse text = .ok path) : text.length ≤ maximumPathBytes :=
  (parsed_of_parse h).length

theorem Parsed.length_relativePath {text : Text} (h : Parsed text path) : path.relativePath.length = text.length := by
  have hLength := congrArg List.length h.spelling
  rw [length_rooted, sum_length_splitOnP, List.length_cons] at hLength
  omega

theorem Parsed.pieces {text : Text} (h : Parsed text path) :
    path.relativePath.splitOnP isSeparator = text.splitOnP isSeparator := by
  have hSplit := splitOnP_rooted (show isSeparator slash = true from rfl)
    fun piece hPiece byte hByte => (forall_mem_splitOnP text piece hPiece byte hByte).2
  rw [← h.spelling, splitOnP_separator rfl] at hSplit
  exact (List.cons.inj hSplit).2

end PayloadPath

end OpenHalfLife.Payload
