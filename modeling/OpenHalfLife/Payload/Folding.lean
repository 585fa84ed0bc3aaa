import OpenHalfLife.Payload.Path

/-! # Folded paths

Nothing that makes a path usable depends on the case of its letters or on the
kind of its separators. A portability key is therefore a path of its own, and
the key of that path is the key itself.
-/

namespace OpenHalfLife.Payload

open Import (slash backslash dot toAsciiLowercase)

set_option autoImplicit false

def foldByte (byte : UInt8) : UInt8 := if 0x41 ≤ byte ∧ byte ≤ 0x5a then byte + 0x20 else byte

theorem toAsciiLowercase_eq_map (path : Text) : toAsciiLowercase path = path.map foldByte := rfl

structure KeepsByte (byte : UInt8) : Prop where
  again : foldByte (foldByte byte) = foldByte byte
  separator : PayloadPath.isSeparator (foldByte byte) = PayloadPath.isSeparator byte
  dot : foldByte byte = dot ↔ byte = dot
  space : foldByte byte = 0x20 ↔ byte = 0x20
  invalid : (¬(0x20 ≤ foldByte byte ∧ foldByte byte ≤ 0x7e) ∨ foldByte byte ∈ forbiddenBytes) ↔
    ¬(0x20 ≤ byte ∧ byte ≤ 0x7e) ∨ byte ∈ forbiddenBytes
  digit : (0x30 ≤ foldByte byte ∧ foldByte byte ≤ 0x39) ↔ 0x30 ≤ byte ∧ byte ≤ 0x39

instance (byte : UInt8) : Decidable (KeepsByte byte) :=
  decidable_of_iff (foldByte (foldByte byte) = foldByte byte ∧ PayloadPath.isSeparator (foldByte byte) = PayloadPath.isSeparator byte ∧
    (foldByte byte = dot ↔ byte = dot) ∧ (foldByte byte = 0x20 ↔ byte = 0x20) ∧
    ((¬(0x20 ≤ foldByte byte ∧ foldByte byte ≤ 0x7e) ∨ foldByte byte ∈ forbiddenBytes) ↔
      ¬(0x20 ≤ byte ∧ byte ≤ 0x7e) ∨ byte ∈ forbiddenBytes) ∧
    ((0x30 ≤ foldByte byte ∧ foldByte byte ≤ 0x39) ↔ 0x30 ≤ byte ∧ byte ≤ 0x39))
    ⟨fun ⟨h₁, h₂, h₃, h₄, h₅, h₆⟩ => ⟨h₁, h₂, h₃, h₄, h₅, h₆⟩, fun ⟨h₁, h₂, h₃, h₄, h₅, h₆⟩ => ⟨h₁, h₂, h₃, h₄, h₅, h₆⟩⟩

theorem keepsByte (byte : UInt8) : KeepsByte byte := by
  have hEach : ∀ value : Fin 256, KeepsByte (UInt8.ofNat value) := by decide +kernel
  have hByte := hEach ⟨byte.toNat, byte.toNat_lt⟩
  rwa [UInt8.ofNat_toNat] at hByte

section Folds

variable {component : Text}

theorem fold_fold (path : Text) : toAsciiLowercase (toAsciiLowercase path) = toAsciiLowercase path := by
  rw [toAsciiLowercase_eq_map, toAsciiLowercase_eq_map, List.map_map]
  exact List.map_congr_left fun byte _ => (keepsByte byte).again

theorem equalIgnoreCase_fold (path other : Text) :
    equalIgnoreCase (toAsciiLowercase path) other = equalIgnoreCase path other := by
  rw [equalIgnoreCase, equalIgnoreCase, fold_fold]

theorem takeWhile_fold (path : Text) :
    (toAsciiLowercase path).takeWhile (· ≠ dot) = toAsciiLowercase (path.takeWhile (· ≠ dot)) := by
  rw [toAsciiLowercase_eq_map, toAsciiLowercase_eq_map, List.takeWhile_map]
  congr 2
  funext byte
  simp [(keepsByte byte).dot]

theorem isReservedWindowsName_fold (component : Text) :
    isReservedWindowsName (toAsciiLowercase component) = isReservedWindowsName component := by
  have hTake (path : Text) (n : Nat) : (toAsciiLowercase path).take n = toAsciiLowercase (path.take n) :=
    List.map_take.symm
  have hDigits (path : Text) : ((toAsciiLowercase path).drop 3).all (fun byte => 0x30 ≤ byte && byte ≤ 0x39) =
      (path.drop 3).all fun byte => 0x30 ≤ byte && byte ≤ 0x39 := by
    rw [toAsciiLowercase_eq_map, ← List.map_drop, List.all_map]
    congr 1
    funext byte
    rw [Function.comp_apply, ← Bool.decide_and, ← Bool.decide_and]
    exact decide_eq_decide.mpr (keepsByte byte).digit
  have hNames (path : Text) : reservedNames.any (equalIgnoreCase (toAsciiLowercase path)) =
      reservedNames.any (equalIgnoreCase path) := by
    congr 1
    funext other
    exact equalIgnoreCase_fold path other
  have hLength (path : Text) : (toAsciiLowercase path).length = path.length := List.length_map _
  simp only [isReservedWindowsName, takeWhile_fold, hNames, hTake, equalIgnoreCase_fold, hDigits, hLength]

theorem validateComponent_fold (component : Text) :
    validateComponent (toAsciiLowercase component) = validateComponent component := by
  have hEmpty : toAsciiLowercase component = [] ↔ component = [] := List.map_eq_nil_iff
  have hDots : toAsciiLowercase component = [dot] ∨ toAsciiLowercase component = [dot, dot] ↔
      component = [dot] ∨ component = [dot, dot] := by
    rcases component with _ | ⟨a, _ | ⟨b, _ | ⟨c, rest⟩⟩⟩ <;>
      simp [toAsciiLowercase_eq_map, (keepsByte _).dot]
  have hLast : (toAsciiLowercase component).getLast? = some dot ∨ (toAsciiLowercase component).getLast? = some 0x20 ↔
      component.getLast? = some dot ∨ component.getLast? = some 0x20 := by
    rw [toAsciiLowercase_eq_map, List.getLast?_map]
    cases component.getLast? with
    | none => simp
    | some byte => simp [(keepsByte byte).dot, (keepsByte byte).space]
  have hBytes : ((toAsciiLowercase component).any fun byte =>
      decide (¬(0x20 ≤ byte ∧ byte ≤ 0x7e) ∨ byte ∈ forbiddenBytes)) =
        component.any fun byte => decide (¬(0x20 ≤ byte ∧ byte ≤ 0x7e) ∨ byte ∈ forbiddenBytes) := by
    rw [toAsciiLowercase_eq_map, List.any_map]
    congr 1
    funext byte
    exact decide_eq_decide.mpr (keepsByte byte).invalid
  have hLength : (toAsciiLowercase component).length = component.length := List.length_map _
  rw [validateComponent, validateComponent, hBytes, isReservedWindowsName_fold, hLength]
  simp only [hEmpty, hDots, hLast]

end Folds

namespace PayloadPath

def fold (path : PayloadPath) : PayloadPath := ⟨path.portabilityKey, path.portabilityKey, by rw [path.folded, fold_fold]⟩

@[simp] theorem portabilityKey_fold (path : PayloadPath) : path.fold.portabilityKey = path.portabilityKey := rfl

variable {path path' : PayloadPath} {text other : Text}

theorem ext_relativePath (h : path.relativePath = path'.relativePath) : path = path' := by
  obtain ⟨relativePath, key, hKey⟩ := path
  obtain ⟨relativePath', key', hKey'⟩ := path'
  cases h
  cases hKey.trans hKey'.symm
  rfl

theorem fold_push (path : PayloadPath) (component : Text) :
    (path.push component).fold = path.fold.push (toAsciiLowercase component) := by
  have hEmpty : path.portabilityKey = [] ↔ path.relativePath = [] := by
    rw [path.folded]
    exact List.map_eq_nil_iff
  apply ext_relativePath
  simp only [fold, push, hEmpty]

theorem parseComponent_fold {parsed parsed' : Nat × PayloadPath} {component : Text}
    (h : parseComponent parsed component = .ok parsed') :
    parseComponent (parsed.1, parsed.2.fold) (toAsciiLowercase component) = .ok (parsed'.1, parsed'.2.fold) := by
  obtain ⟨hCount, hValid, rfl⟩ := parseComponent_eq_ok.mp h
  exact parseComponent_eq_ok.mpr ⟨hCount, (validateComponent_fold component).trans hValid, by rw [fold_push]⟩

theorem foldlM_fold {components : List Text} {parsed parsed' : Nat × PayloadPath}
    (h : components.foldlM parseComponent parsed = .ok parsed') :
    (components.map toAsciiLowercase).foldlM parseComponent (parsed.1, parsed.2.fold) =
      .ok (parsed'.1, parsed'.2.fold) := by
  induction components generalizing parsed with
  | nil =>
    cases h
    rfl
  | cons component components ih =>
    rw [List.foldlM_cons, Result.bind_eq_ok] at h
    obtain ⟨next, hNext, h⟩ := h
    rw [List.map_cons, List.foldlM_cons, Result.bind_eq_ok]
    exact ⟨_, parseComponent_fold hNext, ih h⟩

theorem splitOnP_fold (path : Text) :
    (toAsciiLowercase path).splitOnP isSeparator = (path.splitOnP isSeparator).map toAsciiLowercase := by
  induction path with
  | nil => rfl
  | cons byte path ih =>
    rw [toAsciiLowercase_eq_map, List.map_cons, ← toAsciiLowercase_eq_map, List.splitOnP_cons_eq_if_modifyHead,
      List.splitOnP_cons_eq_if_modifyHead, ih, (keepsByte byte).separator]
    split
    · rfl
    · cases path.splitOnP isSeparator <;> rfl

theorem mem_piece {byte : UInt8} (h : byte ∈ text) (hByte : isSeparator byte = false) :
    ∃ piece ∈ text.splitOnP isSeparator, byte ∈ piece := by
  induction text with
  | nil => cases h
  | cons first text ih =>
    rw [List.splitOnP_cons_eq_if_modifyHead]
    rcases List.mem_cons.mp h with rfl | h
    · rw [if_neg (by simp [hByte])]
      cases hPieces : text.splitOnP isSeparator with
      | nil => exact absurd hPieces (List.splitOnP_ne_nil _ _)
      | cons piece pieces => exact ⟨byte :: piece, List.mem_cons_self, List.mem_cons_self⟩
    · obtain ⟨piece, hPiece, hMem⟩ := ih h
      split
      · exact ⟨piece, List.mem_cons_of_mem _ hPiece, hMem⟩
      · cases hPieces : text.splitOnP isSeparator with
        | nil => exact absurd hPieces (List.splitOnP_ne_nil _ _)
        | cons head pieces =>
          rw [hPieces] at hPiece
          rcases List.mem_cons.mp hPiece with rfl | hPiece
          · exact ⟨first :: piece, List.mem_cons_self, List.mem_cons_of_mem _ hMem⟩
          · exact ⟨piece, List.mem_cons_of_mem _ hPiece, hMem⟩

theorem parse_eq_ok : parse text = .ok path ↔ text.length ≤ maximumPathBytes ∧
    ∃ count, (text.splitOnP isSeparator).foldlM parseComponent (0, empty) = .ok (count, path) := by
  constructor
  · intro h
    have hLength := length_le_of_parse h
    simp only [parse, Result.ite_error_eq_ok, Result.bind_eq_ok] at h
    obtain ⟨-, -, -, ⟨count, parsed⟩, hLoop, h⟩ := h
    cases h
    exact ⟨hLength, count, hLoop⟩
  · rintro ⟨hLength, count, hLoop⟩
    obtain ⟨first, rest, hPieces⟩ := List.exists_cons_of_ne_nil (List.splitOnP_ne_nil isSeparator text)
    have hValid : ∀ piece ∈ text.splitOnP isSeparator, validateComponent piece = .ok () := by
      have hRun := hLoop
      rw [hPieces, List.foldlM_cons, Result.bind_eq_ok] at hRun
      obtain ⟨next, hNext, hRun⟩ := hRun
      obtain ⟨-, hFirst, rfl⟩ := parseComponent_eq_ok.mp hNext
      have hSpelled : (empty.push first).relativePath = first := by simp [push, empty]
      obtain ⟨-, -, hRest, -⟩ := foldlM_parseComponent (by rw [hSpelled]; exact (valid_spec hFirst).1) hRun
      rw [hPieces]
      exact List.forall_mem_cons.mpr ⟨hFirst, hRest⟩
    have hNotEmpty : first ≠ [] := (valid_spec (hValid first (by rw [hPieces]; exact List.mem_cons_self))).1
    have hHead {byte : UInt8} (hByte : isSeparator byte = true) : text.head? ≠ some byte := by
      intro hFirst
      obtain ⟨rest, rfl⟩ := List.head?_eq_some_iff.mp hFirst
      rw [splitOnP_separator hByte] at hPieces
      exact hNotEmpty (List.cons.inj hPieces).1.symm
    have hDrive : text[1]? ≠ some 0x3a := by
      intro hColon
      obtain ⟨piece, hPiece, hMem⟩ := mem_piece (List.mem_of_getElem? hColon) (by decide)
      have hBytes := hValid piece hPiece
      simp only [validateComponent, Result.ite_error_eq_ok] at hBytes
      exact hBytes.2.2.2.2.1 (List.any_eq_true.mpr ⟨_, hMem, by decide⟩)
    simp only [parse, Result.ite_error_eq_ok, Result.bind_eq_ok]
    refine ⟨?_, Nat.not_lt.mpr hLength, ?_, (count, path), hLoop, rfl⟩
    · rintro rfl
      rw [List.splitOnP_nil] at hPieces
      exact hNotEmpty (List.cons.inj hPieces).1.symm
    · rintro (hSlash | hBackslash | hColon)
      · exact hHead rfl hSlash
      · exact hHead rfl hBackslash
      · exact hDrive hColon

theorem parse_portabilityKey (h : parse text = .ok path) : parse path.portabilityKey = .ok path.fold := by
  have hParsed := parsed_of_parse h
  obtain ⟨hLength, count, hLoop⟩ := parse_eq_ok.mp h
  refine parse_eq_ok.mpr ⟨?_, count, ?_⟩
  · rw [length_portabilityKey, hParsed.length_relativePath]
    exact hLength
  · rw [path.folded, splitOnP_fold, hParsed.pieces]
    exact foldlM_fold hLoop

end PayloadPath

end OpenHalfLife.Payload
