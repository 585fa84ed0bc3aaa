import Mathlib.Data.List.Basic
import Mathlib.Algebra.Ring.Nat
import Mathlib.Data.Nat.Bitwise
import Mathlib.Data.List.Forall2

/-! # Potentially visible sets

Every leaf's compressed row is written out once, when the map is loaded.
-/

namespace OpenHalfLife.World

set_option autoImplicit false

def maxVisBytes : Nat := 16 * 1024 * 1024

inductive WorldError
  | limitExceeded
  | indexOutOfRange
  deriving DecidableEq, Repr

structure VisibilitySet where
  leafCount : Nat
  rowBytes : Nat
  rows : List (List UInt8)
  decoded : Bool
  deriving DecidableEq, Repr

namespace VisibilitySet

def allVisible (leafCount : Nat) : VisibilitySet := ⟨leafCount, 0, [], false⟩

/-- Writes `left` more bytes; of the run under way so many zeros are to come. -/
def decompressFrom (vis : List UInt8) (left zeros pos : Nat) : Except WorldError (List UInt8) :=
  match left, zeros with
  | 0, _ => .ok []
  | left + 1, zeros + 1 => (0 :: ·) <$> decompressFrom vis left zeros pos
  | left + 1, 0 =>
    match vis[pos]? with
    | none => .error .indexOutOfRange
    | some marker =>
      if marker = 0 then
        match vis[pos + 1]? with
        | none => .error .indexOutOfRange
        | some run =>
          -- a run of no zeros would never advance
          if run = 0 then .error .indexOutOfRange
          else (0 :: ·) <$> decompressFrom vis left (run.toNat - 1) (pos + 2)
      else (marker :: ·) <$> decompressFrom vis left 0 (pos + 1)

def decompressRow (vis : List UInt8) (start length : Nat) : Except WorldError (List UInt8) :=
  decompressFrom vis length 0 start

def rowOf (visLump : List UInt8) (rowBytes : Nat) (offset : Int) : List UInt8 :=
  match if 0 ≤ offset then decompressRow visLump offset.toNat rowBytes else .error .indexOutOfRange with
  | .ok row => row
  | .error _ => List.replicate rowBytes 0xFF

def build (visLump : List UInt8) (visOffsets : List Int) : Except WorldError VisibilitySet :=
  let leafCount := visOffsets.length
  let rowBytes := (leafCount + 7) / 8
  let total := rowBytes * leafCount
  if total ≥ 2 ^ 64 then .error .limitExceeded
  else if total > maxVisBytes then .ok (allVisible leafCount)
  else .ok ⟨leafCount, rowBytes, visOffsets.map (rowOf visLump rowBytes), true⟩

def isVisible (set : VisibilitySet) (fromLeaf toLeaf : Nat) : Bool :=
  if ¬ set.decoded ∨ fromLeaf = 0 ∨ fromLeaf ≥ set.leafCount then true
  else if toLeaf = 0 then true
  else
    let bit := toLeaf - 1
    match (set.rows[fromLeaf]?.getD [])[bit / 8]? with
    | some byte => (byte >>> UInt8.ofNat (bit % 8)) &&& 1 != 0
    | none => false

end VisibilitySet

end OpenHalfLife.World

namespace OpenHalfLife.World

set_option autoImplicit false

/-! ## Compressed visibility

What a map compiler writes: a bit for every leaf but the first, rows padded to
whole bytes, runs of zeros by their length, the rows in one lump.
-/

namespace VisibilitySet

/-- Bit `n` of a row is for leaf `n + 1`. -/
def packedRow (leafCount : Nat) (sees : Nat → Bool) : List UInt8 :=
  (List.range ((leafCount - 1 + 7) / 8)).map fun k =>
    UInt8.ofNat (Nat.ofBits fun i : Fin 8 => decide (8 * k + i + 1 < leafCount) && sees (8 * k + i + 1))

inductive RunLength : List UInt8 → List UInt8 → Prop
  | nil : RunLength [] []
  | literal {row code : List UInt8} (byte : UInt8) : byte ≠ 0 → RunLength row code →
    RunLength (byte :: row) (byte :: code)
  | run {row code : List UInt8} (length : UInt8) : length ≠ 0 → RunLength row code →
    RunLength (List.replicate length.toNat 0 ++ row) (0 :: length :: code)

def offsetsOf (codes : List (List UInt8)) : List Int :=
  -1 :: (List.range codes.length).map fun k => ((codes.take k).flatten.length : Int)

def Compresses (leafCount : Nat) (sees : Nat → Nat → Bool) (codes : List (List UInt8)) : Prop :=
  List.Forall₂ RunLength ((List.range (leafCount - 1)).map fun k => packedRow leafCount (sees (k + 1))) codes

theorem length_packedRow (leafCount : Nat) (sees : Nat → Bool) :
    (packedRow leafCount sees).length = (leafCount - 1 + 7) / 8 := by
  rw [packedRow, List.length_map, List.length_range]

theorem bit_ofBits (f : Fin 8 → Bool) (i : Nat) (h : i < 8) :
    ((UInt8.ofNat (Nat.ofBits f) >>> UInt8.ofNat i) &&& 1 != 0) = f ⟨i, h⟩ := by
  have hByte : (UInt8.ofNat (Nat.ofBits f)).toNat = Nat.ofBits f := by
    rw [UInt8.toNat_ofNat']
    exact Nat.mod_eq_of_lt (Nat.ofBits_lt_two_pow f)
  have hShift : (UInt8.ofNat i).toNat % 8 = i := by
    rw [UInt8.toNat_ofNat']
    omega
  have hBit : ((UInt8.ofNat (Nat.ofBits f) >>> UInt8.ofNat i) &&& 1).toNat = 1 &&& Nat.ofBits f >>> i := by
    rw [UInt8.toNat_and, UInt8.toNat_shiftRight, hByte, hShift, Nat.and_comm]
    rfl
  rw [← Nat.testBit_ofBits_lt f i h, Nat.testBit, ← hBit]
  rw [Bool.eq_iff_iff, bne_iff_ne, bne_iff_ne, ne_eq, ne_eq, ← UInt8.toNat_inj]
  rfl

theorem decompressFrom_zeros (vis : List UInt8) (left zeros pos : Nat) :
    decompressFrom vis (zeros + left) zeros pos = (List.replicate zeros 0 ++ ·) <$> decompressFrom vis left 0 pos := by
  induction zeros with
  | zero =>
    rw [Nat.zero_add]
    exact (id_map _).symm
  | succ zeros ih =>
    rw [Nat.add_right_comm, decompressFrom, ih, Functor.map_map]
    rfl

theorem decompressFrom_code {row code : List UInt8} (h : RunLength row code) (front back : List UInt8) (left : Nat) :
    decompressFrom (front ++ (code ++ back)) (row.length + left) 0 front.length =
      (row ++ ·) <$> decompressFrom (front ++ (code ++ back)) left 0 (front.length + code.length) := by
  induction h generalizing front with
  | nil =>
    rw [List.length_nil, Nat.zero_add, Nat.add_zero]
    exact (id_map _).symm
  | @literal row code byte hByte _ ih =>
    have hNext := ih (front ++ [byte])
    rw [List.append_assoc, List.length_append, List.length_singleton, List.singleton_append] at hNext
    have hMarker : (front ++ (byte :: code ++ back))[front.length]? = some byte := by simp
    rw [List.length_cons, Nat.add_right_comm, decompressFrom, hMarker]
    dsimp only
    rw [if_neg hByte, List.cons_append, hNext, Functor.map_map, List.length_cons, Nat.add_assoc, Nat.add_comm 1]
    rfl
  | @run row code length hLength _ ih =>
    have hNext := ih (front ++ [0, length])
    rw [List.append_assoc, List.length_append, List.length_cons, List.length_singleton] at hNext
    have hMarker : (front ++ (0 :: length :: code ++ back))[front.length]? = some 0 := by simp
    have hRun : (front ++ (0 :: length :: code ++ back))[front.length + 1]? = some length := by simp
    have hPositive : 0 < length.toNat := by
      rw [Nat.pos_iff_ne_zero, ne_eq, ← UInt8.toNat_zero, UInt8.toNat_inj]
      exact hLength
    obtain ⟨zeros, hZeros⟩ := Nat.exists_eq_succ_of_ne_zero hPositive.ne'
    have hTotal : (List.replicate length.toNat (0 : UInt8) ++ row).length + left = zeros + (row.length + left) + 1 := by
      rw [List.length_append, List.length_replicate, hZeros]
      omega
    rw [hTotal, decompressFrom, hMarker]
    dsimp only
    rw [if_pos rfl, hRun]
    dsimp only
    rw [if_neg hLength, hZeros, Nat.succ_sub_one, decompressFrom_zeros]
    change (fun x => 0 :: x) <$> (fun x => List.replicate zeros 0 ++ x) <$>
      decompressFrom (front ++ ([0, length] ++ (code ++ back))) (row.length + left) 0 (front.length + (1 + 1)) = _
    rw [hNext, Functor.map_map, Functor.map_map, List.length_cons, List.length_cons]
    have hPlace : front.length + (code.length + 1 + 1) = front.length + (1 + 1) + code.length := by omega
    rw [hPlace]
    congr 1
    funext rest
    rw [List.replicate_succ, List.cons_append, List.cons_append, List.append_assoc]

theorem decompressRow_exact {row code : List UInt8} (h : RunLength row code) (front back : List UInt8) :
    decompressRow (front ++ (code ++ back)) front.length row.length = .ok row := by
  have hCode := decompressFrom_code h front back 0
  rw [Nat.add_zero, decompressFrom] at hCode
  rw [decompressRow, hCode]
  exact congrArg Except.ok (List.append_nil row)

theorem decompressRow_next {row code row' code' : List UInt8} (h : RunLength row code) (h' : RunLength row' code')
    (hSome : row' ≠ []) (front back : List UInt8) :
    ∃ byte, decompressRow (front ++ (code ++ (code' ++ back))) front.length (row.length + 1) = .ok (row ++ [byte]) := by
  have hCode := decompressFrom_code h front (code' ++ back) 1
  have hPlace : front.length + code.length = (front ++ code).length := (List.length_append).symm
  rw [decompressRow, hCode, hPlace, ← List.append_assoc]
  cases h' with
  | nil => exact absurd rfl hSome
  | literal byte hByte _ =>
    refine ⟨byte, ?_⟩
    have hMarker (rest : List UInt8) : (front ++ code ++ (byte :: rest))[(front ++ code).length]? = some byte := by simp
    rw [List.cons_append, decompressFrom, hMarker]
    dsimp only
    rw [if_neg hByte, decompressFrom]
    rfl
  | run length hLength _ =>
    refine ⟨0, ?_⟩
    have hMarker (rest : List UInt8) : (front ++ code ++ (0 :: length :: rest))[(front ++ code).length]? = some 0 := by simp
    have hRun (rest : List UInt8) : (front ++ code ++ (0 :: length :: rest))[(front ++ code).length + 1]? = some length := by
      rw [List.getElem?_append_right (Nat.le_add_right _ 1), Nat.add_sub_cancel_left]
      rfl
    rw [List.cons_append, List.cons_append, decompressFrom, hMarker]
    dsimp only
    rw [if_pos rfl, hRun]
    dsimp only
    rw [if_neg hLength, decompressFrom]
    rfl

theorem decompressRow_end {row code : List UInt8} (h : RunLength row code) (front : List UInt8) :
    decompressRow (front ++ code) front.length (row.length + 1) = .error .indexOutOfRange := by
  have hCode := decompressFrom_code h front [] 1
  rw [List.append_nil] at hCode
  have hPlace : front.length + code.length = (front ++ code).length := (List.length_append).symm
  rw [decompressRow, hCode, hPlace, decompressFrom, List.getElem?_eq_none le_rfl]
  rfl

variable {leafCount : Nat} {sees : Nat → Nat → Bool} {codes : List (List UInt8)}

theorem Compresses.length (h : Compresses leafCount sees codes) : codes.length = leafCount - 1 := by
  have hLength := List.Forall₂.length_eq h
  rw [List.length_map, List.length_range] at hLength
  exact hLength.symm

theorem Compresses.place (h : Compresses leafCount sees codes) {leaf : Nat} (hLeaf : leaf + 1 < leafCount) :
    ∃ code, RunLength (packedRow leafCount (sees (leaf + 1))) code ∧ codes[leaf]? = some code ∧
      codes.flatten = (codes.take leaf).flatten ++ (code ++ (codes.drop (leaf + 1)).flatten) := by
  have hInside : leaf < codes.length := by
    rw [h.length]
    omega
  refine ⟨codes[leaf], ?_, List.getElem?_eq_getElem hInside, ?_⟩
  · have hRow := (List.forall₂_iff_get.mp h).2 leaf (by rw [List.length_map, List.length_range]; omega) hInside
    simpa using hRow
  · rw [← List.flatten_cons, List.getElem_cons_drop, ← List.flatten_append, List.take_append_drop]

theorem getElem_offsetsOf {leaf : Nat} (h : leaf < codes.length) :
    (offsetsOf codes)[leaf + 1]? = some ((codes.take leaf).flatten.length : Int) := by
  rw [offsetsOf, List.getElem?_cons_succ, List.getElem?_map, List.getElem?_range h]
  rfl

theorem length_offsetsOf (hCodes : Compresses leafCount sees codes) (h : 2 ≤ leafCount) :
    (offsetsOf codes).length = leafCount := by
  rw [offsetsOf, List.length_cons, List.length_map, List.length_range, hCodes.length]
  omega

theorem rowOf_exact (h : Compresses leafCount sees codes) {leaf : Nat} (hLeaf : leaf + 1 < leafCount)
    (hWhole : leafCount % 8 ≠ 1 ∨ leaf + 2 ≠ leafCount) :
    ∃ extra, rowOf codes.flatten ((leafCount + 7) / 8) ((codes.take leaf).flatten.length : Int) =
      packedRow leafCount (sees (leaf + 1)) ++ extra := by
  obtain ⟨code, hCode, -, hLump⟩ := h.place hLeaf
  have hLength := length_packedRow leafCount (sees (leaf + 1))
  rw [rowOf, if_pos (Int.natCast_nonneg _), Int.toNat_natCast]
  by_cases hSame : leafCount % 8 = 1
  · have hNext : leaf + 1 + 1 < leafCount := by omega
    obtain ⟨code', hCode', hPlace, -⟩ := h.place hNext
    have hSome : packedRow leafCount (sees (leaf + 1 + 1)) ≠ [] := by
      rw [← List.length_pos_iff, length_packedRow]
      omega
    have hDrop : (codes.drop (leaf + 1)).flatten = code' ++ (codes.drop (leaf + 1 + 1)).flatten := by
      obtain ⟨hInside, hGet⟩ := List.getElem?_eq_some_iff.mp hPlace
      rw [← List.flatten_cons, ← hGet, List.getElem_cons_drop]
    obtain ⟨byte, hByte⟩ := decompressRow_next hCode hCode' hSome (codes.take leaf).flatten
      (codes.drop (leaf + 1 + 1)).flatten
    have hBytes : (leafCount + 7) / 8 = (packedRow leafCount (sees (leaf + 1))).length + 1 := by omega
    rw [hLump, hDrop, hBytes, hByte]
    exact ⟨[byte], rfl⟩
  · have hBytes : (leafCount + 7) / 8 = (packedRow leafCount (sees (leaf + 1))).length := by omega
    rw [hLump, hBytes, decompressRow_exact hCode]
    exact ⟨[], (List.append_nil _).symm⟩

theorem rowOf_last (h : Compresses leafCount sees codes) {leaf : Nat} (hLeaf : leaf + 2 = leafCount)
    (hOver : leafCount % 8 = 1) :
    rowOf codes.flatten ((leafCount + 7) / 8) ((codes.take leaf).flatten.length : Int) =
      List.replicate ((leafCount + 7) / 8) 0xFF := by
  obtain ⟨code, hCode, -, hLump⟩ := h.place (show leaf + 1 < leafCount by omega)
  have hLength := length_packedRow leafCount (sees (leaf + 1))
  have hBytes : (leafCount + 7) / 8 = (packedRow leafCount (sees (leaf + 1))).length + 1 := by omega
  have hNothing : codes.drop (leaf + 1) = [] := by
    rw [List.drop_eq_nil_iff, h.length]
    omega
  rw [rowOf, if_pos (Int.natCast_nonneg _), Int.toNat_natCast, hLump, hNothing, List.flatten_nil, List.append_nil,
    hBytes, decompressRow_end hCode]

/-- The set that `build` returns. -/
def built (codes : List (List UInt8)) (leafCount : Nat) : VisibilitySet :=
  ⟨leafCount, (leafCount + 7) / 8, (offsetsOf codes).map (rowOf codes.flatten ((leafCount + 7) / 8)), true⟩

theorem build_eq (hCodes : Compresses leafCount sees codes) (h : 2 ≤ leafCount)
    (hTable : (leafCount + 7) / 8 * leafCount ≤ maxVisBytes) :
    build codes.flatten (offsetsOf codes) = .ok (built codes leafCount) := by
  rw [build, length_offsetsOf hCodes h, if_neg, if_neg (Nat.not_lt.mpr hTable)]
  · rfl
  · rw [maxVisBytes] at hTable
    omega

theorem isVisible_built (hCodes : Compresses leafCount sees codes) {a b : Nat} (hA : a + 1 < leafCount) {row : List UInt8}
    (hRow : rowOf codes.flatten ((leafCount + 7) / 8) ((codes.take a).flatten.length : Int) = row)
    {byte : UInt8} (hByte : row[b / 8]? = some byte) :
    (built codes leafCount).isVisible (a + 1) (b + 1) = ((byte >>> UInt8.ofNat (b % 8)) &&& 1 != 0) := by
  have hInside : a < codes.length := by
    rw [hCodes.length]
    omega
  have hPlace : (built codes leafCount).rows[a + 1]? = some row := by
    rw [built, List.getElem?_map, getElem_offsetsOf hInside, ← hRow]
    rfl
  have hKnown : ¬ (¬ (built codes leafCount).decoded = true ∨ a + 1 = 0 ∨ a + 1 ≥ (built codes leafCount).leafCount) := by
    rw [not_or, not_or, not_not]
    exact ⟨rfl, Nat.succ_ne_zero a, Nat.not_le_of_lt hA⟩
  rw [isVisible, if_neg hKnown, if_neg (Nat.succ_ne_zero b)]
  dsimp only
  rw [hPlace, Option.getD_some, Nat.add_sub_cancel, hByte]

theorem isVisible_packed (hCodes : Compresses leafCount sees codes) {a b : Nat} (hA : a + 1 < leafCount)
    (hB : b + 1 < leafCount) (hWhole : leafCount % 8 ≠ 1 ∨ a + 2 ≠ leafCount) :
    (built codes leafCount).isVisible (a + 1) (b + 1) = sees (a + 1) (b + 1) := by
  obtain ⟨extra, hRow⟩ := rowOf_exact hCodes hA hWhole
  have hInside : b / 8 < (leafCount - 1 + 7) / 8 := by omega
  have hByte : (packedRow leafCount (sees (a + 1)) ++ extra)[b / 8]? = some (UInt8.ofNat (Nat.ofBits fun i : Fin 8 =>
      decide (8 * (b / 8) + i + 1 < leafCount) && sees (a + 1) (8 * (b / 8) + i + 1))) := by
    rw [List.getElem?_append_left (by rw [length_packedRow]; exact hInside), packedRow, List.getElem?_map,
      List.getElem?_range hInside]
    rfl
  have hBit : 8 * (b / 8) + b % 8 = b := Nat.div_add_mod b 8
  rw [isVisible_built hCodes hA hRow hByte, bit_ofBits _ _ (Nat.mod_lt b (by omega))]
  dsimp only
  rw [hBit, decide_eq_true hB, Bool.true_and]

theorem isVisible_last (hCodes : Compresses leafCount sees codes) {a b : Nat} (hA : a + 2 = leafCount)
    (hB : b + 1 < leafCount) (hOver : leafCount % 8 = 1) : (built codes leafCount).isVisible (a + 1) (b + 1) = true := by
  have hByte : (List.replicate ((leafCount + 7) / 8) (0xFF : UInt8))[b / 8]? = some 0xFF := by
    rw [List.getElem?_replicate, if_pos (by omega)]
  rw [isVisible_built hCodes (by omega) (rowOf_last hCodes hA hOver) hByte]
  have hMod := Nat.mod_lt b (show 0 < 8 by omega)
  generalize b % 8 = i at hMod
  revert i
  decide

/-- Visibility survives unless the last row is a byte short and hides something. -/
theorem compressed_visibility_iff (hCodes : Compresses leafCount sees codes) (h : 2 ≤ leafCount)
    (hTable : (leafCount + 7) / 8 * leafCount ≤ maxVisBytes) :
    (∃ set, build codes.flatten (offsetsOf codes) = .ok set ∧
      ∀ a b, 1 ≤ a → a < leafCount → 1 ≤ b → b < leafCount → set.isVisible a b = sees a b) ↔
    (leafCount % 8 ≠ 1 ∨ ∀ b, 1 ≤ b → b < leafCount → sees (leafCount - 1) b = true) := by
  rw [build_eq hCodes h hTable]
  constructor
  · rintro ⟨set, hSet, hVisible⟩
    cases hSet
    by_cases hOver : leafCount % 8 = 1
    · right
      intro b hB hBound
      obtain ⟨b, rfl⟩ := Nat.exists_eq_add_of_le' hB
      obtain ⟨a, rfl⟩ := Nat.exists_eq_add_of_le' h
      rw [show a + 2 - 1 = a + 1 from rfl, ← hVisible (a + 1) (b + 1) (by omega) (by omega) hB hBound]
      exact isVisible_last hCodes rfl hBound hOver
    · exact .inl hOver
  · intro hCondition
    refine ⟨_, rfl, fun a b hA hBoundA hB hBoundB => ?_⟩
    obtain ⟨a, rfl⟩ := Nat.exists_eq_add_of_le' hA
    obtain ⟨b, rfl⟩ := Nat.exists_eq_add_of_le' hB
    by_cases hWhole : leafCount % 8 ≠ 1 ∨ a + 2 ≠ leafCount
    · exact isVisible_packed hCodes hBoundA hBoundB hWhole
    · rw [not_or, not_not, not_not] at hWhole
      have hSees := hCondition.resolve_left (fun hOther => hOther hWhole.1) (b + 1) hB hBoundB
      have hLast : leafCount - 1 = a + 1 := by omega
      rw [isVisible_last hCodes hWhole.2 hBoundB hWhole.1, ← hSees, hLast]

/-- Two leaves, the second of which sees the first. -/
theorem compressed_visibility_two :
    ∃ set, build [1, 3] [-1, 0, 1] = .ok set ∧
      ∀ a b, 1 ≤ a → a < 3 → 1 ≤ b → b < 3 → set.isVisible a b = decide (b ≤ a) := by
  have hCodes : Compresses 3 (fun a b => decide (b ≤ a)) [[1], [3]] :=
    .cons (.literal 1 (by decide) .nil) (.cons (.literal 3 (by decide) .nil) .nil)
  exact (compressed_visibility_iff hCodes (by decide) (by decide)).mpr (.inl (by decide))

/-- Eight leaves that see only themselves: the last row is read past its end. -/
theorem last_of_eight_leaves_sees_everything :
    Compresses 9 (fun a b => decide (a = b)) [[1], [2], [4], [8], [16], [32], [64], [128]] ∧
      ¬ ∃ set, build [1, 2, 4, 8, 16, 32, 64, 128] [-1, 0, 1, 2, 3, 4, 5, 6, 7] = .ok set ∧
        ∀ a b, 1 ≤ a → a < 9 → 1 ≤ b → b < 9 → set.isVisible a b = decide (a = b) := by
  constructor
  · have hOne (byte : UInt8) (hByte : byte ≠ 0) : RunLength [byte] [byte] := .literal byte hByte .nil
    exact .cons (hOne 1 (by decide)) (.cons (hOne 2 (by decide)) (.cons (hOne 4 (by decide)) (.cons (hOne 8 (by decide))
      (.cons (hOne 16 (by decide)) (.cons (hOne 32 (by decide)) (.cons (hOne 64 (by decide))
        (.cons (hOne 128 (by decide)) .nil)))))))
  · rintro ⟨set, hSet, hVisible⟩
    have hBuilt : build [1, 2, 4, 8, 16, 32, 64, 128] [-1, 0, 1, 2, 3, 4, 5, 6, 7] = .ok ⟨9, 2,
        [[255, 255], [1, 2], [2, 4], [4, 8], [8, 16], [16, 32], [32, 64], [64, 128], [255, 255]], true⟩ := by
      decide +kernel
    cases hBuilt.symm.trans hSet
    exact absurd (hVisible 8 1 (by decide) (by decide) (by decide) (by decide)) (by decide +kernel)

end VisibilitySet

end OpenHalfLife.World
