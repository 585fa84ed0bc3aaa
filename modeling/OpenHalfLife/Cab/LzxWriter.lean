import OpenHalfLife.Cab.Lzx
import OpenHalfLife.Lib.Bytes

/-! # The call translation of the encoder

The encoder makes the displacement after a call marker absolute where the
decoder makes it relative again. Both scan a frame in the same way and leave
the markers where they are, so that one undoes the other operand by operand, as
long as the position of every marker fits a signed word.
-/

namespace OpenHalfLife.Cab

open Machine

set_option autoImplicit false

def signed (bytes : List UInt8) : Int := Int.bmod (fromLe bytes) (2 ^ 32)

def word (value : Int) : List UInt8 := toLe 4 (value % 2 ^ 32).toNat

def e8ForwardTarget (displacement target fileSize : Int) : Machine (Stop CabError) (List UInt8) Int :=
  if target ≥ fileSize then signedOrPanic 64 (displacement - fileSize) else pure target

/-- The displacement at `index`, made absolute; its low word is written. -/
def e8ForwardDisplacement (chunkOffset fileSize : Int) (index : Nat) :
    Machine (Stop CabError) (List UInt8) Unit := do
  let current ← signedOrPanic 64 (chunkOffset + Int.bmod index (2 ^ 64))
  let bytes ← sliceOrPanic (← get) (index + 1) (index + 5)
  let target ← signedOrPanic 64 (current + signed bytes)
  let highest ← signedOrPanic 64 (fileSize + current)
  if target ≥ 0 ∧ target < highest then
    let target ← e8ForwardTarget (signed bytes) target fileSize
    modify fun frame => frame.take (index + 1) ++ word target ++ frame.drop (index + 5)
  else return ()

def e8ForwardTurn (chunkOffset fileSize : Int) (limit index : Nat) :
    Machine (Stop CabError) (List UInt8) (Option Nat) := do
  if index < limit then
    let byte ← getOrPanic (← get) index
    if byte ≠ 0xE8 then
      let next ← addOrPanic 64 index 1
      return some next
    else
      e8ForwardDisplacement chunkOffset fileSize index
      let next ← addOrPanic 64 index 5
      return some next
  else return none

def e8Forward {σ : Type} (frame : List UInt8) (chunkOffset fileSize : Nat) :
    Machine (Stop CabError) σ (List UInt8) := do
  if frame.length ≤ 10 then return frame
  else
    let limit ← subOrPanic frame.length 10
    onLocal (iterate (e8ForwardTurn chunkOffset fileSize limit) (frame.length + 1) 0) frame

/-! ## The scan -/

/-- A scan for markers that rewrites the four bytes after each; the last ten bytes are not searched. -/
def relocate (operand : Nat → List UInt8 → List UInt8) (index : Nat) : List UInt8 → List UInt8
  | [] => []
  | byte :: rest =>
    if rest.length < 10 then byte :: rest
    else if byte ≠ 0xE8 then byte :: relocate operand (index + 1) rest
    else byte :: (operand index (rest.take 4) ++ relocate operand (index + 5) (rest.drop 4))
termination_by frame => frame.length
decreasing_by
  · exact Nat.lt_succ_self _
  · exact Nat.lt_succ_of_le (List.length_drop ▸ Nat.sub_le _ _)

def markersFrom (index : Nat) : List UInt8 → List Nat
  | [] => []
  | byte :: rest =>
    if rest.length < 10 then []
    else if byte ≠ 0xE8 then markersFrom (index + 1) rest
    else index :: markersFrom (index + 5) (rest.drop 4)
termination_by frame => frame.length
decreasing_by
  · exact Nat.lt_succ_self _
  · exact Nat.lt_succ_of_le (List.length_drop ▸ Nat.sub_le _ _)

def markers (frame : List UInt8) : List Nat := markersFrom 0 frame

section Scan

variable {operand operand' : Nat → List UInt8 → List UInt8} {index : Nat} {byte : UInt8} {rest : List UInt8}

theorem relocate_tail (h : rest.length ≤ 10) : relocate operand index rest = rest := by
  cases rest with
  | nil => rw [relocate]
  | cons byte rest =>
    rw [List.length_cons] at h
    rw [relocate, if_pos (by omega)]

theorem relocate_other (hLong : 10 ≤ rest.length) (hByte : byte ≠ 0xE8) :
    relocate operand index (byte :: rest) = byte :: relocate operand (index + 1) rest := by
  rw [relocate, if_neg (by omega), if_pos hByte]

theorem relocate_marker (hLong : 10 ≤ rest.length) :
    relocate operand index (0xE8 :: rest) =
      0xE8 :: (operand index (rest.take 4) ++ relocate operand (index + 5) (rest.drop 4)) := by
  rw [relocate, if_neg (by omega), if_neg (by simp)]

def FourBytes (operand : Nat → List UInt8 → List UInt8) : Prop :=
  ∀ index bytes, bytes.length = 4 → (operand index bytes).length = 4

theorem length_take_four (h : 10 ≤ rest.length) : (rest.take 4).length = 4 := by
  rw [List.length_take]
  omega

theorem length_relocate (hFour : FourBytes operand) (index : Nat) (frame : List UInt8) :
    (relocate operand index frame).length = frame.length := by
  fun_induction relocate operand index frame with
  | case1 => rfl
  | case2 => rfl
  | case3 index byte rest _ _ ih => rw [List.length_cons, List.length_cons, ih]
  | case4 index byte rest hLong _ ih =>
    have hOperand := hFour index (rest.take 4) (length_take_four (by omega))
    rw [List.length_cons, List.length_cons, List.length_append, hOperand, ih, List.length_drop]
    omega

theorem markersFrom_relocate (hFour : FourBytes operand) (index : Nat) (frame : List UInt8) :
    markersFrom index (relocate operand index frame) = markersFrom index frame := by
  fun_induction relocate operand index frame with
  | case1 => rfl
  | case2 => rfl
  | case3 index byte rest hLong hByte ih =>
    rw [markersFrom, markersFrom, length_relocate hFour, if_neg hLong, if_neg hLong, if_pos hByte, if_pos hByte, ih]
  | case4 index byte rest hLong hByte ih =>
    have hOperand := hFour index (rest.take 4) (length_take_four (by omega))
    have hLength : ¬(operand index (rest.take 4) ++ relocate operand (index + 5) (rest.drop 4)).length < 10 := by
      rw [List.length_append, hOperand, length_relocate hFour, List.length_drop]
      omega
    rw [markersFrom, markersFrom, if_neg hLength, if_neg hLong, if_neg hByte, if_neg hByte, List.drop_left' hOperand, ih]

theorem relocate_relocate (hFour : FourBytes operand) {bound : Nat}
    (hInverse : ∀ index bytes, bytes.length = 4 → index + 11 ≤ bound → operand' index (operand index bytes) = bytes)
    (index : Nat) (frame : List UInt8) (hBound : index + frame.length ≤ bound) :
    relocate operand' index (relocate operand index frame) = frame := by
  fun_induction relocate operand index frame with
  | case1 => rw [relocate]
  | case2 index byte rest hShort => exact relocate_tail (by rw [List.length_cons]; omega)
  | case3 index byte rest hLong hByte ih =>
    rw [List.length_cons] at hBound
    rw [relocate_other (by rw [length_relocate hFour]; omega) hByte, ih (by omega)]
  | case4 index byte rest hLong hByte ih =>
    rw [List.length_cons] at hBound
    have hTake := length_take_four (show 10 ≤ rest.length by omega)
    have hOperand := hFour index (rest.take 4) hTake
    have hLength : 10 ≤ (operand index (rest.take 4) ++ relocate operand (index + 5) (rest.drop 4)).length := by
      rw [List.length_append, hOperand, length_relocate hFour, List.length_drop]
      omega
    rw [not_not.mp hByte, relocate_marker hLength, List.take_left' hOperand, List.drop_left' hOperand,
      hInverse index _ hTake (by omega), ih (by rw [List.length_drop]; omega), List.take_append_drop]

theorem relocate_replicate {count : Nat} (hLong : 10 ≤ rest.length) (hByte : byte ≠ 0xE8) :
    relocate operand index (List.replicate count byte ++ rest) =
      List.replicate count byte ++ relocate operand (index + count) rest := by
  induction count generalizing index with
  | zero => rfl
  | succ count ih =>
    rw [List.replicate_succ, List.cons_append, relocate_other (by simp; omega) hByte, ih, List.cons_append,
      Nat.add_assoc, Nat.add_comm 1]

end Scan

/-! ## The loops follow the scan -/

/-- What one turn does at the end of `done`. -/
def scanTurn (operand : Nat → List UInt8 → List UInt8) (done : List UInt8) :
    List UInt8 → Option Nat × List UInt8
  | [] => (none, done)
  | byte :: rest =>
    if rest.length < 10 then (none, done ++ byte :: rest)
    else if byte ≠ 0xE8 then (some (done.length + 1), done ++ byte :: rest)
    else (some (done.length + 5), done ++ byte :: (operand done.length (rest.take 4) ++ rest.drop 4))

def Follows (operand : Nat → List UInt8 → List UInt8) (length : Nat)
    (turn : Nat → Machine (Stop CabError) (List UInt8) (Option Nat)) : Prop :=
  ∀ done rest, (done ++ rest).length = length →
    Ensures (turn done.length) (done ++ rest) (fun next frame => (next, frame) = scanTurn operand done rest)
      fun _ _ => False

section Loops

variable {operand : Nat → List UInt8 → List UInt8} {length : Nat}
  {turn : Nat → Machine (Stop CabError) (List UInt8) (Option Nat)}

theorem iterate_follows {done rest : List UInt8} (hLength : (done ++ rest).length = length) (hFour : FourBytes operand)
    (h : Follows operand length turn) {fuel : Nat} (hFuel : rest.length < fuel) :
    Ensures (iterate turn fuel done.length) (done ++ rest)
      (fun _ frame => frame = done ++ relocate operand done.length rest) fun _ _ => False := by
  induction fuel generalizing done rest with
  | zero => omega
  | succ fuel ih =>
    rw [iterate, ensures_bind]
    refine (h done rest hLength).mono ?_ fun _ _ h => h
    intro next frame hTurn
    cases rest with
    | nil =>
      obtain ⟨rfl, rfl⟩ := Prod.mk.inj hTurn
      simp [relocate]
    | cons byte rest =>
      rw [List.length_cons] at hFuel
      rw [scanTurn] at hTurn
      by_cases hShort : rest.length < 10
      · rw [if_pos hShort] at hTurn
        obtain ⟨rfl, rfl⟩ := Prod.mk.inj hTurn
        rw [relocate_tail (by rw [List.length_cons]; omega)]
        exact ensures_pure.mpr rfl
      · rw [if_neg hShort] at hTurn
        by_cases hByte : byte ≠ 0xE8
        · rw [if_pos hByte] at hTurn
          obtain ⟨rfl, rfl⟩ := Prod.mk.inj hTurn
          have hNext := @ih (done ++ [byte]) rest (by simpa using hLength) (by omega)
          rw [relocate_other (by omega) hByte]
          simpa using hNext
        · rw [if_neg hByte] at hTurn
          obtain ⟨rfl, rfl⟩ := Prod.mk.inj hTurn
          have hOperand := hFour done.length (rest.take 4) (length_take_four (by omega))
          have hNext := @ih (done ++ byte :: operand done.length (rest.take 4)) (rest.drop 4)
            (by simp [hOperand] at hLength ⊢; omega) (by rw [List.length_drop]; omega)
          rw [not_not.mp hByte] at hNext ⊢
          rw [relocate_marker (by omega)]
          simpa [hOperand] using hNext

end Loops

/-! ## The operands -/

def absolute (fileSize current displacement : Int) : Int :=
  if current + displacement ≥ 0 ∧ current + displacement < fileSize + current then
    if current + displacement ≥ fileSize then displacement - fileSize else current + displacement
  else displacement

def relative (fileSize current value : Int) : Int :=
  if value ≥ -current ∧ value < fileSize then if value ≥ 0 then value - current else value + fileSize
  else value

def forwardOperand (fileSize current : Int) (bytes : List UInt8) : List UInt8 :=
  word (absolute fileSize current (signed bytes))

def reverseOperand (fileSize current : Int) (bytes : List UInt8) : List UInt8 :=
  if -2 ^ 31 ≤ relative fileSize current (signed bytes) ∧ relative fileSize current (signed bytes) < 2 ^ 31 then
    word (relative fileSize current (signed bytes))
  else bytes

section Operands

variable {bytes : List UInt8} {fileSize current : Int}

@[simp] theorem length_word (value : Int) : (word value).length = 4 := length_toLe _ _

theorem signed_range (bytes : List UInt8) : -2 ^ 31 ≤ signed bytes ∧ signed bytes < 2 ^ 31 := by
  unfold signed
  generalize (fromLe bytes : Int) = raw
  have hLow : -(((2 ^ 32 : Nat) : Int) / 2) ≤ Int.bmod raw (2 ^ 32) := Int.le_bmod (by decide)
  have hHigh : Int.bmod raw (2 ^ 32) < (((2 ^ 32 : Nat) : Int) + 1) / 2 := Int.bmod_lt (by decide)
  norm_num at hLow hHigh ⊢
  exact ⟨hLow, hHigh⟩

theorem signed_word {value : Int} (hLow : -2 ^ 31 ≤ value) (hHigh : value < 2 ^ 31) : signed (word value) = value := by
  have hNat : ((value % 2 ^ 32).toNat : Int) = value % 2 ^ 32 := Int.toNat_of_nonneg (by omega)
  have hFit : (value % 2 ^ 32).toNat % 256 ^ 4 = (value % 2 ^ 32).toNat := Nat.mod_eq_of_lt (by omega)
  unfold signed word
  rw [fromLe_toLe, hFit, hNat]
  exact (Int.emod_bmod value (2 ^ 32)).trans (Int.bmod_eq_of_le (by omega) (by omega))

theorem e8Displacement_eq (chunkOffset fileSize : Int) (index : Nat) :
    e8Displacement chunkOffset fileSize index = do
      let current ← signedOrPanic 64 (chunkOffset + index)
      let bytes ← sliceOrPanic (← get) (index + 1) (index + 5)
      let lowest ← signedOrPanic 64 (-current)
      if signed bytes ≥ lowest ∧ signed bytes < fileSize then
        let displacement ← e8Target (signed bytes) current fileSize
        if -2 ^ 31 ≤ displacement ∧ displacement < 2 ^ 31 then
          modify fun frame => frame.take (index + 1) ++ word displacement ++ frame.drop (index + 5)
        else return ()
      else return () := rfl

theorem word_signed (h : bytes.length = 4) : word (signed bytes) = bytes := by
  have hBound := fromLe_lt bytes
  rw [h] at hBound
  have hRaw : (signed bytes % 2 ^ 32).toNat = fromLe bytes := by
    have hMod : signed bytes % 2 ^ 32 = (fromLe bytes : Int) % 2 ^ 32 := Int.bmod_emod
    omega
  unfold word
  rw [hRaw, ← h, toLe_fromLe]

theorem relative_absolute (hCurrent : 0 ≤ current) (hSize : 0 ≤ fileSize) (displacement : Int) :
    relative fileSize current (absolute fileSize current displacement) = displacement := by
  unfold absolute relative
  split_ifs <;> omega

theorem absolute_relative (hCurrent : 0 ≤ current) (hSize : 0 ≤ fileSize) (value : Int) :
    absolute fileSize current (relative fileSize current value) = value := by
  unfold absolute relative
  split_ifs <;> omega

end Operands

section Words

-- Unification must not compute with bytes.
attribute [local irreducible] signed word

section Inverse

variable {bytes : List UInt8} {fileSize current : Int}

theorem absolute_range (hCurrent : current ≤ 2 ^ 31) (hSize : 0 ≤ fileSize ∧ fileSize < 2 ^ 31) {displacement : Int}
    (h : -2 ^ 31 ≤ displacement ∧ displacement < 2 ^ 31) :
    -2 ^ 31 ≤ absolute fileSize current displacement ∧ absolute fileSize current displacement < 2 ^ 31 := by
  unfold absolute
  split_ifs <;> omega

theorem relative_range (hCurrent : 0 ≤ current ∧ current ≤ 2 ^ 31) (hSize : 0 ≤ fileSize ∧ fileSize < 2 ^ 31) {value : Int}
    (h : -2 ^ 31 ≤ value ∧ value < 2 ^ 31) :
    -2 ^ 31 ≤ relative fileSize current value ∧ relative fileSize current value < 2 ^ 31 := by
  unfold relative
  split_ifs <;> omega

theorem reverse_forward (hCurrent : 0 ≤ current ∧ current ≤ 2 ^ 31) (hSize : 0 ≤ fileSize ∧ fileSize < 2 ^ 31)
    (h : bytes.length = 4) : reverseOperand fileSize current (forwardOperand fileSize current bytes) = bytes := by
  have hRange := absolute_range hCurrent.2 hSize (signed_range bytes)
  have hBack := relative_absolute hCurrent.1 hSize.1 (signed bytes)
  rw [reverseOperand, forwardOperand, signed_word hRange.1 hRange.2, hBack, if_pos (signed_range bytes), word_signed h]

theorem forward_reverse (hCurrent : 0 ≤ current ∧ current ≤ 2 ^ 31) (hSize : 0 ≤ fileSize ∧ fileSize < 2 ^ 31)
    (h : bytes.length = 4) : forwardOperand fileSize current (reverseOperand fileSize current bytes) = bytes := by
  have hRange := relative_range hCurrent hSize (signed_range bytes)
  have hBack := absolute_relative hCurrent.1 hSize.1 (signed bytes)
  rw [reverseOperand, if_pos hRange, forwardOperand, signed_word hRange.1 hRange.2, hBack, word_signed h]

end Inverse

/-! ## The translations are scans -/

section Translations

variable {chunkOffset fileSize : Nat} {frame : List UInt8}

def forwardAt (chunkOffset fileSize index : Nat) : List UInt8 → List UInt8 :=
  forwardOperand fileSize (chunkOffset + index : Nat)

def reverseAt (chunkOffset fileSize index : Nat) : List UInt8 → List UInt8 :=
  reverseOperand fileSize (chunkOffset + index : Nat)

theorem fourBytes_forwardAt : FourBytes (forwardAt chunkOffset fileSize) := by
  intro index bytes _
  exact length_word _

theorem fourBytes_reverseAt : FourBytes (reverseAt chunkOffset fileSize) := by
  intro index bytes h
  unfold reverseAt reverseOperand
  split
  · exact length_word _
  · exact h

theorem splice (frame : List UInt8) (index : Nat) :
    frame.take (index + 1) ++ ((frame.drop (index + 1)).take 4) ++ frame.drop (index + 5) = frame := by
  rw [List.append_assoc, ← List.drop_drop (i := 4) (j := index + 1), List.take_append_drop, List.take_append_drop]

theorem e8ForwardTarget_ensures {current displacement : Int} (hCurrent : 0 ≤ current ∧ current < 2 ^ 63)
    (hSize : fileSize < 2 ^ 32) (hDisplacement : -2 ^ 31 ≤ displacement ∧ displacement < 2 ^ 31) {Q : Int → List UInt8 → Prop}
    (hQ : Q (if current + displacement ≥ fileSize then displacement - fileSize else current + displacement) frame) :
    Ensures (e8ForwardTarget displacement (current + displacement) fileSize) frame Q fun _ _ => False := by
  rw [e8ForwardTarget, ensures_ite]
  constructor
  · intro hPast
    rw [if_pos hPast] at hQ
    rwa [ensures_signedOrPanic (by constructor <;> omega)]
  · intro hBelow
    rw [if_neg hBelow] at hQ
    exact ensures_pure.mpr hQ

theorem e8ForwardDisplacement_ensures {index : Nat} (hOffset : chunkOffset < 2 ^ 61) (hSize : fileSize < 2 ^ 32)
    (hFrame : frame.length < 2 ^ 61) (hIndex : index + 5 ≤ frame.length) :
    Ensures (e8ForwardDisplacement chunkOffset fileSize index) frame
      (fun _ frame' => frame' = frame.take (index + 1) ++
        forwardAt chunkOffset fileSize index ((frame.drop (index + 1)).take 4) ++ frame.drop (index + 5))
      fun _ _ => False := by
  have hBytes : index + 5 - (index + 1) = 4 := by omega
  have hBmod : Int.bmod index (2 ^ 64) = index := Int.bmod_eq_of_le (by omega) (by omega)
  have hLength : ((frame.drop (index + 1)).take 4).length = 4 := by simp; omega
  have hSplice := splice frame index
  rw [e8ForwardDisplacement, hBmod, ensures_bind, ensures_signedOrPanic (by constructor <;> omega), ensures_bind,
    ensures_get, ensures_bind, ensures_sliceOrPanic (by omega), hBytes]
  generalize (frame.drop (index + 1)).take 4 = bytes at hLength hSplice
  have hRange := signed_range bytes
  rw [ensures_bind, ensures_signedOrPanic (by constructor <;> omega), ensures_bind,
    ensures_signedOrPanic (by constructor <;> omega), ensures_ite]
  have hAt : forwardAt chunkOffset fileSize index bytes = word (absolute fileSize (chunkOffset + index) (signed bytes)) := by
    rw [forwardAt, forwardOperand, Int.natCast_add]
  rw [hAt, absolute]
  constructor
  · intro hTarget
    rw [if_pos hTarget, ensures_bind]
    refine e8ForwardTarget_ensures (by omega) hSize hRange ?_
    rw [ensures_modify]
  · intro hOutside
    rw [if_neg hOutside, word_signed hLength, hSplice]
    exact ensures_pure.mpr rfl

theorem e8Target_ensures {current value : Int} (hCurrent : 0 ≤ current ∧ current < 2 ^ 62)
    (hSize : fileSize < 2 ^ 32) (hValue : -2 ^ 31 ≤ value ∧ value < 2 ^ 31) {Q : Int → List UInt8 → Prop}
    (hQ : Q (if value ≥ 0 then value - current else value + fileSize) frame) :
    Ensures (e8Target value current fileSize) frame Q fun _ _ => False := by
  rw [e8Target, ensures_ite]
  constructor
  · intro hPast
    rw [if_pos hPast] at hQ
    rwa [ensures_signedOrPanic (by constructor <;> omega)]
  · intro hBelow
    rw [if_neg hBelow] at hQ
    rwa [ensures_signedOrPanic (by constructor <;> omega)]

theorem e8Displacement_rewrites {index : Nat} (hOffset : chunkOffset < 2 ^ 61) (hSize : fileSize < 2 ^ 32)
    (hFrame : frame.length < 2 ^ 61) (hIndex : index + 5 ≤ frame.length) :
    Ensures (e8Displacement chunkOffset fileSize index) frame
      (fun _ frame' => frame' = frame.take (index + 1) ++
        reverseAt chunkOffset fileSize index ((frame.drop (index + 1)).take 4) ++ frame.drop (index + 5))
      fun _ _ => False := by
  have hBytes : index + 5 - (index + 1) = 4 := by omega
  have hLength : ((frame.drop (index + 1)).take 4).length = 4 := by simp; omega
  have hSplice := splice frame index
  rw [e8Displacement_eq, ensures_bind, ensures_signedOrPanic (by constructor <;> omega), ensures_bind,
    ensures_get, ensures_bind, ensures_sliceOrPanic (by omega), hBytes]
  generalize (frame.drop (index + 1)).take 4 = bytes at hLength hSplice
  have hRange := signed_range bytes
  rw [ensures_bind, ensures_signedOrPanic (by constructor <;> omega), ensures_ite]
  have hAt : reverseAt chunkOffset fileSize index bytes = reverseOperand fileSize (chunkOffset + index) bytes := by
    rw [reverseAt, Int.natCast_add]
  rw [hAt, reverseOperand, relative]
  constructor
  · intro hValue
    rw [if_pos hValue, ensures_bind]
    refine e8Target_ensures (by omega) hSize hRange ?_
    rw [ensures_ite]
    constructor
    · intro hFits
      rw [if_pos hFits, ensures_modify]
    · intro hWide
      rw [if_neg hWide, hSplice]
      exact ensures_pure.mpr rfl
  · intro hOutside
    rw [if_neg hOutside, if_pos hRange, word_signed hLength, hSplice]
    exact ensures_pure.mpr rfl

-- A use of the lemmas must not run the reads on an unknown frame.
attribute [local irreducible] e8Displacement e8ForwardDisplacement

theorem follows_of_displacement {operand : Nat → List UInt8 → List UInt8} {limit length : Nat}
    (displacement : Nat → Machine (Stop CabError) (List UInt8) Unit)
    {turn : Nat → Machine (Stop CabError) (List UInt8) (Option Nat)} (hLimit : limit + 10 = length)
    (hDisplacement : ∀ index frame, frame.length = length → index + 5 ≤ length →
      Ensures (displacement index) frame (fun _ frame' => frame' = frame.take (index + 1) ++
        operand index ((frame.drop (index + 1)).take 4) ++ frame.drop (index + 5)) fun _ _ => False)
    (hEnd : ∀ index, limit ≤ index → turn index = pure none)
    (hTurn : ∀ index, index < limit → turn index = do
      let byte ← getOrPanic (← get) index
      if byte ≠ 0xE8 then return some (index + 1)
      else
        displacement index
        return some (index + 5)) : Follows operand length turn := by
  intro done rest hLength
  rw [List.length_append] at hLength
  cases rest with
  | nil =>
    rw [List.length_nil] at hLength
    rw [hEnd _ (by omega), ensures_pure, List.append_nil]
    rfl
  | cons byte rest =>
    rw [List.length_cons] at hLength
    rw [scanTurn]
    by_cases hShort : rest.length < 10
    · rw [hEnd _ (by omega), ensures_pure, if_pos hShort]
    · have hIndex : done.length < (done ++ byte :: rest).length := by simp
      have hByte : (done ++ byte :: rest)[done.length] = byte := by simp
      rw [hTurn _ (by omega), if_neg hShort, ensures_bind, ensures_get, ensures_bind,
        ensures_getOrPanic hIndex, hByte, ensures_ite]
      constructor
      · intro hOther
        rw [if_pos hOther]
        exact ensures_pure.mpr rfl
      · intro hMarker
        rw [if_neg hMarker, ensures_bind]
        refine (hDisplacement _ _ (by simp; omega) (by omega)).mono ?_ fun _ _ h => h
        rintro _ _ rfl
        rw [ensures_pure]
        congr 1
        simp [List.take_length_add_append, List.drop_length_add_append]

theorem addOrPanic_eq {ε σ : Type} {a b width : Nat} (h : a + b < 2 ^ width) :
    (addOrPanic width a b : Machine (Stop ε) σ Nat) = pure (a + b) := by
  rw [addOrPanic, if_neg (by omega)]

variable {limit length : Nat}

theorem e8ForwardTurn_follows (hOffset : chunkOffset < 2 ^ 61) (hSize : fileSize < 2 ^ 32) (hLength : length < 2 ^ 61)
    (hLimit : limit + 10 = length) :
    Follows (forwardAt chunkOffset fileSize) length (e8ForwardTurn chunkOffset fileSize limit) := by
  refine follows_of_displacement (e8ForwardDisplacement chunkOffset fileSize) hLimit ?_ ?_ ?_
  · rintro index frame rfl hIndex
    exact e8ForwardDisplacement_ensures hOffset hSize hLength hIndex
  · intro index hEnd
    rw [e8ForwardTurn, if_neg (by omega)]
  · intro index hIndex
    rw [e8ForwardTurn, if_pos hIndex, addOrPanic_eq (by omega), addOrPanic_eq (by omega)]
    simp only [pure_bind]

theorem e8Turn_follows (hOffset : chunkOffset < 2 ^ 61) (hSize : fileSize < 2 ^ 32) (hLength : length < 2 ^ 61)
    (hLimit : limit + 10 = length) :
    Follows (reverseAt chunkOffset fileSize) length (e8Turn chunkOffset fileSize limit) := by
  refine follows_of_displacement (e8Displacement chunkOffset fileSize) hLimit ?_ ?_ ?_
  · rintro index frame rfl hIndex
    exact e8Displacement_rewrites hOffset hSize hLength hIndex
  · intro index hEnd
    rw [e8Turn, if_neg (by omega)]
  · intro index hIndex
    rw [e8Turn, if_pos hIndex, addOrPanic_eq (by omega), addOrPanic_eq (by omega), if_neg (by omega : ¬index ≥ 2 ^ 63)]
    simp only [pure_bind]

theorem exec_onLocal_follows {operand : Nat → List UInt8 → List UInt8}
    {turn : Nat → Machine (Stop CabError) (List UInt8) (Option Nat)} (hFour : FourBytes operand)
    (h : Follows operand frame.length turn) :
    (onLocal (iterate turn (frame.length + 1) 0) frame : Machine (Stop CabError) Unit (List UInt8)).exec () =
      (.ok (relocate operand 0 frame), ()) := by
  have hLoop : Ensures (iterate turn (frame.length + 1) 0) frame (fun _ frame' => frame' = relocate operand 0 frame)
      fun _ _ => False := iterate_follows (show ([] ++ frame).length = frame.length from rfl) hFour h (Nat.lt_succ_self _)
  obtain ⟨_, frame', hRun, hFrame⟩ := hLoop.exists_ok
  rw [onLocal, exec_ofFun, hRun, hFrame]

theorem exec_e8Forward (hOffset : chunkOffset < 2 ^ 61) (hSize : fileSize < 2 ^ 32) (hFrame : frame.length < 2 ^ 61) :
    (e8Forward frame chunkOffset fileSize).exec () = (.ok (relocate (forwardAt chunkOffset fileSize) 0 frame), ()) := by
  rw [e8Forward]
  by_cases hShort : frame.length ≤ 10
  · rw [if_pos hShort, relocate_tail hShort, exec_pure]
  · rw [if_neg hShort, subOrPanic, if_neg (by omega), pure_bind]
    exact exec_onLocal_follows fourBytes_forwardAt (e8ForwardTurn_follows hOffset hSize hFrame (by omega))

theorem exec_e8Reverse (hOffset : chunkOffset < 2 ^ 61) (hSize : fileSize < 2 ^ 32) (hFrame : frame.length < 2 ^ 61) :
    (e8Reverse frame chunkOffset fileSize).exec () = (.ok (relocate (reverseAt chunkOffset fileSize) 0 frame), ()) := by
  rw [e8Reverse]
  by_cases hShort : frame.length ≤ 10
  · rw [if_pos hShort, relocate_tail hShort, exec_pure]
  · rw [if_neg hShort, subOrPanic, if_neg (by omega), pure_bind, if_neg (by omega : ¬chunkOffset ≥ 2 ^ 63)]
    exact exec_onLocal_follows fourBytes_reverseAt (e8Turn_follows hOffset hSize hFrame (by omega))

/-! ## The round trip -/

/-- Each translation undoes the other, and the markers stay in place. -/
structure E8RoundTrip (chunkOffset fileSize : Nat) (frame : List UInt8) : Prop where
  reverse_forward : ∃ translated, (e8Forward frame chunkOffset fileSize).exec () = (.ok translated, ()) ∧
    (e8Reverse translated chunkOffset fileSize).exec () = (.ok frame, ()) ∧ markers translated = markers frame
  forward_reverse : ∃ translated, (e8Reverse frame chunkOffset fileSize).exec () = (.ok translated, ()) ∧
    (e8Forward translated chunkOffset fileSize).exec () = (.ok frame, ()) ∧ markers translated = markers frame

end Translations

end Words

/-- The least displacement after a marker at `2 ^ 31 + 1`, in a frame one byte too long. -/
def farMarker : List UInt8 := List.replicate (2 ^ 30 + 2) 0 ++ [0xE8, 0, 0, 0, 0x80, 0, 0, 0, 0, 0, 0]

theorem relocate_farMarker {operand : Nat → List UInt8 → List UInt8} :
    relocate operand 0 farMarker =
      List.replicate (2 ^ 30 + 2) 0 ++ 0xE8 :: (operand (2 ^ 30 + 2) [0, 0, 0, 0x80] ++ [0, 0, 0, 0, 0, 0]) := by
  rw [farMarker, relocate_replicate (by decide) (by decide), Nat.zero_add, relocate_marker (by decide),
    relocate_tail (by decide)]
  rfl

end OpenHalfLife.Cab
