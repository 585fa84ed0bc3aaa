import Mathlib.Algebra.BigOperators.Group.List.Basic
import OpenHalfLife.Formats.Slice
import OpenHalfLife.Lib.Records

/-! # Mesh commands

The triangles of a mesh are a stream of strips and fans. A signed count says
which of the two a run is and how many vertices it has; a count of zero ends
the stream.
-/

namespace OpenHalfLife.Formats

set_option autoImplicit false

structure Trivert where
  vertIndex : UInt16
  normIndex : UInt16
  s : Int16
  t : Int16
  deriving DecidableEq

def trivertLayout : Layout Trivert :=
  (Layout.i16.pair (Layout.i16.pair (Layout.i16.pair Layout.i16))).reading
    (fun v => ⟨v.1.toUInt16, v.2.1.toUInt16, v.2.2.1, v.2.2.2⟩)
    (fun v => (v.vertIndex.toInt16, v.normIndex.toInt16, v.s, v.t))
    (fun _ => rfl) (fun _ => rfl)

structure Triangle (α : Type) where
  a : α
  b : α
  c : α
  deriving DecidableEq, Repr

namespace Triangle

variable {α β : Type}

def map (f : α → β) (t : Triangle α) : Triangle β := ⟨f t.a, f t.b, f t.c⟩

def sides (t : Triangle α) : List (α × α) := [(t.a, t.b), (t.b, t.c), (t.c, t.a)]

end Triangle

/-! ## Runs -/

structure MeshRun where
  count : Int16
  verts : List Trivert
  nonzero : count ≠ 0
  stored : verts.length = count.toInt.natAbs

namespace MeshRun

def encode (run : MeshRun) : List UInt8 :=
  Layout.i16.encode run.count ++ run.verts.flatMap trivertLayout.encode

def isFan (run : MeshRun) : Prop := run.count < 0

instance (run : MeshRun) : Decidable run.isFan := inferInstanceAs (Decidable (run.count < 0))

def fanTriangles (verts : List Trivert) : List (Triangle Trivert) :=
  List.ofFn fun i : Fin (verts.length - 2) =>
    have hLast := i.isLt
    ⟨verts[0], verts[i.val + 1], verts[i.val + 2]⟩

def stripTriangles (verts : List Trivert) : List (Triangle Trivert) :=
  List.ofFn fun i : Fin (verts.length - 2) =>
    if i.val % 2 = 0 then ⟨verts[i.val], verts[i.val + 1], verts[i.val + 2]⟩
    else ⟨verts[i.val + 1], verts[i.val], verts[i.val + 2]⟩

def triangles (run : MeshRun) : List (Triangle Trivert) :=
  if run.verts.length < 3 then []
  else if run.isFan then fanTriangles run.verts
  else stripTriangles run.verts

end MeshRun

/-! ## Decoding -/

/-- The command at a place: the run and where it leaves the stream, or the end of it. -/
def readCommand (data : Slice) (maxTriverts : UInt64) (cursor consumed : Nat) :
    Except FormatError (Option (MeshRun × Nat × Nat)) := do
  let header ← subSlice data.bytes cursor 2
  let count := Layout.i16.decode header
  let cursor ← checkedAdd cursor 2
  if nonzero : count = 0 then .ok none
  else
    let runLen := count.toInt.natAbs
    let consumed ← checkedAdd consumed runLen
    if maxTriverts.toNat < consumed then .error .limitExceeded
    else
      let bytes ← subSlice data.bytes cursor (runLen * trivertLayout.width)
      let cursor ← checkedAdd cursor bytes.length
      .ok (some (⟨count, trivertLayout.table runLen bytes, nonzero, Layout.length_table _ _ _⟩,
        cursor, consumed))

section Commands

variable {data : Slice} {maxTriverts : UInt64} {cursor consumed : Nat}

theorem MeshRun.length_encode (run : MeshRun) :
    run.encode.length = 2 + run.verts.length * trivertLayout.width := by
  rw [encode, List.length_append, Layout.length_encode, Layout.length_flatMap_encode]
  rfl

theorem readCommand_none (h : readCommand data maxTriverts cursor consumed = .ok none) :
    Layout.i16.encode 0 <+: data.bytes.drop cursor := by
  obtain ⟨header, hHeader, h⟩ := Result.bind_eq_ok.mp h
  obtain ⟨hLength, hDrop⟩ := drop_of_subSlice hHeader
  obtain ⟨place, _, h⟩ := Result.bind_eq_ok.mp h
  split at h
  · rename_i hZero
    rw [← hZero, Layout.i16.encode_decode header hLength, hDrop]
    exact List.prefix_append _ _
  · obtain ⟨total, _, h⟩ := Result.bind_eq_ok.mp h
    obtain ⟨_, h⟩ := Result.ite_error_eq_ok.mp h
    obtain ⟨bytes, _, h⟩ := Result.bind_eq_ok.mp h
    obtain ⟨next, _, h⟩ := Result.bind_eq_ok.mp h
    cases h

theorem eq_add_of_checkedAdd {a b sum : Nat} (h : checkedAdd a b = .ok sum) : sum = a + b := by
  rw [checkedAdd, Result.ite_error_eq_ok] at h
  cases h.2
  rfl

theorem readCommand_some {run : MeshRun} {cursor' consumed' : Nat}
    (h : readCommand data maxTriverts cursor consumed = .ok (some (run, cursor', consumed'))) :
    run.encode <+: data.bytes.drop cursor ∧ cursor' = cursor + run.encode.length ∧
      consumed' = consumed + run.verts.length ∧ consumed' ≤ maxTriverts.toNat := by
  obtain ⟨header, hHeader, h⟩ := Result.bind_eq_ok.mp h
  obtain ⟨hLength, hDrop⟩ := drop_of_subSlice hHeader
  obtain ⟨place, hPlace, h⟩ := Result.bind_eq_ok.mp h
  split at h
  · cases h
  · obtain ⟨total, hTotal, h⟩ := Result.bind_eq_ok.mp h
    obtain ⟨hFits, h⟩ := Result.ite_error_eq_ok.mp h
    obtain ⟨bytes, hBytes, h⟩ := Result.bind_eq_ok.mp h
    obtain ⟨next, hNext, h⟩ := Result.bind_eq_ok.mp h
    cases h
    rw [eq_add_of_checkedAdd hPlace] at hBytes hNext
    obtain ⟨hWidth, hRest⟩ := drop_of_subSlice hBytes
    have hNextPlace := eq_add_of_checkedAdd hNext
    have hTotalSum := eq_add_of_checkedAdd hTotal
    refine ⟨?_, ?_, ?_, by omega⟩
    · rw [MeshRun.encode, Layout.i16.encode_decode header hLength, Layout.flatMap_encode_table _ hWidth,
        hDrop, hRest, ← List.append_assoc]
      exact List.prefix_append _ _
    · rw [MeshRun.length_encode, Layout.length_table]
      omega
    · rw [Layout.length_table, hTotalSum]

theorem readCommand_of_zero (h : Layout.i16.encode 0 <+: data.bytes.drop cursor) :
    readCommand data maxTriverts cursor consumed = .ok none := by
  obtain ⟨rest, hRest⟩ := h
  have hData := data.length_lt
  have hLength := congrArg List.length hRest
  rw [List.length_append, Layout.length_encode, List.length_drop] at hLength
  have hWidth : Layout.i16.width = 2 := rfl
  have hHeader := subSlice_append hRest.symm (by omega)
  rw [Layout.length_encode] at hHeader
  rw [readCommand, ← hWidth, hHeader, Result.ok_bind, checkedAdd_of_lt (by omega), Result.ok_bind,
    Layout.i16.decode_encode, dif_pos rfl]

theorem readCommand_of_run {run : MeshRun} (h : run.encode <+: data.bytes.drop cursor)
    (hFits : consumed + run.verts.length ≤ maxTriverts.toNat) :
    readCommand data maxTriverts cursor consumed =
      .ok (some (run, cursor + run.encode.length, consumed + run.verts.length)) := by
  obtain ⟨rest, hRest⟩ := h
  have hData := data.length_lt
  have hMax := maxTriverts.toNat_lt
  have hLength := congrArg List.length hRest
  rw [List.length_append, MeshRun.length_encode, List.length_drop] at hLength
  have hWidth : Layout.i16.width = 2 := rfl
  have hRecord : trivertLayout.width = 8 := rfl
  have hStored := run.stored
  rw [MeshRun.encode, List.append_assoc] at hRest
  have hHeader := subSlice_append hRest.symm (by omega)
  have hNext : data.bytes.drop (cursor + 2) = run.verts.flatMap trivertLayout.encode ++ rest := by
    rw [← List.drop_drop, ← hRest]
    exact List.drop_left' (Layout.length_encode _ _)
  have hVerts := subSlice_append hNext (by omega)
  rw [Layout.length_encode, hWidth] at hHeader
  rw [Layout.length_flatMap_encode, hStored] at hVerts
  have hTable : trivertLayout.table run.count.toInt.natAbs
      (run.verts.flatMap trivertLayout.encode) = run.verts := by
    rw [← hStored, Layout.table_flatMap_encode]
  rw [readCommand, hHeader, Result.ok_bind, checkedAdd_of_lt (by omega), Result.ok_bind]
  simp only [Layout.i16.decode_encode, dif_neg run.nonzero]
  rw [checkedAdd_of_lt (by omega), Result.ok_bind, if_neg (by omega), hVerts, Result.ok_bind,
    Layout.length_flatMap_encode, checkedAdd_of_lt (by omega), Result.ok_bind]
  simp only [hTable, MeshRun.length_encode, hStored, Nat.add_assoc]

theorem readCommand_advances {run : MeshRun} {cursor' consumed' : Nat}
    (h : readCommand data maxTriverts cursor consumed = .ok (some (run, cursor', consumed'))) :
    cursor < cursor' ∧ cursor' ≤ data.bytes.length := by
  obtain ⟨hRun, hNext, _⟩ := readCommand_some h
  have hLength := hRun.length_le
  rw [List.length_drop] at hLength
  rw [MeshRun.length_encode] at hLength hNext
  omega

end Commands

section Walk

variable (data : Slice) (maxTriverts : UInt64)

def decodeFrom (cursor consumed : Nat) (triangles : List (Triangle Trivert)) :
    Except FormatError (List (Triangle Trivert)) :=
  match _h : readCommand data maxTriverts cursor consumed with
  | .error e => .error e
  | .ok none => .ok triangles
  | .ok (some (run, cursor', consumed')) =>
    decodeFrom cursor' consumed' (triangles ++ run.triangles)
termination_by data.bytes.length - cursor
decreasing_by
  have hAdvances := readCommand_advances _h
  omega

def decodeMeshCommands (triIndex : UInt32) : Except FormatError (List (Triangle Trivert)) :=
  decodeFrom data maxTriverts triIndex.toNat 0 []

end Walk

/-! ## The stream -/

def vertCount (runs : List MeshRun) : Nat := (runs.map fun run => run.verts.length).sum

/-- The runs and the count of zero that ends them lie in the data from `start` on, within the
limit on vertices. -/
structure StreamAt (data : Slice) (start limit : Nat) (runs : List MeshRun) : Prop where
  stored : runs.flatMap MeshRun.encode ++ Layout.i16.encode 0 <+: data.bytes.drop start
  limited : vertCount runs ≤ limit

section Stream

variable {data : Slice} {maxTriverts : UInt64} {cursor consumed limit : Nat} {run : MeshRun}
  {runs : List MeshRun}

theorem streamAt_cons : StreamAt data cursor limit (run :: runs) ↔
    run.encode <+: data.bytes.drop cursor ∧ run.verts.length ≤ limit ∧
      StreamAt data (cursor + run.encode.length) (limit - run.verts.length) runs := by
  have hCount : vertCount (run :: runs) = run.verts.length + vertCount runs := by
    rw [vertCount, List.map_cons, List.sum_cons, vertCount]
  constructor
  · rintro ⟨hStored, hLimited⟩
    rw [List.flatMap_cons, List.append_assoc] at hStored
    have hRun := (List.prefix_append _ _).trans hStored
    obtain ⟨rest, hRest⟩ := hRun
    rw [← hRest, List.prefix_append_right_inj] at hStored
    refine ⟨⟨rest, hRest⟩, by omega, ?_, by omega⟩
    rwa [← List.drop_drop, ← hRest, List.drop_left]
  · rintro ⟨⟨rest, hRest⟩, hFits, hStored, hLimited⟩
    refine ⟨?_, by omega⟩
    rw [← List.drop_drop, ← hRest, List.drop_left] at hStored
    rwa [List.flatMap_cons, List.append_assoc, ← hRest, List.prefix_append_right_inj]

theorem readCommand_of_stream (h : StreamAt data cursor limit runs)
    (hLimit : consumed + limit = maxTriverts.toNat) :
    readCommand data maxTriverts cursor consumed = .ok (runs.head?.map fun run =>
      (run, cursor + run.encode.length, consumed + run.verts.length)) := by
  cases runs with
  | nil => exact readCommand_of_zero h.stored
  | cons run runs =>
    obtain ⟨hRun, hFits, _⟩ := streamAt_cons.mp h
    exact readCommand_of_run hRun (by omega)

theorem decodeFrom_eq_ok {triangles out : List (Triangle Trivert)}
    (hLimit : consumed + limit = maxTriverts.toNat) :
    decodeFrom data maxTriverts cursor consumed triangles = .ok out ↔
      ∃ runs, StreamAt data cursor limit runs ∧ out = triangles ++ runs.flatMap MeshRun.triangles := by
  induction cursor, consumed, triangles using decodeFrom.induct data maxTriverts generalizing limit with
  | case1 cursor consumed triangles e hRead =>
    rw [decodeFrom, hRead]
    simp only [reduceCtorEq, false_iff]
    rintro ⟨runs, hStream, _⟩
    cases hRead.symm.trans (readCommand_of_stream hStream hLimit)
  | case2 cursor consumed triangles hRead =>
    rw [decodeFrom, hRead]
    constructor
    · intro hOut
      cases hOut
      exact ⟨[], ⟨readCommand_none hRead, Nat.zero_le _⟩, (List.append_nil _).symm⟩
    · rintro ⟨runs, hStream, rfl⟩
      cases runs with
      | nil => rw [List.flatMap_nil, List.append_nil]
      | cons run runs => cases hRead.symm.trans (readCommand_of_stream hStream hLimit)
  | case3 cursor consumed triangles run cursor' consumed' hRead ih =>
    obtain ⟨hRun, rfl, rfl, hFits⟩ := readCommand_some hRead
    rw [decodeFrom, hRead]
    dsimp only
    have hLeft : consumed + run.verts.length + (limit - run.verts.length) = maxTriverts.toNat := by omega
    rw [ih hLeft]
    constructor
    · rintro ⟨runs, hStream, rfl⟩
      refine ⟨run :: runs, streamAt_cons.mpr ⟨hRun, by omega, hStream⟩, ?_⟩
      rw [List.flatMap_cons, List.append_assoc]
    · rintro ⟨runs, hStream, rfl⟩
      cases runs with
      | nil => cases hRead.symm.trans (readCommand_of_stream hStream hLimit)
      | cons first runs =>
        cases hRead.symm.trans (readCommand_of_stream hStream hLimit)
        refine ⟨runs, (streamAt_cons.mp hStream).2.2, ?_⟩
        rw [List.flatMap_cons, List.append_assoc]

end Stream

/-! ## Triangles -/

def fanCorners (i : Nat) : Triangle Nat := ⟨0, i + 1, i + 2⟩

def stripCorners (i : Nat) : Triangle Nat := if i % 2 = 0 then ⟨i, i + 1, i + 2⟩ else ⟨i + 1, i, i + 2⟩

/-- Two triangles share a side and go along it in opposite directions, and along no side in
the same one. -/
def Consistent (t t' : Triangle Nat) : Prop :=
  (∃ a b, (a, b) ∈ t.sides ∧ (b, a) ∈ t'.sides) ∧ ∀ side ∈ t.sides, side ∉ t'.sides

theorem stripCorners_consistent (i : Nat) : Consistent (stripCorners i) (stripCorners (i + 1)) := by
  rcases Nat.mod_two_eq_zero_or_one i with hEven | hOdd
  · have hNext : (i + 1) % 2 = 1 := by omega
    constructor
    · exact ⟨i + 1, i + 2, by simp [stripCorners, hEven, Triangle.sides],
        by simp [stripCorners, hNext, Triangle.sides]⟩
    · simp [stripCorners, hEven, hNext, Triangle.sides]
      omega
  · have hNext : (i + 1) % 2 = 0 := by omega
    constructor
    · exact ⟨i + 2, i + 1, by simp [stripCorners, hOdd, Triangle.sides],
        by simp [stripCorners, hNext, Triangle.sides]⟩
    · simp [stripCorners, hOdd, hNext, Triangle.sides]
      omega

namespace MeshRun

theorem length_triangles (run : MeshRun) : run.triangles.length = run.verts.length - 2 := by
  unfold triangles
  split
  · rw [List.length_nil]
    omega
  · split
    · exact List.length_ofFn
    · exact List.length_ofFn

theorem length_flatMap_triangles (runs : List MeshRun) :
    (runs.flatMap triangles).length = (runs.map fun run => run.count.toInt.natAbs - 2).sum := by
  induction runs with
  | nil => rfl
  | cons run runs ih =>
    rw [List.flatMap_cons, List.length_append, ih, length_triangles, run.stored, List.map_cons,
      List.sum_cons]

variable {run : MeshRun} {i : Nat}

theorem fan_triangle (hFan : run.count < 0) (h : i < run.verts.length - 2) :
    run.triangles[i]?.map (Triangle.map some) = some ((fanCorners i).map (run.verts[·]?)) := by
  have hLong : ¬ run.verts.length < 3 := by omega
  have hIsFan : run.isFan := hFan
  rw [triangles, if_neg hLong, if_pos hIsFan, fanTriangles, List.getElem?_ofFn, dif_pos h, Option.map_some]
  simp only [Triangle.map, fanCorners]
  rw [List.getElem?_eq_getElem (by omega), List.getElem?_eq_getElem (by omega),
    List.getElem?_eq_getElem (by omega)]

theorem strip_triangle (hStrip : 0 < run.count) (h : i < run.verts.length - 2) :
    run.triangles[i]?.map (Triangle.map some) = some ((stripCorners i).map (run.verts[·]?)) := by
  have hLong : ¬ run.verts.length < 3 := by omega
  have hNotFan : ¬ run.isFan := Int16.lt_asymm hStrip
  rw [triangles, if_neg hLong, if_neg hNotFan, stripTriangles, List.getElem?_ofFn, dif_pos h, Option.map_some,
    stripCorners]
  split
  · simp only [Triangle.map]
    rw [List.getElem?_eq_getElem (by omega), List.getElem?_eq_getElem (by omega),
      List.getElem?_eq_getElem (by omega)]
  · simp only [Triangle.map]
    rw [List.getElem?_eq_getElem (by omega), List.getElem?_eq_getElem (by omega),
      List.getElem?_eq_getElem (by omega)]

end MeshRun

/-- The decoder accepts the streams that lie in the data within the limit, and gives the
triangles of their runs in order. -/
theorem decodeMeshCommands_exact (data : Slice) (maxTriverts : UInt64) (triIndex : UInt32) :
    (∀ out, decodeMeshCommands data maxTriverts triIndex = .ok out ↔
      ∃ runs, StreamAt data triIndex.toNat maxTriverts.toNat runs ∧
        out = runs.flatMap MeshRun.triangles) ∧
    (∀ runs : List MeshRun, (runs.flatMap MeshRun.triangles).length =
      (runs.map fun run => run.count.toInt.natAbs - 2).sum) ∧
    (∀ run : MeshRun, run.count < 0 → ∀ i < run.verts.length - 2,
      run.triangles[i]?.map (Triangle.map some) = some ((fanCorners i).map (run.verts[·]?))) ∧
    (∀ run : MeshRun, 0 < run.count → ∀ i < run.verts.length - 2,
      run.triangles[i]?.map (Triangle.map some) = some ((stripCorners i).map (run.verts[·]?))) ∧
    ∀ i, Consistent (stripCorners i) (stripCorners (i + 1)) := by
  refine ⟨fun out => ?_, MeshRun.length_flatMap_triangles, fun run hFan i hi => ?_,
    fun run hStrip i hi => ?_, stripCorners_consistent⟩
  · rw [decodeMeshCommands, decodeFrom_eq_ok (Nat.zero_add _)]
    simp only [List.nil_append]
  · exact MeshRun.fan_triangle hFan hi
  · exact MeshRun.strip_triangle hStrip hi

end OpenHalfLife.Formats
