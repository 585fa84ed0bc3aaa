import OpenHalfLife.Backends.WiseWalk
import OpenHalfLife.Lib.Claims

/-! # Records mapped onto streams

The records of a script claim the streams of the chain in two passes: by
checksum and size, then by stored offset under the origin that matches most of
them. The origins come in an order of preference, but among equals the last one
is taken.
-/

namespace OpenHalfLife.Wise

open Backends (Overlay)

set_option autoImplicit false

structure FileRecord where
  path : List UInt8
  deflateStart : UInt32
  inflatedSize : UInt32
  crc32 : UInt32
  offsetsPlausible : Bool
  deriving DecidableEq, Repr

structure FileTable where
  records : List FileRecord
  deriving DecidableEq, Repr

inductive OffsetOrigin
  | overlayRelative
  | imageAbsolute
  | firstStreamRelative
  deriving DecidableEq, Repr

namespace OffsetOrigin

def all : List OffsetOrigin := [overlayRelative, imageAbsolute, firstStreamRelative]

def base (overlay : Overlay) (firstStream : Nat) : OffsetOrigin → Nat
  | overlayRelative => overlay.offset
  | imageAbsolute => 0
  | firstStreamRelative => firstStream

theorem mem_all (origin : OffsetOrigin) : origin ∈ all := by
  cases origin <;> simp [all]

end OffsetOrigin

inductive MatchKind
  | content
  | offset
  deriving DecidableEq, Repr

structure Entry where
  recordIndex : Nat
  streamIndex : Option Nat
  matchedBy : Option MatchKind
  declaredInflatedSize : UInt32
  streamInflatedSize : Option Nat
  declaredCrc32 : UInt32
  pathLen : Nat
  deriving DecidableEq, Repr

structure FileMap where
  origin : Option OffsetOrigin
  entries : List Entry
  streams : List StreamMetrics
  unnamed : List Nat
  deriving DecidableEq, Repr

def FileRecord.start (record : FileRecord) (base : Nat) : Nat := (base + record.deflateStart.toNat) % 2 ^ 64

def offsetMatchCount (table : FileTable) (streams : List StreamRecord) (overlay : Overlay) (firstStream : Nat)
    (origin : OffsetOrigin) : Nat :=
  let base := origin.base overlay firstStream
  (table.records.filter (·.offsetsPlausible)).countP fun record =>
    streams.any fun stream => stream.metrics.compressedOffset = record.start base

def maxByKey {α : Type} (key : α → Nat) : List α → Option α
  | [] => none
  | a :: rest => some (rest.foldl (fun best b => if key b ≥ key best then b else best) a)

namespace FileMap

def firstStream (streams : List StreamRecord) (overlay : Overlay) : Nat :=
  match streams.head? with
  | some stream => stream.metrics.compressedOffset
  | none => overlay.offset

def matchCount (table : FileTable) (streams : List StreamRecord) (overlay : Overlay) : OffsetOrigin → Nat :=
  offsetMatchCount table streams overlay (firstStream streams overlay)

def chooseOrigin (table : FileTable) (streams : List StreamRecord) (overlay : Overlay) : Option OffsetOrigin :=
  let counted := OffsetOrigin.all.map fun origin => (matchCount table streams overlay origin, origin)
  ((maxByKey Prod.fst counted).filter fun best => best.1 > 0).map Prod.snd

def unclaimed (claims : Claims MatchKind) (streams : List StreamRecord) (fits : StreamRecord → Bool) : Option Nat :=
  (streams.find? fun stream => stream.index ∉ claims.claimed && fits stream).map StreamRecord.index

def contentFits (record : FileRecord) (stream : StreamRecord) : Bool :=
  stream.metrics.computedCrc32 = record.crc32 && stream.metrics.inflatedLen = record.inflatedSize.toNat

def wantsContent (streams : List StreamRecord) (claims : Claims MatchKind) (record : FileRecord × Nat) : Option Nat :=
  if record.1.crc32 = 0 then none else unclaimed claims streams (contentFits record.1)

def offsetFits (base : Nat) (record : FileRecord) (stream : StreamRecord) : Bool :=
  stream.metrics.compressedOffset = record.start base

def wantsOffset (streams : List StreamRecord) (base : Nat) (claims : Claims MatchKind) (record : FileRecord × Nat) :
    Option Nat :=
  if (claims.taken record.2).isSome ∨ record.1.offsetsPlausible = false then none
  else unclaimed claims streams (offsetFits base record.1)

def resolve (table : FileTable) (streams : List StreamRecord) (base : Option Nat) : Claims MatchKind :=
  let claims := Claims.pass .content (wantsContent streams) table.records (Claims.none table.records.length)
  match base with
  | some base => Claims.pass .offset (wantsOffset streams base) table.records claims
  | none => claims

def entry (streams : List StreamRecord) (claims : Claims MatchKind) (record : FileRecord × Nat) : Entry :=
  let matched := claims.taken record.2
  { recordIndex := record.2
    streamIndex := matched.map Prod.fst
    matchedBy := matched.map Prod.snd
    declaredInflatedSize := record.1.inflatedSize
    streamInflatedSize := matched.bind fun found =>
      (streams.find? (·.index = found.1)).map (·.metrics.inflatedLen)
    declaredCrc32 := record.1.crc32
    pathLen := record.1.path.length }

def chosenBase (table : FileTable) (streams : List StreamRecord) (overlay : Overlay) : Option Nat :=
  (chooseOrigin table streams overlay).map (·.base overlay (firstStream streams overlay))

def build (table : FileTable) (streams : List StreamRecord) (overlay : Overlay) : FileMap :=
  let claims := resolve table streams (chosenBase table streams overlay)
  { origin := chooseOrigin table streams overlay
    entries := table.records.zipIdx.map (entry streams claims)
    streams := streams.map StreamRecord.metrics
    unnamed := (streams.map StreamRecord.index).filter (· ∉ claims.claimed) }

/-! ## The passes -/

section Passes

variable {table : FileTable} {streams : List StreamRecord} {base : Option Nat} {claims : Claims MatchKind}
  {fits : StreamRecord → Bool} {record : FileRecord} {stream : StreamRecord} {taker thing : Nat}

def Positioned (streams : List StreamRecord) : Prop :=
  ∀ position (stream : StreamRecord), streams[position]? = some stream → stream.index = position

def Evident (table : FileTable) (streams : List StreamRecord) (base : Option Nat) (taker thing : Nat)
    (kind : MatchKind) : Prop :=
  ∃ record stream, table.records[taker]? = some record ∧ streams[thing]? = some stream ∧
    match kind with
    | .content => record.crc32 ≠ 0 ∧ stream.metrics.computedCrc32 = record.crc32 ∧
        stream.metrics.inflatedLen = record.inflatedSize.toNat
    | .offset => ∃ base', base = some base' ∧ record.offsetsPlausible = true ∧
        stream.metrics.compressedOffset = record.start base'

def Exhausted (streams : List StreamRecord) (claims : Claims MatchKind) (record : FileRecord) : Prop :=
  record.crc32 ≠ 0 → ∀ thing stream, streams[thing]? = some stream → contentFits record stream = true →
    thing ∈ claims.claimed

theorem unclaimed_eq_some (hIndex : Positioned streams) (h : unclaimed claims streams fits = some thing) :
    thing ∉ claims.claimed ∧ ∃ stream, streams[thing]? = some stream ∧ fits stream = true := by
  obtain ⟨stream, hFind, rfl⟩ := Option.map_eq_some_iff.mp h
  have hFits := List.find?_some hFind
  obtain ⟨position, hPosition⟩ := List.mem_iff_getElem?.mp (List.mem_of_find?_eq_some hFind)
  simp only [Bool.and_eq_true, decide_eq_true_eq] at hFits
  refine ⟨hFits.1, stream, ?_, hFits.2⟩
  rw [hIndex position stream hPosition, hPosition]

theorem unclaimed_eq_none (hIndex : Positioned streams) (h : unclaimed claims streams fits = none)
    (hStream : streams[thing]? = some stream) (hFits : fits stream = true) : thing ∈ claims.claimed := by
  have hNone := List.find?_eq_none.mp (Option.map_eq_none_iff.mp h) stream (List.mem_of_getElem? hStream)
  rw [hIndex thing stream hStream] at hNone
  simpa [hFits] using hNone

theorem Exhausted.extends {claims' : Claims MatchKind} (h : Exhausted streams claims record)
    (hExtends : claims.Extends claims') : Exhausted streams claims' record :=
  fun hChecked thing stream hStream hFits => hExtends.claimed (h hChecked thing stream hStream hFits)

variable (base) in
theorem wantsContent_eq_some (hIndex : Positioned streams) (hRecord : table.records[taker]? = some record)
    (h : wantsContent streams claims (record, taker) = some thing) :
    thing ∉ claims.claimed ∧ Evident table streams base taker thing .content := by
  rw [wantsContent] at h
  split at h
  · cases h
  · obtain ⟨hFree, stream, hStream, hFits⟩ := unclaimed_eq_some hIndex h
    simp only [contentFits, Bool.and_eq_true, decide_eq_true_eq] at hFits
    exact ⟨hFree, record, stream, hRecord, hStream, ‹_›, hFits.1, hFits.2⟩

theorem wantsOffset_eq_some {base : Nat} (hIndex : Positioned streams) (hRecord : table.records[taker]? = some record)
    (h : wantsOffset streams base claims (record, taker) = some thing) :
    claims.taken taker = none ∧ thing ∉ claims.claimed ∧ Evident table streams (some base) taker thing .offset := by
  rw [wantsOffset] at h
  split at h
  · cases h
  · rename_i hWants
    obtain ⟨hFree, stream, hStream, hFits⟩ := unclaimed_eq_some hIndex h
    simp only [not_or, Bool.not_eq_true, Option.isSome_eq_false_iff, Option.isNone_iff_eq_none,
      Bool.not_eq_false] at hWants
    exact ⟨hWants.1, hFree, record, stream, hRecord, hStream, base, rfl, hWants.2, of_decide_eq_true hFits⟩

structure ContentPass (table : FileTable) (streams : List StreamRecord) (base : Option Nat) (reached : Nat)
    (claims : Claims MatchKind) : Prop where
  sound : claims.Sound (Evident table streams base)
  length : claims.resolved.length = table.records.length
  later : ∀ taker, reached ≤ taker → claims.taken taker = none
  exhausted : ∀ taker record, taker < reached → table.records[taker]? = some record → claims.taken taker = none →
    Exhausted streams claims record

structure OffsetPass (table : FileTable) (streams : List StreamRecord) (base : Option Nat)
    (claims : Claims MatchKind) : Prop where
  sound : claims.Sound (Evident table streams base)
  length : claims.resolved.length = table.records.length
  exhausted : ∀ taker record, table.records[taker]? = some record → claims.taken taker = none →
    Exhausted streams claims record

variable (table streams base) in
theorem ContentPass.none : ContentPass table streams base 0 (Claims.none table.records.length) :=
  ⟨Claims.Sound.none _, by simp [Claims.none], fun _ _ => Claims.taken_none _, fun _ _ h => absurd h (Nat.not_lt_zero _)⟩

theorem ContentPass.turn (hIndex : Positioned streams) (hRecord : table.records[taker]? = some record)
    (h : ContentPass table streams base taker claims) :
    ContentPass table streams base (taker + 1) (Claims.turn .content (wantsContent streams) claims (record, taker)) := by
  have hTaker : taker < claims.resolved.length := by
    rw [h.length]
    exact (List.getElem?_eq_some_iff.mp hRecord).1
  have hExtends : claims.Extends (Claims.turn .content (wantsContent streams) claims (record, taker)) :=
    Claims.extends_turn hTaker
  have hExhausted : ∀ other record', other < taker → table.records[other]? = some record' →
      (Claims.turn .content (wantsContent streams) claims (record, taker)).taken other = Option.none →
      Exhausted streams (Claims.turn .content (wantsContent streams) claims (record, taker)) record' :=
    fun other record' hOther hRecord' hNone =>
      (h.exhausted other record' hOther hRecord' (hExtends.taken other hNone)).extends hExtends
  rw [Claims.turn] at hExtends hExhausted ⊢
  cases hWants : wantsContent streams claims (record, taker) with
  | none =>
    simp only [hWants] at hExhausted ⊢
    refine ⟨h.sound, h.length, fun other hOther => h.later other (by omega), fun other record' hOther hRecord' hNone => ?_⟩
    rcases Nat.lt_succ_iff_lt_or_eq.mp hOther with hBefore | rfl
    · exact hExhausted other record' hBefore hRecord' hNone
    · cases hRecord.symm.trans hRecord'
      intro hChecked thing stream hStream hFits
      rw [wantsContent, if_neg hChecked] at hWants
      exact unclaimed_eq_none hIndex hWants hStream hFits
  | some thing =>
    simp only [hWants] at hExhausted ⊢
    obtain ⟨hFree, hEvident⟩ := wantsContent_eq_some base hIndex hRecord hWants
    have hTaken (other : Nat) := Claims.taken_claim other thing MatchKind.content hTaker
    refine ⟨h.sound.claim hTaker (h.later taker (Nat.le_refl _)) hFree hEvident, by simpa using h.length,
      fun other hOther => ?_, fun other record' hOther hRecord' hNone => ?_⟩
    · rw [hTaken, if_neg (by omega), h.later other (by omega)]
    · rcases Nat.lt_succ_iff_lt_or_eq.mp hOther with hBefore | rfl
      · exact hExhausted other record' hBefore hRecord' hNone
      · simp [hTaken] at hNone

theorem OffsetPass.turn {base : Nat} (hIndex : Positioned streams) (hRecord : table.records[taker]? = some record)
    (h : OffsetPass table streams (some base) claims) :
    OffsetPass table streams (some base) (Claims.turn .offset (wantsOffset streams base) claims (record, taker)) := by
  have hTaker : taker < claims.resolved.length := by
    rw [h.length]
    exact (List.getElem?_eq_some_iff.mp hRecord).1
  have hExtends : claims.Extends (Claims.turn .offset (wantsOffset streams base) claims (record, taker)) :=
    Claims.extends_turn hTaker
  refine ⟨?_, hExtends.length.trans h.length, fun other record' hRecord' hNone =>
    (h.exhausted other record' hRecord' (hExtends.taken other hNone)).extends hExtends⟩
  rw [Claims.turn]
  cases hWants : wantsOffset streams base claims (record, taker) with
  | none => exact h.sound
  | some thing =>
    obtain ⟨hNone, hFree, hEvident⟩ := wantsOffset_eq_some hIndex hRecord hWants
    exact h.sound.claim hTaker hNone hFree hEvident

variable (table base) in
theorem resolve_offsetPass (hIndex : Positioned streams) : OffsetPass table streams base (resolve table streams base) := by
  have hContent := Claims.pass_induction (ContentPass.none table streams base)
    fun taker record claims hRecord h => ContentPass.turn hIndex hRecord h
  have hFirst : OffsetPass table streams base
      (Claims.pass .content (wantsContent streams) table.records (Claims.none table.records.length)) :=
    ⟨hContent.sound, hContent.length, fun taker record hRecord hNone =>
      hContent.exhausted taker record (List.getElem?_eq_some_iff.mp hRecord).1 hRecord hNone⟩
  unfold resolve
  cases base with
  | none => exact hFirst
  | some base =>
    exact Claims.pass_induction (motive := fun _ claims => OffsetPass table streams (some base) claims) hFirst
      fun taker record claims hRecord h => OffsetPass.turn hIndex hRecord h

end Passes

/-! ## The mapping -/

variable {table : FileTable} {streams : List StreamRecord} {overlay : Overlay}

/-- The streams go to at most one record each, on evidence, and none is left that a record could have had. -/
structure PartialInjection (table : FileTable) (streams : List StreamRecord) (overlay : Overlay) (map : FileMap) :
    Prop where
  records : map.entries.map Entry.recordIndex = List.range table.records.length
  injective : ∀ first ∈ map.entries, ∀ second ∈ map.entries, first.streamIndex.isSome →
    first.streamIndex = second.streamIndex → first.recordIndex = second.recordIndex
  unnamed : map.unnamed = (List.range streams.length).filter fun index =>
    map.entries.all fun entry => entry.streamIndex ≠ some index
  content : ∀ entry ∈ map.entries, entry.matchedBy = some .content → ∃ index record stream,
    entry.streamIndex = some index ∧ table.records[entry.recordIndex]? = some record ∧
      streams[index]? = some stream ∧ record.crc32 ≠ 0 ∧ stream.metrics.computedCrc32 = record.crc32 ∧
      stream.metrics.inflatedLen = record.inflatedSize.toNat
  offset : ∀ entry ∈ map.entries, entry.matchedBy = some .offset → ∃ index record stream origin,
    entry.streamIndex = some index ∧ table.records[entry.recordIndex]? = some record ∧
      streams[index]? = some stream ∧ map.origin = some origin ∧
      stream.metrics.compressedOffset = record.start (origin.base overlay (firstStream streams overlay))
  unmatched : ∀ entry ∈ map.entries, entry.streamIndex = none → ∀ record,
    table.records[entry.recordIndex]? = some record → record.crc32 ≠ 0 →
    ∀ index ∈ map.unnamed, ∀ stream, streams[index]? = some stream →
      ¬(stream.metrics.computedCrc32 = record.crc32 ∧ stream.metrics.inflatedLen = record.inflatedSize.toNat)

def preferred (table : FileTable) (streams : List StreamRecord) (overlay : Overlay) : Option OffsetOrigin :=
  OffsetOrigin.all.find? fun origin => 0 < matchCount table streams overlay origin ∧
    ∀ other ∈ OffsetOrigin.all, matchCount table streams overlay other ≤ matchCount table streams overlay origin

/-- Two origins match the same positive number of records, and none matches more. -/
def Tied (table : FileTable) (streams : List StreamRecord) (overlay : Overlay) : Prop :=
  ∃ first second, first ≠ second ∧ 0 < matchCount table streams overlay first ∧
    matchCount table streams overlay second = matchCount table streams overlay first ∧
    ∀ other, matchCount table streams overlay other ≤ matchCount table streams overlay first

structure SoundMapping (table : FileTable) (streams : List StreamRecord) (overlay : Overlay) : Prop where
  partialInjection : PartialInjection table streams overlay (build table streams overlay)
  origin : (build table streams overlay).origin = preferred table streams overlay

section Greatest

variable {α : Type} {key : α → Nat}

/-- Everything before the element taken is at most as great, everything after it is less. -/
structure LastGreatest (key : α → Nat) (front : List α) (best : α) (back : List α) : Prop where
  front_le : ∀ a ∈ front, key a ≤ key best
  back_lt : ∀ a ∈ back, key a < key best

theorem lastGreatest_foldl {front back : List α} {best : α} (h : LastGreatest key front best back) (rest : List α) :
    ∃ front' back', front ++ best :: back ++ rest =
        front' ++ rest.foldl (fun best a => if key a ≥ key best then a else best) best :: back' ∧
      LastGreatest key front' (rest.foldl (fun best a => if key a ≥ key best then a else best) best) back' := by
  induction rest generalizing front best back with
  | nil => exact ⟨front, back, by simp, h⟩
  | cons a rest ih =>
    rw [List.foldl_cons]
    by_cases hGreat : key a ≥ key best
    · have hNext : LastGreatest key (front ++ best :: back) a [] := by
        refine ⟨fun b hb => ?_, by simp⟩
        rcases List.mem_append.mp hb with hb | hb
        · exact (h.front_le b hb).trans hGreat
        · rcases List.mem_cons.mp hb with rfl | hb
          · exact hGreat
          · exact (h.back_lt b hb).le.trans hGreat
      simpa [hGreat] using ih hNext
    · have hNext : LastGreatest key front best (back ++ [a]) := by
        refine ⟨h.front_le, fun b hb => ?_⟩
        rcases List.mem_append.mp hb with hb | hb
        · exact h.back_lt b hb
        · rw [List.mem_singleton.mp hb]
          exact Nat.not_le.mp hGreat
      simpa [hGreat] using ih hNext

variable (key) in
theorem maxByKey_spec {l : List α} (h : l ≠ []) :
    ∃ front best back, maxByKey key l = some best ∧ l = front ++ best :: back ∧ LastGreatest key front best back := by
  obtain ⟨a, rest, rfl⟩ := List.exists_cons_of_ne_nil h
  obtain ⟨front, back, hSplit, hGreatest⟩ := lastGreatest_foldl (show LastGreatest key [] a [] from ⟨by simp, by simp⟩) rest
  exact ⟨front, _, back, rfl, by simpa using hSplit, hGreatest⟩

theorem maxByKey_map {β : Type} {key : β → Nat} (f : α → β) (l : List α) :
    maxByKey key (l.map f) = (maxByKey (fun a => key (f a)) l).map f := by
  cases l with
  | nil => rfl
  | cons a rest =>
    rw [List.map_cons, maxByKey, maxByKey, Option.map_some, List.foldl_map]
    congr 1
    induction rest generalizing a with
    | nil => rfl
    | cons b rest ih =>
      rw [List.foldl_cons, List.foldl_cons, ← ih, apply_ite f]

end Greatest

theorem find?_greatest {l front back : List OffsetOrigin} {count : OffsetOrigin → Nat} {best : OffsetOrigin}
    (hNodup : l.Nodup) (hSplit : l = front ++ best :: back) (hBack : ∀ a ∈ back, count a < count best) :
    l.find? (fun a => count a = count best) = some best ↔ ∀ a ∈ l, count a = count best → a = best := by
  constructor
  · intro hFind a ha hSame
    rw [hSplit] at ha
    rcases List.mem_append.mp ha with hFront | hTail
    · have hFound : (front.find? fun a => count a = count best).isSome := by simpa using ⟨a, hFront, hSame⟩
      obtain ⟨b, hb⟩ := Option.isSome_iff_exists.mp hFound
      rw [hSplit, List.find?_append, hb, Option.some_or, Option.some_inj] at hFind
      rw [hSplit, ← hFind] at hNodup
      exact absurd (List.mem_of_find?_eq_some hb) fun hMem =>
        (List.nodup_append.mp hNodup).2.2 b hMem b List.mem_cons_self rfl
    · rcases List.mem_cons.mp hTail with rfl | hTail
      · rfl
      · exact absurd hSame (hBack a hTail).ne
  · intro hOnly
    have hFound : (l.find? fun a => count a = count best).isSome := by simpa using ⟨best, by simp [hSplit], rfl⟩
    obtain ⟨b, hb⟩ := Option.isSome_iff_exists.mp hFound
    have hGreat : count b = count best := by simpa using List.find?_some hb
    rw [hb, hOnly b (List.mem_of_find?_eq_some hb) hGreat]

theorem chooseOrigin_eq_preferred :
    chooseOrigin table streams overlay = preferred table streams overlay ↔ ¬Tied table streams overlay := by
  unfold chooseOrigin preferred Tied
  generalize matchCount table streams overlay = count
  obtain ⟨front, best, back, hBest, hAll, hGreatest⟩ := maxByKey_spec count (show OffsetOrigin.all ≠ [] by decide)
  have hLe (origin : OffsetOrigin) : count origin ≤ count best := by
    have hMem := OffsetOrigin.mem_all origin
    rw [hAll] at hMem
    rcases List.mem_append.mp hMem with hFront | hBack
    · exact hGreatest.front_le origin hFront
    · rcases List.mem_cons.mp hBack with rfl | hBack
      · exact Nat.le_refl _
      · exact (hGreatest.back_lt origin hBack).le
  simp only [maxByKey_map]
  rw [hBest]
  by_cases hSome : 0 < count best
  · have hGreat (origin : OffsetOrigin) : (0 < count origin ∧ ∀ other ∈ OffsetOrigin.all, count other ≤ count origin) ↔
        count origin = count best := by
      constructor
      · intro h
        exact Nat.le_antisymm (hLe origin) (h.2 best (OffsetOrigin.mem_all best))
      · intro h
        exact ⟨h ▸ hSome, fun other _ => h ▸ hLe other⟩
    have hFind := find?_greatest (show OffsetOrigin.all.Nodup by decide) hAll hGreatest.back_lt
    simp only [hGreat]
    rw [Option.map_some, Option.filter_some_pos (by simpa using hSome), Option.map_some, eq_comm, hFind]
    constructor
    · rintro hOnly ⟨first, second, hNe, -, hSame, hMost⟩
      have hFirst : count first = count best := Nat.le_antisymm (hLe first) (hMost best)
      exact hNe ((hOnly first (OffsetOrigin.mem_all first) hFirst).trans
        (hOnly second (OffsetOrigin.mem_all second) (hSame.trans hFirst)).symm)
    · intro hNot origin _ hSame
      by_contra hNe
      exact hNot ⟨best, origin, Ne.symm hNe, hSome, hSame, hLe⟩
  · have hZero (origin : OffsetOrigin) : ¬0 < count origin := fun h => hSome (h.trans_le (hLe origin))
    have hNone : OffsetOrigin.all.find? (fun origin => decide (0 < count origin ∧
        ∀ other ∈ OffsetOrigin.all, count other ≤ count origin)) = none := by
      rw [List.find?_eq_none]
      intro origin _
      simp [hZero]
    rw [Option.map_some, Option.filter_some_neg (by simpa using hSome), hNone]
    simp [hZero]

theorem mem_entries {entry : Entry} :
    entry ∈ (build table streams overlay).entries ↔ ∃ taker record, table.records[taker]? = some record ∧
      entry = FileMap.entry streams (resolve table streams (chosenBase table streams overlay)) (record, taker) := by
  simp only [build, List.mem_map, Prod.exists, List.mk_mem_zipIdx_iff_getElem?]
  constructor
  · rintro ⟨record, taker, hRecord, rfl⟩
    exact ⟨taker, record, hRecord, rfl⟩
  · rintro ⟨taker, record, hRecord, rfl⟩
    exact ⟨record, taker, hRecord, rfl⟩

theorem streamIndex_eq_some {claims : Claims MatchKind} {record : FileRecord × Nat} {index : Nat} :
    (entry streams claims record).streamIndex = some index ↔ ∃ kind, claims.taken record.2 = some (index, kind) := by
  simp [entry, Option.map_eq_some_iff]

theorem matchedBy_eq_some {claims : Claims MatchKind} {record : FileRecord × Nat} {kind : MatchKind} :
    (entry streams claims record).matchedBy = some kind ↔ ∃ index, claims.taken record.2 = some (index, kind) := by
  simp [entry, Option.map_eq_some_iff]

theorem not_mem_claimed_iff (hIndex : Positioned streams) {index : Nat} :
    index ∉ (resolve table streams (chosenBase table streams overlay)).claimed ↔
      ∀ entry ∈ (build table streams overlay).entries, entry.streamIndex ≠ some index := by
  have hPass := resolve_offsetPass table (chosenBase table streams overlay) hIndex
  rw [hPass.sound.claimed_iff]
  constructor
  · rintro hFree _ hEntry hSome
    obtain ⟨taker, record, hRecord, rfl⟩ := mem_entries.mp hEntry
    obtain ⟨kind, hTaken⟩ := streamIndex_eq_some.mp hSome
    exact hFree ⟨taker, kind, hTaken⟩
  · rintro hFree ⟨taker, kind, hTaken⟩
    obtain ⟨record, -, hRecord, -⟩ := hPass.sound.evident taker index kind hTaken
    exact hFree _ (mem_entries.mpr ⟨taker, record, hRecord, rfl⟩) (streamIndex_eq_some.mpr ⟨kind, hTaken⟩)

theorem unnamed_eq (hIndex : Positioned streams) :
    (build table streams overlay).unnamed = (List.range streams.length).filter fun index =>
      (build table streams overlay).entries.all fun entry => entry.streamIndex ≠ some index := by
  have hRange : streams.map StreamRecord.index = List.range streams.length := by
    refine List.ext_getElem (by simp) fun position h _ => ?_
    rw [List.getElem_map, List.getElem_range]
    exact hIndex position _ (List.getElem?_eq_getElem _)
  have hUnnamed : (build table streams overlay).unnamed = (streams.map StreamRecord.index).filter
      (· ∉ (resolve table streams (chosenBase table streams overlay)).claimed) := rfl
  rw [hUnnamed, hRange]
  apply List.filter_congr
  intro index _
  rw [Bool.eq_iff_iff, decide_eq_true_iff, not_mem_claimed_iff hIndex, List.all_eq_true]
  simp

theorem build_partialInjection (hIndex : Positioned streams) :
    PartialInjection table streams overlay (build table streams overlay) := by
  have hPass := resolve_offsetPass table (chosenBase table streams overlay) hIndex
  constructor
  · refine List.ext_getElem (by simp [build]) fun position h _ => ?_
    simp [build, entry]
  · intro first hFirst second hSecond hSome hSame
    obtain ⟨taker, record, hRecord, rfl⟩ := mem_entries.mp hFirst
    obtain ⟨other, record', hRecord', rfl⟩ := mem_entries.mp hSecond
    obtain ⟨index, hIndex'⟩ := Option.isSome_iff_exists.mp hSome
    obtain ⟨kind, hTaken⟩ := streamIndex_eq_some.mp hIndex'
    obtain ⟨kind', hTaken'⟩ := streamIndex_eq_some.mp (hSame.symm.trans hIndex')
    exact hPass.sound.injective taker other index kind kind' hTaken hTaken'
  · exact unnamed_eq hIndex
  · intro _ hEntry hKind
    obtain ⟨taker, record, hRecord, rfl⟩ := mem_entries.mp hEntry
    obtain ⟨index, hTaken⟩ := matchedBy_eq_some.mp hKind
    obtain ⟨record', stream, hRecord', hStream, hChecked, hCrc, hSize⟩ := hPass.sound.evident taker index .content hTaken
    exact ⟨index, record', stream, streamIndex_eq_some.mpr ⟨_, hTaken⟩, hRecord', hStream, hChecked, hCrc, hSize⟩
  · intro _ hEntry hKind
    obtain ⟨taker, record, hRecord, rfl⟩ := mem_entries.mp hEntry
    obtain ⟨index, hTaken⟩ := matchedBy_eq_some.mp hKind
    obtain ⟨record', stream, hRecord', hStream, base, hBase, -, hOffset⟩ := hPass.sound.evident taker index .offset hTaken
    obtain ⟨origin, hOrigin, rfl⟩ := Option.map_eq_some_iff.mp hBase
    exact ⟨index, record', stream, origin, streamIndex_eq_some.mpr ⟨_, hTaken⟩, hRecord', hStream, hOrigin, hOffset⟩
  · intro _ hEntry hNone record hRecord hChecked index hUnnamed stream hStream hContent
    obtain ⟨taker, record', hRecord', rfl⟩ := mem_entries.mp hEntry
    cases hRecord.symm.trans hRecord'
    rw [unnamed_eq hIndex, List.mem_filter, List.all_eq_true] at hUnnamed
    have hFree := (not_mem_claimed_iff hIndex).mpr fun entry hEntry => by simpa using hUnnamed.2 entry hEntry
    have hTaken := Option.map_eq_none_iff.mp hNone
    have hFits : contentFits record stream = true := by simp [contentFits, hContent]
    exact hFree (hPass.exhausted taker record hRecord' hTaken hChecked index stream hStream hFits)

/-- The mapping is the documented one unless origins tie. -/
theorem soundMapping_iff (hIndex : Positioned streams) :
    SoundMapping table streams overlay ↔ ¬Tied table streams overlay := by
  rw [← chooseOrigin_eq_preferred]
  exact ⟨SoundMapping.origin, fun hOrigin => ⟨build_partialInjection hIndex, hOrigin⟩⟩

/-! ### Two origins for one record -/

def soleRecord : FileTable := ⟨[⟨[0x61], 0x110, 16, 0, true⟩]⟩

def sixteenBytes (index offset : Nat) : StreamRecord := ⟨index, ⟨offset, 8, 16, 7, 7, .match_⟩, 0⟩

def stubOverlay : Overlay := ⟨0x1000, 0x1000, 0x2000⟩

def overlayChain : List StreamRecord := [sixteenBytes 0 0x1010, sixteenBytes 1 0x1110]

theorem overlayChain_sound : Positioned overlayChain ∧ SoundMapping soleRecord overlayChain stubOverlay := by
  have hIndex : Positioned overlayChain := by
    intro position stream h
    rcases position with _ | _ | position <;> cases h <;> rfl
  exact ⟨hIndex, (soundMapping_iff hIndex).mpr (chooseOrigin_eq_preferred.mp (by decide))⟩

def tiedChain : List StreamRecord := overlayChain ++ [sixteenBytes 2 0x1120]

theorem tiedChain_not_sound : Positioned tiedChain ∧ ¬SoundMapping soleRecord tiedChain stubOverlay := by
  constructor
  · intro position stream h
    rcases position with _ | _ | _ | position <;> cases h <;> rfl
  · intro h
    exact absurd h.origin (by decide)

end FileMap

end OpenHalfLife.Wise
