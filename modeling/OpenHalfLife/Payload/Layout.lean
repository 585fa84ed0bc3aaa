import Mathlib.Algebra.BigOperators.Group.List.Basic
import Mathlib.Data.Finset.Insert
import Mathlib.Data.List.Sort
import OpenHalfLife.Lib.Checked
import OpenHalfLife.Payload.Path

/-! # Layout planning

Entries become destinations one by one, each checked against those before it.
What is accepted does not depend on the order: the checks on one entry after
another amount to conditions on the whole set.
-/

namespace OpenHalfLife.Payload

open Machine

set_option autoImplicit false

structure PayloadEntryMetadata where
  sourceToken : UInt64
  archivePath : Text
  sizeBytes : UInt64
  deriving DecidableEq, Repr

structure PayloadImportLimits where
  maximumEntries : Nat
  maximumPathBytes : UInt64
  maximumEntryBytes : UInt64
  maximumTotalBytes : UInt64
  deriving DecidableEq, Repr

namespace PayloadImportLimits

def default : PayloadImportLimits where
  maximumEntries := 50000
  maximumPathBytes := 64 * 1024 * 1024
  maximumEntryBytes := 8 * 1024 * 1024 * 1024
  maximumTotalBytes := 32 * 1024 * 1024 * 1024

def coherent (limits : PayloadImportLimits) : Bool :=
  limits.maximumEntries ≠ 0 ∧ limits.maximumPathBytes ≠ 0 ∧ limits.maximumEntryBytes ≠ 0 ∧
    limits.maximumTotalBytes ≠ 0 ∧ limits.maximumEntryBytes ≤ limits.maximumTotalBytes

example : default.coherent = true := by decide

end PayloadImportLimits

inductive PayloadLayoutError
  | invalidLimits
  | tooManyEntries
  | tooManyPathBytes
  | sourceTokenConflict
  | invalidPath (error : PayloadPathError)
  | pathConflict
  | entryTooLarge
  | payloadTooLarge
  deriving DecidableEq, Repr

structure PayloadLayoutRejection where
  error : PayloadLayoutError
  entryIndex : Option Nat
  deriving DecidableEq, Repr

structure PlannedPayloadEntry where
  sourceToken : UInt64
  path : PayloadPath
  sizeBytes : UInt64
  deriving DecidableEq

structure PayloadLayout where
  entries : List PlannedPayloadEntry
  totalBytes : Nat
  deriving DecidableEq

structure Planning where
  sourceTokens : Finset UInt64
  fileKeys : Finset Text
  directorySpellings : Text → Option Text
  planned : List PlannedPayloadEntry
  totalBytes : Nat
  totalPathBytes : Nat

namespace Planning

abbrev Step (α : Type) := Machine (Stop PayloadLayoutRejection) Planning α

def start : Planning := ⟨∅, ∅, fun _ => none, [], 0, 0⟩

def claimAncestor (rejection : PayloadLayoutRejection) (ancestor : Text × Text) : Step Unit := do
  let planning ← get
  rejectIf (ancestor.1 ∈ planning.fileKeys) (.error rejection)
  match planning.directorySpellings ancestor.1 with
  | some existing => rejectIf (existing ≠ ancestor.2) (.error rejection)
  | none => modify fun planning =>
      { planning with directorySpellings := Function.update planning.directorySpellings ancestor.1 (some ancestor.2) }

def claimToken (rejection : PayloadLayoutRejection) (token : UInt64) : Step Unit := do
  let planning ← get
  rejectIf (token ∈ planning.sourceTokens) (.error rejection)
  modify fun planning => { planning with sourceTokens := insert token planning.sourceTokens }

def checkQuotas (limits : PayloadImportLimits) (reject : PayloadLayoutError → PayloadLayoutRejection)
    (pathBytes sizeBytes : Nat) : Step Unit := do
  let planning ← get
  let pathRoom ← subOrPanic limits.maximumPathBytes.toNat planning.totalPathBytes
  rejectIf (pathBytes > pathRoom) (.error (reject .tooManyPathBytes))
  rejectIf (sizeBytes > limits.maximumEntryBytes.toNat) (.error (reject .entryTooLarge))
  let room ← subOrPanic limits.maximumTotalBytes.toNat planning.totalBytes
  rejectIf (sizeBytes > room) (.error (reject .payloadTooLarge))

def claimPath (rejection : PayloadLayoutRejection) (path : PayloadPath) : Step Unit := do
  let planning ← get
  rejectIf (path.portabilityKey ∈ planning.fileKeys ∨ (planning.directorySpellings path.portabilityKey).isSome)
    (.error rejection)
  path.ancestorKeys.forM (claimAncestor rejection)
  modify fun planning => { planning with fileKeys := insert path.portabilityKey planning.fileKeys }

def record (entry : PlannedPayloadEntry) (pathBytes : Nat) : Step Unit := do
  let planning ← get
  let totalBytes ← addOrPanic 64 planning.totalBytes entry.sizeBytes.toNat
  let totalPathBytes ← addOrPanic 64 planning.totalPathBytes pathBytes
  modify fun planning =>
    { planning with planned := planning.planned ++ [entry], totalBytes, totalPathBytes }

def planEntry (limits : PayloadImportLimits) (source : PayloadEntryMetadata × Nat) : Step Unit := do
  let reject (error : PayloadLayoutError) : PayloadLayoutRejection := ⟨error, some source.2⟩
  claimToken (reject .sourceTokenConflict) source.1.sourceToken
  let pathBytes := min source.1.archivePath.length (2 ^ 64 - 1)
  checkQuotas limits reject pathBytes source.1.sizeBytes.toNat
  let path ← ofExcept (fun error => .error (reject (.invalidPath error))) (PayloadPath.parse source.1.archivePath)
  claimPath (reject .pathConflict) path
  record ⟨source.1.sourceToken, path, source.1.sizeBytes⟩ pathBytes

end Planning

def keyOrder (first second : PlannedPayloadEntry) : Bool := first.path.portabilityKey ≤ second.path.portabilityKey

open Planning in
def planPayloadLayout (entries : List PayloadEntryMetadata) (limits : PayloadImportLimits) :
    Except (Stop PayloadLayoutRejection) PayloadLayout :=
  if limits.coherent = false then .error (.error ⟨.invalidLimits, none⟩)
  else if entries.length > limits.maximumEntries then .error (.error ⟨.tooManyEntries, none⟩)
  else match (entries.zipIdx.forM (planEntry limits)).exec start with
    | (.ok _, planning) => .ok
        ⟨planning.planned.mergeSort keyOrder, planning.totalBytes⟩
    | (.error stop, _) => .error stop

/-! ## The conditions on the whole set -/

def paths (entries : List PayloadEntryMetadata) : List PayloadPath :=
  entries.filterMap fun entry => (PayloadPath.parse entry.archivePath).toOption

def destinations (entries : List PayloadEntryMetadata) : List PlannedPayloadEntry :=
  entries.filterMap fun entry => (PayloadPath.parse entry.archivePath).toOption.map fun path =>
    ⟨entry.sourceToken, path, entry.sizeBytes⟩

def pathBytes (entries : List PayloadEntryMetadata) : Nat := (entries.map fun entry => entry.archivePath.length).sum

def sizeBytes (entries : List PayloadEntryMetadata) : Nat := (entries.map fun entry => entry.sizeBytes.toNat).sum

structure ConflictFree (limits : PayloadImportLimits) (entries : List PayloadEntryMetadata) : Prop where
  pathQuota : pathBytes entries ≤ limits.maximumPathBytes.toNat
  entryQuota : ∀ entry ∈ entries, entry.sizeBytes ≤ limits.maximumEntryBytes
  totalQuota : sizeBytes entries ≤ limits.maximumTotalBytes.toNat
  tokens : (entries.map PayloadEntryMetadata.sourceToken).Nodup
  parsed : ∀ entry ∈ entries, ∃ path, PayloadPath.parse entry.archivePath = .ok path
  keys : ((paths entries).map PayloadPath.portabilityKey).Nodup
  files : ∀ file ∈ paths entries, ∀ path ∈ paths entries, ∀ spelling,
    (file.portabilityKey, spelling) ∉ path.ancestorKeys
  directories : ∀ first ∈ paths entries, ∀ second ∈ paths entries, ∀ key spelling spelling',
    (key, spelling) ∈ first.ancestorKeys → (key, spelling') ∈ second.ancestorKeys → spelling = spelling'

structure Compatible (limits : PayloadImportLimits) (before : List PayloadEntryMetadata) (entry : PayloadEntryMetadata)
    (path : PayloadPath) : Prop where
  token : entry.sourceToken ∉ before.map PayloadEntryMetadata.sourceToken
  pathQuota : pathBytes before + entry.archivePath.length ≤ limits.maximumPathBytes.toNat
  entryQuota : entry.sizeBytes ≤ limits.maximumEntryBytes
  totalQuota : sizeBytes before + entry.sizeBytes.toNat ≤ limits.maximumTotalBytes.toNat
  parsed : PayloadPath.parse entry.archivePath = .ok path
  key : ∀ other ∈ paths before, other.portabilityKey ≠ path.portabilityKey
  notDirectory : ∀ other ∈ paths before, ∀ spelling, (path.portabilityKey, spelling) ∉ other.ancestorKeys
  notBelow : ∀ other ∈ paths before, ∀ spelling, (other.portabilityKey, spelling) ∉ path.ancestorKeys
  directories : ∀ other ∈ paths before, ∀ key spelling spelling',
    (key, spelling) ∈ other.ancestorKeys → (key, spelling') ∈ path.ancestorKeys → spelling = spelling'

section Conditions

variable {limits : PayloadImportLimits} {entries before after : List PayloadEntryMetadata}
  {entry : PayloadEntryMetadata} {path : PayloadPath}

theorem paths_append (before after : List PayloadEntryMetadata) : paths (before ++ after) = paths before ++ paths after :=
  List.filterMap_append

theorem paths_singleton (h : PayloadPath.parse entry.archivePath = .ok path) : paths [entry] = [path] := by
  simp [paths, h, Except.toOption]

theorem ConflictFree.append_left (h : ConflictFree limits (before ++ after)) : ConflictFree limits before := by
  have hPaths : ∀ path ∈ paths before, path ∈ paths (before ++ after) := by
    rw [paths_append]
    exact fun path hPath => List.mem_append_left _ hPath
  have hPathBytes := h.pathQuota
  have hSizes := h.totalQuota
  have hTokens := h.tokens
  have hKeys := h.keys
  simp only [pathBytes, List.map_append, List.sum_append] at hPathBytes
  simp only [sizeBytes, List.map_append, List.sum_append] at hSizes
  rw [List.map_append] at hTokens
  rw [paths_append, List.map_append] at hKeys
  exact {
    pathQuota := by rw [pathBytes]; omega
    entryQuota := fun entry hEntry => h.entryQuota entry (List.mem_append_left _ hEntry)
    totalQuota := by rw [sizeBytes]; omega
    tokens := (List.nodup_append.mp hTokens).1
    parsed := fun entry hEntry => h.parsed entry (List.mem_append_left _ hEntry)
    keys := (List.nodup_append.mp hKeys).1
    files := fun file hFile path hPath => h.files file (hPaths file hFile) path (hPaths path hPath)
    directories := fun first hFirst second hSecond =>
      h.directories first (hPaths first hFirst) second (hPaths second hSecond) }

variable (limits) in
theorem ConflictFree.nil : ConflictFree limits [] := by
  constructor <;> simp [pathBytes, sizeBytes, paths]

theorem conflictFree_concat :
    ConflictFree limits (before ++ [entry]) ↔ ConflictFree limits before ∧ ∃ path, Compatible limits before entry path := by
  constructor
  · intro h
    obtain ⟨path, hPath⟩ := h.parsed entry (by simp)
    have hPaths := paths_append before [entry]
    rw [paths_singleton hPath] at hPaths
    have hMem : ∀ other ∈ paths before, other ∈ paths (before ++ [entry]) := by
      rw [hPaths]
      exact fun other hOther => List.mem_append_left _ hOther
    have hLast : path ∈ paths (before ++ [entry]) := by
      rw [hPaths]
      exact List.mem_append_right _ List.mem_cons_self
    have hPathBytes := h.pathQuota
    have hSizes := h.totalQuota
    have hTokens := h.tokens
    have hKeys := h.keys
    rw [hPaths, List.map_append, List.nodup_append] at hKeys
    rw [List.map_append, List.nodup_append] at hTokens
    refine ⟨h.append_left, path, ?_⟩
    exact {
      token := fun hToken => hTokens.2.2 _ hToken _ (by simp) rfl
      pathQuota := by simpa [pathBytes] using hPathBytes
      entryQuota := h.entryQuota entry (by simp)
      totalQuota := by simpa [sizeBytes] using hSizes
      parsed := hPath
      key := fun other hOther => hKeys.2.2 _ (List.mem_map_of_mem hOther) _ (by simp)
      notDirectory := fun other hOther => h.files path hLast other (hMem other hOther)
      notBelow := fun other hOther => h.files other (hMem other hOther) path hLast
      directories := fun other hOther => h.directories other (hMem other hOther) path hLast }
  · rintro ⟨h, path, hNew⟩
    have hPaths := paths_append before [entry]
    rw [paths_singleton hNew.parsed] at hPaths
    have hMem : ∀ other, other ∈ paths (before ++ [entry]) ↔ other ∈ paths before ∨ other = path := by
      rw [hPaths]
      simp
    have hPathBytes := hNew.pathQuota
    have hSizes := hNew.totalQuota
    exact {
      pathQuota := by simpa [pathBytes] using hPathBytes
      entryQuota := by
        intro other hOther
        rcases List.mem_append.mp hOther with hOther | hOther
        · exact h.entryQuota other hOther
        · rw [List.mem_singleton.mp hOther]
          exact hNew.entryQuota
      totalQuota := by simpa [sizeBytes] using hSizes
      tokens := by
        rw [List.map_append, List.nodup_append]
        refine ⟨h.tokens, by simp, ?_⟩
        rintro token hToken _ hLast rfl
        rw [List.map_singleton, List.mem_singleton] at hLast
        exact hNew.token (hLast ▸ hToken)
      parsed := by
        intro other hOther
        rcases List.mem_append.mp hOther with hOther | hOther
        · exact h.parsed other hOther
        · rw [List.mem_singleton.mp hOther]
          exact ⟨path, hNew.parsed⟩
      keys := by
        rw [hPaths, List.map_append, List.nodup_append]
        refine ⟨h.keys, by simp, ?_⟩
        rintro key hKey _ hLast rfl
        rw [List.map_singleton, List.mem_singleton] at hLast
        obtain ⟨other, hOther, hSame⟩ := List.mem_map.mp hKey
        exact hNew.key other hOther (hSame.trans hLast)
      files := by
        intro file hFile other hOther spelling
        rcases (hMem file).mp hFile with hFile | rfl <;> rcases (hMem other).mp hOther with hOther | rfl
        · exact h.files file hFile other hOther spelling
        · exact hNew.notBelow file hFile spelling
        · exact hNew.notDirectory other hOther spelling
        · exact fun hAncestor => PayloadPath.ancestor_ne_key hAncestor rfl
      directories := by
        intro first hFirst second hSecond key spelling spelling' hKey hKey'
        rcases (hMem first).mp hFirst with hFirst | rfl <;> rcases (hMem second).mp hSecond with hSecond | rfl
        · exact h.directories first hFirst second hSecond key spelling spelling' hKey hKey'
        · exact hNew.directories first hFirst key spelling spelling' hKey hKey'
        · exact (hNew.directories second hSecond key spelling' spelling hKey' hKey).symm
        · exact PayloadPath.ancestor_spelling hKey hKey' }

theorem ConflictFree.perm (h : ConflictFree limits before) (hPerm : before.Perm after) : ConflictFree limits after := by
  have hPaths : (paths before).Perm (paths after) := hPerm.filterMap _
  exact {
    pathQuota := by rw [pathBytes, ← (hPerm.map _).sum_eq]; exact h.pathQuota
    entryQuota := fun entry hEntry => h.entryQuota entry (hPerm.mem_iff.mpr hEntry)
    totalQuota := by rw [sizeBytes, ← (hPerm.map _).sum_eq]; exact h.totalQuota
    tokens := (hPerm.map _).nodup_iff.mp h.tokens
    parsed := fun entry hEntry => h.parsed entry (hPerm.mem_iff.mpr hEntry)
    keys := (hPaths.map _).nodup_iff.mp h.keys
    files := fun file hFile path hPath => h.files file (hPaths.mem_iff.mpr hFile) path (hPaths.mem_iff.mpr hPath)
    directories := fun first hFirst second hSecond =>
      h.directories first (hPaths.mem_iff.mpr hFirst) second (hPaths.mem_iff.mpr hSecond) }

end Conditions

/-! ## One entry -/

namespace Planning

section Steps

variable {limits : PayloadImportLimits} {before entries : List PayloadEntryMetadata} {entry : PayloadEntryMetadata}
  {path : PayloadPath} {planning : Planning} {rejection : PayloadLayoutRejection}

/-- The state of the loop after the entries `before`. -/
structure After (before : List PayloadEntryMetadata) (planning : Planning) : Prop where
  sourceTokens : ∀ token, token ∈ planning.sourceTokens ↔ token ∈ before.map PayloadEntryMetadata.sourceToken
  fileKeys : ∀ key, key ∈ planning.fileKeys ↔ ∃ path ∈ paths before, path.portabilityKey = key
  directorySpellings : ∀ key spelling, planning.directorySpellings key = some spelling ↔
    ∃ path ∈ paths before, (key, spelling) ∈ path.ancestorKeys
  planned : planning.planned = destinations before
  totalBytes : planning.totalBytes = sizeBytes before
  totalPathBytes : planning.totalPathBytes = pathBytes before

theorem after_nil : After [] start := by
  constructor <;> simp [start, paths, destinations, sizeBytes, pathBytes]

theorem claimToken_ensures {token : UInt64} :
    Ensures (claimToken rejection token) planning
      (fun _ t => token ∉ planning.sourceTokens ∧
        t = { planning with sourceTokens := insert token planning.sourceTokens })
      fun stop _ => stop = .error rejection ∧ token ∈ planning.sourceTokens := by
  rw [claimToken, ensures_bind, ensures_get, ensures_bind, ensures_rejectIf]
  exact ⟨fun hToken => ⟨rfl, hToken⟩, fun hToken => ensures_modify.mpr ⟨hToken, rfl⟩⟩

theorem checkQuotas_ensures {reject : PayloadLayoutError → PayloadLayoutRejection} {pathBytes sizeBytes : Nat}
    (hPath : planning.totalPathBytes ≤ limits.maximumPathBytes.toNat)
    (hTotal : planning.totalBytes ≤ limits.maximumTotalBytes.toNat) :
    Ensures (checkQuotas limits reject pathBytes sizeBytes) planning
      (fun _ t => t = planning ∧ planning.totalPathBytes + pathBytes ≤ limits.maximumPathBytes.toNat ∧
        sizeBytes ≤ limits.maximumEntryBytes.toNat ∧ planning.totalBytes + sizeBytes ≤ limits.maximumTotalBytes.toNat)
      fun stop _ => (∃ error, stop = .error (reject error)) ∧
        ¬(planning.totalPathBytes + pathBytes ≤ limits.maximumPathBytes.toNat ∧
          sizeBytes ≤ limits.maximumEntryBytes.toNat ∧
          planning.totalBytes + sizeBytes ≤ limits.maximumTotalBytes.toNat) := by
  rw [checkQuotas, ensures_bind, ensures_get, ensures_bind, ensures_subOrPanic hPath, ensures_bind, ensures_rejectIf]
  refine ⟨fun hMany => ⟨⟨_, rfl⟩, by omega⟩, fun hPathFits => ?_⟩
  rw [ensures_bind, ensures_rejectIf]
  refine ⟨fun hLarge => ⟨⟨_, rfl⟩, by omega⟩, fun hEntryFits => ?_⟩
  rw [ensures_bind, ensures_subOrPanic hTotal, ensures_rejectIf]
  exact ⟨fun hMany => ⟨⟨_, rfl⟩, by omega⟩, fun hFits => ⟨rfl, by omega, by omega, by omega⟩⟩

theorem claimAncestor_ensures {ancestor : Text × Text} :
    Ensures (claimAncestor rejection ancestor) planning
      (fun _ t => (ancestor.1 ∉ planning.fileKeys ∧
          ∀ existing, planning.directorySpellings ancestor.1 = some existing → existing = ancestor.2) ∧
        ∃ spellings, t = { planning with directorySpellings := spellings } ∧ ∀ key spelling,
          spellings key = some spelling ↔ planning.directorySpellings key = some spelling ∨ (key, spelling) = ancestor)
      fun stop _ => stop = .error rejection ∧ (ancestor.1 ∈ planning.fileKeys ∨
        ∃ existing, planning.directorySpellings ancestor.1 = some existing ∧ existing ≠ ancestor.2) := by
  obtain ⟨key, spelling⟩ := ancestor
  rw [claimAncestor, ensures_bind, ensures_get, ensures_bind, ensures_rejectIf]
  refine ⟨fun hFile => ⟨rfl, .inl hFile⟩, fun hFree => ?_⟩
  cases hSpelling : planning.directorySpellings key with
  | some existing =>
    rw [ensures_rejectIf]
    refine ⟨fun hOther => ⟨rfl, .inr ⟨existing, rfl, hOther⟩⟩, fun hSame => ?_⟩
    obtain rfl : existing = spelling := not_not.mp hSame
    refine ⟨⟨hFree, fun other hOther => (Option.some.inj hOther).symm⟩, planning.directorySpellings, rfl, ?_⟩
    intro key' spelling'
    constructor
    · exact .inl
    · rintro (h | h)
      · exact h
      · cases h
        exact hSpelling
  | none =>
    rw [ensures_modify]
    refine ⟨⟨hFree, fun other hOther => absurd hOther (by simp)⟩, _, rfl, ?_⟩
    intro key' spelling'
    by_cases hSame : key' = key
    · subst hSame
      simp [hSpelling, eq_comm]
    · simp [hSame]

theorem claimAncestors_ensures {ancestors : List (Text × Text)}
    (hOnce : ∀ key spelling spelling', (key, spelling) ∈ ancestors → (key, spelling') ∈ ancestors → spelling = spelling') :
    Ensures (ancestors.forM (claimAncestor rejection)) planning
      (fun _ t => (∀ ancestor ∈ ancestors, ancestor.1 ∉ planning.fileKeys ∧
          ∀ existing, planning.directorySpellings ancestor.1 = some existing → existing = ancestor.2) ∧
        ∃ spellings, t = { planning with directorySpellings := spellings } ∧ ∀ key spelling,
          spellings key = some spelling ↔ planning.directorySpellings key = some spelling ∨ (key, spelling) ∈ ancestors)
      fun stop _ => stop = .error rejection ∧ ∃ ancestor ∈ ancestors, ancestor.1 ∈ planning.fileKeys ∨
        ∃ existing, planning.directorySpellings ancestor.1 = some existing ∧ existing ≠ ancestor.2 := by
  induction ancestors generalizing planning with
  | nil => exact ensures_pure.mpr ⟨by simp, planning.directorySpellings, rfl, by simp⟩
  | cons ancestor ancestors ih =>
    have hRest : ∀ key spelling spelling', (key, spelling) ∈ ancestors → (key, spelling') ∈ ancestors →
        spelling = spelling' := fun key spelling spelling' h h' =>
      hOnce key spelling spelling' (List.mem_cons_of_mem _ h) (List.mem_cons_of_mem _ h')
    change Ensures (claimAncestor rejection ancestor >>= fun _ => ancestors.forM (claimAncestor rejection)) planning _ _
    rw [ensures_bind]
    refine claimAncestor_ensures.mono ?_ fun stop _ h => ⟨h.1, ancestor, List.mem_cons_self, h.2⟩
    rintro _ t ⟨hFirst, spellings, rfl, hSpellings⟩
    refine (ih hRest).mono ?_ ?_
    · rintro _ t ⟨hEach, spellings', rfl, hSpellings'⟩
      refine ⟨?_, spellings', rfl, fun key spelling => ?_⟩
      · intro other hOther
        rcases List.mem_cons.mp hOther with rfl | hOther
        · exact hFirst
        · exact ⟨(hEach other hOther).1, fun existing hExisting =>
            (hEach other hOther).2 existing ((hSpellings _ _).mpr (.inl hExisting))⟩
      · rw [hSpellings', hSpellings, List.mem_cons, or_assoc]
    · rintro stop _ ⟨rfl, ⟨key, spelling⟩, hOther, hBad⟩
      refine ⟨rfl, (key, spelling), List.mem_cons_of_mem _ hOther, ?_⟩
      rcases hBad with hFile | ⟨existing, hExisting, hNe⟩
      · exact .inl hFile
      · rcases (hSpellings _ _).mp hExisting with hExisting | rfl
        · exact .inr ⟨existing, hExisting, hNe⟩
        · exact absurd (hOnce _ _ _ List.mem_cons_self (List.mem_cons_of_mem _ hOther)) hNe

theorem claimPath_ensures (hFiles : ∀ key, key ∈ planning.fileKeys ↔ ∃ path ∈ paths before, path.portabilityKey = key)
    (hDirectories : ∀ key spelling, planning.directorySpellings key = some spelling ↔
      ∃ path ∈ paths before, (key, spelling) ∈ path.ancestorKeys) :
    Ensures (claimPath rejection path) planning
      (fun _ t => ((∀ other ∈ paths before, other.portabilityKey ≠ path.portabilityKey) ∧
          (∀ other ∈ paths before, ∀ spelling, (path.portabilityKey, spelling) ∉ other.ancestorKeys) ∧
          (∀ other ∈ paths before, ∀ spelling, (other.portabilityKey, spelling) ∉ path.ancestorKeys) ∧
          ∀ other ∈ paths before, ∀ key spelling spelling', (key, spelling) ∈ other.ancestorKeys →
            (key, spelling') ∈ path.ancestorKeys → spelling = spelling') ∧
        ∃ spellings, t = { planning with
            directorySpellings := spellings, fileKeys := insert path.portabilityKey planning.fileKeys } ∧
          ∀ key spelling, spellings key = some spelling ↔
            ∃ other, (other ∈ paths before ∨ other = path) ∧ (key, spelling) ∈ other.ancestorKeys)
      fun stop _ => stop = .error rejection ∧ ∀ entry limits, ¬Compatible limits before entry path := by
  rw [claimPath, ensures_bind, ensures_get, ensures_bind, ensures_rejectIf]
  constructor
  · intro hTaken
    refine ⟨rfl, fun entry limits hCompatible => ?_⟩
    rcases hTaken with hFile | hDirectory
    · obtain ⟨other, hOther, hSame⟩ := (hFiles _).mp hFile
      exact hCompatible.key other hOther hSame
    · obtain ⟨spelling, hSpelling⟩ := Option.isSome_iff_exists.mp hDirectory
      obtain ⟨other, hOther, hAncestor⟩ := (hDirectories _ _).mp hSpelling
      exact hCompatible.notDirectory other hOther spelling hAncestor
  · intro hNew
    obtain ⟨hFile, hDirectory⟩ := not_or.mp hNew
    rw [ensures_bind]
    refine (claimAncestors_ensures fun key spelling spelling' => PayloadPath.ancestor_spelling).mono ?_ ?_
    · rintro _ t ⟨hEach, spellings, rfl, hSpellings⟩
      rw [ensures_modify]
      refine ⟨⟨?_, ?_, ?_, ?_⟩, spellings, rfl, fun key spelling => ?_⟩
      · exact fun other hOther hSame => hFile ((hFiles _).mpr ⟨other, hOther, hSame⟩)
      · intro other hOther spelling hAncestor
        exact hDirectory (by rw [(hDirectories _ _).mpr ⟨other, hOther, hAncestor⟩]; rfl)
      · exact fun other hOther spelling hAncestor => (hEach _ hAncestor).1 ((hFiles _).mpr ⟨other, hOther, rfl⟩)
      · exact fun other hOther key spelling spelling' hOld hOwn =>
          (hEach _ hOwn).2 spelling ((hDirectories _ _).mpr ⟨other, hOther, hOld⟩)
      · rw [hSpellings, hDirectories]
        simp only [or_and_right, exists_or, exists_eq_left]
    · rintro stop _ ⟨rfl, ⟨key, spelling⟩, hAncestor, hBad⟩
      refine ⟨rfl, fun entry limits hCompatible => ?_⟩
      rcases hBad with hFile' | ⟨existing, hExisting, hNe⟩
      · obtain ⟨other, hOther, rfl⟩ := (hFiles _).mp hFile'
        exact hCompatible.notBelow other hOther spelling hAncestor
      · obtain ⟨other, hOther, hOld⟩ := (hDirectories _ _).mp hExisting
        exact hNe (hCompatible.directories other hOther key existing spelling hOld hAncestor)

theorem After.concat (h : After before planning) (hPath : PayloadPath.parse entry.archivePath = .ok path)
    {spellings : Text → Option Text} (hSpellings : ∀ key spelling, spellings key = some spelling ↔
      ∃ other, (other ∈ paths before ∨ other = path) ∧ (key, spelling) ∈ other.ancestorKeys) :
    After (before ++ [entry])
      { sourceTokens := insert entry.sourceToken planning.sourceTokens
        fileKeys := insert path.portabilityKey planning.fileKeys
        directorySpellings := spellings
        planned := planning.planned ++ [⟨entry.sourceToken, path, entry.sizeBytes⟩]
        totalBytes := planning.totalBytes + entry.sizeBytes.toNat
        totalPathBytes := planning.totalPathBytes + entry.archivePath.length } := by
  have hPaths : ∀ other, other ∈ paths (before ++ [entry]) ↔ other ∈ paths before ∨ other = path := by
    rw [paths_append, paths_singleton hPath]
    simp
  constructor
  · intro token
    rw [Finset.mem_insert, h.sourceTokens]
    simp [or_comm]
  · intro key
    simp [hPaths, h.fileKeys, or_and_right, exists_or, or_comm, eq_comm]
  · simpa [hPaths] using hSpellings
  · simp [h.planned, destinations, hPath, Except.toOption]
  · simp [h.totalBytes, sizeBytes]
  · simp [h.totalPathBytes, pathBytes]

theorem planEntry_ensures (h : After before planning) (hFree : ConflictFree limits before) (index : Nat) :
    Ensures (planEntry limits (entry, index)) planning
      (fun _ t => (∃ path, Compatible limits before entry path) ∧ After (before ++ [entry]) t)
      fun stop _ => (∃ rejection, stop = .error rejection) ∧ ∀ path, ¬Compatible limits before entry path := by
  have hPathRoom : planning.totalPathBytes ≤ limits.maximumPathBytes.toNat := h.totalPathBytes ▸ hFree.pathQuota
  have hRoom : planning.totalBytes ≤ limits.maximumTotalBytes.toNat := h.totalBytes ▸ hFree.totalQuota
  rw [planEntry, ensures_bind]
  refine claimToken_ensures.mono ?_ fun stop _ hTaken => ?_
  · rintro _ t ⟨hToken, rfl⟩
    rw [ensures_bind]
    refine (checkQuotas_ensures (by exact hPathRoom) (by exact hRoom)).mono ?_ fun stop _ hOver => ?_
    · rintro _ t ⟨rfl, hPathQuota, hEntryQuota, hTotalQuota⟩
      rw [ensures_bind, ensures_ofExcept]
      refine ⟨fun path hPath => ?_, fun error hPath => ⟨⟨_, rfl⟩, fun path hCompatible => ?_⟩⟩
      · have hLength := PayloadPath.length_le_of_parse hPath
        have hBytes : min entry.archivePath.length (2 ^ 64 - 1) = entry.archivePath.length :=
          Nat.min_eq_left (hLength.trans (by decide))
        dsimp only at hPath hPathQuota hEntryQuota hTotalQuota ⊢
        rw [hBytes] at hPathQuota ⊢
        have hTotalWidth := limits.maximumTotalBytes.toNat_lt
        have hPathWidth := limits.maximumPathBytes.toNat_lt
        rw [ensures_bind]
        refine (claimPath_ensures (by exact h.fileKeys) (by exact h.directorySpellings)).mono ?_ ?_
        · rintro _ t ⟨⟨hKey, hDirectory, hBelow, hSpelled⟩, spellings, rfl, hSpellings⟩
          rw [record, ensures_bind, ensures_get, ensures_bind, ensures_addOrPanic (by dsimp only; omega), ensures_bind,
            ensures_addOrPanic (by dsimp only; omega), ensures_modify]
          rw [h.totalBytes] at hTotalQuota
          rw [h.totalPathBytes] at hPathQuota
          exact ⟨⟨path, (hToken <| (h.sourceTokens _).mpr ·), hPathQuota, hEntryQuota, hTotalQuota, hPath, hKey,
            hDirectory, hBelow, hSpelled⟩, h.concat hPath hSpellings⟩
        · rintro stop _ ⟨rfl, hNone⟩
          refine ⟨⟨_, rfl⟩, fun path' hCompatible => hNone entry limits ?_⟩
          cases hPath.symm.trans hCompatible.parsed
          exact hCompatible
      · cases hPath.symm.trans hCompatible.parsed
    · obtain ⟨⟨error, rfl⟩, hOver⟩ := hOver
      refine ⟨⟨_, rfl⟩, fun path hCompatible => hOver ⟨?_, hCompatible.entryQuota, h.totalBytes ▸ hCompatible.totalQuota⟩⟩
      have hQuota := hCompatible.pathQuota
      rw [← h.totalPathBytes] at hQuota
      dsimp only
      omega
  · obtain ⟨rfl, hToken⟩ := hTaken
    exact ⟨⟨_, rfl⟩, fun path hCompatible => hCompatible.token ((h.sourceTokens _).mp hToken)⟩

theorem planEntries_ensures (h : After before planning) (hFree : ConflictFree limits before) (rest : List PayloadEntryMetadata)
    (index : Nat) :
    Ensures ((rest.zipIdx index).forM (planEntry limits)) planning
      (fun _ t => ConflictFree limits (before ++ rest) ∧ After (before ++ rest) t)
      fun stop _ => (∃ rejection, stop = .error rejection) ∧ ¬ConflictFree limits (before ++ rest) := by
  induction rest generalizing before planning index with
  | nil => exact ensures_pure.mpr (by simpa using ⟨hFree, h⟩)
  | cons entry rest ih =>
    have hSplit : before ++ entry :: rest = before ++ [entry] ++ rest := by simp
    rw [List.zipIdx_cons, hSplit]
    change Ensures (planEntry limits (entry, index) >>= fun _ => (rest.zipIdx (index + 1)).forM (planEntry limits))
      planning _ _
    rw [ensures_bind]
    refine (planEntry_ensures h hFree index).mono ?_ ?_
    · rintro _ t ⟨hCompatible, hAfter⟩
      exact ih hAfter (conflictFree_concat.mpr ⟨hFree, hCompatible⟩) (index + 1)
    · rintro stop _ ⟨hRejected, hNone⟩
      refine ⟨hRejected, fun hAll => ?_⟩
      obtain ⟨path, hCompatible⟩ := (conflictFree_concat.mp hAll.append_left).2
      exact hNone path hCompatible

end Steps

end Planning

/-! ## The plan -/

section Plan

variable {limits : PayloadImportLimits} {entries entries' : List PayloadEntryMetadata} {layout : PayloadLayout}

/-- A set of entries within coherent limits and free of conflicts. -/
structure Acceptable (limits : PayloadImportLimits) (entries : List PayloadEntryMetadata) : Prop
    extends ConflictFree limits entries where
  coherent : limits.coherent = true
  count : entries.length ≤ limits.maximumEntries

theorem Acceptable.perm (h : Acceptable limits entries) (hPerm : entries.Perm entries') : Acceptable limits entries' :=
  ⟨h.toConflictFree.perm hPerm, h.coherent, hPerm.length_eq ▸ h.count⟩

def layoutOf (entries : List PayloadEntryMetadata) : PayloadLayout :=
  ⟨(destinations entries).mergeSort keyOrder, sizeBytes entries⟩

theorem planPayloadLayout_of_acceptable (h : Acceptable limits entries) :
    planPayloadLayout entries limits = .ok (layoutOf entries) := by
  have hRun := Planning.planEntries_ensures Planning.after_nil (ConflictFree.nil limits) entries 0
  rw [List.nil_append] at hRun
  obtain ⟨_, planning, hExec, -, hAfter⟩ := (hRun.mono (fun _ _ h => h) fun _ _ hStop => hStop.2 h.toConflictFree).exists_ok
  rw [planPayloadLayout, if_neg (by simp [h.coherent]), if_neg (Nat.not_lt.mpr h.count), hExec]
  simp only [hAfter.planned, hAfter.totalBytes]
  rfl

theorem planPayloadLayout_of_not (h : ¬Acceptable limits entries) :
    ∃ rejection, planPayloadLayout entries limits = .error (.error rejection) := by
  rw [planPayloadLayout]
  by_cases hCoherent : limits.coherent = false
  · exact ⟨_, if_pos hCoherent⟩
  · rw [if_neg hCoherent]
    by_cases hCount : entries.length > limits.maximumEntries
    · exact ⟨_, if_pos hCount⟩
    · rw [if_neg hCount]
      have hRun := Planning.planEntries_ensures Planning.after_nil (ConflictFree.nil limits) entries 0
      rw [List.nil_append] at hRun
      have hFails : Ensures ((entries.zipIdx).forM (Planning.planEntry limits)) Planning.start (fun _ _ => False)
          fun stop _ => ∃ rejection, stop = .error rejection := by
        refine hRun.mono (fun _ _ hOk => h ⟨hOk.1, by simpa using hCoherent, by omega⟩) fun _ _ hStop => hStop.1
      obtain ⟨stop, planning, hExec, rejection, rfl⟩ := hFails.exists_error
      exact ⟨rejection, by rw [hExec]⟩

theorem planPayloadLayout_eq_ok : planPayloadLayout entries limits = .ok layout ↔
    Acceptable limits entries ∧ layout = layoutOf entries := by
  constructor
  · intro h
    by_cases hAcceptable : Acceptable limits entries
    · rw [planPayloadLayout_of_acceptable hAcceptable] at h
      exact ⟨hAcceptable, (Except.ok.inj h).symm⟩
    · obtain ⟨rejection, hError⟩ := planPayloadLayout_of_not hAcceptable
      rw [hError] at h
      cases h
  · rintro ⟨h, rfl⟩
    exact planPayloadLayout_of_acceptable h

structure Describes (entry : PayloadEntryMetadata) (planned : PlannedPayloadEntry) : Prop where
  token : planned.sourceToken = entry.sourceToken
  path : PayloadPath.parse entry.archivePath = .ok planned.path
  size : planned.sizeBytes = entry.sizeBytes

theorem describes_destinations (h : ∀ entry ∈ entries, ∃ path, PayloadPath.parse entry.archivePath = .ok path) :
    List.Forall₂ Describes entries (destinations entries) := by
  induction entries with
  | nil => exact .nil
  | cons entry entries ih =>
    obtain ⟨path, hPath⟩ := h entry List.mem_cons_self
    have hCons : destinations (entry :: entries) = ⟨entry.sourceToken, path, entry.sizeBytes⟩ :: destinations entries := by
      simp [destinations, hPath, Except.toOption]
    rw [hCons]
    exact .cons ⟨rfl, hPath, rfl⟩ (ih fun other hOther => h other (List.mem_cons_of_mem _ hOther))

theorem keys_destinations (entries : List PayloadEntryMetadata) :
    (destinations entries).map (fun planned => planned.path.portabilityKey) =
      (paths entries).map PayloadPath.portabilityKey := by
  rw [destinations, paths, List.map_filterMap, List.map_filterMap]
  simp [Function.comp_def]

theorem pairwise_layoutOf (h : ((paths entries).map PayloadPath.portabilityKey).Nodup) :
    (layoutOf entries).entries.Pairwise fun first second => first.path.portabilityKey < second.path.portabilityKey := by
  have hSorted : ((destinations entries).mergeSort keyOrder).Pairwise fun first second => keyOrder first second := by
    apply List.pairwise_mergeSort
    · intro a b c hab hbc
      simp only [keyOrder, decide_eq_true_eq] at hab hbc ⊢
      exact hab.trans hbc
    · intro a b
      simpa [keyOrder] using le_total a.path.portabilityKey b.path.portabilityKey
  have hNodup : ((destinations entries).mergeSort keyOrder).Pairwise fun first second =>
      first.path.portabilityKey ≠ second.path.portabilityKey := by
    rw [← keys_destinations] at h
    rw [← List.pairwise_map]
    exact ((List.mergeSort_perm _ _).map _).nodup_iff.mpr h
  refine (hSorted.and hNodup).imp fun {first second} hPair => lt_of_le_of_ne ?_ hPair.2
  simpa [keyOrder] using hPair.1

theorem layoutOf_perm (h : Acceptable limits entries) (hPerm : entries.Perm entries') : layoutOf entries = layoutOf entries' := by
  have hSizes : sizeBytes entries = sizeBytes entries' := (hPerm.map _).sum_eq
  have hEntries : (layoutOf entries).entries = (layoutOf entries').entries := by
    refine List.Perm.eq_of_pairwise (fun a b _ _ hab hba => absurd hba (lt_asymm hab)) (pairwise_layoutOf h.keys)
      (pairwise_layoutOf (h.perm hPerm).keys) ?_
    exact ((List.mergeSort_perm _ _).trans (hPerm.filterMap _)).trans (List.mergeSort_perm _ _).symm
  rw [layoutOf, layoutOf, PayloadLayout.mk.injEq]
  exact ⟨hEntries, hSizes⟩

def SameOutcome {ε α : Type} (first second : Except (Stop ε) α) : Prop :=
  (∃ a, first = .ok a ∧ second = .ok a) ∨ ∃ e e', first = .error (.error e) ∧ second = .error (.error e')

theorem planPayloadLayout_perm (limits : PayloadImportLimits) (hPerm : entries.Perm entries') :
    SameOutcome (planPayloadLayout entries limits) (planPayloadLayout entries' limits) := by
  by_cases h : Acceptable limits entries
  · rw [planPayloadLayout_of_acceptable h, planPayloadLayout_of_acceptable (h.perm hPerm), layoutOf_perm h hPerm]
    exact .inl ⟨_, rfl, rfl⟩
  · obtain ⟨e, hFirst⟩ := planPayloadLayout_of_not h
    obtain ⟨e', hSecond⟩ := planPayloadLayout_of_not fun h' => h (h'.perm hPerm.symm)
    exact .inr ⟨e, e', hFirst, hSecond⟩

end Plan

end OpenHalfLife.Payload
