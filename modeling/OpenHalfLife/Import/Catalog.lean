import OpenHalfLife.Lib.Machine
import OpenHalfLife.Lib.Sorted
import OpenHalfLife.Protocol.Messages

/-! # The layout planner

Turns the entries of one enumeration into a catalog, or rejects the first
value that breaks a quota or a path rule. A string is the list of its UTF-8
bytes: the path rules and the order of the folded set are bytewise.
-/

namespace OpenHalfLife.Import

open Protocol

set_option autoImplicit false

abbrev Text := List UInt8

def slash : UInt8 := 0x2f

def backslash : UInt8 := 0x5c

def dot : UInt8 := 0x2e

def maxPathBytes : Nat := 4096

def appendComponent (normalized component : Text) : Option Text :=
  if component = [] then some normalized
  else if component = [dot] ∨ component = [dot, dot] then none
  else if normalized.length > 1 then some (normalized ++ [slash] ++ component)
  else some (normalized ++ component)

/-- Both separators split, repeated separators collapse, and the result starts
with a slash. -/
def normalizePath (path : Text) : Option Text :=
  if path.length > maxPathBytes ∨ 0 ∈ path then none
  else (path.splitOnP fun byte => byte = slash ∨ byte = backslash).foldlM appendComponent [slash]

def toAsciiLowercase (text : Text) : Text :=
  text.map fun byte => if 0x41 ≤ byte ∧ byte ≤ 0x5a then byte + 0x20 else byte

structure WorkerEpoch where
  value : UInt64
  ne_zero : value ≠ 0
  deriving DecidableEq

structure CatalogGeneration where
  epoch : WorkerEpoch
  enumeration : Nat
  enumeration_pos : 0 < enumeration
  deriving DecidableEq

structure NormalizedPath where
  text : Text
  normalized : ∃ path, normalizePath path = some text
  deriving DecidableEq

structure EntryMetadata where
  sourceToken : UInt64
  archivePath : Text
  sizeBytes : UInt64
  deriving DecidableEq, Repr

structure PlannedEntry where
  sourceToken : UInt64
  relativePath : NormalizedPath
  sizeBytes : UInt64
  deriving DecidableEq

def PlannedEntry.folded (entry : PlannedEntry) : Text := toAsciiLowercase entry.relativePath.text

inductive LayoutError
  | invalidLimits
  | tooManyEntries
  | tooManyPathBytes
  | sourceTokenConflict
  | invalidPath
  | pathConflict
  | entryTooLarge
  | payloadTooLarge
  deriving DecidableEq, Repr

structure ImportLimits where
  entries : Nat
  pathBytes : Nat
  entryBytes : Nat
  totalBytes : Nat
  entries_pos : 0 < entries
  entries_le : entries ≤ maximumEnumeratedEntries
  pathBytes_pos : 0 < pathBytes
  pathBytes_le : pathBytes ≤ maximumEnumeratedPathBytes
  entryBytes_pos : 0 < entryBytes
  entryBytes_le : entryBytes ≤ maximumEnumeratedEntryBytes
  totalBytes_pos : 0 < totalBytes
  totalBytes_le : totalBytes ≤ maximumEnumeratedTotalBytes
  entryBytes_le_total : entryBytes ≤ totalBytes

namespace ImportLimits

def new (maximumEntries maximumPathBytes maximumEntryBytes maximumTotalBytes : Nat) :
    Except LayoutError ImportLimits :=
  if h : maximumEntries = 0 ∨ maximumEntries > maximumEnumeratedEntries ∨
      maximumPathBytes = 0 ∨ maximumPathBytes > maximumEnumeratedPathBytes ∨
      maximumEntryBytes = 0 ∨ maximumEntryBytes > maximumEnumeratedEntryBytes ∨
      maximumTotalBytes = 0 ∨ maximumTotalBytes > maximumEnumeratedTotalBytes ∨
      maximumEntryBytes > maximumTotalBytes then
    .error .invalidLimits
  else
    .ok ⟨maximumEntries, maximumPathBytes, maximumEntryBytes, maximumTotalBytes, by omega, by omega,
      by omega, by omega, by omega, by omega, by omega, by omega, by omega⟩

def default : ImportLimits where
  entries := maximumEnumeratedEntries
  pathBytes := maximumEnumeratedPathBytes
  entryBytes := maximumEnumeratedEntryBytes
  totalBytes := maximumEnumeratedTotalBytes
  entries_pos := by decide
  entries_le := le_rfl
  pathBytes_pos := by decide
  pathBytes_le := le_rfl
  entryBytes_pos := by decide
  entryBytes_le := le_rfl
  totalBytes_pos := by decide
  totalBytes_le := le_rfl
  entryBytes_le_total := by decide

end ImportLimits

/-- A promoted catalog. The token index is strictly sorted and names entries by
their position. -/
structure Catalog where
  entries : List PlannedEntry
  byToken : List (UInt64 × Nat)
  totalBytes : Nat
  byToken_sorted : byToken.Pairwise fun a b => a.1 < b.1
  byToken_index : ∀ key ∈ byToken, (entries[key.2]?).map PlannedEntry.sourceToken = some key.1
  totalBytes_eq : totalBytes = (entries.map fun entry => entry.sizeBytes.toNat).sum

namespace Catalog

def find (catalog : Catalog) (token : UInt64) : Option PlannedEntry := do
  let key ← catalog.byToken.find? fun key => key.1 = token
  catalog.entries[key.2]?

theorem find_eq_some {catalog : Catalog} {token : UInt64} {entry : PlannedEntry}
    (h : catalog.find token = some entry) : entry ∈ catalog.entries ∧ entry.sourceToken = token := by
  obtain ⟨key, hKey, hEntry⟩ := Option.bind_eq_some_iff.mp h
  have hToken : key.1 = token := by simpa using List.find?_some hKey
  have hIndex := catalog.byToken_index key (List.mem_of_find?_eq_some hKey)
  rw [hEntry, hToken] at hIndex
  exact ⟨List.mem_of_getElem? hEntry, Option.some.inj hIndex⟩

end Catalog

structure Plan where
  planned : List PlannedEntry
  tokens : SortedSet UInt64
  folded : SortedSet Text
  pathBytes : Nat
  totalBytes : Nat
  tokens_perm : tokens.elements.Perm (planned.map PlannedEntry.sourceToken)
  folded_perm : folded.elements.Perm (planned.map PlannedEntry.folded)
  totalBytes_eq : totalBytes = (planned.map fun entry => entry.sizeBytes.toNat).sum

namespace Plan

def empty : Plan := ⟨[], .empty, .empty, 0, 0, .nil, .nil, rfl⟩

theorem perm_snoc {α β : Type} {f : α → β} {elements elements' : List β} {entries : List α} {a : α}
    (h : elements.Perm (entries.map f)) (h' : elements'.Perm (f a :: elements)) :
    elements'.Perm ((entries ++ [a]).map f) := by
  rw [List.map_append]
  exact h'.trans ((h.cons (f a)).trans (List.perm_append_singleton _ _).symm)

def add (limits : ImportLimits) (plan : Plan) (entry : EntryMetadata) : Except LayoutError Plan :=
  match hTokens : plan.tokens.insert entry.sourceToken with
  | none => .error .sourceTokenConflict
  | some tokens =>
    if entry.sizeBytes.toNat > limits.entryBytes then .error .entryTooLarge
    else if plan.totalBytes + entry.sizeBytes.toNat ≥ 2 ^ 64 ∨
        plan.totalBytes + entry.sizeBytes.toNat > limits.totalBytes then
      .error .payloadTooLarge
    else if plan.pathBytes + entry.archivePath.length ≥ 2 ^ 64 ∨
        plan.pathBytes + entry.archivePath.length > limits.pathBytes then
      .error .tooManyPathBytes
    else match hPath : normalizePath entry.archivePath with
      | none => .error .invalidPath
      | some normalized =>
        if normalized = [slash] then .error .invalidPath
        else match hFolded : plan.folded.insert (toAsciiLowercase normalized) with
          | none => .error .pathConflict
          | some folded =>
            .ok {
              planned := plan.planned ++
                [⟨entry.sourceToken, ⟨normalized, entry.archivePath, hPath⟩, entry.sizeBytes⟩]
              tokens := tokens
              folded := folded
              pathBytes := plan.pathBytes + entry.archivePath.length
              totalBytes := plan.totalBytes + entry.sizeBytes.toNat
              tokens_perm := perm_snoc plan.tokens_perm (SortedSet.insert_eq_some hTokens).2
              folded_perm := by exact perm_snoc plan.folded_perm (SortedSet.insert_eq_some hFolded).2
              totalBytes_eq := by simp [plan.totalBytes_eq] }

def addAll (limits : ImportLimits) (entries : List EntryMetadata) : Except LayoutError Plan :=
  entries.foldlM (add limits) empty

def byToken (plan : Plan) : List (UInt64 × Nat) :=
  (plan.planned.zipIdx.map fun entry => (entry.1.sourceToken, entry.2)).insertionSort
    fun a b => a.1 ≤ b.1

theorem tokens_nodup (plan : Plan) : (plan.planned.map PlannedEntry.sourceToken).Nodup :=
  plan.tokens_perm.nodup_iff.mp (plan.tokens.sorted.imp ne_of_lt)

theorem byToken_perm (plan : Plan) : plan.byToken.Perm
    (plan.planned.zipIdx.map fun entry => (entry.1.sourceToken, entry.2)) :=
  List.perm_insertionSort _ _

theorem byToken_sorted (plan : Plan) : plan.byToken.Pairwise fun a b => a.1 < b.1 := by
  have : Std.Total fun a b : UInt64 × Nat => a.1 ≤ b.1 := ⟨fun a b => le_total a.1 b.1⟩
  have : IsTrans (UInt64 × Nat) fun a b => a.1 ≤ b.1 := ⟨fun _ _ _ => le_trans⟩
  have hSorted : plan.byToken.Pairwise fun a b => a.1 ≤ b.1 := List.pairwise_insertionSort _ _
  have hKeys : (plan.byToken.map Prod.fst).Perm (plan.planned.map PlannedEntry.sourceToken) := by
    refine (plan.byToken_perm.map Prod.fst).trans (List.Perm.of_eq ?_)
    have hFirst := congrArg (List.map PlannedEntry.sourceToken) (List.zipIdx_map_fst 0 plan.planned)
    rw [List.map_map] at hFirst ⊢
    exact hFirst
  have hNodup : plan.byToken.Pairwise fun a b => a.1 ≠ b.1 :=
    List.pairwise_map.mp (hKeys.nodup_iff.mpr plan.tokens_nodup)
  exact (hSorted.and hNodup).imp fun h => lt_of_le_of_ne h.1 h.2

theorem byToken_index (plan : Plan) (key : UInt64 × Nat) (hKey : key ∈ plan.byToken) :
    (plan.planned[key.2]?).map PlannedEntry.sourceToken = some key.1 := by
  obtain ⟨entry, hEntry, rfl⟩ := List.mem_map.mp (plan.byToken_perm.mem_iff.mp hKey)
  rw [List.mem_zipIdx_iff_getElem?.mp hEntry]
  rfl

def catalog (plan : Plan) : Catalog where
  entries := plan.planned
  byToken := plan.byToken
  totalBytes := plan.totalBytes
  byToken_sorted := plan.byToken_sorted
  byToken_index := plan.byToken_index
  totalBytes_eq := plan.totalBytes_eq

end Plan

def isDirectoryPrefix (previous path : Text) : Bool :=
  path.length > previous.length && previous.isPrefixOf path && path[previous.length]? = some slash

def neighbourConflict : Option Text → List Text → Bool
  | _, [] => false
  | previous, path :: paths =>
    previous.any (isDirectoryPrefix · path) || neighbourConflict (some path) paths

def planCatalog (entries : List EntryMetadata) (limits : ImportLimits) :
    Except LayoutError Catalog := do
  if entries.length > limits.entries then .error .tooManyEntries
  else
    let plan ← Plan.addAll limits entries
    if neighbourConflict none plan.folded.elements then .error .pathConflict
    else .ok plan.catalog

end OpenHalfLife.Import
