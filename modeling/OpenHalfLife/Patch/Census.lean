import Mathlib.Algebra.BigOperators.Group.List.Basic
import OpenHalfLife.Patch.Walk

/-! # What a walk asks of the tree

A walk ends well exactly if all it comes to, taken together, meets its
conditions. None of them depends on the order, and neither does what the walk
ends with, the numbers of its files apart.
-/

namespace OpenHalfLife.Patch

open Payload Setting

set_option autoImplicit false

structure Addition (H : Type) where
  key : Text
  file : BaseFile H

namespace Event

variable {H : Type}

def children : Event H → Nat
  | .directory _ => 0
  | .child .. => 1

def relative : Event H → Text
  | .child task (some ⟨some name, _, _⟩) => join task.parent name
  | _ => []

def file? : Event H → Option (Text × H)
  | .child task (some ⟨some name, path, some .file⟩) =>
    (PayloadPath.parse (join task.parent name)).toOption.map fun normalized => (normalized.portabilityKey, path)
  | _ => none

end Event

def keys {H : Type} (events : List (Event H)) : List Text := (events.filterMap Event.file?).map Prod.fst

def visits {H : Type} (events : List (Event H)) : Nat := (events.map Event.children).sum

def pathBytes {H : Type} (events : List (Event H)) : Nat := (events.map fun event => event.relative.length).sum

/-- `held` is what the patch has. -/
structure Census (H : Type) extends Setting H where
  held : SortedMap Text PayloadEntryMetadata
  token : UInt64

namespace Census

variable {H : Type} (census : Census H)

def addition? (event : Event H) : Option (Addition H) :=
  event.file?.bind fun found =>
    if (census.held.get? found.1).isSome then none
    else (census.baseFile? found.2).map fun file => ⟨found.1, file⟩

def additions (events : List (Event H)) : List (Addition H) := events.filterMap census.addition?

def chunks (addition : Addition H) : Nat := (offsets addition.file.size).length

def polls (events : List (Event H)) : Nat := events.length + ((census.additions events).map chunks).sum

def totalBytes (events : List (Event H)) : Nat :=
  ((census.additions events).map fun addition => addition.file.size.toNat).sum

def numbered (events : List (Event H)) : List (UInt64 × Addition H) :=
  (census.additions events).zipIdx.map fun numbered =>
    (UInt64.ofNat (census.token.toNat + numbered.2 + 1), numbered.1)

def entry (numbered : UInt64 × Addition H) : Text × PayloadEntryMetadata :=
  (numbered.2.key, ⟨numbered.1, numbered.2.key, numbered.2.file.size⟩)

def Sound : Event H → Prop
  | .directory task => task.depth ≤ 64 ∧ census.fs.isDirectory task.directory = true ∧
      (census.fs.readDir task.directory).isSome = true
  | .child task child => (∃ name path, child = some ⟨some name, path, some .directory⟩) ∨
      ∃ found, (Event.child task child).file? = some found ∧
        ((census.held.get? found.1).isSome = true ∨ (census.baseFile? found.2).isSome = true)

structure Allowed (events : List (Event H)) : Prop where
  sound : ∀ event ∈ events, census.Sound event
  visited : visits events ≤ census.visitBound
  pathBytes : saturate (pathBytes events) ≤ census.limits.maximumPathBytes.toNat
  keys : (keys events).Nodup
  sizes : ∀ addition ∈ census.additions events, addition.file.size ≤ census.limits.maximumEntryBytes
  totalBytes : saturate (census.totalBytes events) ≤ census.limits.maximumTotalBytes.toNat
  tokens : census.token.toNat + (census.additions events).length < 2 ^ 64
  count : census.held.pairs.length + (census.additions events).length ≤ census.limits.maximumEntries
  quiet : census.Quiet 0 (census.polls events)

structure After (events : List (Event H)) (walk : Walk H) : Prop where
  polls : walk.polls = census.polls events
  visited : walk.visited = visits events
  pathBytes : walk.pathBytes = saturate (pathBytes events)
  totalBytes : walk.totalBytes = saturate (census.totalBytes events)
  baseKeys : ∀ key, key ∈ walk.baseKeys ↔ key ∈ keys events
  token : walk.token = UInt64.ofNat (census.token.toNat + (census.additions events).length)
  entries : walk.entries.pairs.Perm (census.held.pairs ++ (census.numbered events).map entry)
  fingerprints : walk.fingerprints.pairs.Perm
    ((census.additions events).map fun addition => (addition.key, addition.file.digest))
  files : walk.files.pairs.Perm ((census.numbered events).map fun numbered => (numbered.1, numbered.2.file))

structure Room (events : List (Event H)) (event : Event H) : Prop where
  sound : census.Sound event
  visited : visits events + event.children ≤ census.visitBound
  pathBytes : saturate (Patch.pathBytes events + event.relative.length) ≤ census.limits.maximumPathBytes.toNat
  keys : ∀ found, event.file? = some found → found.1 ∉ Patch.keys events
  quiet : census.Quiet (census.polls events)
    (census.polls events + (1 + ((census.addition? event).map chunks).getD 0))
  addition : ∀ addition, census.addition? event = some addition →
    addition.file.size ≤ census.limits.maximumEntryBytes ∧
      saturate (census.totalBytes events + addition.file.size.toNat) ≤ census.limits.maximumTotalBytes.toNat ∧
      census.token.toNat + (census.additions events).length + 1 < 2 ^ 64 ∧
      census.held.pairs.length + (census.additions events).length + 1 ≤ census.limits.maximumEntries

section Concat

variable {census} {events : List (Event H)} {event : Event H} {walk walk' : Walk H} {addition : Addition H}

theorem keys_concat : keys (events ++ [event]) = keys events ++ (event.file?.map Prod.fst).toList := by
  rw [keys, keys, List.filterMap_append, List.map_append]
  cases h : event.file? <;> simp [h]

theorem visits_concat : visits (events ++ [event]) = visits events + event.children := by
  simp [visits]

theorem pathBytes_concat : pathBytes (events ++ [event]) = pathBytes events + event.relative.length := by
  simp [pathBytes]

theorem additions_concat : census.additions (events ++ [event]) =
    census.additions events ++ (census.addition? event).toList := by
  rw [additions, additions, List.filterMap_append]
  cases h : census.addition? event <;> simp [h]

theorem polls_concat : census.polls (events ++ [event]) =
    census.polls events + (1 + ((census.addition? event).map chunks).getD 0) := by
  rw [polls, polls, additions_concat, List.map_append, List.sum_append, List.length_append, List.length_singleton]
  cases census.addition? event with
  | none => simp [Nat.add_right_comm]
  | some addition =>
    rw [Option.toList_some, List.map_singleton, List.sum_singleton, Option.map_some, Option.getD_some]
    exact Nat.add_add_add_comm _ _ _ _

theorem additions_same (h : census.addition? event = none) :
    census.additions (events ++ [event]) = census.additions events := by
  rw [additions_concat, h, Option.toList_none, List.append_nil]

theorem additions_more (h : census.addition? event = some addition) :
    census.additions (events ++ [event]) = census.additions events ++ [addition] := by
  rw [additions_concat, h, Option.toList_some]

theorem numbered_more (h : census.addition? event = some addition) :
    census.numbered (events ++ [event]) = census.numbered events ++
      [(UInt64.ofNat (census.token.toNat + (census.additions events).length + 1), addition)] := by
  rw [numbered, numbered, additions_more h, List.zipIdx_append, List.map_append]
  simp

theorem totalBytes_more (h : census.addition? event = some addition) :
    census.totalBytes (events ++ [event]) = census.totalBytes events + addition.file.size.toNat := by
  rw [totalBytes, totalBytes, additions_more h]
  simp

theorem allowed_nil (hHeld : census.held.pairs.length ≤ census.limits.maximumEntries) : census.Allowed [] where
  sound := by simp
  visited := Nat.zero_le _
  pathBytes := (saturate_le _).trans (Nat.zero_le _)
  keys := .nil
  sizes := by simp [additions]
  totalBytes := (saturate_le _).trans (Nat.zero_le _)
  tokens := by simpa [additions] using census.token.toNat_lt
  count := hHeld
  quiet := quiet_none

theorem allowed_concat : census.Allowed (events ++ [event]) ↔ census.Allowed events ∧ census.Room events event := by
  constructor
  · intro h
    have hKeys := h.keys
    have hVisited := h.visited
    have hPathBytes := h.pathBytes
    have hQuiet := h.quiet
    rw [keys_concat, List.nodup_append] at hKeys
    rw [visits_concat] at hVisited
    rw [pathBytes_concat] at hPathBytes
    rw [polls_concat, ← Nat.zero_add (census.polls events), Nat.add_assoc] at hQuiet
    obtain ⟨hBefore, hLast⟩ := quiet_add.mp hQuiet
    rw [Nat.zero_add] at hBefore hLast
    have hRoom : ∀ addition, census.addition? event = some addition →
        addition.file.size ≤ census.limits.maximumEntryBytes ∧
          saturate (census.totalBytes events + addition.file.size.toNat) ≤
            census.limits.maximumTotalBytes.toNat ∧
          census.token.toNat + (census.additions events).length + 1 < 2 ^ 64 ∧
          census.held.pairs.length + (census.additions events).length + 1 ≤ census.limits.maximumEntries := by
      intro addition hAddition
      have hMore : census.additions (events ++ [event]) = census.additions events ++ [addition] :=
        additions_more hAddition
      have hTotal := h.totalBytes
      have hTokens := h.tokens
      have hCount := h.count
      rw [totalBytes_more hAddition] at hTotal
      rw [hMore, List.length_append, List.length_singleton] at hTokens hCount
      exact ⟨h.sizes addition (by rw [hMore]; simp), hTotal, hTokens, hCount⟩
    have hSub : ∀ addition ∈ census.additions events, addition ∈ census.additions (events ++ [event]) := by
      rw [additions_concat]
      exact fun addition hMem => List.mem_append_left _ hMem
    have hLength : (census.additions events).length ≤ (census.additions (events ++ [event])).length := by
      rw [additions_concat, List.length_append]
      exact Nat.le_add_right _ _
    have hTotal : census.totalBytes events ≤ census.totalBytes (events ++ [event]) := by
      rw [Census.totalBytes, Census.totalBytes, additions_concat, List.map_append, List.sum_append]
      exact Nat.le_add_right _ _
    have hTokens := h.tokens
    have hCount := h.count
    refine ⟨?_, ?_⟩
    · exact {
        sound := fun other hOther => h.sound other (List.mem_append_left _ hOther)
        visited := by omega
        pathBytes := (saturate_mono (Nat.le_add_right _ _)).trans hPathBytes
        keys := hKeys.1
        sizes := fun addition hMem => h.sizes addition (hSub addition hMem)
        totalBytes := (saturate_mono hTotal).trans h.totalBytes
        tokens := by omega
        count := by omega
        quiet := hBefore }
    · exact {
        sound := h.sound event (List.mem_append_right _ List.mem_cons_self)
        visited := hVisited
        pathBytes := hPathBytes
        keys := fun found hFound hOld => hKeys.2.2 _ hOld _ (by simp [hFound]) rfl
        quiet := hLast
        addition := hRoom }
  · rintro ⟨h, hRoom⟩
    have hQuiet : census.Quiet 0 (census.polls (events ++ [event])) := by
      rw [polls_concat, ← Nat.zero_add (census.polls events), Nat.add_assoc]
      refine quiet_add.mpr ⟨?_, ?_⟩ <;> rw [Nat.zero_add]
      · exact h.quiet
      · exact hRoom.quiet
    have hKeys : (Patch.keys (events ++ [event])).Nodup := by
      rw [keys_concat, List.nodup_append]
      refine ⟨h.keys, by cases event.file? <;> simp, ?_⟩
      rintro key hOld _ hNew rfl
      rw [Option.mem_toList, Option.map_eq_some_iff] at hNew
      obtain ⟨found, hFound, rfl⟩ := hNew
      exact hRoom.keys found hFound hOld
    have hSound : ∀ other ∈ events ++ [event], census.Sound other := by
      intro other hOther
      rcases List.mem_append.mp hOther with hOther | hOther
      · exact h.sound other hOther
      · rw [List.mem_singleton.mp hOther]
        exact hRoom.sound
    have hVisited : visits (events ++ [event]) ≤ census.visitBound := by
      rw [visits_concat]
      exact hRoom.visited
    have hPathBytes : saturate (pathBytes (events ++ [event])) ≤ census.limits.maximumPathBytes.toNat := by
      rw [pathBytes_concat]
      exact hRoom.pathBytes
    cases hAddition : census.addition? event with
    | none =>
      have hTotal : census.totalBytes (events ++ [event]) = census.totalBytes events := by
        rw [Census.totalBytes, additions_same hAddition, Census.totalBytes]
      refine ⟨hSound, hVisited, hPathBytes, hKeys, ?_, hTotal ▸ h.totalBytes, ?_, ?_, hQuiet⟩ <;>
        rw [additions_same hAddition]
      · exact h.sizes
      · exact h.tokens
      · exact h.count
    | some addition =>
      obtain ⟨hSize, hTotal, hToken, hCount⟩ := hRoom.addition addition hAddition
      refine ⟨hSound, hVisited, hPathBytes, hKeys, ?_, totalBytes_more hAddition ▸ hTotal, ?_, ?_, hQuiet⟩ <;>
        rw [additions_more hAddition]
      · intro other hOther
        rcases List.mem_append.mp hOther with hOther | hOther
        · exact h.sizes other hOther
        · rw [List.mem_singleton.mp hOther]
          exact hSize
      · rw [List.length_append, List.length_singleton]
        exact hToken
      · rw [List.length_append, List.length_singleton]
        exact hCount

end Concat

/-! ## One step of the walk -/

section Steps

variable {census} {events : List (Event H)} {event : Event H} {walk walk' : Walk H} {addition : Addition H}
  {task : Task H} {child : Option (DirEntry H)} {path : H} {kind : FileType} {relative key : Text}
  {normalized : PayloadPath} {file : BaseFile H}

theorem relative_of_counts (h : Counts census.toSetting task walk child path kind relative) :
    (Event.child task child).relative = relative := by
  obtain ⟨name, rfl, rfl⟩ := h.named
  rfl

theorem file?_of_counts (h : Counts census.toSetting task walk child path .file relative)
    (hParse : PayloadPath.parse relative = .ok normalized) :
    (Event.child task child).file? = some (normalized.portabilityKey, path) := by
  obtain ⟨name, rfl, rfl⟩ := h.named
  simp [Event.file?, hParse, Except.toOption]

theorem file?_of_directory (h : Counts census.toSetting task walk child path .directory relative) :
    (Event.child task child).file? = none := by
  obtain ⟨name, rfl, rfl⟩ := h.named
  rfl

theorem addition?_of_none (h : event.file? = none) : census.addition? event = none := by
  rw [addition?, h, Option.bind_none]

theorem addition?_eq_some : census.addition? event = some addition ↔
    ∃ path, event.file? = some (addition.key, path) ∧ census.held.get? addition.key = none ∧
      census.baseFile? path = some addition.file := by
  rw [addition?, Option.bind_eq_some_iff]
  constructor
  · rintro ⟨⟨key, path⟩, hFile, h⟩
    rw [Option.ite_none_left_eq_some, Option.map_eq_some_iff] at h
    obtain ⟨hHeld, file, hRead, rfl⟩ := h
    exact ⟨path, hFile, Option.not_isSome_iff_eq_none.mp hHeld, hRead⟩
  · rintro ⟨path, hFile, hHeld, hRead⟩
    refine ⟨_, hFile, ?_⟩
    rw [if_neg (by simp [hHeld]), hRead]
    rfl

theorem key_mem_of_addition (h : addition ∈ census.additions events) : addition.key ∈ keys events := by
  obtain ⟨event, hEvent, hAddition⟩ := List.mem_filterMap.mp h
  obtain ⟨path, hFile, -, -⟩ := addition?_eq_some.mp hAddition
  exact List.mem_map.mpr ⟨_, List.mem_filterMap.mpr ⟨event, hEvent, hFile⟩, rfl⟩

theorem mem_numbered {numbered : UInt64 × Addition H} (h : numbered ∈ census.numbered events) :
    numbered.2 ∈ census.additions events ∧ ∃ place < (census.additions events).length,
      numbered.1 = UInt64.ofNat (census.token.toNat + place + 1) := by
  obtain ⟨⟨addition, place⟩, hPlace, rfl⟩ := List.mem_map.mp h
  have hGet := List.mem_zipIdx_iff_getElem?.mp hPlace
  obtain ⟨hLength, -⟩ := List.getElem?_eq_some_iff.mp hGet
  exact ⟨List.mem_of_getElem? hGet, place, hLength, rfl⟩

theorem After.get?_eq_none (h : census.After events walk) (hNew : key ∉ walk.baseKeys) :
    walk.entries.get? key = none ↔ census.held.get? key = none := by
  have hKeys := h.entries.map Prod.fst
  have hOther : key ∉ ((census.numbered events).map entry).map Prod.fst := by
    rw [List.map_map, List.mem_map]
    rintro ⟨numbered, hNumbered, rfl⟩
    exact hNew ((h.baseKeys _).mpr (key_mem_of_addition (mem_numbered hNumbered).1))
  rw [SortedMap.get?_eq_none, SortedMap.get?_eq_none, SortedMap.keys, hKeys.mem_iff, List.map_append, List.mem_append]
  constructor
  · exact fun hNone hHeld => hNone (.inl hHeld)
  · rintro hNone (hHeld | hNumbered)
    · exact hNone hHeld
    · exact hOther hNumbered

/-- All but the entries is alike for everything the walk comes to. -/
structure Meets (event : Event H) (walk walk' : Walk H) : Prop where
  visited : walk'.visited = walk.visited + event.children
  pathBytes : walk'.pathBytes = saturate (walk.pathBytes + event.relative.length)
  baseKeys : ∀ key, key ∈ walk'.baseKeys ↔ key ∈ walk.baseKeys ∨ event.file?.map Prod.fst = some key

theorem Meets.visits (h : Meets event walk walk') (hAfter : census.After events walk) :
    walk'.visited = visits (events ++ [event]) := by
  rw [h.visited, visits_concat, hAfter.visited]

theorem Meets.bytes (h : Meets event walk walk') (hAfter : census.After events walk) :
    walk'.pathBytes = saturate (Patch.pathBytes (events ++ [event])) := by
  rw [h.pathBytes, pathBytes_concat, hAfter.pathBytes, saturate_add]

theorem Meets.keys (h : Meets event walk walk') (hAfter : census.After events walk) (key : Text) :
    key ∈ walk'.baseKeys ↔ key ∈ Patch.keys (events ++ [event]) := by
  rw [h.baseKeys, keys_concat, List.mem_append, hAfter.baseKeys, Option.mem_toList]

theorem meets_counted (h : Counts census.toSetting task walk child path .directory relative) :
    Meets (.child task child) walk (walk.counted relative) where
  visited := rfl
  pathBytes := by rw [relative_of_counts h]; rfl
  baseKeys := by simp [file?_of_directory h, Walk.counted]

theorem meets_keyed (h : Counts census.toSetting task walk child path .file relative)
    (hParse : PayloadPath.parse relative = .ok normalized) :
    Meets (.child task child) walk ((walk.counted relative).keyed normalized.portabilityKey) where
  visited := rfl
  pathBytes := by rw [relative_of_counts h]; rfl
  baseKeys key := by
    rw [file?_of_counts h hParse, Option.map_some, Option.some.injEq, Walk.keyed, Finset.mem_insert, or_comm,
      eq_comm (a := key)]
    rfl

theorem After.same (h : census.After events walk) (hNone : census.addition? event = none)
    (hMeets : Meets event walk walk') (hPolls : walk'.polls = walk.polls + 1)
    (hTotal : walk'.totalBytes = walk.totalBytes) (hToken : walk'.token = walk.token)
    (hEntries : walk'.entries = walk.entries) (hFingerprints : walk'.fingerprints = walk.fingerprints)
    (hFiles : walk'.files = walk.files) : census.After (events ++ [event]) walk' := by
  have hNumbered : census.numbered (events ++ [event]) = census.numbered events := by
    rw [numbered, additions_same hNone, numbered]
  exact {
    polls := by rw [hPolls, polls_concat, hNone, h.polls]; rfl
    visited := hMeets.visits h
    pathBytes := hMeets.bytes h
    totalBytes := by rw [hTotal, h.totalBytes, Census.totalBytes, Census.totalBytes, additions_same hNone]
    baseKeys := hMeets.keys h
    token := by rw [hToken, additions_same hNone, h.token]
    entries := by rw [hEntries, hNumbered]; exact h.entries
    fingerprints := by rw [hFingerprints, additions_same hNone]; exact h.fingerprints
    files := by rw [hFiles, hNumbered]; exact h.files }

theorem After.more (h : census.After events walk) (hAddition : census.addition? event = some ⟨key, file⟩)
    (hMeets : Meets event walk walk') (hPolls : walk'.polls = walk.polls + 1)
    (hTotal : walk'.totalBytes = walk.totalBytes) (hToken : walk'.token = walk.token)
    (hEntries : walk'.entries = walk.entries) (hFingerprints : walk'.fingerprints = walk.fingerprints)
    (hFiles : walk'.files = walk.files) (hNew : key ∉ walk.baseKeys) (hFree : walk.entries.get? key = none)
    (hWidth : walk.token.toNat + 1 < 2 ^ 64) (hTokens : census.token.toNat + (census.additions events).length < 2 ^ 64) :
    census.After (events ++ [event]) (walk'.withFile key file) := by
  have hNext : walk.token + 1 = UInt64.ofNat (census.token.toNat + (census.additions events).length + 1) := by
    rw [h.token, UInt64.ofNat_add _ 1]
    rfl
  have hCount : walk.token.toNat = census.token.toNat + (census.additions events).length := by
    rw [h.token, UInt64.toNat_ofNat_of_lt' hTokens]
  have hPrints : key ∉ walk.fingerprints.keys := by
    rw [SortedMap.keys, (h.fingerprints.map Prod.fst).mem_iff, List.map_map, List.mem_map]
    rintro ⟨addition, hMem, rfl⟩
    exact hNew ((h.baseKeys _).mpr (key_mem_of_addition hMem))
  have hFree' : walk.token + 1 ∉ walk.files.keys := by
    rw [SortedMap.keys, (h.files.map Prod.fst).mem_iff, List.map_map, List.mem_map]
    rintro ⟨numbered, hMem, hSame⟩
    obtain ⟨-, place, hPlace, hNumber⟩ := mem_numbered hMem
    have hSame := congrArg UInt64.toNat (hSame.symm.trans hNumber)
    rw [hCount] at hWidth
    have hBelow : census.token.toNat + place + 1 < 2 ^ 64 := by omega
    rw [hNext, UInt64.toNat_ofNat_of_lt' hWidth, UInt64.toNat_ofNat_of_lt' hBelow] at hSame
    omega
  have hPerm {α : Type} {m pairs : List α} {pair : α} {l : List α} (hInsert : m.Perm (pair :: l))
      (hRest : l.Perm pairs) : m.Perm (pairs ++ [pair]) :=
    (hInsert.trans (hRest.cons pair)).trans (List.perm_append_singleton _ _).symm
  exact {
    polls := by
      rw [Walk.withFile, hPolls, polls_concat, hAddition, h.polls, Nat.add_assoc, Option.map_some, Option.getD_some,
        chunks]
    visited := (Walk.visited_withFile ..).trans (hMeets.visits h)
    pathBytes := (Walk.pathBytes_withFile ..).trans (hMeets.bytes h)
    totalBytes := by rw [Walk.withFile, hTotal, totalBytes_more hAddition, h.totalBytes, saturate_add]
    baseKeys := Walk.baseKeys_withFile walk' key file ▸ hMeets.keys h
    token := by
      rw [additions_more hAddition, List.length_append, List.length_singleton, ← Nat.add_assoc, ← hNext, ← hToken]
      rfl
    entries := by
      rw [numbered_more hAddition, List.map_append, ← List.append_assoc, ← hNext, Walk.withFile, hEntries, hToken]
      exact hPerm (SortedMap.insert_perm (SortedMap.get?_eq_none.mp hFree)) h.entries
    fingerprints := by
      rw [additions_more hAddition, List.map_append, Walk.withFile, hFingerprints]
      exact hPerm (SortedMap.insert_perm hPrints) h.fingerprints
    files := by
      rw [numbered_more hAddition, List.map_append, ← hNext, Walk.withFile, hFiles, hToken]
      exact hPerm (SortedMap.insert_perm hFree') h.files }

theorem Room.goesOn (h : census.Room events event) : census.stop (census.polls events) = false :=
  h.quiet _ (Nat.le_refl _) (by omega)

theorem room_of_none (hNone : census.addition? event = none) (hSound : census.Sound event)
    (hVisited : visits events + event.children ≤ census.visitBound)
    (hBytes : saturate (pathBytes events + event.relative.length) ≤ census.limits.maximumPathBytes.toNat)
    (hKeys : ∀ found, event.file? = some found → found.1 ∉ keys events)
    (hGo : census.stop (census.polls events) = false) : census.Room events event where
  sound := hSound
  visited := hVisited
  pathBytes := hBytes
  keys := hKeys
  quiet := by
    rw [hNone]
    exact quiet_one.mpr hGo
  addition := by simp [hNone]

theorem After.step (h : census.After events walk) (hAllowed : census.Allowed events)
    (hTakes : Takes census.toSetting walk event walk') :
    census.Room events event ∧ census.After (events ++ [event]) walk' := by
  have hCounted {child : Option (DirEntry H)} {task : Task H} {path : H} {kind : FileType} {relative : Text}
      (hCount : Counts census.toSetting task walk child path kind relative) :
      visits events + (Event.child task child).children ≤ census.visitBound ∧
        saturate (Patch.pathBytes events + (Event.child task child).relative.length) ≤
          census.limits.maximumPathBytes.toNat ∧ census.stop (census.polls events) = false := by
    have hBytes := hCount.pathBytes
    rw [h.pathBytes, saturate_add] at hBytes
    rw [relative_of_counts hCount, ← h.visited, ← h.polls]
    exact ⟨hCount.visited, hBytes, hCount.goesOn⟩
  have hNotOld {event : Event H} {key : Text} {path : H} (hFile : event.file? = some (key, path))
      (hNew : key ∉ walk.baseKeys) : ∀ found, event.file? = some found → found.1 ∉ keys events := by
    intro found hFound
    cases hFile.symm.trans hFound
    exact fun hOld => hNew ((h.baseKeys _).mpr hOld)
  cases hTakes with
  | opened task hGo hDepth hDirectory hRead =>
    have hNone : census.addition? (.directory task) = none := addition?_of_none rfl
    constructor
    · refine room_of_none hNone ⟨hDepth, hDirectory, hRead⟩ hAllowed.visited ?_ (fun _ hFile => nomatch hFile) (h.polls ▸ hGo)
      exact hAllowed.pathBytes
    · refine h.same hNone ⟨rfl, ?_, fun key => by simp [Event.file?]⟩ rfl rfl rfl rfl rfl rfl
      rw [h.pathBytes, saturate_add]
      rfl
  | postponed task child path relative hCount =>
    obtain ⟨hVisited, hBytes, hGo⟩ := hCounted hCount
    have hFile := file?_of_directory hCount
    have hSound : census.Sound (.child task child) := by
      obtain ⟨name, hChild, -⟩ := hCount.named
      exact .inl ⟨name, path, hChild⟩
    constructor
    · exact room_of_none (addition?_of_none hFile) hSound hVisited hBytes (by simp [hFile]) hGo
    · exact h.same (addition?_of_none hFile) (meets_counted hCount) rfl rfl rfl rfl rfl rfl
  | held task child path relative normalized hCount hParse hNew hHeld =>
    obtain ⟨hVisited, hBytes, hGo⟩ := hCounted hCount
    have hFile := file?_of_counts hCount hParse
    have hHeld : (census.held.get? normalized.portabilityKey).isSome = true := by
      rw [← Option.ne_none_iff_isSome] at hHeld ⊢
      exact mt (h.get?_eq_none hNew).mpr hHeld
    have hNone : census.addition? (.child task child) = none := by
      rw [addition?, hFile, Option.bind_some, if_pos hHeld]
    constructor
    · exact room_of_none hNone (.inr ⟨_, hFile, .inl hHeld⟩) hVisited hBytes (hNotOld hFile hNew) hGo
    · exact h.same hNone (meets_keyed hCount hParse) rfl rfl rfl rfl rfl rfl
  | added task child path relative normalized file hCount hParse hNew hFree hFits =>
    obtain ⟨hVisited, hBytes, hGo⟩ := hCounted hCount
    have hFile := file?_of_counts hCount hParse
    have hAddition : census.addition? (.child task child) = some ⟨normalized.portabilityKey, file⟩ :=
      addition?_eq_some.mpr ⟨path, hFile, (h.get?_eq_none hNew).mp hFree, hFits.found⟩
    have hTotal := hFits.totalBytes
    have hCount' := hFits.count
    have hQuiet := hFits.goesOn
    have hEntries (entry : PayloadEntryMetadata) :
        (walk.entries.insert normalized.portabilityKey entry).pairs.length = walk.entries.pairs.length + 1 :=
      (SortedMap.insert_perm (SortedMap.get?_eq_none.mp hFree)).length_eq
    have hLength := h.entries.length_eq
    have hToken : walk.token.toNat = census.token.toNat + (census.additions events).length := by
      rw [h.token, UInt64.toNat_ofNat_of_lt' hAllowed.tokens]
    constructor
    · exact {
        sound := .inr ⟨_, hFile, .inr (by rw [hFits.found]; rfl)⟩
        visited := hVisited
        pathBytes := hBytes
        keys := hNotOld hFile hNew
        quiet := by
          rw [hAddition, Option.map_some, Option.getD_some, chunks]
          refine quiet_add.mpr ⟨quiet_one.mpr hGo, ?_⟩
          rw [← h.polls]
          exact hQuiet
        addition := by
          intro addition h'
          cases hAddition.symm.trans h'
          refine ⟨hFits.size, ?_, hToken ▸ hFits.token, ?_⟩
          · rw [← saturate_add, ← h.totalBytes]
            exact hTotal
          · have hNumbered : (census.numbered events).length = (census.additions events).length := by
              simp [numbered]
            rw [List.length_append, List.length_map, hNumbered] at hLength
            rw [← hLength]
            exact hEntries _ ▸ hCount' }
    · exact h.more hAddition (meets_keyed hCount hParse) rfl rfl rfl rfl rfl rfl hNew hFree hFits.token
        hAllowed.tokens

theorem Room.takes (hRoom : census.Room events event) (h : census.After events walk)
    (hAllowed : census.Allowed events) : ∃ walk', Takes census.toSetting walk event walk' := by
  have hGo : census.stop walk.polls = false := h.polls ▸ hRoom.goesOn
  cases event with
  | directory task =>
    obtain ⟨hDepth, hDirectory, hRead⟩ := hRoom.sound
    exact ⟨_, .opened task hGo hDepth hDirectory hRead⟩
  | child task child =>
    have hCounts {name : Text} {path : H} {kind : FileType} (hChild : child = some ⟨some name, path, some kind⟩) :
        Counts census.toSetting task walk child path kind (join task.parent name) := by
      subst hChild
      refine ⟨⟨name, rfl, rfl⟩, hGo, h.visited ▸ hRoom.visited, ?_⟩
      rw [h.pathBytes, saturate_add]
      exact hRoom.pathBytes
    rcases hRoom.sound with ⟨name, path, hChild⟩ | ⟨found, hFile, hFound⟩
    · exact ⟨_, .postponed task child path _ (hCounts hChild)⟩
    obtain ⟨name, path, normalized, hChild, hParse, rfl⟩ : ∃ name path normalized,
        child = some ⟨some name, path, some .file⟩ ∧ PayloadPath.parse (join task.parent name) = .ok normalized ∧
          found = (normalized.portabilityKey, path) := by
      unfold Event.file? at hFile
      split at hFile
      case h_1 task' name path hEvent =>
        cases hEvent
        rw [Option.map_eq_some_iff] at hFile
        obtain ⟨normalized, hParse, rfl⟩ := hFile
        refine ⟨name, path, normalized, rfl, ?_, rfl⟩
        cases hResult : PayloadPath.parse (join task.parent name) with
        | error error => simp [hResult, Except.toOption] at hParse
        | ok other => simpa [hResult, Except.toOption] using hParse
      case h_2 => cases hFile
    have hCount := hCounts hChild
    have hNew : normalized.portabilityKey ∉ walk.baseKeys :=
      fun hOld => hRoom.keys _ hFile ((h.baseKeys _).mp hOld)
    cases hHeld : walk.entries.get? normalized.portabilityKey with
    | some entry => exact ⟨_, .held task child path _ normalized hCount hParse hNew (by rw [hHeld]; rfl)⟩
    | none =>
      have hFree := (h.get?_eq_none hNew).mp hHeld
      obtain ⟨file, hRead⟩ := Option.isSome_iff_exists.mp (hFound.resolve_left (by simp [hFree]))
      have hAddition : census.addition? (.child task child) = some ⟨normalized.portabilityKey, file⟩ :=
        addition?_eq_some.mpr ⟨path, hFile, hFree, hRead⟩
      obtain ⟨hSize, hTotal, hToken, hLength⟩ := hRoom.addition _ hAddition
      have hQuiet := hRoom.quiet
      rw [hAddition, Option.map_some, Option.getD_some, chunks] at hQuiet
      have hEntries (entry : PayloadEntryMetadata) :
          (walk.entries.insert normalized.portabilityKey entry).pairs.length =
            census.held.pairs.length + (census.additions events).length + 1 := by
        rw [(SortedMap.insert_perm (SortedMap.get?_eq_none.mp hHeld)).length_eq, List.length_cons, h.entries.length_eq,
          List.length_append, List.length_map, numbered, List.length_map, List.length_zipIdx]
      refine ⟨_, .added task child path _ normalized file hCount hParse hNew hHeld ⟨hRead, hSize, ?_, ?_, ?_, ?_⟩⟩
      · change saturate (walk.totalBytes + file.size.toNat) ≤ _
        rw [h.totalBytes, saturate_add]
        exact hTotal
      · change Setting.Quiet _ (walk.polls + 1) (walk.polls + 1 + _)
        rw [h.polls]
        exact (quiet_add.mp hQuiet).2
      · change walk.token.toNat + 1 < 2 ^ 64
        rw [h.token, UInt64.toNat_ofNat_of_lt' hAllowed.tokens]
        exact hToken
      · change (walk.entries.insert _ _).pairs.length ≤ _
        rw [hEntries]
        exact hLength

end Steps

/-! ## A whole walk -/

section Run

variable {census} {events events' : List (Event H)} {walk : Walk H}

theorem after_nil : census.After [] (Overlay.start census.held census.token) where
  polls := rfl
  visited := rfl
  pathBytes := rfl
  totalBytes := rfl
  baseKeys := by simp [Overlay.start, keys]
  token := UInt64.ofNat_toNat.symm
  entries := by simp [Overlay.start, numbered, additions]
  fingerprints := .refl _
  files := .refl _

variable (census) in
theorem run_spec (hHeld : census.held.pairs.length ≤ census.limits.maximumEntries) (events : List (Event H)) :
    (∀ walk, events.foldlM census.apply (Overlay.start census.held census.token) = .ok walk →
        census.Allowed events ∧ census.After events walk) ∧
      (census.Allowed events → ∃ walk,
        events.foldlM census.apply (Overlay.start census.held census.token) = .ok walk) := by
  induction events using List.reverseRecOn with
  | nil =>
    refine ⟨fun walk h => ?_, fun _ => ⟨_, rfl⟩⟩
    cases h
    exact ⟨allowed_nil hHeld, after_nil⟩
  | append_singleton events event ih =>
    have hLast {walk walk' : Walk H} : [event].foldlM census.apply walk = .ok walk' ↔
        Takes census.toSetting walk event walk' := by
      rw [List.foldlM_cons, Result.bind_eq_ok, ← apply_eq_ok]
      constructor
      · rintro ⟨_, hApply, h⟩
        cases h
        exact hApply
      · exact fun h => ⟨walk', h, rfl⟩
    constructor
    · intro walk' h
      obtain ⟨walk, hBefore, h⟩ := foldlM_append_eq_ok.mp h
      obtain ⟨hAllowed, hAfter⟩ := ih.1 walk hBefore
      obtain ⟨hRoom, hNext⟩ := hAfter.step hAllowed (hLast.mp h)
      exact ⟨allowed_concat.mpr ⟨hAllowed, hRoom⟩, hNext⟩
    · intro h
      obtain ⟨hAllowed, hRoom⟩ := allowed_concat.mp h
      obtain ⟨walk, hBefore⟩ := ih.2 hAllowed
      obtain ⟨walk', hTakes⟩ := hRoom.takes (ih.1 walk hBefore).2 hAllowed
      exact ⟨walk', foldlM_append_eq_ok.mpr ⟨walk, hBefore, hLast.mpr hTakes⟩⟩

theorem Allowed.perm (h : census.Allowed events) (hPerm : events.Perm events') : census.Allowed events' := by
  have hAdditions : (census.additions events).Perm (census.additions events') := hPerm.filterMap _
  have hPolls : census.polls events = census.polls events' := by
    rw [polls, polls, hPerm.length_eq, (hAdditions.map _).sum_eq]
  exact {
    sound := fun event hEvent => h.sound event (hPerm.mem_iff.mpr hEvent)
    visited := by rw [visits, ← (hPerm.map _).sum_eq]; exact h.visited
    pathBytes := by rw [Patch.pathBytes, ← (hPerm.map _).sum_eq]; exact h.pathBytes
    keys := ((hPerm.filterMap _).map _).nodup_iff.mp h.keys
    sizes := fun addition hMem => h.sizes addition (hAdditions.mem_iff.mpr hMem)
    totalBytes := by rw [Census.totalBytes, ← (hAdditions.map _).sum_eq]; exact h.totalBytes
    tokens := hAdditions.length_eq ▸ h.tokens
    count := hAdditions.length_eq ▸ h.count
    quiet := hPolls ▸ h.quiet }

end Run

end Census

end OpenHalfLife.Patch
