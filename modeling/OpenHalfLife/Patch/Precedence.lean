import OpenHalfLife.Patch.Census
import OpenHalfLife.Payload.Folding

/-! # Listings in another order

A tree whose directories are listed in another order comes to the same things
in another order. What is found in it are its files, wherever they stand.
-/

namespace OpenHalfLife.Patch

open Payload Setting

set_option autoImplicit false

inductive FileSystem.Holds {H : Type} (fs : FileSystem H) : H → Text → Text → H → Prop
  | file {directory path : H} {parent name : Text} {listing : List (Option (DirEntry H))} :
    fs.readDir directory = some listing → some ⟨some name, path, some .file⟩ ∈ listing →
    Holds fs directory parent (join parent name) path
  | inside {directory next path : H} {parent name relative : Text} {listing : List (Option (DirEntry H))} :
    fs.readDir directory = some listing → some ⟨some name, next, some .directory⟩ ∈ listing →
    Holds fs next (join parent name) relative path → Holds fs directory parent relative path

def BaseHolds {H : Type} (fs : FileSystem H) (base : BasePayload H) (key : Text) (path : H) : Prop :=
  ∃ relative normalized, fs.Holds base.files [] relative path ∧ PayloadPath.parse relative = .ok normalized ∧
    normalized.portabilityKey = key

theorem FileSystem.Reordered.symm {H : Type} {fs fs' : FileSystem H} (h : fs.Reordered fs') : fs'.Reordered fs where
  isDirectory := h.isDirectory.symm
  openSource := h.openSource.symm
  readDir path := by
    have hRead := h.readDir path
    revert hRead
    generalize fs.readDir path = first
    generalize fs'.readDir path = second
    rintro (⟨hPerm⟩ | _)
    · exact .some hPerm.symm
    · exact .none

namespace Census

variable {H : Type} {census : Census H} {fs fs' : FileSystem H} {task : Task H} {key : Text} {path : H}

def onSystem (census : Census H) (fs : FileSystem H) : Census H := { census with fs }

theorem below_perm (h : census.fs.Reordered fs') (levels : Nat) (task : Task H) :
    (census.below levels task).Perm ((census.onSystem fs').below levels task) := by
  induction levels generalizing task with
  | zero => exact .refl _
  | succ levels ih =>
    have hListing : (census.listing task).Perm ((census.onSystem fs').listing task) := by
      have hRead := h.readDir task.directory
      rw [listing, listing]
      change ((census.fs.readDir task.directory).getD []).Perm ((fs'.readDir task.directory).getD [])
      revert hRead
      generalize census.fs.readDir task.directory = first
      generalize fs'.readDir task.directory = second
      rintro (⟨hPerm⟩ | _)
      · exact hPerm
      · exact .refl _
    have hTasks : ((census.listing task).filterMap (subtask task)).reverse.Perm
        (((census.onSystem fs').listing task).filterMap (subtask task)).reverse :=
      ((List.reverse_perm _).trans (hListing.filterMap _)).trans (List.reverse_perm _).symm
    rw [below, below]
    refine ((hListing.map _).append ?_).cons _
    exact (hTasks.flatMap_right _).trans (List.Perm.flatMap_left _ fun next _ => ih next)

theorem addition?_onSystem (h : census.fs.Reordered fs') : (census.onSystem fs').addition? = census.addition? := by
  have hOpen : (census.onSystem fs').fs.openSource = census.fs.openSource := h.openSource
  have hFile : (census.onSystem fs').baseFile? = census.baseFile? := by
    funext path
    rw [baseFile?, baseFile?, hOpen]
    rfl
  funext event
  rw [addition?, addition?, hFile]
  rfl

theorem sound_onSystem (h : census.fs.Reordered fs') {event : Event H} (hSound : census.Sound event) :
    (census.onSystem fs').Sound event := by
  have hFile : (census.onSystem fs').baseFile? = census.baseFile? := by
    funext path
    rw [baseFile?, baseFile?, show (census.onSystem fs').fs.openSource = census.fs.openSource from h.openSource]
    rfl
  cases event with
  | directory task =>
    obtain ⟨hDepth, hDirectory, hRead⟩ := hSound
    refine ⟨hDepth, (congrFun h.isDirectory _).trans hDirectory, ?_⟩
    have hSame := h.readDir task.directory
    obtain ⟨listing, hRead⟩ := Option.isSome_iff_exists.mp hRead
    rw [hRead] at hSame
    change (fs'.readDir task.directory).isSome = true
    cases hOther : fs'.readDir task.directory with
    | some other => rfl
    | none =>
      rw [hOther] at hSame
      cases hSame
  | child task child =>
    rcases hSound with hDirectory | ⟨found, hFound, hRead⟩
    · exact .inl hDirectory
    · exact .inr ⟨found, hFound, by rw [hFile]; exact hRead⟩

theorem Allowed.onSystem {events events' : List (Event H)} (h : census.fs.Reordered fs') (hPerm : events.Perm events')
    (hAllowed : census.Allowed events) : (census.onSystem fs').Allowed events' := by
  have hAdditions : (census.onSystem fs').additions = census.additions := by
    funext events
    rw [additions, additions, addition?_onSystem h]
  have hMoved := hAllowed.perm hPerm
  exact {
    sound := fun event hEvent => sound_onSystem h (hMoved.sound event hEvent)
    visited := hMoved.visited
    pathBytes := hMoved.pathBytes
    keys := hMoved.keys
    sizes := hAdditions ▸ hMoved.sizes
    totalBytes := by rw [Census.totalBytes, hAdditions]; exact hMoved.totalBytes
    tokens := hAdditions ▸ hMoved.tokens
    count := hAdditions ▸ hMoved.count
    quiet := by rw [polls, hAdditions]; exact hMoved.quiet }

/-! ## What is found -/

theorem file?_eq_some {event : Event H} : event.file? = some (key, path) ↔ ∃ task name normalized,
    event = .child task (some ⟨some name, path, some .file⟩) ∧
      PayloadPath.parse (join task.parent name) = .ok normalized ∧ normalized.portabilityKey = key := by
  constructor
  · intro h
    unfold Event.file? at h
    split at h
    case h_1 task name path' =>
      obtain ⟨normalized, hParse, hPair⟩ := Option.map_eq_some_iff.mp h
      cases hPair
      cases hResult : PayloadPath.parse (join task.parent name) with
      | error error => simp [hResult, Except.toOption] at hParse
      | ok other =>
        rw [hResult] at hParse
        cases hParse
        exact ⟨task, name, normalized, rfl, hResult, rfl⟩
    case h_2 => cases h
  · rintro ⟨task, name, normalized, rfl, hParse, rfl⟩
    simp [Event.file?, hParse, Except.toOption]

theorem holds_of_mem {levels : Nat} (h : (key, path) ∈ (census.below levels task).filterMap Event.file?) :
    ∃ relative normalized, census.fs.Holds task.directory task.parent relative path ∧
      PayloadPath.parse relative = .ok normalized ∧ normalized.portabilityKey = key := by
  induction levels generalizing task with
  | zero =>
    rw [below, List.filterMap_cons_none rfl] at h
    cases h
  | succ levels ih =>
    rw [below, List.filterMap_cons_none rfl, List.filterMap_append, List.mem_append] at h
    have hRead {child : Option (DirEntry H)} (hChild : child ∈ census.listing task) :
        ∃ listing, census.fs.readDir task.directory = some listing ∧ child ∈ listing := by
      rw [listing] at hChild
      cases hDir : census.fs.readDir task.directory with
      | none =>
        rw [hDir] at hChild
        cases hChild
      | some listing =>
        rw [hDir] at hChild
        exact ⟨listing, rfl, hChild⟩
    rcases h with h | h
    · obtain ⟨event, hEvent, hFile⟩ := List.mem_filterMap.mp h
      obtain ⟨child, hChild, rfl⟩ := List.mem_map.mp hEvent
      obtain ⟨_, name, normalized, hSame, hParse, hKey⟩ := file?_eq_some.mp hFile
      cases hSame
      obtain ⟨listing, hDir, hMem⟩ := hRead hChild
      exact ⟨_, normalized, .file hDir hMem, hParse, hKey⟩
    · obtain ⟨event, hEvent, hFile⟩ := List.mem_filterMap.mp h
      obtain ⟨next, hNext, hBelow⟩ := List.mem_flatMap.mp hEvent
      obtain ⟨child, hChild, hTask⟩ := List.mem_filterMap.mp (List.mem_reverse.mp hNext)
      obtain ⟨listing, hDir, hMem⟩ := hRead hChild
      unfold subtask at hTask
      split at hTask
      · cases hTask
        obtain ⟨relative, normalized, hHolds, hParse⟩ := ih (List.mem_filterMap.mpr ⟨event, hBelow, hFile⟩)
        exact ⟨relative, normalized, .inside hDir hMem hHolds, hParse⟩
      · cases hTask

theorem mem_of_holds {directory : H} {parent relative : Text} (h : census.fs.Holds directory parent relative path)
    {normalized : PayloadPath} (hParse : PayloadPath.parse relative = .ok normalized) {levels depth : Nat}
    (hLevels : levels + depth = 65) (hSound : ∀ event ∈ census.below levels ⟨directory, parent, depth⟩, census.Sound event) :
    (normalized.portabilityKey, path) ∈ (census.below levels ⟨directory, parent, depth⟩).filterMap Event.file? := by
  have hDepth : ∀ {levels : Nat} {task : Task H}, (∀ event ∈ census.below levels task, census.Sound event) →
      levels + task.depth = 65 → ∃ lower, levels = lower + 1 := by
    intro levels task hSound hLevels
    cases levels with
    | zero =>
      have hTop : task.depth ≤ 64 := (hSound (.directory task) List.mem_cons_self).1
      omega
    | succ lower => exact ⟨lower, rfl⟩
  induction h generalizing levels depth with
  | @file directory path parent name listing hDir hMem =>
    obtain ⟨lower, rfl⟩ := hDepth hSound hLevels
    have hChild : some ⟨some name, path, some .file⟩ ∈ census.listing ⟨directory, parent, depth⟩ := by
      rw [Setting.listing, hDir]
      exact hMem
    rw [Setting.below, List.filterMap_cons_none rfl, List.filterMap_append]
    exact List.mem_append_left _ (List.mem_filterMap.mpr ⟨_, List.mem_map.mpr ⟨_, hChild, rfl⟩,
      file?_eq_some.mpr ⟨_, name, normalized, rfl, hParse, rfl⟩⟩)
  | @inside directory next path parent name relative listing hDir hMem hHolds ih =>
    obtain ⟨lower, rfl⟩ := hDepth hSound hLevels
    have hTask : (⟨next, join parent name, depth + 1⟩ : Task H) ∈
        ((census.listing ⟨directory, parent, depth⟩).filterMap (subtask ⟨directory, parent, depth⟩)).reverse := by
      rw [List.mem_reverse, Setting.listing, hDir]
      exact List.mem_filterMap.mpr ⟨_, hMem, rfl⟩
    rw [Setting.below] at hSound
    have hInside := ih hParse (by omega) fun event hEvent => hSound event
      (List.mem_cons_of_mem _ (List.mem_append_right _ (List.mem_flatMap.mpr ⟨_, hTask, hEvent⟩)))
    obtain ⟨event, hEvent, hFile⟩ := List.mem_filterMap.mp hInside
    rw [Setting.below, List.filterMap_cons_none rfl, List.filterMap_append]
    exact List.mem_append_right _ (List.mem_filterMap.mpr ⟨event, List.mem_flatMap.mpr ⟨_, hTask, hEvent⟩, hFile⟩)

end Census

end OpenHalfLife.Patch

namespace OpenHalfLife.Patch

/-! ## Which file an entry is

A prepared overlay has one entry for each key of the patch and the base. The
patch wins where both have a key, and the token of an entry says which of the
two it is read from.
-/

open Payload Setting

set_option autoImplicit false

def portableKey (entry : PayloadEntryMetadata) : Option Text :=
  (PayloadPath.parse entry.archivePath).toOption.map PayloadPath.portabilityKey

def keyed (entry : PayloadEntryMetadata) : Text × PayloadEntryMetadata :=
  ((portableKey entry).getD [], { entry with archivePath := (portableKey entry).getD [] })

section Keys

variable {limits : PayloadImportLimits} {patch : List PayloadEntryMetadata} {entry : PayloadEntryMetadata}
  {path : PayloadPath}

theorem portableKey_of_parse (h : PayloadPath.parse entry.archivePath = .ok path) :
    portableKey entry = some path.portabilityKey := by
  rw [portableKey, h]
  rfl

theorem portableKey_fold {text : Text} (h : PayloadPath.parse text = .ok path)
    (hEntry : entry.archivePath = path.portabilityKey) : portableKey entry = some path.portabilityKey := by
  rw [portableKey, hEntry, PayloadPath.parse_portabilityKey h]
  rfl

theorem keyed_of_parse (h : PayloadPath.parse entry.archivePath = .ok path) :
    keyed entry = (path.portabilityKey, { entry with archivePath := path.portabilityKey }) := by
  rw [keyed, portableKey_of_parse h, Option.getD_some]

theorem addPatchEntry_of_parse (h : PayloadPath.parse entry.archivePath = .ok path)
    (entries : SortedMap Text PayloadEntryMetadata) :
    addPatchEntry entries entry = .ok (entries.insert (keyed entry).1 (keyed entry).2) := by
  rw [addPatchEntry, normalize, h, keyed_of_parse h]
  rfl

theorem foldlM_addPatchEntry {entries : SortedMap Text PayloadEntryMetadata}
    (hParsed : ∀ entry ∈ patch, ∃ path, PayloadPath.parse entry.archivePath = .ok path)
    (hKeys : (entries.keys ++ (patch.map keyed).map Prod.fst).Nodup) :
    ∃ held, patch.foldlM addPatchEntry entries = .ok held ∧ held.pairs.Perm (entries.pairs ++ patch.map keyed) := by
  induction patch generalizing entries with
  | nil => exact ⟨entries, rfl, by simp⟩
  | cons entry patch ih =>
    obtain ⟨path, hPath⟩ := hParsed entry List.mem_cons_self
    rw [List.map_cons, List.map_cons, List.nodup_append] at hKeys
    obtain ⟨hOld, hNew, hApart⟩ := hKeys
    have hFree : (keyed entry).1 ∉ entries.keys := fun hMem => hApart _ hMem _ List.mem_cons_self rfl
    have hInsert : (entries.insert (keyed entry).1 (keyed entry).2).pairs.Perm (keyed entry :: entries.pairs) :=
      SortedMap.insert_perm hFree
    have hPairs : ((entries.insert (keyed entry).1 (keyed entry).2).pairs ++ patch.map keyed).Perm
        (entries.pairs ++ (entry :: patch).map keyed) :=
      (hInsert.append_right _).trans List.perm_middle.symm
    have hNext : ((entries.insert (keyed entry).1 (keyed entry).2).keys ++ (patch.map keyed).map Prod.fst).Nodup := by
      rw [SortedMap.keys, ← List.map_append, (hPairs.map Prod.fst).nodup_iff, List.map_append, List.nodup_append]
      exact ⟨hOld, hNew, hApart⟩
    obtain ⟨held, hRun, hPerm⟩ := ih (fun other hOther => hParsed other (List.mem_cons_of_mem _ hOther)) hNext
    refine ⟨held, ?_, hPerm.trans hPairs⟩
    rw [List.foldlM_cons, addPatchEntry_of_parse hPath, Result.ok_bind]
    exact hRun

theorem keys_keyed (h : ∀ entry ∈ patch, ∃ path, PayloadPath.parse entry.archivePath = .ok path) :
    (patch.map keyed).map Prod.fst = (paths patch).map PayloadPath.portabilityKey := by
  induction patch with
  | nil => rfl
  | cons entry patch ih =>
    obtain ⟨path, hPath⟩ := h entry List.mem_cons_self
    have hRest := ih fun other hOther => h other (List.mem_cons_of_mem _ hOther)
    have hPaths : paths (entry :: patch) = [path] ++ paths patch := by
      rw [← paths_singleton hPath, ← paths_append, List.singleton_append]
    rw [List.map_cons, List.map_cons, hRest, keyed_of_parse hPath, hPaths]
    rfl

theorem Acceptable.held (h : Acceptable limits patch) :
    ∃ held, patch.foldlM addPatchEntry .empty = .ok held ∧ held.pairs.Perm (patch.map keyed) := by
  refine foldlM_addPatchEntry h.parsed ?_
  rw [keys_keyed h.parsed]
  exact h.keys

theorem le_greatestToken (h : entry ∈ patch) : entry.sourceToken ≤ greatestToken patch := by
  have hMem : entry.sourceToken ∈ patch.map PayloadEntryMetadata.sourceToken := List.mem_map_of_mem h
  cases hMax : (patch.map PayloadEntryMetadata.sourceToken).max? with
  | none =>
    rw [List.max?_eq_none_iff.mp hMax] at hMem
    cases hMem
  | some greatest =>
    rw [greatestToken, hMax, Option.getD_some]
    exact (List.max?_eq_some_iff.mp hMax).2 _ hMem

end Keys

/-! ## A prepared overlay -/

namespace Overlay

variable {H : Type} {setting : Setting H} {base : BasePayload H} {patch : List PayloadEntryMetadata}
  {overlay : Overlay H}

def root (base : BasePayload H) : Task H := ⟨base.files, [], 0⟩

structure Built (census : Census H) (base : BasePayload H) (patch : List PayloadEntryMetadata) (overlay : Overlay H)
    (walk : Walk H) : Prop where
  identity : base.identity ≠ [] ∧ base.identity.length ≤ 96
  acceptable : Acceptable census.limits patch
  token : census.token = greatestToken patch
  held : census.held.pairs.Perm (patch.map keyed)
  run : (census.events [root base]).foldlM census.apply (start census.held census.token) = .ok walk
  allowed : census.Allowed (census.events [root base])
  after : census.After (census.events [root base]) walk
  overlay : overlay = ⟨walk.entries.values, walk.files, some (census.sha (overlayFormat ++ base.identity ++
    walk.fingerprints.pairs.flatMap fingerprint)).toHex⟩

theorem prepare_eq_ok {base : Option (BasePayload H)} : prepare setting base patch = .ok overlay ↔
    Acceptable setting.limits patch ∧ match base with
      | none => overlay = ⟨patch, .empty, none⟩
      | some base => prepareOver setting base patch = .ok overlay := by
  unfold prepare
  cases hPlan : planPayloadLayout patch setting.limits with
  | error stop =>
    have hNot : ¬Acceptable setting.limits patch := by
      intro h
      rw [planPayloadLayout_of_acceptable h] at hPlan
      cases hPlan
    cases stop <;> simp [hNot]
  | ok layout =>
    have hAcceptable := (planPayloadLayout_eq_ok.mp hPlan).1
    cases base with
    | none => simp [hAcceptable, eq_comm]
    | some base =>
      cases hOver : prepareOver setting base patch <;> simp [hAcceptable, hOver, Except.mapError]

def censusOf (setting : Setting H) (held : SortedMap Text PayloadEntryMetadata) (patch : List PayloadEntryMetadata) :
    Census H := { setting with held, token := greatestToken patch }

theorem prepareOver_eq_ok {held : SortedMap Text PayloadEntryMetadata} (hPatch : Acceptable setting.limits patch)
    (hRun : patch.foldlM addPatchEntry .empty = .ok held) (hHeld : held.pairs.Perm (patch.map keyed)) :
    prepareOver setting base patch = .ok overlay ↔ ∃ walk, Built (censusOf setting held patch) base patch overlay walk := by
  have hCount : held.pairs.length ≤ setting.limits.maximumEntries := by
    rw [hHeld.length_eq, List.length_map]
    exact hPatch.count
  have hWalk {walk : Walk H} : setting.walkTree (walkFuel setting.limits)
      ([root base], start held (greatestToken patch)) = .ok walk ↔
        (setting.events [root base]).foldlM setting.apply (start held (greatestToken patch)) = .ok walk := by
    apply walkTree_eq_ok
    · exact Nat.zero_le _
    · have hBound : setting.visitBound ≤ setting.limits.maximumEntries * 2 := Nat.min_le_left _ _
      rw [walkFuel, List.length_singleton]
      omega
  have hSpec := Census.run_spec (censusOf setting held patch) hCount (setting.events [root base])
  rw [prepareOver, Result.ite_error_eq_ok, Result.bind_eq_ok, hRun]
  constructor
  · rintro ⟨hIdentity, _, hFold, h⟩
    cases hFold
    obtain ⟨walk, hTree, h⟩ := Result.bind_eq_ok.mp h
    cases h
    obtain ⟨hAllowed, hAfter⟩ := hSpec.1 walk (hWalk.mp hTree)
    rw [not_or, Nat.not_lt] at hIdentity
    exact ⟨walk, hIdentity, hPatch, rfl, hHeld, hWalk.mp hTree, hAllowed, hAfter, rfl⟩
  · rintro ⟨walk, hBuilt⟩
    refine ⟨by rw [not_or, Nat.not_lt]; exact hBuilt.identity, held, rfl, ?_⟩
    exact Result.bind_eq_ok.mpr ⟨walk, hWalk.mpr hBuilt.run, by rw [hBuilt.overlay]; rfl⟩

namespace Built

variable {census : Census H} {walk : Walk H} {entry : PayloadEntryMetadata} {key : Text}

theorem mem_pairs (h : Built census base patch overlay walk) : (key, entry) ∈ walk.entries.pairs ↔
    (∃ original ∈ patch, keyed original = (key, entry)) ∨
      ∃ numbered ∈ census.numbered (census.events [root base]), Census.entry numbered = (key, entry) := by
  rw [h.after.entries.mem_iff, List.mem_append, h.held.mem_iff, List.mem_map, List.mem_map]

theorem portableKey_of_pair (h : Built census base patch overlay walk) (hPair : (key, entry) ∈ walk.entries.pairs) :
    portableKey entry = some key := by
  rcases h.mem_pairs.mp hPair with ⟨original, hOriginal, hSame⟩ | ⟨⟨token, addition⟩, hNumbered, hSame⟩
  · obtain ⟨path, hPath⟩ := h.acceptable.parsed original hOriginal
    rw [keyed_of_parse hPath] at hSame
    cases hSame
    exact portableKey_fold hPath rfl
  · cases hSame
    obtain ⟨event, -, hAddition⟩ := List.mem_filterMap.mp (Census.mem_numbered hNumbered).1
    obtain ⟨path, hFile, -, -⟩ := Census.addition?_eq_some.mp hAddition
    obtain ⟨task, name, normalized, -, hParse, hKey⟩ := Census.file?_eq_some.mp hFile
    have hFold : portableKey ⟨token, addition.key, addition.file.size⟩ = some normalized.portabilityKey :=
      portableKey_fold hParse hKey.symm
    exact hFold.trans (congrArg some hKey)

theorem mem_entries (h : Built census base patch overlay walk) :
    entry ∈ overlay.entries ↔ ∃ key, (key, entry) ∈ walk.entries.pairs := by
  rw [h.overlay]
  exact List.mem_map.trans ⟨fun ⟨⟨key, _⟩, hPair, hSame⟩ => ⟨key, hSame ▸ hPair⟩, fun ⟨key, hPair⟩ => ⟨_, hPair, rfl⟩⟩

theorem portableKeys (h : Built census base patch overlay walk) :
    overlay.entries.map portableKey = walk.entries.keys.map some := by
  rw [h.overlay, SortedMap.values, SortedMap.keys, List.map_map, List.map_map]
  exact List.map_congr_left fun pair hPair => h.portableKey_of_pair hPair

theorem token_of_numbered (h : Built census base patch overlay walk) {numbered : UInt64 × Addition H}
    (hNumbered : numbered ∈ census.numbered (census.events [root base])) :
    numbered.1 ∉ patch.map PayloadEntryMetadata.sourceToken := by
  obtain ⟨-, place, hPlace, hToken⟩ := Census.mem_numbered hNumbered
  have hTokens := h.allowed.tokens
  intro hMem
  obtain ⟨original, hOriginal, hSame⟩ := List.mem_map.mp hMem
  have hGreatest := UInt64.le_iff_toNat_le.mp (le_greatestToken hOriginal)
  have hBelow : census.token.toNat + place + 1 < 2 ^ 64 := by omega
  rw [hSame, hToken, UInt64.toNat_ofNat_of_lt' hBelow, ← h.token] at hGreatest
  omega

theorem nodup_tokens (h : Built census base patch overlay walk) :
    ((census.numbered (census.events [root base])).map Prod.fst).Nodup := by
  have hTokens := h.allowed.tokens
  have hPlaces : (census.numbered (census.events [root base])).map Prod.fst =
      (List.range' 0 (census.additions (census.events [root base])).length).map
        fun place => UInt64.ofNat (census.token.toNat + place + 1) := by
    rw [← List.zipIdx_map_snd 0 (census.additions (census.events [root base])), Census.numbered, List.map_map, List.map_map]
    rfl
  rw [hPlaces]
  refine List.Nodup.map_on ?_ (List.nodup_range' ..)
  intro first hFirst second hSecond hSame
  rw [List.mem_range'_1] at hFirst hSecond
  have hBelow : census.token.toNat + first + 1 < 2 ^ 64 := by omega
  have hBelow' : census.token.toNat + second + 1 < 2 ^ 64 := by omega
  have hSame := congrArg UInt64.toNat hSame
  rw [UInt64.toNat_ofNat_of_lt' hBelow, UInt64.toNat_ofNat_of_lt' hBelow'] at hSame
  omega

theorem get?_files (h : Built census base patch overlay walk) {token : UInt64} {file : BaseFile H} :
    overlay.files.get? token = some file ↔
      ∃ numbered ∈ census.numbered (census.events [root base]), numbered.1 = token ∧ numbered.2.file = file := by
  rw [h.overlay, SortedMap.get?_eq_some, h.after.files.mem_iff, List.mem_map]
  simp only [Prod.mk.injEq]

theorem get?_of_patch (h : Built census base patch overlay walk) {token : UInt64}
    (hToken : token ∈ patch.map PayloadEntryMetadata.sourceToken) : overlay.files.get? token = none := by
  cases hFile : overlay.files.get? token with
  | none => rfl
  | some file =>
    obtain ⟨numbered, hNumbered, rfl, -⟩ := h.get?_files.mp hFile
    exact absurd hToken (h.token_of_numbered hNumbered)

theorem origin (h : Built census base patch overlay walk) (hEntry : entry ∈ overlay.entries) :
    (∃ original ∈ patch, (keyed original).2 = entry ∧ overlay.files.get? entry.sourceToken = none) ∨
      ∃ addition ∈ census.additions (census.events [root base]), entry.sizeBytes = addition.file.size ∧
        portableKey entry = some addition.key ∧ overlay.files.get? entry.sourceToken = some addition.file := by
  obtain ⟨key, hPair⟩ := h.mem_entries.mp hEntry
  rcases h.mem_pairs.mp hPair with ⟨original, hOriginal, hSame⟩ | ⟨numbered, hNumbered, hSame⟩
  · have hKeyed : (keyed original).2 = entry := congrArg Prod.snd hSame
    refine .inl ⟨original, hOriginal, hKeyed, h.get?_of_patch ?_⟩
    rw [← hKeyed]
    exact List.mem_map.mpr ⟨original, hOriginal, rfl⟩
  · have hKey := h.portableKey_of_pair hPair
    cases hSame
    exact .inr ⟨numbered.2, (Census.mem_numbered hNumbered).1, rfl, hKey,
      h.get?_files.mpr ⟨numbered, hNumbered, rfl, rfl⟩⟩

theorem key_of_patch (h : Built census base patch overlay walk) :
    some key ∈ patch.map portableKey ↔ key ∈ census.held.keys := by
  rw [SortedMap.keys, (h.held.map Prod.fst).mem_iff, List.map_map, List.mem_map, List.mem_map]
  constructor
  · rintro ⟨original, hOriginal, hKey⟩
    exact ⟨original, hOriginal, by rw [Function.comp_apply, keyed, hKey, Option.getD_some]⟩
  · rintro ⟨original, hOriginal, hKey⟩
    obtain ⟨path, hPath⟩ := h.acceptable.parsed original hOriginal
    rw [Function.comp_apply, keyed_of_parse hPath] at hKey
    exact ⟨original, hOriginal, hKey ▸ portableKey_of_parse hPath⟩

theorem events_root (census : Census H) (base : BasePayload H) :
    census.events [root base] = census.below 65 (root base) := by
  rw [Setting.events_cons, Setting.events, List.flatMap_nil, List.append_nil]
  rfl

theorem base_of_addition {addition : Addition H} (h : addition ∈ census.additions (census.events [root base])) :
    BaseHolds census.fs base addition.key addition.file.path ∧ census.held.get? addition.key = none ∧
      census.baseFile? addition.file.path = some addition.file := by
  obtain ⟨event, hEvent, hAddition⟩ := List.mem_filterMap.mp h
  obtain ⟨path, hFile, hFree, hRead⟩ := Census.addition?_eq_some.mp hAddition
  obtain ⟨source, contents, -, -, hSame⟩ := baseFile?_eq_some.mp hRead
  have hPath : path = addition.file.path := by rw [hSame]
  rw [events_root] at hEvent
  rw [← hPath]
  exact ⟨Census.holds_of_mem (List.mem_filterMap.mpr ⟨event, hEvent, hFile⟩), hFree, hRead⟩

theorem key_of_base (h : Built census base patch overlay walk) {path : H} (hBase : BaseHolds census.fs base key path) :
    key ∈ walk.entries.keys := by
  obtain ⟨relative, normalized, hHolds, hParse, rfl⟩ := hBase
  have hSound := h.allowed.sound
  rw [events_root] at hSound
  obtain ⟨event, hEvent, hFile⟩ := List.mem_filterMap.mp (Census.mem_of_holds hHolds hParse rfl hSound)
  rw [SortedMap.keys, (h.after.entries.map Prod.fst).mem_iff, List.map_append, List.mem_append]
  obtain ⟨task, name, _, rfl, -, -⟩ := Census.file?_eq_some.mp hFile
  cases hHeld : census.held.get? normalized.portabilityKey with
  | some entry => exact .inl (List.mem_map.mpr ⟨_, SortedMap.get?_eq_some.mp hHeld, rfl⟩)
  | none =>
    rcases hSound _ hEvent with ⟨_, _, hDirectory⟩ | ⟨found, hFound, hRead⟩
    · cases hDirectory
    cases hFile.symm.trans hFound
    obtain ⟨file, hRead⟩ := Option.isSome_iff_exists.mp (hRead.resolve_left (by simp [hHeld]))
    have hAddition : (⟨normalized.portabilityKey, file⟩ : Addition H) ∈ census.additions (census.below 65 (root base)) :=
      List.mem_filterMap.mpr ⟨_, hEvent, Census.addition?_eq_some.mpr ⟨path, hFile, hHeld, hRead⟩⟩
    obtain ⟨place, hPlace, hGet⟩ := List.mem_iff_getElem.mp hAddition
    refine .inr (List.mem_map.mpr ⟨_, List.mem_map.mpr ⟨_, List.mem_map.mpr
      ⟨(⟨normalized.portabilityKey, file⟩, place), ?_, rfl⟩, rfl⟩, rfl⟩)
    rw [List.mem_zipIdx_iff_getElem?, events_root, List.getElem?_eq_some_iff]
    exact ⟨hPlace, hGet⟩

end Built

end Overlay

end OpenHalfLife.Patch
