import OpenHalfLife.Patch.Precedence

/-! # What an overlay serves

The order of the listings leaves no trace in a prepared overlay but the
numbers of its files. Each entry has one source, and a file of the base is
served as it was recorded or not at all.
-/

namespace OpenHalfLife.Patch

open Payload Setting

set_option autoImplicit false

namespace Overlay

variable {H : Type} {setting : Setting H} {fs fs' : FileSystem H} {base : BasePayload H}
  {patch : List PayloadEntryMetadata} {overlay : Overlay H} {census : Census H} {walk walk' : Walk H}

/-! ## The order of the listings -/

def shape (overlay : Overlay H) : List (Option Text × UInt64) × Option Text :=
  (overlay.entries.map fun entry => (portableKey entry, entry.sizeBytes), overlay.identity)

def SameShape {ε : Type} (first second : Except ε (Overlay H)) : Prop :=
  (∃ a b, first = .ok a ∧ second = .ok b ∧ a.shape = b.shape) ∨
    (∀ a, first ≠ .ok a) ∧ ∀ b, second ≠ .ok b

def sized (pair : Text × PayloadEntryMetadata) : Text × UInt64 := (pair.1, pair.2.sizeBytes)

theorem sized_sorted (walk : Walk H) :
    (walk.entries.pairs.map sized).Pairwise fun first second => first.1 < second.1 :=
  List.pairwise_map.mpr walk.entries.sorted

namespace Built

theorem shape_eq (h : Built census base patch overlay walk) : overlay.shape =
    ((walk.entries.pairs.map sized).map fun pair => (some pair.1, pair.2),
      some (census.sha (overlayFormat ++ base.identity ++ walk.fingerprints.pairs.flatMap fingerprint)).toHex) := by
  have hEntries : overlay.entries = walk.entries.pairs.map Prod.snd := by
    rw [h.overlay]
    rfl
  have hIdentity : overlay.identity =
      some (census.sha (overlayFormat ++ base.identity ++ walk.fingerprints.pairs.flatMap fingerprint)).toHex := by
    rw [h.overlay]
  rw [shape, hEntries, hIdentity, List.map_map, List.map_map]
  congr 1
  apply List.map_congr_left
  rintro ⟨key, entry⟩ hPair
  rw [Function.comp_apply, Function.comp_apply, h.portableKey_of_pair hPair]
  rfl

theorem sized_perm (h : Built census base patch overlay walk) : (walk.entries.pairs.map sized).Perm
    ((patch.map keyed).map sized ++ (census.additions (census.events [root base])).map
      fun addition => (addition.key, addition.file.size)) := by
  have hNumbered : ((census.numbered (census.events [root base])).map Census.entry).map sized =
      (census.additions (census.events [root base])).map fun addition => (addition.key, addition.file.size) := by
    have hFirst : (census.additions (census.events [root base])).zipIdx.map Prod.fst =
        census.additions (census.events [root base]) := List.zipIdx_map_fst _ _
    conv_rhs => rw [← hFirst]
    rw [Census.numbered, List.map_map, List.map_map, List.map_map]
    rfl
  have hEntries := h.after.entries.map sized
  rw [List.map_append, hNumbered] at hEntries
  exact hEntries.trans ((h.held.map sized).append_right _)

theorem reordered {held : SortedMap Text PayloadEntryMetadata} (hReordered : setting.fs.Reordered fs')
    (hRun : patch.foldlM addPatchEntry .empty = .ok held)
    (h : Built (censusOf setting held patch) base patch overlay walk) :
    ∃ overlay', prepareOver { setting with fs := fs' } base patch = .ok overlay' ∧ overlay.shape = overlay'.shape := by
  have hEvents : ((censusOf setting held patch).events [root base]).Perm
      ((Census.onSystem (censusOf setting held patch) fs').events [root base]) := by
    rw [events_root, events_root]
    exact Census.below_perm hReordered 65 (root base)
  have hAllowed : (Census.onSystem (censusOf setting held patch) fs').Allowed _ := h.allowed.onSystem hReordered hEvents
  have hLength : held.pairs.length = (patch.map keyed).length := h.held.length_eq
  have hCount : held.pairs.length ≤ setting.limits.maximumEntries := by
    rw [hLength, List.length_map]
    exact h.acceptable.count
  have hSpec := Census.run_spec (Census.onSystem (censusOf setting held patch) fs') hCount
    ((Census.onSystem (censusOf setting held patch) fs').events [root base])
  obtain ⟨walk', hRun'⟩ := hSpec.2 hAllowed
  have hBuilt : Built (censusOf { setting with fs := fs' } held patch) base patch ⟨walk'.entries.values, walk'.files,
      some (setting.sha (overlayFormat ++ base.identity ++ walk'.fingerprints.pairs.flatMap fingerprint)).toHex⟩
        walk' :=
    ⟨h.identity, h.acceptable, rfl, h.held, hRun', hAllowed, (hSpec.1 walk' hRun').2, rfl⟩
  have hPatch : Acceptable ({ setting with fs := fs' } : Setting H).limits patch := h.acceptable
  refine ⟨_, (prepareOver_eq_ok hPatch hRun h.held).mpr ⟨walk', hBuilt⟩, ?_⟩
  have hAdditions : ((censusOf setting held patch).additions ((censusOf setting held patch).events [root base])).Perm
      ((Census.onSystem (censusOf setting held patch) fs').additions
        ((Census.onSystem (censusOf setting held patch) fs').events [root base])) := by
    rw [Census.additions, Census.additions, Census.addition?_onSystem hReordered]
    exact hEvents.filterMap _
  have hSizes : walk.entries.pairs.map sized = walk'.entries.pairs.map sized :=
    SortedMap.eq_of_perm (sized_sorted walk) (sized_sorted walk')
      ((h.sized_perm.trans ((hAdditions.map _).append_left _)).trans hBuilt.sized_perm.symm)
  have hPrints : walk.fingerprints.pairs = walk'.fingerprints.pairs :=
    SortedMap.eq_of_perm walk.fingerprints.sorted walk'.fingerprints.sorted
      ((h.after.fingerprints.trans (hAdditions.map _)).trans hBuilt.after.fingerprints.symm)
  rw [h.shape_eq, hBuilt.shape_eq, hSizes, hPrints]
  rfl

end Built

theorem prepare_reordered {base : Option (BasePayload H)} (hReordered : setting.fs.Reordered fs')
    (h : prepare setting base patch = .ok overlay) :
    ∃ overlay', prepare { setting with fs := fs' } base patch = .ok overlay' ∧ overlay.shape = overlay'.shape := by
  obtain ⟨hPatch, hOverlay⟩ := prepare_eq_ok.mp h
  cases base with
  | none => exact ⟨overlay, prepare_eq_ok.mpr ⟨hPatch, hOverlay⟩, rfl⟩
  | some base =>
    obtain ⟨held, hRun, hHeld⟩ := Acceptable.held hPatch
    obtain ⟨walk, hBuilt⟩ := (prepareOver_eq_ok hPatch hRun hHeld).mp hOverlay
    obtain ⟨overlay', hOther, hShape⟩ := hBuilt.reordered hReordered hRun
    exact ⟨overlay', prepare_eq_ok.mpr ⟨hPatch, hOther⟩, hShape⟩

theorem sameShape_of_reordered {base : Option (BasePayload H)} (hReordered : setting.fs.Reordered fs') :
    SameShape (prepare setting base patch) (prepare { setting with fs := fs' } base patch) := by
  by_cases h : ∃ overlay, prepare setting base patch = .ok overlay
  · obtain ⟨overlay, h⟩ := h
    obtain ⟨overlay', h', hShape⟩ := prepare_reordered hReordered h
    exact .inl ⟨overlay, overlay', h, h', hShape⟩
  · refine .inr ⟨fun a ha => h ⟨a, ha⟩, fun b hb => h ?_⟩
    have hBack : ({ setting with fs := fs' } : Setting H).fs.Reordered setting.fs := hReordered.symm
    obtain ⟨overlay, hPrepared, -⟩ := prepare_reordered hBack hb
    exact ⟨overlay, hPrepared⟩

/-! ## One source for each entry -/

structure Serves (setting : Setting H) (base : Option (BasePayload H)) (patch : List PayloadEntryMetadata)
    (overlay : Overlay H) : Prop where
  parsed : ∀ entry ∈ overlay.entries, (portableKey entry).isSome = true
  keys : (overlay.entries.map portableKey).Nodup
  complete : ∀ key, some key ∈ overlay.entries.map portableKey ↔ some key ∈ patch.map portableKey ∨
    ∃ tree path, base = some tree ∧ BaseHolds setting.fs tree key path
  patchWins : ∀ entry ∈ overlay.entries,
    overlay.files.get? entry.sourceToken = none ↔ portableKey entry ∈ patch.map portableKey
  fromPatch : ∀ entry ∈ overlay.entries, overlay.files.get? entry.sourceToken = none →
    ∃ original ∈ patch, entry.sourceToken = original.sourceToken ∧ entry.sizeBytes = original.sizeBytes ∧
      portableKey entry = portableKey original
  fromBase : ∀ entry ∈ overlay.entries, ∀ file, overlay.files.get? entry.sourceToken = some file →
    ∃ tree key, base = some tree ∧ portableKey entry = some key ∧ BaseHolds setting.fs tree key file.path ∧
      entry.sizeBytes = file.size ∧ setting.baseFile? file.path = some file
  tokens : (overlay.entries.map PayloadEntryMetadata.sourceToken).Nodup
  apart : ∀ token ∈ patch.map PayloadEntryMetadata.sourceToken, overlay.files.get? token = none

theorem serves_patch (h : Acceptable setting.limits patch) : Serves setting none patch ⟨patch, .empty, none⟩ where
  parsed entry hEntry := by
    obtain ⟨path, hPath⟩ := h.parsed entry hEntry
    rw [portableKey_of_parse hPath]
    rfl
  keys := by
    have hKeys := (keys_keyed h.parsed).symm ▸ h.keys
    rw [List.map_map] at hKeys
    refine List.Nodup.of_map (Option.getD · []) ?_
    rw [List.map_map]
    exact hKeys
  complete key := by simp
  patchWins entry hEntry := ⟨fun _ => List.mem_map_of_mem hEntry, fun _ => rfl⟩
  fromPatch entry hEntry _ := ⟨entry, hEntry, rfl, rfl, rfl⟩
  fromBase _ _ _ hFile := nomatch hFile
  tokens := h.tokens
  apart _ _ := rfl

namespace Built

theorem tokens_perm (h : Built census base patch overlay walk) : (overlay.entries.map PayloadEntryMetadata.sourceToken).Perm
    (patch.map PayloadEntryMetadata.sourceToken ++ (census.numbered (census.events [root base])).map Prod.fst) := by
  have hEntries : overlay.entries = walk.entries.pairs.map Prod.snd := by
    rw [h.overlay]
    rfl
  have hPerm := (h.after.entries.trans (h.held.append_right _)).map fun pair => pair.2.sourceToken
  rw [List.map_append, List.map_map, List.map_map] at hPerm
  rw [hEntries, List.map_map]
  exact hPerm

theorem serves (h : Built census base patch overlay walk) : Serves census.toSetting (some base) patch overlay where
  parsed entry hEntry := by
    obtain ⟨key, hPair⟩ := h.mem_entries.mp hEntry
    rw [h.portableKey_of_pair hPair]
    rfl
  keys := by
    rw [h.portableKeys]
    exact walk.entries.nodup_keys.map (Option.some_injective _)
  complete key := by
    rw [h.portableKeys, List.mem_map_of_injective (Option.some_injective _), h.key_of_patch]
    constructor
    · intro hKey
      rw [SortedMap.keys, (h.after.entries.map Prod.fst).mem_iff, List.map_append, List.mem_append] at hKey
      refine hKey.imp id fun hNumbered => ?_
      rw [List.map_map, List.mem_map] at hNumbered
      obtain ⟨numbered, hNumbered, rfl⟩ := hNumbered
      exact ⟨base, _, rfl, (base_of_addition (Census.mem_numbered hNumbered).1).1⟩
    · rintro (hHeld | ⟨_, path, hSame, hBase⟩)
      · rw [SortedMap.keys, (h.after.entries.map Prod.fst).mem_iff, List.map_append, List.mem_append]
        exact .inl hHeld
      · cases hSame
        exact h.key_of_base hBase
  patchWins entry hEntry := by
    rcases h.origin hEntry with ⟨original, hOriginal, rfl, hNone⟩ | ⟨addition, hAddition, -, hKey, hSome⟩
    · obtain ⟨path, hPath⟩ := h.acceptable.parsed original hOriginal
      refine ⟨fun _ => List.mem_map.mpr ⟨original, hOriginal, ?_⟩, fun _ => hNone⟩
      rw [keyed_of_parse hPath, portableKey_of_parse hPath, portableKey_fold hPath rfl]
    · constructor
      · intro hNone
        cases hSome.symm.trans hNone
      · intro hMem
        rw [hKey, h.key_of_patch] at hMem
        exact absurd hMem (SortedMap.get?_eq_none.mp (base_of_addition hAddition).2.1)
  fromPatch entry hEntry hNone := by
    rcases h.origin hEntry with ⟨original, hOriginal, rfl, -⟩ | ⟨addition, -, -, -, hSome⟩
    · obtain ⟨path, hPath⟩ := h.acceptable.parsed original hOriginal
      refine ⟨original, hOriginal, rfl, rfl, ?_⟩
      rw [keyed_of_parse hPath, portableKey_of_parse hPath, portableKey_fold hPath rfl]
    · cases hSome.symm.trans hNone
  fromBase entry hEntry file hFile := by
    rcases h.origin hEntry with ⟨original, -, -, hNone⟩ | ⟨addition, hAddition, hSize, hKey, hSome⟩
    · cases hNone.symm.trans hFile
    · cases hSome.symm.trans hFile
      obtain ⟨hBase, -, hRead⟩ := base_of_addition hAddition
      exact ⟨base, addition.key, rfl, hKey, hBase, hSize, hRead⟩
  tokens := by
    rw [h.tokens_perm.nodup_iff, List.nodup_append]
    refine ⟨h.acceptable.tokens, h.nodup_tokens, ?_⟩
    rintro token hPatch _ hBase rfl
    obtain ⟨numbered, hNumbered, rfl⟩ := List.mem_map.mp hBase
    exact h.token_of_numbered hNumbered hPatch
  apart token hToken := h.get?_of_patch hToken

end Built

theorem serves_of_prepare {base : Option (BasePayload H)} (h : prepare setting base patch = .ok overlay) :
    Serves setting base patch overlay := by
  obtain ⟨hPatch, hOverlay⟩ := prepare_eq_ok.mp h
  cases base with
  | none =>
    cases hOverlay
    exact serves_patch hPatch
  | some base =>
    obtain ⟨held, hRun, hHeld⟩ := Acceptable.held hPatch
    obtain ⟨walk, hBuilt⟩ := (prepareOver_eq_ok hPatch hRun hHeld).mp hOverlay
    exact hBuilt.serves

/-! ## Streams -/

section Streams

variable {stop : Nat → Bool} {sink : List Text → Text → Bool} {source : MediaSource} {size : UInt64}
  {starts : List Nat} {streaming streaming' : Streaming} {token : UInt64} {file : BaseFile H}

theorem hashed_streamChunk {start : Nat} (hHashed : streaming.hashed = streaming.given.flatten)
    (h : streamChunk stop sink source size streaming start = .ok streaming') :
    streaming'.hashed = streaming'.given.flatten := by
  rw [streamChunk, Result.ite_error_eq_ok] at h
  obtain ⟨-, h⟩ := h
  cases hRead : source.readExactAt start (chunkLength size start) with
  | none =>
    rw [hRead] at h
    cases h
  | some buffer =>
    rw [hRead] at h
    obtain ⟨-, h⟩ := Result.ite_error_eq_ok.mp h
    cases h
    simp [hHashed]

theorem hashed_streamChunks (hHashed : streaming.hashed = streaming.given.flatten)
    (h : starts.foldlM (streamChunk stop sink source size) streaming = .ok streaming') :
    streaming'.hashed = streaming'.given.flatten := by
  induction starts generalizing streaming with
  | nil =>
    cases h
    exact hHashed
  | cons start starts ih =>
    rw [List.foldlM_cons, Result.bind_eq_ok] at h
    obtain ⟨next, hChunk, h⟩ := h
    exact ih (hashed_streamChunk hHashed hChunk) h

theorem stream_recorded {later : FileSystem H} {sha : Text → MediaDigest} {fromPatch : UInt64 → Streamed}
    (hFile : overlay.files.get? token = some file)
    (h : (overlay.stream later sha stop sink fromPatch token).1 = true) :
    sha (overlay.stream later sha stop sink fromPatch token).2.flatten = file.digest := by
  rw [Overlay.stream, hFile] at h ⊢
  dsimp only at h ⊢
  cases hOpen : later.openSource file.path with
  | none =>
    rw [hOpen] at h
    cases h
  | some source =>
    rw [hOpen] at h
    dsimp only at h ⊢
    split at h
    case isTrue => cases h
    case isFalse hSame =>
      rw [if_neg hSame]
      cases hRun : (offsets file.size).foldlM (streamChunk stop sink source file.size) ⟨[], []⟩ with
      | error given =>
        rw [hRun] at h
        cases h
      | ok streaming =>
        rw [hRun] at h
        dsimp only at h ⊢
        rw [← hashed_streamChunks rfl hRun]
        exact of_decide_eq_true (Bool.and_eq_true_iff.mp h).2

theorem stream_of_patch {later : FileSystem H} {sha : Text → MediaDigest} {fromPatch : UInt64 → Streamed}
    (hFile : overlay.files.get? token = none) :
    overlay.stream later sha stop sink fromPatch token = fromPatch token := by
  rw [Overlay.stream, hFile]

end Streams

/-- A file `x` and a directory `d` that holds `Y`, each of one byte. -/
def sampleTree (listing : List (Option (DirEntry Nat))) : FileSystem Nat where
  isDirectory path := path ≤ 1
  readDir path := match path with
    | 0 => some listing
    | 1 => some [some ⟨some [0x59], 3, some .file⟩]
    | _ => none
  openSource path := some ⟨1, fun _ count => some (Vector.replicate count path.toUInt8), fun _ => true⟩

def sampleListing : List (Option (DirEntry Nat)) :=
  [some ⟨some [0x78], 2, some .file⟩, some ⟨some [0x64], 1, some .directory⟩]

def sampleSetting : Setting Nat where
  fs := sampleTree sampleListing
  sha bytes := ⟨Vector.replicate 32 (bytes.length.toUInt8 + bytes.sum)⟩
  stop _ := false
  limits := .default

/-- A patch of `X`. -/
def samplePatch : List PayloadEntryMetadata := [⟨7, [0x58], 5⟩]

theorem sample_reordered : sampleSetting.fs.Reordered (sampleTree sampleListing.reverse) where
  isDirectory := rfl
  openSource := rfl
  readDir path := by
    rcases path with _ | _ | path
    · exact .some (List.reverse_perm _).symm
    · exact .some (.refl _)
    · exact .none

end Overlay

end OpenHalfLife.Patch
