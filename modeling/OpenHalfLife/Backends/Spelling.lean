import OpenHalfLife.Import.Alias
import OpenHalfLife.Media.Paths
import OpenHalfLife.Payload.Path

/-! # The spelling filter of a worker

Names are offered to the parent only if the parent would take them all. A name
is compared with its two neighbours among the sorted keys, as the parent will
do; a file and the directory of another name can stand further apart.
-/

namespace OpenHalfLife.Backends

open Import (DirectoryPrefix EntryMetadata HasVisibleAlias ImportLimits foldedPaths planCatalog slash)
open Payload (PayloadPath)

set_option autoImplicit false

abbrev Text := List UInt8

def maximumSpellingBytes : Nat := 4096

inductive SpellingRejection
  | unusable
  | duplicate
  | alias
  deriving DecidableEq, Repr

structure SpellingSet where
  keys : SortedSet Text

namespace SpellingSet

def new : SpellingSet := ⟨.empty⟩

def aliases (shorter longer : Text) : Bool :=
  longer.length > shorter.length && shorter.isPrefixOf longer && longer[shorter.length]? = some slash

/-- Bytes that are no UTF-8 have one outside the printable range, so no path parses from them. -/
def usable (raw : Text) : Option PayloadPath :=
  if raw = [] ∨ raw.length > maximumSpellingBytes then none
  else match PayloadPath.parse raw with
    | .error _ => none
    | .ok path => if path.relativePath.length > maximumSpellingBytes then none else some path

def before (set : SpellingSet) (key : Text) : Option Text := (set.keys.elements.takeWhile (· < key)).getLast?

def after (set : SpellingSet) (key : Text) : Option Text := (set.keys.elements.dropWhile (· < key)).head?

def accept (set : SpellingSet) (raw : Text) : Except SpellingRejection (Text × SpellingSet) :=
  match usable raw with
  | none => .error .unusable
  | some path => match set.keys.insert path.portabilityKey with
    | none => .error .duplicate
    | some keys =>
      if (set.before path.portabilityKey).any (aliases · path.portabilityKey) ||
          (set.after path.portabilityKey).any (aliases path.portabilityKey ·) then .error .alias
      else .ok (path.relativePath, ⟨keys⟩)

/-- The set and the accepted spellings after offering names in turn; a rejected one changes nothing. -/
def offer (offered : SpellingSet × List Text) (raw : Text) : SpellingSet × List Text :=
  match offered.1.accept raw with
  | .ok (spelling, set) => (set, offered.2 ++ [spelling])
  | .error _ => offered

def run (names : List Text) : SpellingSet × List Text := names.foldl offer (new, [])

end SpellingSet

structure FiltersExactly (names : List Text) : Prop where
  distinct : ((SpellingSet.run names).2.map Import.toAsciiLowercase).Nodup
  noAlias : ∀ first ∈ (SpellingSet.run names).2, ∀ second ∈ (SpellingSet.run names).2,
    ¬DirectoryPrefix (Import.toAsciiLowercase first) (Import.toAsciiLowercase second)
  duplicateExact : ∀ earlier raw later, names = earlier ++ raw :: later →
    (SpellingSet.run earlier).1.accept raw = .error .duplicate → ∃ path, PayloadPath.parse raw = .ok path ∧
      ∃ spelling ∈ (SpellingSet.run earlier).2, Import.toAsciiLowercase spelling = path.portabilityKey
  aliasExact : ∀ earlier raw later, names = earlier ++ raw :: later →
    (SpellingSet.run earlier).1.accept raw = .error .alias → ∃ path, PayloadPath.parse raw = .ok path ∧
      ∃ spelling ∈ (SpellingSet.run earlier).2,
        DirectoryPrefix (Import.toAsciiLowercase spelling) path.portabilityKey ∨
        DirectoryPrefix path.portabilityKey (Import.toAsciiLowercase spelling)
  planned : ∀ (limits : ImportLimits) (entries : List EntryMetadata),
    (entries.map EntryMetadata.archivePath).Perm (SpellingSet.run names).2 → Import.WithinQuotas limits entries →
    entries.length ≤ limits.entries → ∃ catalog, planCatalog entries limits = .ok catalog

namespace SpellingSet

section Step

variable {set set' : SpellingSet} {raw spelling : Text} {path : PayloadPath} {key : Text}

theorem aliases_iff {shorter longer : Text} : aliases shorter longer = true ↔ DirectoryPrefix shorter longer :=
  Import.isDirectoryPrefix_iff

theorem usable_spec (h : usable raw = some path) : raw ≠ [] ∧ PayloadPath.parse raw = .ok path := by
  rw [usable] at h
  split at h
  · cases h
  · rename_i hBounds
    split at h
    · cases h
    · rename_i hParse
      split at h
      · cases h
      · cases h
        exact ⟨fun hNil => hBounds (.inl hNil), hParse⟩

/-- Neither neighbour of the place of a new key is in the directory relation with it. -/
def Clear (set : SpellingSet) (key : Text) : Prop :=
  (∀ held ∈ set.before key, ¬DirectoryPrefix held key) ∧ ∀ held ∈ set.after key, ¬DirectoryPrefix key held

theorem accept_eq_ok : set.accept raw = .ok (spelling, set') ↔ ∃ path, usable raw = some path ∧
    spelling = path.relativePath ∧ set.keys.insert path.portabilityKey = some set'.keys ∧
    set.Clear path.portabilityKey := by
  have hClear (key : Text) : ((set.before key).any (aliases · key) || (set.after key).any (aliases key ·)) = false ↔
      set.Clear key := by
    rw [Bool.or_eq_false_iff, Clear]
    cases set.before key <;> cases set.after key <;> simp [← aliases_iff]
  rw [accept]
  cases hUsable : usable raw with
  | none => simp
  | some path =>
    cases hInsert : set.keys.insert path.portabilityKey with
    | none => simp [hInsert]
    | some keys =>
      simp only [Option.some.injEq, ← hClear, exists_eq_left', hInsert]
      split
      · simp [*]
      · rename_i hNone
        rw [Bool.not_eq_true] at hNone
        obtain ⟨keys'⟩ := set'
        simp [hNone, eq_comm]

theorem accept_eq_duplicate (h : set.accept raw = .error .duplicate) :
    ∃ path, usable raw = some path ∧ path.portabilityKey ∈ set.keys.elements := by
  rw [accept] at h
  cases hUsable : usable raw with
  | none => simp [hUsable] at h
  | some path =>
    simp only [hUsable] at h
    cases hInsert : set.keys.insert path.portabilityKey with
    | none => exact ⟨path, rfl, SortedSet.insert_eq_none.mp hInsert⟩
    | some keys =>
      simp only [hInsert] at h
      split at h <;> simp at h

theorem accept_eq_alias (h : set.accept raw = .error .alias) :
    ∃ path, usable raw = some path ∧ ∃ held ∈ set.keys.elements,
      DirectoryPrefix held path.portabilityKey ∨ DirectoryPrefix path.portabilityKey held := by
  rw [accept] at h
  cases hUsable : usable raw with
  | none => simp [hUsable] at h
  | some path =>
    refine ⟨path, rfl, ?_⟩
    simp only [hUsable] at h
    split at h
    · cases h
    · split at h
      · rename_i hAlias
        rcases Bool.or_eq_true_iff.mp hAlias with hBefore | hAfter
        · obtain ⟨held, hHeld, hAliases⟩ := (Option.any_eq_true _ _).mp hBefore
          have hMem := List.mem_of_getLast? hHeld
          exact ⟨held, (List.takeWhile_sublist _).subset hMem, .inl (aliases_iff.mp hAliases)⟩
        · obtain ⟨held, hHeld, hAliases⟩ := (Option.any_eq_true _ _).mp hAfter
          have hMem := List.mem_of_head? hHeld
          exact ⟨held, (List.dropWhile_sublist _).subset hMem, .inr (aliases_iff.mp hAliases)⟩
      · cases h

theorem insert_elements {keys : SortedSet Text} (h : set.keys.insert key = some keys) :
    keys.elements = set.keys.elements.takeWhile (· < key) ++ key :: set.keys.elements.dropWhile (· < key) := by
  rw [SortedSet.insert] at h
  split at h
  · cases h
  · cases h
    have hOrdered := List.orderedInsert_eq_take_drop (· ≤ ·) key set.keys.elements
    simpa using hOrdered

def noAliasChain (set : SpellingSet) : Prop := set.keys.elements.IsChain fun p q => ¬DirectoryPrefix p q

theorem noAliasChain_insert {keys : SortedSet Text} (hChain : set.noAliasChain)
    (h : set.keys.insert key = some keys) : (SpellingSet.mk keys).noAliasChain ↔ set.Clear key := by
  have hSplit : set.keys.elements.takeWhile (· < key) ++ set.keys.elements.dropWhile (· < key) = set.keys.elements :=
    List.takeWhile_append_dropWhile
  rw [noAliasChain, ← hSplit, List.isChain_append] at hChain
  rw [noAliasChain, insert_elements h, List.isChain_append, List.isChain_cons, Clear, before, after]
  simp [hChain.1, hChain.2.1, and_comm]

def Sound (set : SpellingSet) : Prop :=
  ∀ p ∈ set.keys.elements, ∀ q ∈ set.keys.elements, ¬DirectoryPrefix p q

theorem Sound.chain (h : set.Sound) : set.noAliasChain := by
  rw [noAliasChain, List.isChain_iff_forall_rel_of_append_cons_cons]
  rintro p q left right hSplit
  exact h p (by simp [hSplit]) q (by simp [hSplit])

/-- A usable new name in the directory relation with a held key, where a held key extends the shorter
of the two by a byte below the slash. -/
def Hidden (set : SpellingSet) (raw : Text) : Prop :=
  ∃ path, usable raw = some path ∧ path.portabilityKey ∉ set.keys.elements ∧ ∃ held ∈ set.keys.elements, ∃ shorter,
    (DirectoryPrefix held path.portabilityKey ∧ shorter = held ∨
      DirectoryPrefix path.portabilityKey held ∧ shorter = path.portabilityKey) ∧
    ∃ other ∈ set.keys.elements, ∃ c < slash, shorter ++ [c] <+: other

theorem mem_insert {keys : SortedSet Text} (h : set.keys.insert key = some keys) {other : Text} :
    other ∈ keys.elements ↔ other = key ∨ other ∈ set.keys.elements := by
  rw [(SortedSet.insert_eq_some h).2.mem_iff, List.mem_cons]

theorem not_directoryPrefix_self (key : Text) : ¬DirectoryPrefix key key := by
  intro h
  have hLength := h.length_le
  simp at hLength

theorem sound_accept (hSound : set.Sound) (h : set.accept raw = .ok (spelling, set')) : set'.Sound ↔ ¬set.Hidden raw := by
  obtain ⟨path, hUsable, -, hInsert, hClear⟩ := accept_eq_ok.mp h
  have hNew := (SortedSet.insert_eq_some hInsert).1
  constructor
  · rintro hSound' ⟨path', hUsable', -, held, hHeld, shorter, hRelated, -⟩
    cases hUsable.symm.trans hUsable'
    have hHeld' := (mem_insert hInsert).mpr (.inr hHeld)
    have hOwn := (mem_insert hInsert).mpr (.inl rfl)
    rcases hRelated with ⟨hAlias, -⟩ | ⟨hAlias, -⟩
    · exact hSound' held hHeld' _ hOwn hAlias
    · exact hSound' _ hOwn held hHeld' hAlias
  · intro hVisible p hp q hq hAlias
    have hChain := (noAliasChain_insert hSound.chain hInsert).mpr hClear
    have hNeighbour := exists_neighbour_iff set'.keys.sorted slash
    have hNone : ¬∃ p ∈ set'.keys.elements, (∃ q ∈ set'.keys.elements, p ++ [slash] <+: q) ∧
        ∀ q ∈ set'.keys.elements, ∀ c < slash, ¬p ++ [c] <+: q := fun hBad => hNeighbour.mpr hBad hChain
    have hBlocked : ∃ other ∈ set'.keys.elements, ∃ c < slash, p ++ [c] <+: other := by
      by_contra hClearOf
      push Not at hClearOf
      exact hNone ⟨p, hp, ⟨q, hq, hAlias⟩, hClearOf⟩
    obtain ⟨other, hOther, c, hc, hExtends⟩ := hBlocked
    rcases (mem_insert hInsert).mp hp with rfl | hp' <;> rcases (mem_insert hInsert).mp hq with rfl | hq'
    · exact not_directoryPrefix_self _ hAlias
    · rcases (mem_insert hInsert).mp hOther with rfl | hOther
      · have hLength := hExtends.length_le
        simp at hLength
      · exact hVisible ⟨path, hUsable, hNew, q, hq', _, .inr ⟨hAlias, rfl⟩, other, hOther, c, hc, hExtends⟩
    · rcases (mem_insert hInsert).mp hOther with rfl | hOther
      · have hSame := List.prefix_of_prefix_length_le hExtends hAlias (by simp)
        have hLast := List.append_cancel_left (hSame.eq_of_length (by simp))
        rw [List.cons.inj hLast |>.1] at hc
        exact absurd hc (lt_irrefl _)
      · exact hVisible ⟨path, hUsable, hNew, p, hp', _, .inl ⟨hAlias, rfl⟩, other, hOther, c, hc, hExtends⟩
    · exact hSound p hp' q hq' hAlias

theorem directoryPrefix_trans {p q r : Text} (hp : DirectoryPrefix p q) (hq : DirectoryPrefix q r) : DirectoryPrefix p r :=
  hp.trans ((List.prefix_append q [slash]).trans hq)

theorem nested {p q key : Text} (hp : DirectoryPrefix p key) (hq : DirectoryPrefix q key) :
    p = q ∨ DirectoryPrefix p q ∨ DirectoryPrefix q p := by
  have hp' : p <+: key := (List.prefix_append p [slash]).trans hp
  have hq' : q <+: key := (List.prefix_append q [slash]).trans hq
  rcases Nat.lt_trichotomy p.length q.length with hLt | hEq | hGt
  · exact .inr (.inl (List.prefix_of_prefix_length_le hp hq' (by rw [List.length_append]; exact hLt)))
  · exact .inl ((List.prefix_of_prefix_length_le hp' hq' hEq.le).eq_of_length hEq)
  · exact .inr (.inr (List.prefix_of_prefix_length_le hq hp' (by rw [List.length_append]; exact hGt)))

theorem accept_of_hidden (hSound : set.Sound) (h : set.Hidden raw) : ∃ spelling set', set.accept raw = .ok (spelling, set') := by
  obtain ⟨path, hUsable, hNew, held, hHeld, shorter, hRelated, other, hOther, c, hc, hExtends⟩ := h
  cases hInsert : set.keys.insert path.portabilityKey with
  | none => exact absurd (SortedSet.insert_eq_none.mp hInsert) hNew
  | some keys =>
    refine ⟨path.relativePath, ⟨keys⟩, accept_eq_ok.mpr ⟨path, hUsable, rfl, hInsert, ?_⟩⟩
    by_contra hNotClear
    have hChain : ¬keys.elements.IsChain fun p q => ¬DirectoryPrefix p q :=
      fun hChain => hNotClear ((noAliasChain_insert hSound.chain hInsert).mp hChain)
    -- A neighbour in the relation has nothing between it and the name, so it is not the hidden one.
    obtain ⟨p, hp, ⟨q, hq, hAlias⟩, hBlocked⟩ := (exists_neighbour_iff keys.sorted slash).mp hChain
    have hOther' := (mem_insert hInsert).mpr (.inr hOther)
    rcases (mem_insert hInsert).mp hp with rfl | hp <;> rcases (mem_insert hInsert).mp hq with rfl | hq
    · exact not_directoryPrefix_self _ hAlias
    · rcases hRelated with ⟨hAbove, -⟩ | ⟨-, rfl⟩
      · exact hSound held hHeld q hq (directoryPrefix_trans hAbove hAlias)
      · exact hBlocked other hOther' c hc hExtends
    · rcases hRelated with ⟨hAbove, rfl⟩ | ⟨hBelow, -⟩
      · rcases nested hAlias hAbove with rfl | hNested | hNested
        · exact hBlocked other hOther' c hc hExtends
        · exact hSound p hp shorter hHeld hNested
        · exact hSound shorter hHeld p hp hNested
      · exact hSound p hp held hHeld (directoryPrefix_trans hAlias hBelow)
    · exact hSound p hp q hq hAlias

end Step

/-! ## Runs -/

section Runs

variable {offered : SpellingSet × List Text} {names earlier later : List Text} {raw : Text}

def Offerable (spelling : Text) : Prop := ∃ raw path, usable raw = some path ∧ path.relativePath = spelling

/-- What a run keeps: the keys are those of the accepted spellings, and no two next to each other are aliases. -/
structure Kept (offered : SpellingSet × List Text) : Prop where
  keys : offered.1.keys.elements.Perm (offered.2.map Import.toAsciiLowercase)
  offerable : ∀ spelling ∈ offered.2, Offerable spelling
  chain : offered.1.noAliasChain

theorem Kept.offer (h : Kept offered) (raw : Text) : Kept (SpellingSet.offer offered raw) := by
  rw [SpellingSet.offer]
  split
  · rename_i spelling set hAccept
    obtain ⟨path, hUsable, rfl, hInsert, hClear⟩ := accept_eq_ok.mp hAccept
    constructor
    · have hPerm := (SortedSet.insert_eq_some hInsert).2.trans (h.keys.cons _)
      rw [List.map_append, List.map_singleton, ← path.folded]
      exact hPerm.trans (List.perm_append_singleton _ _).symm
    · intro spelling hSpelling
      rcases List.mem_append.mp hSpelling with hSpelling | hSpelling
      · exact h.offerable spelling hSpelling
      · exact ⟨raw, path, hUsable, (List.mem_singleton.mp hSpelling).symm⟩
    · exact (noAliasChain_insert h.chain hInsert).mpr hClear
  · exact h

theorem run_concat (names : List Text) (raw : Text) : run (names ++ [raw]) = offer (run names) raw := by
  rw [run, List.foldl_append]
  rfl

theorem run_kept (names : List Text) : Kept (run names) := by
  induction names using List.reverseRecOn with
  | nil => exact ⟨.refl _, fun _ h => absurd h List.not_mem_nil, .nil⟩
  | append_singleton names raw ih =>
    rw [run_concat]
    exact ih.offer raw

theorem offer_keys (raw : Text) : offered.1.keys.elements ⊆ (offer offered raw).1.keys.elements := by
  rw [offer]
  split
  · rename_i spelling set hAccept
    obtain ⟨path, -, -, hInsert, -⟩ := accept_eq_ok.mp hAccept
    exact fun key hKey => (mem_insert hInsert).mpr (.inr hKey)
  · exact fun key hKey => hKey

theorem run_keys (earlier later : List Text) : (run earlier).1.keys.elements ⊆ (run (earlier ++ later)).1.keys.elements := by
  induction later using List.reverseRecOn with
  | nil => simp
  | append_singleton later raw ih =>
    rw [← List.append_assoc, run_concat]
    exact fun key hKey => offer_keys raw (ih hKey)

theorem sound_run_iff : (run names).1.Sound ↔
    ∀ earlier raw later, names = earlier ++ raw :: later → ¬(run earlier).1.Hidden raw := by
  constructor
  · rintro hSound earlier raw later rfl hHidden
    have hEarlier : (run earlier).1.Sound := fun p hp q hq =>
      hSound p (run_keys earlier (raw :: later) hp) q (run_keys earlier (raw :: later) hq)
    obtain ⟨spelling, set, hAccept⟩ := accept_of_hidden hEarlier hHidden
    have hNext : (run (earlier ++ [raw])).1 = set := by rw [run_concat, offer, hAccept]
    have hSplit : earlier ++ raw :: later = earlier ++ [raw] ++ later := by simp
    refine (sound_accept hEarlier hAccept).mp ?_ hHidden
    rw [← hNext]
    rw [hSplit] at hSound
    exact fun p hp q hq => hSound p (run_keys (earlier ++ [raw]) later hp) q (run_keys (earlier ++ [raw]) later hq)
  · intro hVisible
    induction names using List.reverseRecOn with
    | nil => exact fun p hp => absurd hp List.not_mem_nil
    | append_singleton names raw ih =>
      have hBefore : (run names).1.Sound := ih fun earlier other later hSplit =>
        hVisible earlier other (later ++ [raw]) (by simp [hSplit])
      rw [run_concat, offer]
      split
      · rename_i spelling set hAccept
        exact (sound_accept hBefore hAccept).mpr (hVisible names raw [] rfl)
      · exact hBefore

end Runs

/-! ## The planner of the parent -/

section Planner

theorem appendComponent_eq (normalized component : Text) :
    Import.appendComponent normalized component =
      if component.isEmpty then some normalized
      else if component = [Media.dot] ∨ component = [Media.dot, Media.dot] then none
      else some ((if normalized.length > 1 then normalized ++ [Media.slash] else normalized) ++ component) := by
  rw [Import.appendComponent, apply_ite (· ++ component), apply_ite some]
  simp only [List.isEmpty_iff]
  rfl

theorem normalizePath_eq (path : Text) : Import.normalizePath path = Media.normalizePath path := by
  rw [Import.normalizePath, Media.normalizePath]
  simp only [List.contains_iff_mem]
  refine if_congr Iff.rfl rfl ?_
  congr 1
  funext normalized component
  exact appendComponent_eq normalized component

theorem normalizePath_offerable {spelling : Text} (h : Offerable spelling) :
    Import.normalizePath spelling = some (slash :: spelling) := by
  obtain ⟨raw, path, hUsable, rfl⟩ := h
  have hParsed := PayloadPath.parsed_of_parse (usable_spec hUsable).2
  have hComponents : ∀ component ∈ raw.splitOnP Payload.PayloadPath.isSeparator, _ :=
    fun component hComponent => PayloadPath.valid_spec (hParsed.valid component hComponent)
  have hPieces : path.relativePath.splitOnP Media.isSeparator = raw.splitOnP PayloadPath.isSeparator := hParsed.pieces
  have hAll : Media.pieces path.relativePath = raw.splitOnP PayloadPath.isSeparator := by
    rw [Media.pieces, hPieces, List.filter_eq_self]
    exact fun component hComponent => by simpa using (hComponents component hComponent).1
  have hRooted : Media.spelling (Media.pieces path.relativePath) = slash :: path.relativePath := by
    rw [hAll, Media.spelling_of_ne_nil (List.splitOnP_ne_nil _ _), hParsed.spelling]
    rfl
  rw [normalizePath_eq, Media.normalizePath_eq_some, hPieces]
  refine ⟨hParsed.length_relativePath.trans_le hParsed.length, fun hZero => ?_, fun component hComponent =>
    (hComponents component hComponent).2.1, hRooted.symm⟩
  have hZero' : (0 : UInt8) ∈ slash :: path.relativePath := List.mem_cons_of_mem _ hZero
  rw [hParsed.spelling] at hZero'
  rcases mem_rooted hZero' with hSlash | ⟨component, hComponent, hByte⟩
  · cases hSlash
  · exact absurd ((hComponents component hComponent).2.2 0 hByte).1 (by decide)

theorem offerable_ne_nil {spelling : Text} (h : Offerable spelling) : spelling ≠ [] := by
  obtain ⟨raw, path, hUsable, rfl⟩ := h
  obtain ⟨hSome, hParse⟩ := usable_spec hUsable
  have hLength := (PayloadPath.parsed_of_parse hParse).length_relativePath
  intro hNil
  rw [hNil, List.length_nil] at hLength
  exact hSome (List.eq_nil_of_length_eq_zero hLength.symm)

theorem foldedPaths_offered {entries : List EntryMetadata} (h : ∀ entry ∈ entries, Offerable entry.archivePath) :
    foldedPaths entries = entries.map fun entry => slash :: Import.toAsciiLowercase entry.archivePath := by
  rw [foldedPaths, List.filterMap_eq_map_iff_forall_eq_some]
  intro entry hEntry
  rw [EntryMetadata.foldedPath, normalizePath_offerable (h entry hEntry)]
  rfl

theorem hasVisibleAlias_map {keys : List Text} (h : HasVisibleAlias (keys.map (slash :: ·))) : HasVisibleAlias keys := by
  obtain ⟨p, hp, ⟨q, hq, hAlias⟩, hBlocked⟩ := h
  obtain ⟨p, hp', rfl⟩ := List.mem_map.mp hp
  obtain ⟨q, hq', rfl⟩ := List.mem_map.mp hq
  refine ⟨p, hp', ⟨q, hq', (List.cons_prefix_cons.mp hAlias).2⟩, fun other hOther c hc hExtends => ?_⟩
  exact hBlocked _ (List.mem_map_of_mem hOther) c hc (List.cons_prefix_cons.mpr ⟨rfl, hExtends⟩)

theorem planCatalog_of_kept {offered : SpellingSet × List Text} (h : Kept offered) {limits : ImportLimits}
    {entries : List EntryMetadata} (hEntries : (entries.map EntryMetadata.archivePath).Perm offered.2)
    (hQuotas : Import.WithinQuotas limits entries) (hCount : entries.length ≤ limits.entries) :
    ∃ catalog, planCatalog entries limits = .ok catalog := by
  have hOfferable : ∀ entry ∈ entries, Offerable entry.archivePath := fun entry hEntry =>
    h.offerable _ (hEntries.mem_iff.mp (List.mem_map_of_mem hEntry))
  have hKeys : (entries.map fun entry => Import.toAsciiLowercase entry.archivePath).Perm offered.1.keys.elements := by
    have hMap := (hEntries.map Import.toAsciiLowercase).trans h.keys.symm
    rwa [List.map_map] at hMap
  have hFolded : foldedPaths entries = (entries.map fun entry => Import.toAsciiLowercase entry.archivePath).map (slash :: ·) := by
    rw [foldedPaths_offered hOfferable, List.map_map]
    rfl
  refine Import.planCatalog_of_plannable ⟨hQuotas, hCount, fun entry hEntry => ?_, ?_⟩ fun hVisible => ?_
  · refine ⟨_, normalizePath_offerable (hOfferable entry hEntry), ?_⟩
    simpa using offerable_ne_nil (hOfferable entry hEntry)
  · rw [hFolded, List.nodup_map_iff fun _ _ hSame => (List.cons.inj hSame).2, hKeys.nodup_iff]
    exact offered.1.keys.sorted.imp ne_of_lt
  · rw [hFolded] at hVisible
    obtain ⟨p, hp, ⟨q, hq, hAlias⟩, hBlocked⟩ := hasVisibleAlias_map hVisible
    refine (exists_neighbour_iff offered.1.keys.sorted slash).mpr ?_ h.chain
    exact ⟨p, hKeys.mem_iff.mp hp, ⟨q, hKeys.mem_iff.mp hq, hAlias⟩,
      fun other hOther => hBlocked other (hKeys.mem_iff.mpr hOther)⟩

end Planner

end SpellingSet

open SpellingSet in
/-- The filter does what it is for in exactly the runs in which no offered name is hidden from its alias. -/
theorem filtersExactly_iff (names : List Text) :
    FiltersExactly names ↔ ∀ earlier raw later, names = earlier ++ raw :: later → ¬(run earlier).1.Hidden raw := by
  have hKept := run_kept names
  rw [← sound_run_iff]
  have hMem {names : List Text} {key : Text} : key ∈ (run names).1.keys.elements ↔
      ∃ spelling ∈ (run names).2, Import.toAsciiLowercase spelling = key := by
    rw [(run_kept names).keys.mem_iff, List.mem_map]
  constructor
  · intro h p hp q hq
    obtain ⟨first, hFirst, rfl⟩ := hMem.mp hp
    obtain ⟨second, hSecond, rfl⟩ := hMem.mp hq
    exact h.noAlias first hFirst second hSecond
  · intro hSound
    constructor
    · rw [← hKept.keys.nodup_iff]
      exact (run names).1.keys.sorted.imp ne_of_lt
    · exact fun first hFirst second hSecond => hSound _ (hMem.mpr ⟨first, hFirst, rfl⟩) _ (hMem.mpr ⟨second, hSecond, rfl⟩)
    · intro earlier raw later _ hDuplicate
      obtain ⟨path, hUsable, hHeld⟩ := accept_eq_duplicate hDuplicate
      exact ⟨path, (usable_spec hUsable).2, hMem.mp hHeld⟩
    · intro earlier raw later _ hAlias
      obtain ⟨path, hUsable, held, hHeld, hRelated⟩ := accept_eq_alias hAlias
      obtain ⟨spelling, hSpelling, rfl⟩ := hMem.mp hHeld
      exact ⟨path, (usable_spec hUsable).2, spelling, hSpelling, hRelated⟩
    · exact fun limits entries hEntries hQuotas hCount => planCatalog_of_kept hKept hEntries hQuotas hCount

/-- The names `a`, `a b` and `a/b`. -/
def spacedNames : List Text := [[0x61], [0x61, 0x20, 0x62], [0x61, 0x2f, 0x62]]

theorem spacedNames_not_filtered : ¬FiltersExactly spacedNames := by
  intro h
  have hRun : (SpellingSet.run spacedNames).2 = spacedNames := by decide
  refine h.noAlias [0x61] (by rw [hRun]; decide) [0x61, 0x2f, 0x62] (by rw [hRun]; decide) ?_
  exact ⟨[0x62], rfl⟩

end OpenHalfLife.Backends
