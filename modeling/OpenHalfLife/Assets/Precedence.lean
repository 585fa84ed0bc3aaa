import OpenHalfLife.Assets.Index
import OpenHalfLife.Lib.Machine

/-! # What wins in the index

A build takes pairs of a key and a place into a table with room for a number of
keys, search path by search path, loose files before archives. Which of the
pairs of a key wins is left to the order in which the host lists a directory
where two loose files or two archives of one name compete, and of the archives
of one number all but one are left out.
-/

namespace OpenHalfLife.Assets

open FirstWins

set_option autoImplicit false

/-! ## The build fills a table -/

def Building.table (building : Building) : Table Text Indexed := ⟨building.index, building.budget.remainingFiles⟩

theorem Building.exists_table (table : Table Text Indexed) : ∃ building : Building, building.table = table :=
  ⟨⟨table.value, ⟨table.room⟩⟩, rfl⟩

theorem Building.table_inj {building building' : Building} (h : building.table = building'.table) : building = building' := by
  obtain ⟨index, ⟨remainingFiles⟩⟩ := building
  obtain ⟨index', ⟨remainingFiles'⟩⟩ := building'
  obtain ⟨rfl, rfl⟩ := Table.mk.inj h
  rfl

/-- A part of the build succeeds if `sound` holds and there is room for its pairs. -/
def Fills (step : Building → Except AssetError Building) (sound : Prop) (pairs : List (Text × Indexed)) : Prop :=
  ∀ building building', step building = .ok building' ↔ sound ∧ building.table.fill pairs = some building'.table

namespace Fills

theorem skip : Fills .ok True [] := by
  intro building building'
  rw [true_and, Table.fill, List.foldlM_nil, Except.ok.injEq]
  exact ⟨fun h => congrArg (some ·.table) h, fun h => Building.table_inj (Option.some.inj h)⟩

theorem fail (error : AssetError) (pairs : List (Text × Indexed)) : Fills (fun _ => .error error) False pairs := by
  intro building building'
  simp

theorem insertNew (normalized : NormalizedPath) (location : Location) :
    Fills (fun building => building.insertNew normalized location) True
      [(normalized.key, ⟨normalized.display, location⟩)] := by
  intro building building'
  let pair : Text × Indexed := (normalized.key, ⟨normalized.display, location⟩)
  rw [Table.fill_cons]
  unfold Building.insertNew Budget.take
  dsimp only
  split
  · next hHeld =>
    have hPut : building.table.put pair = some building.table := if_pos hHeld
    rw [hPut]
    exact skip building building'
  · next hNew =>
    split
    · next hFull =>
      have hPut : building.table.put pair = none := (if_neg hNew).trans (if_pos hFull)
      rw [hPut, Result.error_bind]
      simp
    · next hRoom =>
      have hPut : building.table.put pair = some _ := (if_neg hNew).trans (if_neg hRoom)
      rw [hPut, Result.ok_bind]
      exact skip ⟨_, _⟩ building'

theorem congr {step step' : Building → Except AssetError Building} {sound sound' : Prop} {pairs : List (Text × Indexed)}
    (h : Fills step sound pairs) (hStep : ∀ building, step' building = step building) (hSound : sound' ↔ sound) :
    Fills step' sound' pairs := by
  intro building building'
  rw [hStep, hSound]
  exact h building building'

theorem bind {first second : Building → Except AssetError Building} {sound sound' : Prop}
    {pairs pairs' : List (Text × Indexed)} (hFirst : Fills first sound pairs) (hSecond : Fills second sound' pairs') :
    Fills (fun building => first building >>= second) (sound ∧ sound') (pairs ++ pairs') := by
  intro building building'
  rw [Result.bind_eq_ok, Table.fill_append, Option.bind_eq_some_iff]
  constructor
  · rintro ⟨middle, hOne, hTwo⟩
    obtain ⟨hSound, hFill⟩ := (hFirst building middle).mp hOne
    obtain ⟨hSound', hFill'⟩ := (hSecond middle building').mp hTwo
    exact ⟨⟨hSound, hSound'⟩, middle.table, hFill, hFill'⟩
  · rintro ⟨⟨hSound, hSound'⟩, table, hFill, hFill'⟩
    obtain ⟨middle, rfl⟩ := Building.exists_table table
    exact ⟨middle, (hFirst building middle).mpr ⟨hSound, hFill⟩, (hSecond middle building').mpr ⟨hSound', hFill'⟩⟩

variable {α : Type} {step : Building → α → Except AssetError Building} {sound : α → Prop}
  {pairs : α → List (Text × Indexed)}

theorem foldlM (h : ∀ item, Fills (fun building => step building item) (sound item) (pairs item)) (items : List α) :
    Fills (fun building => items.foldlM step building) (∀ item ∈ items, sound item) (items.flatMap pairs) := by
  induction items with
  | nil => exact skip.congr (fun _ => rfl) (by simp)
  | cons item items ih =>
    rw [List.flatMap_cons]
    exact ((h item).bind ih).congr (fun _ => List.foldlM_cons) List.forall_mem_cons

end Fills

/-! ### Loose files -/

def DirEntry.visited (entry : DirEntry) : Option FileType := entry.metadata.bind fun _ => entry.fileType

def walk (disk : Disk) (root : OsPath) : Nat → OsPath → List OsPath
  | 0, _ => []
  | levels + 1, dir => ((disk.readDir (root ++ dir)).getD []).flatMap fun entry =>
    match entry.visited with
    | some .file => [dir ++ [entry.name]]
    | some .dir => walk disk root levels (dir ++ [entry.name])
    | _ => []

def Shallow (disk : Disk) (root : OsPath) : Nat → OsPath → Prop
  | 0, _ => False
  | levels + 1, dir => ∀ entry ∈ (disk.readDir (root ++ dir)).getD [], entry.visited = some .dir →
    Shallow disk root levels (dir ++ [entry.name])

def loosePair (limits : Limits) (root relative : OsPath) : List (Text × Indexed) :=
  ((looseName limits relative).map fun normalized =>
    (normalized.key, Indexed.mk normalized.display (.loose (root ++ relative)))).toList

def indexLoose (limits : Limits) (root relative : OsPath) (building : Building) : Except AssetError Building :=
  match looseName limits relative with
  | none => .ok building
  | some normalized => building.insertNew normalized (.loose (root ++ relative))

theorem fills_indexLoose (limits : Limits) (root relative : OsPath) :
    Fills (indexLoose limits root relative) True (loosePair limits root relative) := by
  unfold loosePair
  cases hName : looseName limits relative with
  | none =>
    refine Fills.skip.congr (fun building => ?_) Iff.rfl
    rw [indexLoose, hName]
  | some normalized =>
    refine (Fills.insertNew normalized (.loose (root ++ relative))).congr (fun building => ?_) Iff.rfl
    rw [indexLoose, hName]

def visitEntry (disk : Disk) (limits : Limits) (root : OsPath) (levels : Nat) (dir : OsPath) (building : Building)
    (entry : DirEntry) : Except AssetError Building :=
  match entry.visited with
  | some .file => indexLoose limits root (dir ++ [entry.name]) building
  | some .dir => indexLooseFiles disk limits root levels (dir ++ [entry.name]) building
  | _ => .ok building

theorem indexLooseFiles_listed {disk : Disk} {root dir : OsPath} {entries : List DirEntry}
    (h : disk.readDir (root ++ dir) = some entries) (limits : Limits) (levels : Nat) (building : Building) :
    indexLooseFiles disk limits root (levels + 1) dir building =
      entries.foldlM (visitEntry disk limits root levels dir) building := by
  rw [indexLooseFiles, h]
  dsimp only
  congr 1
  funext building entry
  obtain ⟨name, kind, typed, statted⟩ := entry
  cases statted with
  | false => rfl
  | true =>
    cases typed with
    | false => rfl
    | true => cases kind <;> rfl

theorem fills_indexLooseFiles (disk : Disk) (limits : Limits) (root : OsPath) (levels : Nat) (dir : OsPath) :
    Fills (indexLooseFiles disk limits root levels dir) (Shallow disk root levels dir)
      ((walk disk root levels dir).flatMap (loosePair limits root)) := by
  induction levels generalizing dir with
  | zero => exact Fills.fail _ _
  | succ levels ih =>
    cases hDir : disk.readDir (root ++ dir) with
    | none =>
      rw [walk, hDir]
      refine Fills.skip.congr (fun building => ?_) ?_
      · rw [indexLooseFiles, hDir]
      · simp [Shallow, hDir]
    | some entries =>
      rw [walk, hDir, Option.getD_some, List.flatMap_assoc]
      refine (Fills.foldlM (fun entry => ?_) entries).congr (indexLooseFiles_listed hDir limits levels)
        (by rw [Shallow, hDir, Option.getD_some])
      unfold visitEntry
      split
      · next hFile =>
        rw [List.flatMap_singleton]
        exact (fills_indexLoose limits root (dir ++ [entry.name])).congr (fun _ => rfl) (by simp [hFile])
      · next hSub => exact (ih (dir ++ [entry.name])).congr (fun _ => rfl) (by simp [hSub])
      · next hNot => exact Fills.skip.congr (fun _ => rfl) (iff_true_intro fun hSub => (hNot hSub).elim)

/-! ### Archives, search paths and the whole build -/

def memberPair (limits : Limits) (archive : OsPath) (entry : Entry) : List (Text × Indexed) :=
  ((memberName limits entry).map fun normalized =>
    (normalized.key, Indexed.mk normalized.display (.pak archive entry.offset entry.size))).toList

def members (disk : Disk) (limits : Limits) (archive : OsPath) : List Entry :=
  (readDirectory disk limits archive).toOption.getD []

def indexMember (limits : Limits) (archive : OsPath) (building : Building) (entry : Entry) : Except AssetError Building :=
  match memberName limits entry with
  | none => .ok building
  | some normalized => building.insertNew normalized (.pak archive entry.offset entry.size)

theorem fills_indexMember (limits : Limits) (archive : OsPath) (entry : Entry) :
    Fills (fun building => indexMember limits archive building entry) True (memberPair limits archive entry) := by
  unfold memberPair
  cases hName : memberName limits entry with
  | none =>
    refine Fills.skip.congr (fun building => ?_) Iff.rfl
    rw [indexMember, hName]
  | some normalized =>
    refine (Fills.insertNew normalized (.pak archive entry.offset entry.size)).congr (fun building => ?_) Iff.rfl
    rw [indexMember, hName]

theorem fills_indexPak (disk : Disk) (limits : Limits) (archive : OsPath) :
    Fills (indexPak disk limits archive) (∃ entries, readDirectory disk limits archive = .ok entries)
      ((members disk limits archive).flatMap (memberPair limits archive)) := by
  unfold members
  cases hRead : readDirectory disk limits archive with
  | error error =>
    refine (Fills.fail error _).congr (fun building => ?_) (by simp)
    rw [indexPak, hRead, Result.error_bind]
  | ok entries =>
    refine (Fills.foldlM (fills_indexMember limits archive) entries).congr (fun building => ?_) (by simp)
    rw [indexPak, hRead, Result.ok_bind]
    congr 1

def namesAt (disk : Disk) (root : OsPath) : List Text := pakNames ((disk.readDir root).getD [])

def loosePairs (disk : Disk) (limits : Limits) (root : OsPath) : List (Text × Indexed) :=
  (walk disk root (limits.maxDepth + 1) []).flatMap (loosePair limits root)

def pakPairs (disk : Disk) (limits : Limits) (root : OsPath) : List (Text × Indexed) :=
  (orderedPakNames (namesAt disk root)).flatMap fun name =>
    (members disk limits (root ++ [name])).flatMap (memberPair limits (root ++ [name]))

/-- A search path that can be walked and whose archives can be read. -/
def Readable (disk : Disk) (limits : Limits) (root : OsPath) : Prop :=
  Shallow disk root (limits.maxDepth + 1) [] ∧
    ∀ name ∈ orderedPakNames (namesAt disk root), ∃ entries, readDirectory disk limits (root ++ [name]) = .ok entries

theorem orderedPakNames_nil : orderedPakNames [] = [] := rfl

theorem fills_indexSearchPath (disk : Disk) (limits : Limits) (root : OsPath) :
    Fills (fun building => indexSearchPath disk limits building root) (Readable disk limits root)
      (loosePairs disk limits root ++ pakPairs disk limits root) := by
  have hPaks := Fills.foldlM (fun name => fills_indexPak disk limits (root ++ [name])) (orderedPakNames (namesAt disk root))
  have hWhole := (fills_indexLooseFiles disk limits root (limits.maxDepth + 1) []).bind hPaks
  cases hDir : disk.readDir root with
  | none =>
    have hNames : namesAt disk root = [] := by
      rw [namesAt, hDir]
      rfl
    have hWalk : walk disk root (limits.maxDepth + 1) [] = [] := by
      rw [walk, List.append_nil, hDir]
      rfl
    rw [loosePairs, pakPairs, hNames, hWalk]
    refine Fills.skip.congr (fun building => ?_) ?_
    · rw [indexSearchPath, hDir]
    · simp [Readable, Shallow, hDir, hNames, orderedPakNames_nil]
  | some topLevel =>
    refine hWhole.congr (fun building => ?_) Iff.rfl
    rw [indexSearchPath, hDir, namesAt, hDir]
    rfl

def modRoots (limits : Limits) (searchPaths : List Text) : List OsPath :=
  searchPaths.filterMap fun searchPath => (modRoot limits searchPath).toOption

def rootPairs (disk : Disk) (limits : Limits) (root : OsPath) : List (Text × Indexed) :=
  loosePairs disk limits root ++ pakPairs disk limits root

theorem build_eq_ok {disk : Disk} {searchPaths : List Text} {limits : Limits} {index : Index} :
    build disk searchPaths limits = .ok index ↔
      (∀ searchPath ∈ searchPaths, ∃ root, modRoot limits searchPath = .ok root) ∧
      (∀ root ∈ modRoots limits searchPaths, Readable disk limits root) ∧
      ∃ room, (Table.mk (fun _ => none) limits.maxIndexedFiles).fill
        ((modRoots limits searchPaths).flatMap (rootPairs disk limits)) = some ⟨index, room⟩ := by
  have hPath (searchPath : Text) : Fills
      (fun building => do
        let root ← modRoot limits searchPath
        indexSearchPath disk limits building root)
      (∃ root, modRoot limits searchPath = .ok root ∧ Readable disk limits root)
      ((modRoot limits searchPath).toOption.toList.flatMap (rootPairs disk limits)) := by
    cases hRoot : modRoot limits searchPath with
    | error error =>
      refine (Fills.fail error _).congr (fun building => ?_) (by simp)
      rw [Result.error_bind]
    | ok root =>
      rw [Except.toOption, Option.toList_some, List.flatMap_singleton]
      refine (fills_indexSearchPath disk limits root).congr (fun building => ?_) (by simp)
      rw [Result.ok_bind]
  have hPairs : searchPaths.flatMap (fun searchPath => (modRoot limits searchPath).toOption.toList.flatMap (rootPairs disk limits)) =
      (modRoots limits searchPaths).flatMap (rootPairs disk limits) := by
    rw [modRoots, List.filterMap_eq_flatMap_toList, List.flatMap_assoc]
  have hFold := Fills.foldlM hPath searchPaths
  rw [hPairs] at hFold
  have hRoots : (∀ searchPath ∈ searchPaths, ∃ root, modRoot limits searchPath = .ok root ∧ Readable disk limits root) ↔
      (∀ searchPath ∈ searchPaths, ∃ root, modRoot limits searchPath = .ok root) ∧
        ∀ root ∈ modRoots limits searchPaths, Readable disk limits root := by
    constructor
    · intro h
      refine ⟨fun searchPath hMem => (h searchPath hMem).imp fun _ hRoot => hRoot.1, fun root hRoot => ?_⟩
      obtain ⟨searchPath, hMem, hSome⟩ := List.mem_filterMap.mp hRoot
      obtain ⟨other, hOk, hReadable⟩ := h searchPath hMem
      rw [hOk] at hSome
      exact Option.some.inj hSome ▸ hReadable
    · rintro ⟨hOk, hReadable⟩ searchPath hMem
      obtain ⟨root, hRoot⟩ := hOk searchPath hMem
      exact ⟨root, hRoot, hReadable root (List.mem_filterMap.mpr ⟨searchPath, hMem, by rw [hRoot]; rfl⟩)⟩
  rw [build, Result.bind_eq_ok, ← and_assoc, ← hRoots, ← exists_and_left]
  constructor
  · rintro ⟨building, hBuild, hIndex⟩
    obtain rfl := Except.ok.inj hIndex
    exact ⟨_, (hFold _ building).mp hBuild⟩
  · rintro ⟨room, h⟩
    exact ⟨⟨index, ⟨room⟩⟩, (hFold _ ⟨index, ⟨room⟩⟩).mpr h, rfl⟩

/-! ## The files a walk finds -/

inductive LooseFile (disk : Disk) (root : OsPath) : OsPath → OsPath → Prop
  | here {dir : OsPath} {entry : DirEntry} : entry ∈ (disk.readDir (root ++ dir)).getD [] →
      entry.visited = some .file → LooseFile disk root dir (dir ++ [entry.name])
  | deeper {dir path : OsPath} {entry : DirEntry} : entry ∈ (disk.readDir (root ++ dir)).getD [] →
      entry.visited = some .dir → LooseFile disk root (dir ++ [entry.name]) path → LooseFile disk root dir path

theorem mem_walk {disk : Disk} {root dir path : OsPath} {levels : Nat} (hShallow : Shallow disk root levels dir) :
    path ∈ walk disk root levels dir ↔ LooseFile disk root dir path := by
  constructor
  · intro hPath
    induction levels generalizing dir with
    | zero => cases hPath
    | succ levels ih =>
      rw [walk] at hPath
      obtain ⟨entry, hEntry, hFound⟩ := List.mem_flatMap.mp hPath
      split at hFound
      · next hFile =>
        obtain rfl := List.mem_singleton.mp hFound
        exact .here hEntry hFile
      · next hDir => exact .deeper hEntry hDir (ih (hShallow entry hEntry hDir) hFound)
      · cases hFound
  · intro hPath
    induction hPath generalizing levels with
    | here hEntry hFile =>
      cases levels with
      | zero => exact hShallow.elim
      | succ levels =>
        rw [walk]
        refine List.mem_flatMap.mpr ⟨_, hEntry, ?_⟩
        rw [hFile]
        exact List.mem_singleton_self _
    | deeper hEntry hDir _ ih =>
      cases levels with
      | zero => exact hShallow.elim
      | succ levels =>
        rw [walk]
        refine List.mem_flatMap.mpr ⟨_, hEntry, ?_⟩
        rw [hDir]
        exact ih (hShallow _ hEntry hDir)

theorem walk_below {disk : Disk} {root dir path : OsPath} {levels : Nat} (h : path ∈ walk disk root levels dir) :
    ∃ name rest, path = dir ++ name :: rest := by
  induction levels generalizing dir with
  | zero => cases h
  | succ levels ih =>
    rw [walk] at h
    obtain ⟨entry, -, hFound⟩ := List.mem_flatMap.mp h
    split at hFound
    · exact ⟨entry.name, [], List.mem_singleton.mp hFound⟩
    · obtain ⟨name, rest, rfl⟩ := ih hFound
      exact ⟨entry.name, name :: rest, by simp⟩
    · cases hFound

theorem nodup_walk (disk : Disk) (root dir : OsPath) (levels : Nat) : (walk disk root levels dir).Nodup := by
  induction levels generalizing dir with
  | zero => exact List.nodup_nil
  | succ levels ih =>
    rw [walk, List.nodup_flatMap]
    have hBelow (entry : DirEntry) (path : OsPath)
        (hPath : path ∈ (match entry.visited with
          | some .file => [dir ++ [entry.name]]
          | some .dir => walk disk root levels (dir ++ [entry.name])
          | _ => [])) : ∃ rest, path = dir ++ entry.name :: rest := by
      split at hPath
      · exact ⟨[], List.mem_singleton.mp hPath⟩
      · obtain ⟨name, rest, rfl⟩ := walk_below hPath
        exact ⟨name :: rest, by simp⟩
      · cases hPath
    refine ⟨fun entry _ => ?_, ?_⟩
    · split
      · exact List.nodup_singleton _
      · exact ih _
      · exact List.nodup_nil
    · have hNames : (((disk.readDir (root ++ dir)).getD []).map DirEntry.name).Nodup := by
        cases hDir : disk.readDir (root ++ dir) with
        | none => exact List.nodup_nil
        | some entries => exact disk.distinct _ _ hDir
      refine (List.pairwise_map.mp hNames).imp fun hNe path hOne hTwo => ?_
      obtain ⟨rest, rfl⟩ := hBelow _ _ hOne
      obtain ⟨rest', hSame⟩ := hBelow _ _ hTwo
      exact hNe (List.cons.inj (List.append_cancel_left hSame)).1

/-! ### The same files in another order -/

structure Relisted (disk disk' : Disk) : Prop where
  contents : disk'.contents = disk.contents
  listed : ∀ path, Option.Rel List.Perm (disk.readDir path) (disk'.readDir path)

namespace Relisted

variable {disk disk' : Disk} {root dir path : OsPath} {levels : Nat}

theorem perm (h : Relisted disk disk') (path : OsPath) :
    ((disk.readDir path).getD []).Perm ((disk'.readDir path).getD []) := by
  have hListed := h.listed path
  generalize disk.readDir path = listed, disk'.readDir path = listed' at hListed
  cases hListed with
  | some hPerm => exact hPerm
  | none => rfl

theorem symm (h : Relisted disk disk') : Relisted disk' disk where
  contents := h.contents.symm
  listed path := by
    have hListed := h.listed path
    generalize disk.readDir path = listed, disk'.readDir path = listed' at hListed
    cases hListed with
    | some hPerm => exact .some hPerm.symm
    | none => exact .none

theorem shallow (h : Relisted disk disk') (hShallow : Shallow disk root levels dir) : Shallow disk' root levels dir := by
  induction levels generalizing dir with
  | zero => exact hShallow
  | succ levels ih =>
    exact fun entry hEntry hDir => ih (hShallow entry ((h.perm _).mem_iff.mpr hEntry) hDir)

theorem looseFile (h : Relisted disk disk') (hPath : LooseFile disk root dir path) : LooseFile disk' root dir path := by
  induction hPath with
  | here hEntry hFile => exact .here ((h.perm _).mem_iff.mp hEntry) hFile
  | deeper hEntry hDir _ ih => exact .deeper ((h.perm _).mem_iff.mp hEntry) hDir ih

theorem looseFile_iff (h : Relisted disk disk') : LooseFile disk' root dir path ↔ LooseFile disk root dir path :=
  ⟨h.symm.looseFile, h.looseFile⟩

theorem walk_perm (h : Relisted disk disk') : (walk disk root levels dir).Perm (walk disk' root levels dir) := by
  induction levels generalizing dir with
  | zero => rfl
  | succ levels ih =>
    rw [walk, walk]
    refine List.Perm.flatMap (h.perm _) fun entry _ => ?_
    split
    · rfl
    · exact ih
    · rfl

theorem names_perm (h : Relisted disk disk') (root : OsPath) : (namesAt disk root).Perm (namesAt disk' root) :=
  ((h.perm root).filter _).map _

theorem readDirectory_eq (h : Relisted disk disk') (limits : Limits) (archive : OsPath) :
    readDirectory disk' limits archive = readDirectory disk limits archive := by
  unfold readDirectory
  rw [h.contents]

end Relisted

def Disk.reversed (disk : Disk) : Disk where
  readDir path := (disk.readDir path).map List.reverse
  contents := disk.contents
  distinct path entries h := by
    obtain ⟨listed, hListed, rfl⟩ := Option.map_eq_some_iff.mp h
    rw [List.map_reverse, List.nodup_reverse]
    exact disk.distinct path listed hListed

theorem relisted_reversed (disk : Disk) : Relisted disk disk.reversed where
  contents := rfl
  listed path := by
    unfold Disk.reversed
    dsimp only
    cases disk.readDir path with
    | none => exact .none
    | some entries => exact .some (List.reverse_perm entries).symm

theorem getD_reversed (disk : Disk) (path : OsPath) :
    (disk.reversed.readDir path).getD [] = ((disk.readDir path).getD []).reverse := by
  unfold Disk.reversed
  dsimp only
  cases disk.readDir path <;> rfl

theorem walk_reversed (disk : Disk) (root dir : OsPath) (levels : Nat) :
    walk disk.reversed root levels dir = (walk disk root levels dir).reverse := by
  induction levels generalizing dir with
  | zero => rfl
  | succ levels ih =>
    rw [walk, walk, getD_reversed, List.reverse_flatMap]
    congr 1
    funext entry
    rw [Function.comp_apply]
    split
    · rfl
    · exact ih _
    · rfl

theorem namesAt_reversed (disk : Disk) (root : OsPath) : namesAt disk.reversed root = (namesAt disk root).reverse := by
  rw [namesAt, namesAt, getD_reversed, pakNames, pakNames, List.filter_reverse, List.map_reverse]

/-! ## The order of the archives -/

section Archives

variable {names : List Text} {name other : Text} {number next : Nat} {pairs : List (Nat × Text)}

theorem numberedPakIndex_congr (h : toAsciiLowercase name = toAsciiLowercase other) :
    numberedPakIndex name = numberedPakIndex other := by
  rw [numberedPakIndex, numberedPakIndex, h]

/-- There is an archive of the number and of every smaller one. -/
def InRun (names : List Text) (number : Nat) : Prop :=
  ∀ smaller ≤ number, ∃ name ∈ names, numberedPakIndex name = some smaller

def Leads (names : List Text) (name : Text) : Prop := ∃ number, numberedPakIndex name = some number ∧ InRun names number

/-- One archive comes before another: by number in the run, the run before the others, the others by name. -/
def Before (names : List Text) (name other : Text) : Prop :=
  (∃ smaller number, numberedPakIndex name = some smaller ∧ numberedPakIndex other = some number ∧
    InRun names number ∧ smaller < number) ∨
  (Leads names name ∧ ¬Leads names other) ∨
  (¬Leads names name ∧ ¬Leads names other ∧ toAsciiLowercase name < toAsciiLowercase other)

theorem not_before_self (names : List Text) (name : Text) : ¬Before names name name := by
  rintro (⟨smaller, number, hSmaller, hNumber, -, hLt⟩ | ⟨hLeads, hNot⟩ | ⟨-, -, hLt⟩)
  · exact hLt.ne (Option.some.inj (hSmaller.symm.trans hNumber))
  · exact hNot hLeads
  · exact lt_irrefl _ hLt

/-! ### The map of the numbers -/

theorem numberedPaks_concat (names : List Text) (name : Text) : numberedPaks (names ++ [name]) =
    match numberedPakIndex name with
    | some number => (numberedPaks names).insert number name
    | none => numberedPaks names := by
  rw [numberedPaks, List.foldl_append]
  rfl

theorem mem_numberedPaks (h : (number, name) ∈ (numberedPaks names).pairs) :
    name ∈ names ∧ numberedPakIndex name = some number := by
  induction names using List.reverseRecOn with
  | nil => cases h
  | append_singleton names last ih =>
    rw [numberedPaks_concat] at h
    split at h
    · next lastNumber hLast =>
      rcases List.mem_cons.mp ((SortedMap.insertPair_perm _ _ (numberedPaks names).sorted).mem_iff.mp h) with hSame | hOld
      · obtain ⟨rfl, rfl⟩ := Prod.mk.inj hSame
        exact ⟨List.mem_append_right _ (List.mem_singleton_self _), hLast⟩
      · obtain ⟨hMem, hNumber⟩ := ih (List.mem_of_mem_filter hOld)
        exact ⟨List.mem_append_left _ hMem, hNumber⟩
    · obtain ⟨hMem, hNumber⟩ := ih h
      exact ⟨List.mem_append_left _ hMem, hNumber⟩

theorem exists_numberedPaks (hName : name ∈ names) (hNumber : numberedPakIndex name = some number) :
    ∃ kept, (number, kept) ∈ (numberedPaks names).pairs := by
  induction names using List.reverseRecOn with
  | nil => cases hName
  | append_singleton names last ih =>
    rw [numberedPaks_concat]
    have hOld (hMem : name ∈ names) (lastNumber : Nat) (hOther : number ≠ lastNumber) :
        ∃ kept, (number, kept) ∈ (SortedMap.insertPair lastNumber last (numberedPaks names).pairs) := by
      obtain ⟨kept, hKept⟩ := ih hMem
      refine ⟨kept, (SortedMap.insertPair_perm _ _ (numberedPaks names).sorted).mem_iff.mpr (List.mem_cons_of_mem _ ?_)⟩
      exact List.mem_filter.mpr ⟨hKept, decide_eq_true hOther⟩
    have hNew : (number, last) ∈ (SortedMap.insertPair number last (numberedPaks names).pairs) :=
      (SortedMap.insertPair_perm _ _ (numberedPaks names).sorted).mem_iff.mpr List.mem_cons_self
    rcases List.mem_append.mp hName with hMem | hLast
    · split
      · next lastNumber _ =>
        rcases eq_or_ne number lastNumber with rfl | hOther
        · exact ⟨last, hNew⟩
        · exact hOld hMem lastNumber hOther
      · exact ih hMem
    · obtain rfl := List.mem_singleton.mp hLast
      rw [hNumber]
      exact ⟨name, hNew⟩

theorem filterMap_values (names : List Text) :
    (numberedPaks names).values.filterMap numberedPakIndex = (numberedPaks names).keys := by
  rw [SortedMap.values, List.filterMap_map, SortedMap.keys, ← List.filterMap_eq_map]
  exact List.filterMap_congr fun pair hPair => (mem_numberedPaks hPair).2

theorem values_perm (hNodup : (names.filterMap numberedPakIndex).Nodup) :
    (numberedPaks names).values.Perm (names.filter fun name => !(numberedPakIndex name).isNone) := by
  induction names using List.reverseRecOn with
  | nil => rfl
  | append_singleton names last ih =>
    rw [List.filterMap_append] at hNodup
    have hFront := ih (List.nodup_append.mp hNodup).1
    rw [numberedPaks_concat, List.filter_append]
    split
    · next lastNumber hLast =>
      have hOut : lastNumber ∉ (numberedPaks names).keys := by
        intro hKey
        obtain ⟨pair, hPair, rfl⟩ := List.mem_map.mp hKey
        obtain ⟨hMem, hNumber⟩ := mem_numberedPaks hPair
        refine (List.nodup_append.mp hNodup).2.2 pair.1 (List.mem_filterMap.mpr ⟨_, hMem, hNumber⟩) pair.1 ?_ rfl
        exact List.mem_filterMap.mpr ⟨last, List.mem_singleton_self _, hLast⟩
      have hLastKept : [last].filter (fun name => !(numberedPakIndex name).isNone) = [last] := by simp [hLast]
      rw [hLastKept]
      refine ((SortedMap.insert_perm hOut).map Prod.snd).trans ?_
      exact (hFront.cons last).trans (List.perm_append_singleton last _).symm
    · next hLast =>
      have hLastOut : [last].filter (fun name => !(numberedPakIndex name).isNone) = [] := by simp [hLast]
      rw [hLastOut, List.append_nil]
      exact hFront

theorem mem_pairs_of_nodup (hNodup : (names.filterMap numberedPakIndex).Nodup) (hName : name ∈ names)
    (hNumber : numberedPakIndex name = some number) : (number, name) ∈ (numberedPaks names).pairs := by
  have hValue : name ∈ (numberedPaks names).values :=
    (values_perm hNodup).mem_iff.mpr (List.mem_filter.mpr ⟨hName, by rw [hNumber]; rfl⟩)
  obtain ⟨⟨number', _⟩, hPair, rfl⟩ := List.mem_map.mp hValue
  obtain rfl := Option.some.inj ((mem_numberedPaks hPair).2.symm.trans hNumber)
  exact hPair

/-! ### The run -/

theorem contiguousRun_append (next : Nat) (pairs : List (Nat × Text)) :
    (contiguousRun next pairs).1 ++ (contiguousRun next pairs).2 = pairs := by
  induction pairs generalizing next with
  | nil => rfl
  | cons pair pairs ih =>
    rw [contiguousRun]
    split
    · exact congrArg (pair :: ·) (ih (next + 1))
    · rfl

theorem contiguousRun_numbers (next : Nat) (pairs : List (Nat × Text)) :
    (contiguousRun next pairs).1.map Prod.fst = List.range' next (contiguousRun next pairs).1.length := by
  induction pairs generalizing next with
  | nil => rfl
  | cons pair pairs ih =>
    rw [contiguousRun]
    split
    · next hNumber =>
      rw [List.map_cons, List.length_cons, List.range'_succ, ih (next + 1), hNumber]
    · rfl

theorem contiguousRun_left (hSorted : pairs.Pairwise fun first second => first.1 < second.1)
    (hFrom : ∀ pair ∈ pairs, next ≤ pair.1) :
    ∀ pair ∈ (contiguousRun next pairs).2, next + (contiguousRun next pairs).1.length < pair.1 := by
  induction pairs generalizing next with
  | nil => exact fun pair hPair => absurd hPair List.not_mem_nil
  | cons head pairs ih =>
    obtain ⟨hHead, hRest⟩ := List.pairwise_cons.mp hSorted
    rw [contiguousRun]
    split
    · next hNumber =>
      intro pair hPair
      have hFrom' (other : Nat × Text) (hOther : other ∈ pairs) : next + 1 ≤ other.1 := hNumber ▸ hHead other hOther
      have hLater := ih hRest hFrom' pair hPair
      rw [List.length_cons]
      omega
    · next hNumber =>
      have hAbove : next < head.1 := lt_of_le_of_ne (hFrom head List.mem_cons_self) (Ne.symm hNumber)
      intro pair hPair
      rcases List.mem_cons.mp hPair with rfl | hPair
      · exact hAbove
      · exact hAbove.trans (hHead pair hPair)

def runOf (names : List Text) : List (Nat × Text) × List (Nat × Text) := contiguousRun 0 (numberedPaks names).pairs

theorem mem_runOf_fst (h : (number, name) ∈ (runOf names).1) : (number, name) ∈ (numberedPaks names).pairs := by
  rw [← contiguousRun_append 0 (numberedPaks names).pairs]
  exact List.mem_append_left _ h

theorem mem_runOf_snd (h : (number, name) ∈ (runOf names).2) : (number, name) ∈ (numberedPaks names).pairs := by
  rw [← contiguousRun_append 0 (numberedPaks names).pairs]
  exact List.mem_append_right _ h

theorem leads_of_mem_run (h : (number, name) ∈ (runOf names).1) : Leads names name := by
  refine ⟨number, (mem_numberedPaks (mem_runOf_fst h)).2, fun smaller hLe => ?_⟩
  have hNumbers := contiguousRun_numbers 0 (numberedPaks names).pairs
  have hIn : number ∈ (runOf names).1.map Prod.fst := List.mem_map_of_mem h
  have hSmaller : smaller ∈ (runOf names).1.map Prod.fst := by
    rw [runOf, hNumbers, List.mem_range'_1] at hIn ⊢
    omega
  obtain ⟨⟨_, kept⟩, hKept, rfl⟩ := List.mem_map.mp hSmaller
  exact ⟨kept, mem_numberedPaks (mem_runOf_fst hKept)⟩

theorem not_leads_of_mem_left (h : (number, name) ∈ (runOf names).2) : ¬Leads names name := by
  rintro ⟨number', hNumber, hRun⟩
  obtain rfl := Option.some.inj ((mem_numberedPaks (mem_runOf_snd h)).2.symm.trans hNumber)
  have hLeft : ∀ pair ∈ (runOf names).2, 0 + (runOf names).1.length < pair.1 :=
    contiguousRun_left (numberedPaks names).sorted fun pair _ => Nat.zero_le pair.1
  have hLarge := hLeft _ h
  -- the number at which the run stops is no key of the map
  obtain ⟨stop, hStop, hStopNumber⟩ := hRun (runOf names).1.length (by omega)
  obtain ⟨kept, hKept⟩ := exists_numberedPaks hStop hStopNumber
  have hEither : ((runOf names).1.length, kept) ∈ (runOf names).1 ++ (runOf names).2 := by
    rw [runOf, contiguousRun_append]
    exact hKept
  rcases List.mem_append.mp hEither with hIn | hIn
  · have hBelow : (runOf names).1.length ∈ (runOf names).1.map Prod.fst := List.mem_map_of_mem hIn
    rw [runOf, contiguousRun_numbers, List.mem_range'_1] at hBelow
    omega
  · have hAbove := hLeft _ hIn
    dsimp only at hAbove
    omega

/-! ### The list of the archives -/

theorem orderedPakNames_eq (names : List Text) : orderedPakNames names = (runOf names).1.map Prod.snd ++
    (names.filter (fun name => (numberedPakIndex name).isNone) ++ (runOf names).2.map Prod.snd).insertionSort byLower := rfl

theorem orderedPakNames_perm_values (names : List Text) : (orderedPakNames names).Perm
    ((numberedPaks names).values ++ names.filter fun name => (numberedPakIndex name).isNone) := by
  rw [orderedPakNames_eq, SortedMap.values, ← contiguousRun_append 0 (numberedPaks names).pairs, List.map_append,
    List.append_assoc]
  refine List.Perm.append_left _ ?_
  exact (List.perm_insertionSort _ _).trans List.perm_append_comm

theorem orderedPakNames_perm_iff :
    (orderedPakNames names).Perm names ↔ (names.filterMap numberedPakIndex).Nodup := by
  constructor
  · intro h
    have hNumbers := ((orderedPakNames_perm_values names).symm.trans h).filterMap numberedPakIndex
    have hNone : (names.filter fun name => (numberedPakIndex name).isNone).filterMap numberedPakIndex = [] := by
      rw [List.filterMap_eq_nil_iff]
      exact fun name hName => Option.isNone_iff_eq_none.mp (List.mem_filter.mp hName).2
    rw [List.filterMap_append, hNone, List.append_nil, filterMap_values] at hNumbers
    exact hNumbers.nodup_iff.mp (SortedMap.nodup_keys _)
  · intro h
    refine (orderedPakNames_perm_values names).trans (((values_perm h).append_right _).trans ?_)
    exact List.perm_append_comm.trans (List.filter_append_perm _ names)

instance : Std.Total byLower := ⟨fun name other => le_total (toAsciiLowercase name) (toAsciiLowercase other)⟩

instance : IsTrans Text byLower := ⟨fun _ _ _ hOne hTwo => le_trans hOne hTwo⟩

theorem pairwise_orderedPakNames (names : List Text) :
    (orderedPakNames names).Pairwise fun name other => ¬Before names other name := by
  have hRun (name : Text) (h : name ∈ (runOf names).1.map Prod.snd) : Leads names name := by
    obtain ⟨pair, hPair, rfl⟩ := List.mem_map.mp h
    exact leads_of_mem_run hPair
  have hRest (name : Text) (h : name ∈ (names.filter (fun name => (numberedPakIndex name).isNone) ++
      (runOf names).2.map Prod.snd).insertionSort byLower) : ¬Leads names name := by
    rcases List.mem_append.mp ((List.perm_insertionSort _ _).mem_iff.mp h) with hNone | hLeft
    · rintro ⟨number, hNumber, -⟩
      have hNo := (List.mem_filter.mp hNone).2
      rw [hNumber] at hNo
      cases hNo
    · obtain ⟨pair, hPair, rfl⟩ := List.mem_map.mp hLeft
      exact not_leads_of_mem_left hPair
  rw [orderedPakNames_eq, List.pairwise_append]
  refine ⟨?_, ?_, fun name hName other hOther => ?_⟩
  · have hIncreasing : (runOf names).1.Pairwise fun first second => first.1 < second.1 := by
      have hSorted := (numberedPaks names).sorted
      rw [← contiguousRun_append 0 (numberedPaks names).pairs] at hSorted
      exact (List.pairwise_append.mp hSorted).1
    refine List.pairwise_map.mpr (hIncreasing.imp_of_mem fun {first second} hFirst hSecond hLt => ?_)
    have hLeads := leads_of_mem_run hFirst
    rintro (⟨smaller, number, hSmaller, hNumber, -, hLess⟩ | ⟨-, hNot⟩ | ⟨-, hNot, -⟩)
    · obtain rfl := Option.some.inj ((mem_numberedPaks (mem_runOf_fst hFirst)).2.symm.trans hNumber)
      obtain rfl := Option.some.inj ((mem_numberedPaks (mem_runOf_fst hSecond)).2.symm.trans hSmaller)
      exact lt_asymm hLt hLess
    · exact hNot hLeads
    · exact hNot hLeads
  · refine (List.pairwise_insertionSort byLower _).imp_of_mem fun {first second} hFirst hSecond hLe => ?_
    rintro (⟨-, number, -, hNumber, hIn, -⟩ | ⟨hLeads, -⟩ | ⟨-, -, hLt⟩)
    · exact hRest _ hFirst ⟨number, hNumber, hIn⟩
    · exact hRest _ hSecond hLeads
    · exact not_lt_of_ge hLe hLt
  · rintro (⟨smaller, number, hSmaller, -, hIn, hLess⟩ | ⟨hLeads, -⟩ | ⟨-, hNot, -⟩)
    · exact hRest _ hOther ⟨smaller, hSmaller, fun least hLeast => hIn least (hLeast.trans hLess.le)⟩
    · exact hRest _ hOther hLeads
    · exact hNot (hRun _ hName)

theorem lower_eq_of_not_before (hNodup : (names.filterMap numberedPakIndex).Nodup) (hName : name ∈ names)
    (hOther : other ∈ names) (h : ¬Before names name other) (h' : ¬Before names other name) :
    toAsciiLowercase name = toAsciiLowercase other := by
  have hIff : Leads names name ↔ Leads names other :=
    ⟨fun hLeads => by_contra fun hNot => h (.inr (.inl ⟨hLeads, hNot⟩)),
      fun hLeads => by_contra fun hNot => h' (.inr (.inl ⟨hLeads, hNot⟩))⟩
  by_cases hLeads : Leads names name
  · obtain ⟨number, hNumber, hIn⟩ := hLeads
    obtain ⟨number', hNumber', hIn'⟩ := hIff.mp ⟨number, hNumber, hIn⟩
    have hSame : number = number' := by
      rcases lt_trichotomy number number' with hLt | hEq | hGt
      · exact absurd (.inl ⟨number, number', hNumber, hNumber', hIn', hLt⟩) h
      · exact hEq
      · exact absurd (.inl ⟨number', number, hNumber', hNumber, hIn, hGt⟩) h'
    have hOne := SortedMap.get?_eq_some.mpr (mem_pairs_of_nodup hNodup hName hNumber)
    have hTwo := SortedMap.get?_eq_some.mpr (mem_pairs_of_nodup hNodup hOther (hSame ▸ hNumber'))
    exact congrArg toAsciiLowercase (Option.some.inj (hOne.symm.trans hTwo))
  · have hOut : ¬Leads names other := fun hOther => hLeads (hIff.mpr hOther)
    exact le_antisymm (not_lt.mp fun hLt => h' (.inr (.inr ⟨hOut, hLeads, hLt⟩)))
      (not_lt.mp fun hLt => h (.inr (.inr ⟨hLeads, hOut, hLt⟩)))

theorem filter_orderedPakNames {lower : Text} (hNone : ∀ name ∈ names, toAsciiLowercase name = lower → numberedPakIndex name = none) :
    (orderedPakNames names).filter (fun name => toAsciiLowercase name = lower) =
      names.filter fun name => toAsciiLowercase name = lower := by
  have hNumbered (pairs : List (Nat × Text)) (h : ∀ pair ∈ pairs, pair ∈ (numberedPaks names).pairs) :
      (pairs.map Prod.snd).filter (fun name => toAsciiLowercase name = lower) = [] := by
    refine List.filter_eq_nil_iff.mpr fun name hName hLower => ?_
    obtain ⟨pair, hPair, rfl⟩ := List.mem_map.mp hName
    obtain ⟨hMem, hNumber⟩ := mem_numberedPaks (h pair hPair)
    exact absurd (hNumber.symm.trans (hNone _ hMem (of_decide_eq_true hLower))) (Option.some_ne_none _)
  rw [orderedPakNames_eq, List.filter_append, hNumbered _ fun pair hPair => mem_runOf_fst hPair, List.nil_append,
    filter_insertionSort, List.filter_append, hNumbered _ fun pair hPair => mem_runOf_snd hPair, List.append_nil,
    List.filter_filter]
  · refine List.filter_congr fun name hName => ?_
    by_cases hLower : toAsciiLowercase name = lower
    · simp [hLower, hNone name hName hLower]
    · simp [hLower]
  · intro name other hName hOther
    exact ((of_decide_eq_true hName).trans (of_decide_eq_true hOther).symm).le

end Archives

/-! ## What an index should be -/

section Holding

variable (disk : Disk) (limits : Limits) (key : Text) (root : OsPath)

def Loose (path : OsPath) : Prop :=
  LooseFile disk root [] path ∧ ∃ normalized, looseName limits path = some normalized ∧ normalized.key = key

/-- An archive at the top of the search path has a member of the key. -/
def Packed (name : Text) : Prop :=
  name ∈ namesAt disk root ∧
    ∃ entry ∈ members disk limits (root ++ [name]), ∃ normalized, memberName limits entry = some normalized ∧ normalized.key = key

def Holds : Prop := (∃ path, Loose disk limits key root path) ∨ ∃ name, Packed disk limits key root name

def memberOf (archive : OsPath) : Option Indexed :=
  (members disk limits archive).findSome? fun entry => (memberName limits entry).bind fun normalized =>
    if normalized.key = key then some ⟨normalized.display, .pak archive entry.offset entry.size⟩ else none

/-- A loose file, or else the member of an archive that no other archive with the key comes before. -/
def Located (indexed : Indexed) : Prop :=
  (∃ path normalized, LooseFile disk root [] path ∧ looseName limits path = some normalized ∧ normalized.key = key ∧
    indexed = ⟨normalized.display, .loose (root ++ path)⟩) ∨
  ((∀ path, ¬Loose disk limits key root path) ∧
    ∃ name, Packed disk limits key root name ∧
      (∀ other, Packed disk limits key root other → ¬Before (namesAt disk root) other name) ∧
      memberOf disk limits key (root ++ [name]) = some indexed)

def FirstHolder (roots : List OsPath) : Prop :=
  Holds disk limits key root ∧ ∃ before after, roots = before ++ root :: after ∧ ∀ earlier ∈ before, ¬Holds disk limits key earlier

end Holding

structure Resolved (disk : Disk) (searchPaths : List Text) (limits : Limits) (index : Index) : Prop where
  held : ∀ key, (index key).isSome ↔ ∃ root ∈ modRoots limits searchPaths, Holds disk limits key root
  located : ∀ key indexed, index key = some indexed →
    ∃ root, FirstHolder disk limits key root (modRoots limits searchPaths) ∧ Located disk limits key root indexed
  consulted : ∀ root ∈ modRoots limits searchPaths, (orderedPakNames (namesAt disk root)).Perm (namesAt disk root)
  relisted : ∀ disk', Relisted disk disk' → build disk' searchPaths limits = .ok index

/-- Nothing competes that only the order of a listing could decide between. -/
structure Settled (disk : Disk) (searchPaths : List Text) (limits : Limits) : Prop where
  numbers : ∀ root ∈ modRoots limits searchPaths, ((namesAt disk root).filterMap numberedPakIndex).Nodup
  files : ∀ key root, FirstHolder disk limits key root (modRoots limits searchPaths) →
    ∀ path path', Loose disk limits key root path → Loose disk limits key root path' → path = path'
  archives : ∀ key root, FirstHolder disk limits key root (modRoots limits searchPaths) →
    (∀ path, ¬Loose disk limits key root path) →
    ∀ name other, Packed disk limits key root name → Packed disk limits key root other →
      (∀ third, Packed disk limits key root third → ¬Before (namesAt disk root) third name) →
      toAsciiLowercase name = toAsciiLowercase other → name = other

/-! ### What a search path gives for a key -/

section Values

variable {disk disk' : Disk} {limits : Limits} {key : Text} {root path : OsPath} {name : Text} {indexed : Indexed}

theorem firstOf_toList {pair : Option (Text × Indexed)} :
    firstOf key pair.toList = pair.bind fun pair => if pair.1 = key then some pair.2 else none := by
  cases pair with
  | none => rfl
  | some pair =>
    rw [Option.toList_some, firstOf, List.findSome?_singleton, Option.bind_some]

theorem firstOf_loosePair : firstOf key (loosePair limits root path) = some indexed ↔
    ∃ normalized, looseName limits path = some normalized ∧ normalized.key = key ∧
      indexed = ⟨normalized.display, .loose (root ++ path)⟩ := by
  rw [loosePair, firstOf_toList, Option.bind_map, Option.bind_eq_some_iff]
  refine exists_congr fun normalized => and_congr_right fun _ => ?_
  rw [Function.comp_apply, Option.ite_none_right_eq_some, Option.some.injEq, eq_comm (a := indexed)]

theorem isSome_firstOf_loosePair (hFile : LooseFile disk root [] path) :
    (firstOf key (loosePair limits root path)).isSome ↔ Loose disk limits key root path := by
  rw [Option.isSome_iff_exists]
  constructor
  · rintro ⟨indexed, h⟩
    obtain ⟨normalized, hName, hKey, -⟩ := firstOf_loosePair.mp h
    exact ⟨hFile, normalized, hName, hKey⟩
  · rintro ⟨-, normalized, hName, hKey⟩
    exact ⟨_, firstOf_loosePair.mpr ⟨normalized, hName, hKey, rfl⟩⟩

theorem firstOf_members (archive : OsPath) :
    firstOf key ((members disk limits archive).flatMap (memberPair limits archive)) = memberOf disk limits key archive := by
  rw [firstOf_flatMap, memberOf]
  congr 1
  funext entry
  rw [memberPair, firstOf_toList, Option.bind_map]
  rfl

theorem isSome_memberOf : name ∈ namesAt disk root ∧ (memberOf disk limits key (root ++ [name])).isSome ↔
    Packed disk limits key root name := by
  rw [memberOf, List.findSome?_isSome_iff, Packed]
  refine and_congr_right fun _ => exists_congr fun entry => and_congr_right fun _ => ?_
  cases memberName limits entry with
  | none => simp
  | some normalized =>
    rw [Option.bind_some]
    split <;> simp [*]

theorem firstOf_rootPairs : firstOf key (rootPairs disk limits root) =
    ((walk disk root (limits.maxDepth + 1) []).findSome? fun path => firstOf key (loosePair limits root path)).or
      ((orderedPakNames (namesAt disk root)).findSome? fun name => memberOf disk limits key (root ++ [name])) := by
  rw [rootPairs, firstOf_append, loosePairs, firstOf_flatMap, pakPairs, firstOf_flatMap]
  congr 2
  funext name
  exact firstOf_members _

theorem firstLoose_eq_none (hShallow : Shallow disk root (limits.maxDepth + 1) []) :
    ((walk disk root (limits.maxDepth + 1) []).findSome? fun path => firstOf key (loosePair limits root path)) = none ↔
      ∀ path, ¬Loose disk limits key root path := by
  rw [List.findSome?_eq_none_iff]
  constructor
  · intro h path hLoose
    have hNone := h path ((mem_walk hShallow).mpr hLoose.1)
    have hSome := (isSome_firstOf_loosePair hLoose.1).mpr hLoose
    rw [hNone] at hSome
    cases hSome
  · intro h path hPath
    have hFile := (mem_walk hShallow).mp hPath
    exact Option.not_isSome_iff_eq_none.mp fun hSome => h path ((isSome_firstOf_loosePair hFile).mp hSome)

theorem firstPak_split (hPerm : (orderedPakNames (namesAt disk root)).Perm (namesAt disk root))
    (h : ((orderedPakNames (namesAt disk root)).findSome? fun name => memberOf disk limits key (root ++ [name])) = some indexed) :
    ∃ front name rest, orderedPakNames (namesAt disk root) = front ++ name :: rest ∧
      memberOf disk limits key (root ++ [name]) = some indexed ∧
      (∀ other ∈ front, memberOf disk limits key (root ++ [other]) = none) ∧
      Packed disk limits key root name ∧
      ∀ other, Packed disk limits key root other → ¬Before (namesAt disk root) other name := by
  obtain ⟨front, name, rest, hSplit, hFound, hBefore⟩ := findSome?_split h
  have hMem : name ∈ orderedPakNames (namesAt disk root) := by simp [hSplit]
  have hPacked : Packed disk limits key root name :=
    isSome_memberOf.mp ⟨hPerm.mem_iff.mp hMem, Option.isSome_iff_exists.mpr ⟨_, hFound⟩⟩
  refine ⟨front, name, rest, hSplit, hFound, hBefore, hPacked, fun other hOther hComes => ?_⟩
  obtain ⟨hNames, hSome⟩ := isSome_memberOf.mpr hOther
  have hPairwise := pairwise_orderedPakNames (namesAt disk root)
  have hIn := hPerm.mem_iff.mpr hNames
  rw [hSplit] at hPairwise hIn
  obtain ⟨-, hTail, -⟩ := List.pairwise_append.mp hPairwise
  rcases List.mem_append.mp hIn with hFront | hTailMem
  · rw [hBefore other hFront] at hSome
    cases hSome
  · rcases List.mem_cons.mp hTailMem with rfl | hRest
    · exact not_before_self _ _ hComes
    · exact (List.pairwise_cons.mp hTail).1 other hRest hComes

theorem located_of_firstOf (hShallow : Shallow disk root (limits.maxDepth + 1) [])
    (hPerm : (orderedPakNames (namesAt disk root)).Perm (namesAt disk root))
    (h : firstOf key (rootPairs disk limits root) = some indexed) :
    Holds disk limits key root ∧ Located disk limits key root indexed := by
  rw [firstOf_rootPairs, Option.or_eq_some_iff] at h
  rcases h with hLoose | ⟨hNone, hPak⟩
  · obtain ⟨path, hPath, hFound⟩ := List.exists_of_findSome?_eq_some hLoose
    have hFile := (mem_walk hShallow).mp hPath
    obtain ⟨normalized, hName, hKey, rfl⟩ := firstOf_loosePair.mp hFound
    exact ⟨.inl ⟨path, hFile, normalized, hName, hKey⟩, .inl ⟨path, normalized, hFile, hName, hKey, rfl⟩⟩
  · obtain ⟨-, name, -, -, hFound, -, hPacked, hFirst⟩ := firstPak_split hPerm hPak
    exact ⟨.inr ⟨name, hPacked⟩, .inr ⟨(firstLoose_eq_none hShallow).mp hNone, name, hPacked, hFirst, hFound⟩⟩

theorem isSome_firstOf_rootPairs (hShallow : Shallow disk root (limits.maxDepth + 1) [])
    (hPerm : (orderedPakNames (namesAt disk root)).Perm (namesAt disk root)) :
    (firstOf key (rootPairs disk limits root)).isSome ↔ Holds disk limits key root := by
  constructor
  · intro h
    obtain ⟨indexed, hIndexed⟩ := Option.isSome_iff_exists.mp h
    exact (located_of_firstOf hShallow hPerm hIndexed).1
  · intro h
    rw [firstOf_rootPairs, Option.isSome_or, Bool.or_eq_true]
    rcases h with ⟨path, hLoose⟩ | ⟨name, hPacked⟩
    · left
      exact List.findSome?_isSome_iff.mpr ⟨path, (mem_walk hShallow).mpr hLoose.1, (isSome_firstOf_loosePair hLoose.1).mpr hLoose⟩
    · right
      obtain ⟨hNames, hSome⟩ := isSome_memberOf.mpr hPacked
      exact List.findSome?_isSome_iff.mpr ⟨name, hPerm.mem_iff.mpr hNames, hSome⟩

theorem memberOf_location {archive : OsPath} (h : memberOf disk limits key archive = some indexed) :
    ∃ offset size, indexed.location = .pak archive offset size := by
  obtain ⟨entry, -, hEntry⟩ := List.exists_of_findSome?_eq_some h
  obtain ⟨normalized, -, hNormalized⟩ := Option.bind_eq_some_iff.mp hEntry
  obtain ⟨-, hIndexed⟩ := Option.ite_none_right_eq_some.mp hNormalized
  exact ⟨entry.offset, entry.size, (Option.some.inj hIndexed) ▸ rfl⟩

end Values

/-! ### The first search path that holds a key -/

section Roots

variable {disk disk' : Disk} {searchPaths : List Text} {limits : Limits} {index : Index} {key : Text}
  {root root' : OsPath} {roots : List OsPath} {indexed indexed' : Indexed}

theorem FirstHolder.mem (h : FirstHolder disk limits key root roots) : root ∈ roots := by
  obtain ⟨-, before, after, rfl, -⟩ := h
  simp

theorem FirstHolder.unique (h : FirstHolder disk limits key root roots) (h' : FirstHolder disk limits key root' roots) :
    root = root' := by
  obtain ⟨hHolds, before, after, rfl, hBefore⟩ := h
  obtain ⟨hHolds', before', after', hSplit, hBefore'⟩ := h'
  classical
  let holder (root : OsPath) : Option OsPath := if Holds disk limits key root then some root else none
  have hFirst : (before ++ root :: after).findSome? holder = some root :=
    findSome?_of_split (if_pos hHolds) fun other hOther => if_neg (hBefore other hOther)
  have hFirst' : (before' ++ root' :: after').findSome? holder = some root' :=
    findSome?_of_split (if_pos hHolds') fun other hOther => if_neg (hBefore' other hOther)
  rw [← hSplit, hFirst] at hFirst'
  exact Option.some.inj hFirst'

theorem index_eq (h : build disk searchPaths limits = .ok index) (key : Text) : index key =
    (modRoots limits searchPaths).findSome? fun root => firstOf key (rootPairs disk limits root) := by
  obtain ⟨-, -, room, hFill⟩ := build_eq_ok.mp h
  have hValue := Table.value_fill hFill key
  rwa [Option.none_or, firstOf_flatMap] at hValue

variable (hBuild : build disk searchPaths limits = .ok index)
  (hPerm : ∀ root ∈ modRoots limits searchPaths, (orderedPakNames (namesAt disk root)).Perm (namesAt disk root))

include hBuild hPerm

theorem isSome_rootPairs {root : OsPath} (hRoot : root ∈ modRoots limits searchPaths) :
    (firstOf key (rootPairs disk limits root)).isSome ↔ Holds disk limits key root :=
  isSome_firstOf_rootPairs ((build_eq_ok.mp hBuild).2.1 root hRoot).1 (hPerm root hRoot)

theorem held_of_build : (index key).isSome ↔ ∃ root ∈ modRoots limits searchPaths, Holds disk limits key root := by
  rw [index_eq hBuild, List.findSome?_isSome_iff]
  exact exists_congr fun root => and_congr_right fun hRoot => isSome_rootPairs hBuild hPerm hRoot

theorem located_of_build (h : index key = some indexed) :
    ∃ root, FirstHolder disk limits key root (modRoots limits searchPaths) ∧ Located disk limits key root indexed := by
  rw [index_eq hBuild] at h
  obtain ⟨before, root, after, hSplit, hFound, hBefore⟩ := findSome?_split h
  have hRoot : root ∈ modRoots limits searchPaths := by simp [hSplit]
  obtain ⟨hHolds, hLocated⟩ := located_of_firstOf ((build_eq_ok.mp hBuild).2.1 root hRoot).1 (hPerm root hRoot) hFound
  refine ⟨root, ⟨hHolds, before, after, hSplit, fun earlier hEarlier hIn => ?_⟩, hLocated⟩
  have hSome := (isSome_rootPairs hBuild hPerm (by simp [hSplit, hEarlier])).mpr hIn
  rw [hBefore earlier hEarlier] at hSome
  cases hSome

theorem index_of_firstHolder (h : FirstHolder disk limits key root (modRoots limits searchPaths)) :
    index key = firstOf key (rootPairs disk limits root) := by
  have hRoot := h.mem
  obtain ⟨hHolds, before, after, hSplit, hBefore⟩ := h
  obtain ⟨indexed, hIndexed⟩ := Option.isSome_iff_exists.mp ((isSome_rootPairs hBuild hPerm hRoot).mpr hHolds)
  rw [index_eq hBuild, hSplit, hIndexed]
  refine findSome?_of_split hIndexed fun earlier hEarlier => Option.not_isSome_iff_eq_none.mp fun hSome => ?_
  exact hBefore earlier hEarlier ((isSome_rootPairs hBuild hPerm (by simp [hSplit, hEarlier])).mp hSome)

end Roots

/-! ### What does not depend on the listing -/

namespace Relisted

variable {disk disk' : Disk} {limits : Limits} {key : Text} {root path : OsPath} {name other : Text}
  {searchPaths : List Text} {indexed : Indexed}

theorem members_eq (h : Relisted disk disk') (archive : OsPath) : members disk' limits archive = members disk limits archive := by
  rw [members, members, h.readDirectory_eq]

theorem memberOf_eq (h : Relisted disk disk') (archive : OsPath) :
    memberOf disk' limits key archive = memberOf disk limits key archive := by
  rw [memberOf, memberOf, h.members_eq]

theorem loose_iff (h : Relisted disk disk') : Loose disk' limits key root path ↔ Loose disk limits key root path :=
  and_congr_left fun _ => h.looseFile_iff

theorem packed_iff (h : Relisted disk disk') : Packed disk' limits key root name ↔ Packed disk limits key root name := by
  rw [Packed, Packed, (h.names_perm root).mem_iff, h.members_eq]

theorem holds_iff (h : Relisted disk disk') : Holds disk' limits key root ↔ Holds disk limits key root :=
  or_congr (exists_congr fun _ => h.loose_iff) (exists_congr fun _ => h.packed_iff)

theorem firstHolder_iff (h : Relisted disk disk') {roots : List OsPath} :
    FirstHolder disk' limits key root roots ↔ FirstHolder disk limits key root roots := by
  unfold FirstHolder
  simp only [h.holds_iff]

theorem before_iff (h : Relisted disk disk') :
    Before (namesAt disk' root) name other ↔ Before (namesAt disk root) name other := by
  have hRun (number : Nat) : InRun (namesAt disk' root) number ↔ InRun (namesAt disk root) number := by
    unfold InRun
    simp only [(h.names_perm root).mem_iff]
  have hLeads (name : Text) : Leads (namesAt disk' root) name ↔ Leads (namesAt disk root) name := by
    unfold Leads
    simp only [hRun]
  unfold Before
  simp only [hRun, hLeads]

theorem located_iff (h : Relisted disk disk') : Located disk' limits key root indexed ↔ Located disk limits key root indexed := by
  unfold Located
  simp only [h.looseFile_iff, h.loose_iff, h.packed_iff, h.before_iff, h.memberOf_eq]

theorem ordered_perm (h : Relisted disk disk') (hPerm : (orderedPakNames (namesAt disk root)).Perm (namesAt disk root)) :
    (orderedPakNames (namesAt disk' root)).Perm (namesAt disk' root) := by
  rw [orderedPakNames_perm_iff] at hPerm ⊢
  exact (((h.names_perm root).filterMap _).nodup_iff).mp hPerm

theorem readable (h : Relisted disk disk') (hPerm : (orderedPakNames (namesAt disk root)).Perm (namesAt disk root))
    (hReadable : Readable disk limits root) : Readable disk' limits root := by
  refine ⟨h.shallow hReadable.1, fun name hName => ?_⟩
  have hListed := (h.names_perm root).mem_iff.mpr ((h.ordered_perm hPerm).mem_iff.mp hName)
  rw [h.readDirectory_eq]
  exact hReadable.2 name (hPerm.mem_iff.mpr hListed)

theorem rootPairs_perm (h : Relisted disk disk') (hPerm : (orderedPakNames (namesAt disk root)).Perm (namesAt disk root)) :
    (rootPairs disk limits root).Perm (rootPairs disk' limits root) := by
  refine List.Perm.append (h.walk_perm.flatMap_right _) ?_
  unfold pakPairs
  simp only [h.members_eq]
  exact ((hPerm.trans (h.names_perm root)).trans (h.ordered_perm hPerm).symm).flatMap_right _

theorem exists_build (h : Relisted disk disk') {index : Index} (hBuild : build disk searchPaths limits = .ok index)
    (hPerm : ∀ root ∈ modRoots limits searchPaths, (orderedPakNames (namesAt disk root)).Perm (namesAt disk root)) :
    ∃ index', build disk' searchPaths limits = .ok index' := by
  obtain ⟨hRoots, hReadable, room, hFill⟩ := build_eq_ok.mp hBuild
  have hPairs : ((modRoots limits searchPaths).flatMap (rootPairs disk limits)).Perm
      ((modRoots limits searchPaths).flatMap (rootPairs disk' limits)) :=
    List.Perm.flatMap (List.Perm.refl _) fun root hRoot => h.rootPairs_perm (hPerm root hRoot)
  obtain ⟨⟨index', room'⟩, hFill'⟩ := (Table.exists_fill_perm hPairs).mp ⟨_, hFill⟩
  exact ⟨index', build_eq_ok.mpr ⟨hRoots, fun root hRoot => h.readable (hPerm root hRoot) (hReadable root hRoot), room', hFill'⟩⟩

end Relisted

/-! ## When the index is what it should be -/

section Claim

variable {disk : Disk} {searchPaths : List Text} {limits : Limits} {index : Index}

theorem Settled.perm (h : Settled disk searchPaths limits) :
    ∀ root ∈ modRoots limits searchPaths, (orderedPakNames (namesAt disk root)).Perm (namesAt disk root) :=
  fun root hRoot => orderedPakNames_perm_iff.mpr (h.numbers root hRoot)

theorem Settled.located_unique (h : Settled disk searchPaths limits) {key : Text} {root : OsPath} {indexed indexed' : Indexed}
    (hFirst : FirstHolder disk limits key root (modRoots limits searchPaths)) (hOne : Located disk limits key root indexed)
    (hTwo : Located disk limits key root indexed') : indexed = indexed' := by
  rcases hOne with ⟨path, normalized, hFile, hName, hKey, rfl⟩ | ⟨hNone, name, hPacked, hMin, hMember⟩
  · rcases hTwo with ⟨path', normalized', hFile', hName', hKey', rfl⟩ | ⟨hNone, -⟩
    · obtain rfl := h.files key root hFirst path path' ⟨hFile, normalized, hName, hKey⟩ ⟨hFile', normalized', hName', hKey'⟩
      obtain rfl := Option.some.inj (hName.symm.trans hName')
      rfl
    · exact (hNone path ⟨hFile, normalized, hName, hKey⟩).elim
  · rcases hTwo with ⟨path, normalized, hFile, hName, hKey, rfl⟩ | ⟨-, name', hPacked', hMin', hMember'⟩
    · exact (hNone path ⟨hFile, normalized, hName, hKey⟩).elim
    · have hLower := lower_eq_of_not_before (h.numbers root hFirst.mem) hPacked.1 hPacked'.1 (hMin' name hPacked)
        (hMin name' hPacked')
      obtain rfl := h.archives key root hFirst hNone name name' hPacked hPacked' hMin hLower
      exact Option.some.inj (hMember.symm.trans hMember')

theorem Settled.resolved (h : Settled disk searchPaths limits) (hBuild : build disk searchPaths limits = .ok index) :
    Resolved disk searchPaths limits index where
  held _ := held_of_build hBuild h.perm
  located _ _ hIndexed := located_of_build hBuild h.perm hIndexed
  consulted := h.perm
  relisted disk' hListed := by
    obtain ⟨index', hBuild'⟩ := hListed.exists_build hBuild h.perm
    have hPerm' := fun root hRoot => hListed.ordered_perm (h.perm root hRoot)
    have hSame : index' = index := by
      funext key
      cases hIndexed : index key with
      | none =>
        have hNone : ¬(index' key).isSome := by
          rw [held_of_build hBuild' hPerm']
          rintro ⟨root, hRoot, hHolds⟩
          have hSome := (held_of_build hBuild h.perm).mpr ⟨root, hRoot, hListed.holds_iff.mp hHolds⟩
          rw [hIndexed] at hSome
          cases hSome
        exact Option.not_isSome_iff_eq_none.mp hNone
      | some indexed =>
        obtain ⟨root, hFirst, hLocated⟩ := located_of_build hBuild h.perm hIndexed
        have hHeld : (index' key).isSome :=
          (held_of_build hBuild' hPerm').mpr ⟨root, hFirst.mem, hListed.holds_iff.mpr hFirst.1⟩
        obtain ⟨indexed', hIndexed'⟩ := Option.isSome_iff_exists.mp hHeld
        obtain ⟨root', hFirst', hLocated'⟩ := located_of_build hBuild' hPerm' hIndexed'
        obtain rfl := hFirst.unique (hListed.firstHolder_iff.mp hFirst')
        rw [hIndexed', h.located_unique hFirst (hListed.located_iff.mp hLocated') hLocated]
    rw [hBuild', hSame]

theorem Resolved.files (h : Resolved disk searchPaths limits index) (hBuild : build disk searchPaths limits = .ok index)
    {key : Text} {root : OsPath} (hFirst : FirstHolder disk limits key root (modRoots limits searchPaths))
    {path path' : OsPath} (hPath : Loose disk limits key root path) (hPath' : Loose disk limits key root path') :
    path = path' := by
  have hListed := relisted_reversed disk
  have hBuild' := h.relisted _ hListed
  have hShallow := ((build_eq_ok.mp hBuild).2.1 root hFirst.mem).1
  have hPerm' := fun root hRoot => hListed.ordered_perm (h.consulted root hRoot)
  have hOne := index_of_firstHolder hBuild h.consulted hFirst
  have hTwo := index_of_firstHolder hBuild' hPerm' (hListed.firstHolder_iff.mpr hFirst)
  rw [firstOf_rootPairs] at hOne hTwo
  -- each order gives its first loose file
  have hSome : ((walk disk root (limits.maxDepth + 1) []).findSome? fun path => firstOf key (loosePair limits root path)).isSome :=
    List.findSome?_isSome_iff.mpr ⟨path, (mem_walk hShallow).mpr hPath.1, (isSome_firstOf_loosePair hPath.1).mpr hPath⟩
  have hSome' : ((walk disk.reversed root (limits.maxDepth + 1) []).findSome? fun path =>
      firstOf key (loosePair limits root path)).isSome := by
    rw [walk_reversed]
    exact List.findSome?_isSome_iff.mpr ⟨path, List.mem_reverse.mpr ((mem_walk hShallow).mpr hPath.1),
      (isSome_firstOf_loosePair hPath.1).mpr hPath⟩
  rw [Option.or_of_isSome hSome] at hOne
  rw [Option.or_of_isSome hSome', walk_reversed] at hTwo
  refine eq_of_findSome?_reverse (nodup_walk disk root [] _) (fun one _ two _ indexed hIndexed hIndexed' => ?_)
    (hOne.symm.trans hTwo) ((mem_walk hShallow).mpr hPath.1) ((mem_walk hShallow).mpr hPath'.1)
    ((isSome_firstOf_loosePair hPath.1).mpr hPath) ((isSome_firstOf_loosePair hPath'.1).mpr hPath')
  obtain ⟨normalized, -, -, rfl⟩ := firstOf_loosePair.mp hIndexed
  obtain ⟨normalized', -, -, hSame⟩ := firstOf_loosePair.mp hIndexed'
  exact List.append_cancel_left (Location.loose.inj (Indexed.mk.inj hSame).2)

theorem nodup_namesAt (disk : Disk) (root : OsPath) : (namesAt disk root).Nodup := by
  unfold namesAt
  cases hDir : disk.readDir root with
  | none => exact List.nodup_nil
  | some entries => exact (disk.distinct root entries hDir).sublist (List.filter_sublist.map _)

theorem tied_findSome? {key : Text} {root : OsPath} {indexed : Indexed} {name : Text}
    (hPerm : (orderedPakNames (namesAt disk root)).Perm (namesAt disk root)) (hPacked : Packed disk limits key root name)
    (hMin : ∀ third, Packed disk limits key root third → ¬Before (namesAt disk root) third name)
    (hNumber : numberedPakIndex name = none)
    (hFound : ((orderedPakNames (namesAt disk root)).findSome? fun name => memberOf disk limits key (root ++ [name])) =
      some indexed) :
    ((namesAt disk root).filter fun other => toAsciiLowercase other = toAsciiLowercase name).findSome?
      (fun name => memberOf disk limits key (root ++ [name])) = some indexed := by
  obtain ⟨front, first, rest, hSplit, hFirst, hBefore, hFirstPacked, hFirstMin⟩ := firstPak_split hPerm hFound
  have hLower := lower_eq_of_not_before (orderedPakNames_perm_iff.mp hPerm) hFirstPacked.1 hPacked.1
    (hMin first hFirstPacked) (hFirstMin name hPacked)
  rw [← filter_orderedPakNames fun other _ hOther => (numberedPakIndex_congr hOther).trans hNumber, hSplit]
  exact findSome?_filter hFirst hBefore (decide_eq_true hLower)

theorem Resolved.archives (h : Resolved disk searchPaths limits index) (hBuild : build disk searchPaths limits = .ok index)
    {key : Text} {root : OsPath} (hFirst : FirstHolder disk limits key root (modRoots limits searchPaths))
    (hNone : ∀ path, ¬Loose disk limits key root path) {name other : Text} (hName : Packed disk limits key root name)
    (hOther : Packed disk limits key root other)
    (hMin : ∀ third, Packed disk limits key root third → ¬Before (namesAt disk root) third name)
    (hLower : toAsciiLowercase name = toAsciiLowercase other) : name = other := by
  have hListed := relisted_reversed disk
  have hBuild' := h.relisted _ hListed
  have hPerm := h.consulted root hFirst.mem
  have hShallow := ((build_eq_ok.mp hBuild).2.1 root hFirst.mem).1
  have hShallow' := ((build_eq_ok.mp hBuild').2.1 root hFirst.mem).1
  have hPerm' := fun root hRoot => hListed.ordered_perm (h.consulted root hRoot)
  cases hNumber : numberedPakIndex name with
  | some number =>
    have hNodup := orderedPakNames_perm_iff.mp hPerm
    have hOne := SortedMap.get?_eq_some.mpr (mem_pairs_of_nodup hNodup hName.1 hNumber)
    have hTwo := SortedMap.get?_eq_some.mpr (mem_pairs_of_nodup hNodup hOther.1 ((numberedPakIndex_congr hLower).symm.trans hNumber))
    exact Option.some.inj (hOne.symm.trans hTwo)
  | none =>
    have hOne := index_of_firstHolder hBuild h.consulted hFirst
    have hTwo := index_of_firstHolder hBuild' hPerm' (hListed.firstHolder_iff.mpr hFirst)
    rw [firstOf_rootPairs, (firstLoose_eq_none hShallow).mpr hNone, Option.none_or] at hOne
    rw [firstOf_rootPairs, (firstLoose_eq_none hShallow').mpr fun path hLoose => hNone path (hListed.loose_iff.mp hLoose),
      Option.none_or] at hTwo
    obtain ⟨hIn, hSome⟩ := isSome_memberOf.mpr hName
    obtain ⟨hIn', hSome'⟩ := isSome_memberOf.mpr hOther
    have hAny : ((orderedPakNames (namesAt disk root)).findSome? fun name => memberOf disk limits key (root ++ [name])).isSome :=
      List.findSome?_isSome_iff.mpr ⟨name, hPerm.mem_iff.mpr hIn, hSome⟩
    obtain ⟨indexed, hIndexed⟩ := Option.isSome_iff_exists.mp hAny
    have hFront := tied_findSome? hPerm hName hMin hNumber hIndexed
    have hBack := tied_findSome? (hPerm' root hFirst.mem) (hListed.packed_iff.mpr hName)
      (fun third hThird hComes => hMin third (hListed.packed_iff.mp hThird) (hListed.before_iff.mp hComes)) hNumber
      (hTwo.symm.trans (hOne.trans hIndexed))
    simp only [hListed.memberOf_eq, namesAt_reversed, List.filter_reverse] at hBack
    refine eq_of_findSome?_reverse ((nodup_namesAt disk root).filter _) (fun one _ two _ found hFound hFound' => ?_)
      (hFront.trans hBack.symm) (List.mem_filter.mpr ⟨hIn, decide_eq_true rfl⟩)
      (List.mem_filter.mpr ⟨hIn', decide_eq_true hLower.symm⟩) hSome hSome'
    obtain ⟨offset, size, hAt⟩ := memberOf_location hFound
    obtain ⟨offset', size', hAt'⟩ := memberOf_location hFound'
    have hPath := (Location.pak.inj (hAt.symm.trans hAt')).1
    exact (List.cons.inj (List.append_cancel_left hPath)).1

/-- The index is what it should be exactly where nothing competes that only a listing could decide between. -/
theorem resolved_iff_settled (hBuild : build disk searchPaths limits = .ok index) :
    Resolved disk searchPaths limits index ↔ Settled disk searchPaths limits := by
  constructor
  · intro h
    refine ⟨fun root hRoot => orderedPakNames_perm_iff.mp (h.consulted root hRoot), ?_, ?_⟩
    · intro key root hFirst path path' hPath hPath'
      exact h.files hBuild hFirst hPath hPath'
    · intro key root hFirst hNone name other hName hOther hMin hLower
      exact h.archives hBuild hFirst hNone hName hOther hMin hLower
  · intro h
    exact h.resolved hBuild

def oneListing (entries : List DirEntry) (hNames : (entries.map DirEntry.name).Nodup)
    (contents : OsPath → Option (List UInt8)) : Disk where
  readDir path := if path = [utf8Bytes "valve"] then some entries else none
  contents := contents
  distinct path listed h := by
    split at h
    · exact Option.some.inj h ▸ hNames
    · cases h

def looseOnly : Disk := oneListing [⟨utf8Bytes "Hum.wav", .file, true, true⟩] (by decide) fun _ => none

theorem one_file_resolved_iff : Resolved looseOnly [utf8Bytes "valve"] .conservative
    (Function.update (fun _ => none) (utf8Bytes "hum.wav")
      (some ⟨utf8Bytes "Hum.wav", .loose [utf8Bytes "valve", utf8Bytes "Hum.wav"]⟩)) ↔
      Settled looseOnly [utf8Bytes "valve"] .conservative :=
  resolved_iff_settled rfl

def twoArchives : Disk := oneListing
  [⟨utf8Bytes "pak0.pak", .file, true, true⟩, ⟨utf8Bytes "PAK0.PAK", .file, true, true⟩] (by decide)
  fun _ => some (utf8Bytes "PACK" ++ [12, 0, 0, 0, 0, 0, 0, 0])

/-- Of two archives of one number only one is consulted. -/
theorem archive_of_same_number_lost : build twoArchives [utf8Bytes "valve"] .conservative = .ok (fun _ => none) ∧
    ¬Resolved twoArchives [utf8Bytes "valve"] .conservative fun _ => none := by
  refine ⟨rfl, fun h => ?_⟩
  have hPerm := h.consulted [utf8Bytes "valve"] (by decide)
  exact absurd hPerm.length_eq (by decide)

end Claim

end OpenHalfLife.Assets
