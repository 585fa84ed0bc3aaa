import Mathlib.Algebra.Ring.Nat
import OpenHalfLife.Media.Listing

/-! # The ECMA-167 archive

Listings over a reader that maps an allocation descriptor to a directory. A
cursor keeps only the block number of the descriptor; a small table has the rest.
-/

namespace OpenHalfLife.Udf

set_option autoImplicit false

open Media

def maxRememberedDirectories : Nat := 16

structure UdfEntry (Icb : Type) where
  name : Text
  isDir : Bool
  size : Nat
  icb : Icb

structure UdfVolume (Icb : Type) where
  logicalBlockNum : Icb → UInt32
  length : Icb → UInt32
  rootDir : Option (List (UdfEntry Icb))
  readDirectory : Icb → Option (List (UdfEntry Icb))

inductive DirRef (Icb : Type)
  | root
  | icb (icb : Icb)
  deriving DecidableEq

structure UdfArchive (Icb : Type) where
  volume : UdfVolume Icb
  limits : DirectoryLimits
  mount : Nat
  remembered : List (Nat × DirRef Icb)

namespace UdfArchive

variable {Icb : Type} (archive : UdfArchive Icb)

def key : DirRef Icb → Nat
  | .root => 2 ^ 64 - 1
  | .icb icb => (archive.volume.logicalBlockNum icb).toNat

def length : DirRef Icb → Nat
  | .root => 0
  | .icb icb => (archive.volume.length icb).toNat

def remember (directory : DirRef Icb) : UdfArchive Icb :=
  let key := archive.key directory
  if archive.remembered.any fun known => known.1 = key then archive
  else
    let remembered :=
      if archive.remembered.length = maxRememberedDirectories then archive.remembered.drop 1 else archive.remembered
    { archive with remembered := remembered ++ [(key, directory)] }

def «recall» (key : Nat) : Option (DirRef Icb) := (archive.remembered.find? fun known => known.1 = key).map Prod.snd

def readDir (directory : DirRef Icb) : Except SanitizedError (List (UdfEntry Icb)) :=
  match directory with
  | .root => archive.volume.rootDir.elim (.error .invalidInput) .ok
  | .icb icb => (archive.volume.readDirectory icb).elim (.error .invalidInput) .ok

def takeEntries (limits : DirectoryLimits) : List (UdfEntry Icb) → List DirectoryEntry →
    Except SanitizedError (List DirectoryEntry)
  | [], entries => .ok entries
  | entry :: rest, entries =>
    if entry.name.length > limits.maxEntryNameBytes ∨ ¬ isSinglePathComponent entry.name then .error .invalidInput
    else if entries.length ≥ limits.maxTotalEntries then .error .invalidInput
    else takeEntries limits rest (entries ++
      [⟨entry.name, if entry.isDir then .directory else .file, if entry.isDir then 0 else entry.size⟩])

def readEntries (directory : DirRef Icb) : Except SanitizedError (List DirectoryEntry) :=
  if archive.length directory > archive.limits.maxDirectoryExtentBytes then .error .invalidInput
  else do takeEntries archive.limits (← archive.readDir directory) []

def resolveFrom : List Text → DirRef Icb → List Nat → Nat → Except SanitizedError (DirRef Icb)
  | [], current, _, _ => .ok current
  | component :: rest, current, visited, depth =>
    if depth + 1 > archive.limits.maxPathComponents then .error .invalidInput
    else do
      let directory ← archive.readDir current
      match directory.find? fun entry => entry.name = component with
      | none => .error .notFound
      | some entry =>
        if ¬ entry.isDir then .error .notFound
        else
          let next := DirRef.icb entry.icb
          if visited.contains (archive.key next) then .error .invalidInput
          else if visited.length ≥ archive.limits.maxDirectoriesVisited then .error .invalidInput
          else resolveFrom rest next (visited ++ [archive.key next]) (depth + 1)

def resolveDirectory (normalized : Text) : Except SanitizedError (DirRef Icb) :=
  archive.resolveFrom (components normalized) .root [archive.key .root] 0

def fillPage (limits : DirectoryLimits) (alreadyReturned : Nat) : List DirectoryEntry → List DirectoryEntry → Nat →
    Except SanitizedError (List DirectoryEntry)
  | [], page, _ => .ok page
  | entry :: rest, page, nameBytes =>
    if page.length ≥ limits.maxPageEntries then .ok page
    else
      let nextBytes := nameBytes + entry.name.length
      if nextBytes ≥ 2 ^ 64 then .error .arithmeticOverflow
      else if nextBytes > limits.maxPageNameBytes then
        if page.isEmpty then .error .invalidInput else .ok page
      else if alreadyReturned + page.length ≥ limits.maxTotalEntries then .error .invalidInput
      else fillPage limits alreadyReturned rest (page ++ [entry]) nextBytes

def pageFrom (directory : DirRef Icb) (startIndex alreadyReturned pagesEmitted : Nat) :
    Except SanitizedError DirectoryPage :=
  if pagesEmitted ≥ archive.limits.maxPageCount then .error .invalidInput
  else do
    let entries ← archive.readEntries directory
    let page ← fillPage archive.limits alreadyReturned (entries.drop startIndex) [] 0
    let index := startIndex + page.length
    .ok ⟨page, if index < entries.length then
      some ⟨archive.mount, archive.key directory, archive.length directory, index, alreadyReturned + page.length,
        pagesEmitted + 1⟩ else none⟩

def directoryAt (path : Text) : Except SanitizedError (DirRef Icb) :=
  match normalizePath path with
  | none => .error .invalidInput
  | some normalized => archive.resolveDirectory normalized

def listPage (path : Text) : Except SanitizedError DirectoryPage × UdfArchive Icb :=
  match archive.directoryAt path with
  | .error e => (.error e, archive)
  | .ok directory =>
    match archive.pageFrom directory 0 0 0 with
    | .error e => (.error e, archive)
    | .ok page => (.ok page, if page.cursor.isSome then archive.remember directory else archive)

def continueList (cursor : DirectoryCursor) : Except SanitizedError DirectoryPage :=
  if cursor.mount ≠ archive.mount then .error .invalidInput
  else match archive.recall cursor.directoryExtent with
    | none => .error .invalidInput
    | some directory => archive.pageFrom directory cursor.nextIndex cursor.returnedEntries cursor.pagesEmitted

end UdfArchive

end OpenHalfLife.Udf
