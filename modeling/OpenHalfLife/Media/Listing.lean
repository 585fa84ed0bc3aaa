import Mathlib.Data.List.SplitOn

/-! # Paths and directory listings

What the readers of every kind of medium share.
-/

namespace OpenHalfLife.Media

set_option autoImplicit false

inductive SanitizedError
  | arithmeticOverflow
  | arithmeticUnderflow
  | invalidInput
  | notFound
  | unsupported
  | internal
  deriving DecidableEq, Repr

abbrev Text := List UInt8

def maxPathBytes : Nat := 4096

def slash : UInt8 := 47

def backslash : UInt8 := 92

def dot : UInt8 := 46

def normalizePath (path : Text) : Option Text :=
  if path.length > maxPathBytes ∨ path.contains 0 then none
  else (path.splitOnP fun byte => byte = slash ∨ byte = backslash).foldlM
    (fun normalized component =>
      if component.isEmpty then some normalized
      else if component = [dot] ∨ component = [dot, dot] then none
      else some ((if normalized.length > 1 then normalized ++ [slash] else normalized) ++ component))
    [slash]

def isSinglePathComponent (name : Text) : Bool :=
  ¬ name.isEmpty ∧ name.length ≤ maxPathBytes ∧ name ≠ [dot] ∧ name ≠ [dot, dot] ∧ ¬ name.contains 0 ∧
    ¬ name.contains slash ∧ ¬ name.contains backslash

def components (normalized : Text) : List Text :=
  (normalized.splitOnP fun byte => byte = slash).filter fun part => ¬ part.isEmpty

inductive EntryType
  | file
  | directory
  | unknown
  deriving DecidableEq, Repr

structure DirectoryEntry where
  name : Text
  entryType : EntryType
  sizeBytes : Nat
  deriving DecidableEq, Repr

structure DirectoryLimits where
  maxPathComponents : Nat
  maxPageEntries : Nat
  maxPageNameBytes : Nat
  maxPageCount : Nat
  maxTotalEntries : Nat
  maxEntryNameBytes : Nat
  maxDirectoryExtentBytes : Nat
  maxDirectoriesVisited : Nat
  deriving DecidableEq, Repr

def DirectoryLimits.validate (limits : DirectoryLimits) : Bool :=
  limits.maxPathComponents ≠ 0 ∧ limits.maxPathComponents ≤ 64 ∧
  limits.maxPageEntries ≠ 0 ∧ limits.maxPageEntries ≤ 256 ∧
  limits.maxPageNameBytes ≠ 0 ∧ limits.maxPageNameBytes ≤ 64 * 1024 ∧
  limits.maxPageCount ≠ 0 ∧ limits.maxPageCount ≤ 64 ∧
  limits.maxTotalEntries ≠ 0 ∧ limits.maxTotalEntries ≤ 262144 ∧
  limits.maxEntryNameBytes ≠ 0 ∧ limits.maxEntryNameBytes ≤ 1024 ∧
  limits.maxDirectoryExtentBytes ≠ 0 ∧ limits.maxDirectoryExtentBytes ≤ 4096 * 2048 ∧
  limits.maxDirectoriesVisited ≠ 0 ∧ limits.maxDirectoriesVisited ≤ 4096

structure DirectoryCursor where
  mount : Nat
  directoryExtent : Nat
  directoryLength : Nat
  nextIndex : Nat
  returnedEntries : Nat
  pagesEmitted : Nat
  deriving DecidableEq, Repr

structure DirectoryPage where
  entries : List DirectoryEntry
  cursor : Option DirectoryCursor
  deriving DecidableEq, Repr

end OpenHalfLife.Media
