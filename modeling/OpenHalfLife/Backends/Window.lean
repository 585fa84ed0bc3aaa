import OpenHalfLife.Wise.Stream

/-! # The read window over the pinned source

A read that the window cannot serve arms a pending read and fails with
`sourceFailed`; the caller runs the same call again once it is answered.
-/

namespace OpenHalfLife.Backends

open Machine Wise

set_option autoImplicit false

def defaultWindowBytes : Nat := 256 * 1024

def minimumWindowBytes : Nat := 8 * 1024

structure PendingRead where
  offset : Nat
  length : Nat
  deriving DecidableEq, Repr

/-- `buffered` is the filled part of the buffer of `capacity` bytes. -/
structure WindowSource where
  capacity : Nat
  buffered : List UInt8
  base : Nat
  sourceSize : Nat
  pending : Option PendingRead
  pinned : Bool
  deriving DecidableEq, Repr

namespace WindowSource

def new (sourceSize capacity : Nat) : WindowSource where
  capacity := max capacity minimumWindowBytes
  buffered := []
  base := 0
  sourceSize
  pending := none
  pinned := false

def pin (window : WindowSource) : WindowSource := { window with pinned := true }

def unpin (window : WindowSource) : WindowSource := { window with pinned := false }

/-- `u32::try_from`, saturating. -/
def clampU32 (value : Nat) : Nat := min value (2 ^ 32 - 1)

def arm (window : WindowSource) (offset : Nat) : WindowSource :=
  { window with
    pending := some ⟨offset, clampU32 (min window.capacity (window.sourceSize - offset))⟩ }

def miss (offset : Nat) : Machine (Stop WiseError) WindowSource Unit := do
  assertOrPanic ((← get).pinned = false)
  modify fun window => window.arm offset

def ensureAt (offset : Nat) : Machine (Stop WiseError) WindowSource Bool := do
  let window ← get
  if window.buffered.length > 0 ∧ window.base = offset then
    return true
  else if offset ≥ window.sourceSize then
    return true
  else
    miss offset
    return false

def takePending (window : WindowSource) : Option PendingRead × WindowSource :=
  (window.pending, { window with pending := none })

def deliver (offset : Nat) (data : List UInt8) (window : WindowSource) : Bool × WindowSource :=
  if data = [] ∨ data.length > window.capacity then
    (false, window)
  else
    (true, { window with buffered := data, base := offset })

/-- The buffered bytes from `offset` on. -/
def held (window : WindowSource) (offset : Nat) : List UInt8 :=
  if window.base ≤ offset then window.buffered.drop (offset - window.base) else []

/-- `out[..taken]` from the buffer; the slice starts inside it even when it is empty. -/
def copyOut (offset taken : Nat) : Machine (Stop WiseError) WindowSource (List UInt8) := do
  let window ← get
  assertOrPanic (offset - window.base + taken ≤ window.capacity)
  return (window.held offset).take taken

def read (offset room : Nat) : Machine (Stop WiseError) WindowSource (List UInt8) := do
  let window ← get
  let available := window.sourceSize - offset
  if room = 0 ∨ available = 0 then
    return []
  else
    let wanted := min room available
    let taken := min (window.held offset).length wanted
    if (taken = 0 ∨ (taken < wanted ∧ window.capacity ≥ wanted)) ∧ window.pinned = false then
      miss offset
      throw (.error .sourceFailed)
    else
      copyOut offset taken

end WindowSource

instance : ImageSource WindowSource where
  readAt := WindowSource.read

end OpenHalfLife.Backends

namespace OpenHalfLife.Backends

set_option autoImplicit false

/-! ## Containers that are read into memory whole -/

def maximumBufferedBytes : Nat := 32 * 1024 * 1024

structure BufferedEntry where
  token : UInt64
  sizeBytes : UInt64
  name : List UInt8
  deriving DecidableEq, Repr

inductive BufferError
  | empty
  | tooLarge
  deriving DecidableEq, Repr

structure ContainerBuffer where
  bytes : List UInt8
  size : Nat
  deriving DecidableEq, Repr

namespace ContainerBuffer

def new (size : Nat) : Except BufferError ContainerBuffer :=
  if size = 0 then .error .empty
  else if size > maximumBufferedBytes then .error .tooLarge
  else .ok ⟨[], size⟩

def isComplete (buffer : ContainerBuffer) : Bool := buffer.bytes.length ≥ buffer.size

def nextRead (buffer : ContainerBuffer) (maximumRead : Nat) : PendingRead where
  offset := buffer.bytes.length
  length := WindowSource.clampU32 (min (buffer.size - buffer.bytes.length) (max maximumRead 1))

/-- `false` when the data would overrun the container. -/
def append (data : List UInt8) (buffer : ContainerBuffer) : Bool × ContainerBuffer :=
  if data = [] ∨ buffer.bytes.length + data.length > buffer.size then (false, buffer)
  else (true, { buffer with bytes := buffer.bytes ++ data })

end ContainerBuffer

end OpenHalfLife.Backends
