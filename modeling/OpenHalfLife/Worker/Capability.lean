import OpenHalfLife.Protocol.Messages

/-! # What the worker service borrows

A transport and a dispatcher are arbitrary state machines behind these two
interfaces. `Recorded` puts a log in front of either one.
-/

namespace OpenHalfLife.Worker

open Protocol

set_option autoImplicit false

inductive IoStatus
  | ok
  | peerClosed
  | failed
  deriving DecidableEq, Repr

inductive InputStatus
  | unavailable
  | available
  | peerClosed
  | failed
  deriving DecidableEq, Repr

/-- `readExact` returns the destination span as the transport left it. -/
class Transport (τ : Type) where
  readExact : (size : Nat) → τ → (IoStatus × Vector UInt8 size) × τ
  writeAll : List UInt8 → τ → IoStatus × τ
  probeInput : τ → InputStatus × τ
  abortIo : τ → τ
  closeIo : τ → τ

inductive Operation
  | enumerate
  | stream
  deriving DecidableEq, Repr

inductive DispatchError
  | unsupported
  | failed
  deriving DecidableEq, Repr

inductive DispatchAction
  | needRead (offset : UInt64) (length : UInt32)
  | entryBatch (entries : List EntryBatchEntry)
  | dataChunk (data : List UInt8)
  | complete
  deriving DecidableEq, Repr

class Dispatcher (δ : Type) where
  begin : Operation → UInt64 → SourceReadPolicy → δ → Except DispatchError UInt64 × δ
  step : δ → Except DispatchError DispatchAction × δ
  acceptReadReply : ReadReply → δ → Except DispatchError Unit × δ
  cancel : δ → δ
  end_ : δ → δ

structure Recorded (κ α : Type) where
  inner : α
  calls : List κ

namespace Recorded

variable {κ α ρ : Type}

def start (inner : α) : Recorded κ α := ⟨inner, []⟩

def call (log : ρ → κ) (f : α → ρ × α) (c : Recorded κ α) : ρ × Recorded κ α :=
  ((f c.inner).1, ⟨(f c.inner).2, c.calls ++ [log (f c.inner).1]⟩)

def notify (entry : κ) (f : α → α) (c : Recorded κ α) : Recorded κ α :=
  ⟨f c.inner, c.calls ++ [entry]⟩

end Recorded

inductive TransportCall
  | read
  | write
  | probe
  | abortIo
  | closeIo
  deriving DecidableEq, Repr

instance {τ : Type} [Transport τ] : Transport (Recorded TransportCall τ) where
  readExact size := Recorded.call (fun _ => .read) (Transport.readExact size)
  writeAll bytes := Recorded.call (fun _ => .write) (Transport.writeAll bytes)
  probeInput := Recorded.call (fun _ => .probe) Transport.probeInput
  abortIo := Recorded.notify .abortIo Transport.abortIo
  closeIo := Recorded.notify .closeIo Transport.closeIo

/-- A dispatcher call; `begin` with whether it returned `Ok`. -/
inductive DispatchCall
  | begin (ok : Bool)
  | step
  | acceptReadReply
  | cancel
  | end_
  deriving DecidableEq, Repr

instance {δ : Type} [Dispatcher δ] : Dispatcher (Recorded DispatchCall δ) where
  begin operation token policy :=
    Recorded.call (fun r => .begin r.isOk) (Dispatcher.begin operation token policy)
  step := Recorded.call (fun _ => .step) Dispatcher.step
  acceptReadReply reply := Recorded.call (fun _ => .acceptReadReply) (Dispatcher.acceptReadReply reply)
  cancel := Recorded.notify .cancel Dispatcher.cancel
  end_ := Recorded.notify .end_ Dispatcher.end_

end OpenHalfLife.Worker
