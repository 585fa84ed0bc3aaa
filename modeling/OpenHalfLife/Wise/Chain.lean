import OpenHalfLife.Wise.Stream

/-! # The chain of streams, read blockingly

One stream follows another; where one does not verify, a few later offsets are
tried before its own result is taken as it is.
-/

namespace OpenHalfLife.Wise

open Machine

set_option autoImplicit false

variable {σ S α : Type}

def streamTurns : Nat := 2 ^ 65

def inflateStreamTurn [ImageSource S] (inflater : Transducer σ) (limits : Limits) :
    Machine (Stop WiseError) (StreamReader σ × S) (Option Unit) := do
  let written ← StreamReader.read inflater limits.chunkBytes
  let (reader, _) ← get
  if reader.finished = true then
    return some ()
  else if written = [] then
    return some ()
  else
    return none

def withReader (reader : StreamReader σ) (m : Machine (Stop WiseError) (StreamReader σ × S) α) :
    Machine (Stop WiseError) S α :=
  .ofFun fun source => ((m.exec (reader, source)).1, (m.exec (reader, source)).2.2)

def inflateStream [ImageSource S] (inflater : Transducer σ) (offset : Nat) (limits : Limits) :
    Machine (Stop WiseError) S StreamMetrics :=
  withReader (.new inflater offset limits) do
    loop (inflateStreamTurn inflater limits) streamTurns
    StreamReader.finish

structure StreamRecord where
  index : Nat
  metrics : StreamMetrics
  resyncSkip : Nat
  deriving DecidableEq, Repr

inductive ChainEvent
  | stream (record : StreamRecord)
  | resynced (index skipped : Nat)
  deriving DecidableEq, Repr

structure Chain where
  limits : Limits
  cursor : Nat
  stop : Nat
  index : Nat
  totalInflated : Nat
  resyncs : Nat
  finished : Bool
  pending : Option StreamRecord

def minStreamBytes : Nat := 3

def WiseError.isFinal : WiseError → Bool
  | .cancelled => true
  | .limitExceeded _ => true
  | _ => false

def Stop.isFinal : Stop WiseError → Bool
  | .error e => e.isFinal
  | _ => true

/-- `checked_add_bounded` on a 32-bit counter. -/
def checkedIncrement {τ : Type} (value : Nat) : Machine (Stop WiseError) τ Nat :=
  if value + 1 ≥ 2 ^ 32 then throw (.error .malformedExecutable) else pure (value + 1)

namespace Chain

def new (firstStreamOffset stop : Nat) (limits : Limits) : Chain where
  limits
  cursor := firstStreamOffset
  stop
  index := 0
  totalInflated := 0
  resyncs := 0
  finished := false
  pending := none

def onChain (m : Machine (Stop WiseError) Chain α) : Machine (Stop WiseError) (Chain × S) α :=
  .zoom Prod.fst (fun chain s => (chain, s.2)) id m

def attempt [ImageSource S] (inflater : Transducer σ) (offset : Nat) :
    Machine (Stop WiseError) (Chain × S) (Except (Stop WiseError) StreamMetrics) := do
  let (chain, _) ← get
  Machine.attempt (.zoom Prod.snd (fun source s => (s.1, source)) id
    (inflateStream inflater offset chain.limits))

/-- A resynchronised record waits for the event after its `resynced`. -/
def announce (record : StreamRecord) : Machine (Stop WiseError) Chain ChainEvent := do
  if record.resyncSkip > 0 then
    let resyncs ← checkedIncrement (← get).resyncs
    modify fun chain => { chain with resyncs, pending := some record }
    return .resynced record.index record.resyncSkip
  else
    return .stream record

def accept (metrics : StreamMetrics) (skip : Nat) : Machine (Stop WiseError) Chain ChainEvent := do
  let chain ← get
  let total ← checkedAddBounded chain.totalInflated metrics.inflatedLen
  modify fun chain => { chain with totalInflated := total }
  rejectIf (total > chain.limits.maxTotalInflatedBytes.toNat)
    (.error (.limitExceeded .totalInflatedBytes))
  let index ← checkedIncrement chain.index
  modify fun chain => { chain with index }
  let cursor ← metrics.nextOffset
  modify fun chain => { chain with cursor }
  announce ⟨chain.index, metrics, skip⟩

def conclude (first : Except (Stop WiseError) StreamMetrics) :
    Machine (Stop WiseError) (Chain × S) ChainEvent :=
  match first with
  | .ok metrics => onChain (accept metrics 0)
  | .error e => throw e

def resync [ImageSource S] (inflater : Transducer σ) (first : Except (Stop WiseError) StreamMetrics) :
    List Nat → Machine (Stop WiseError) (Chain × S) ChainEvent
  | [] => conclude first
  | skip :: skips => do
    let (chain, _) ← get
    let offset ← checkedAddBounded chain.cursor skip
    if offset ≥ chain.stop then
      conclude first
    else
      match ← attempt inflater offset with
      | .ok metrics =>
        if metrics.checksum = .match_ then onChain (accept metrics skip)
        else resync inflater first skips
      | .error e => if Stop.isFinal e then throw e else resync inflater first skips

def skips (limits : Limits) : List Nat := List.range' 1 limits.maxResyncSkip.toNat

def nextStream [ImageSource S] (inflater : Transducer σ) :
    Machine (Stop WiseError) (Chain × S) ChainEvent := do
  let (chain, _) ← get
  match ← attempt inflater chain.cursor with
  | .ok metrics =>
    if metrics.checksum = .match_ then onChain (accept metrics 0)
    else resync inflater (.ok metrics) (skips chain.limits)
  | .error e =>
    if Stop.isFinal e then throw e else resync inflater (.error e) (skips chain.limits)

def step [ImageSource S] (inflater : Transducer σ) :
    Machine (Stop WiseError) (Chain × S) (Option ChainEvent) := do
  let (chain, _) ← get
  if chain.cursor ≥ chain.stop ∨ chain.stop - chain.cursor < minStreamBytes then
    return none
  else
    rejectIf (chain.index ≥ chain.limits.maxStreams.toNat) (.error (.limitExceeded .streams))
    return some (← nextStream inflater)

def conclusion : Except (Stop WiseError) (Option ChainEvent) →
    Machine (Stop WiseError) (Chain × S) (Option ChainEvent)
  | .ok (some event) => return some event
  | .ok none => do
    onChain (modify fun chain => { chain with finished := true })
    return none
  | .error e => do
    onChain (modify fun chain => { chain with finished := true })
    throw e

def nextEvent [ImageSource S] (inflater : Transducer σ) :
    Machine (Stop WiseError) (Chain × S) (Option ChainEvent) := do
  let (chain, _) ← get
  match chain.pending with
  | some record =>
    onChain (modify fun chain => { chain with pending := none })
    return some (.stream record)
  | none =>
    if chain.finished = true then
      return none
    else
      conclusion (← Machine.attempt (step inflater))

def collectTurn [ImageSource S] (inflater : Transducer σ) :
    Machine (Stop WiseError) (List StreamRecord × Chain × S) (Option Unit) := do
  match ← .zoom Prod.snd (fun chain s => (s.1, chain)) id (nextEvent inflater) with
  | none => return some ()
  | some (.stream record) =>
    modify fun s => (s.1 ++ [record], s.2)
    return none
  | some (.resynced _ _) => return none

end Chain

end OpenHalfLife.Wise
