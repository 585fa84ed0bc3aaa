import OpenHalfLife.Protocol.Session

/-! # The phases of a session

The validator keeps fourteen fields. Only these phases and the letters of the
two peers matter for the ordering rules: a letter either moves the phase or
fails the session, whatever the other fields hold.
-/

namespace OpenHalfLife.Protocol

set_option autoImplicit false

inductive RequestKind
  | enumerate
  | stream
  deriving DecidableEq, Repr

namespace RequestKind

def state : RequestKind → SessionState
  | enumerate => .enumerating
  | stream => .streaming

def resultType : RequestKind → MessageType
  | enumerate => .entryBatch
  | stream => .dataChunk

end RequestKind

inductive ParentFrame
  | hello
  | request (kind : RequestKind) (id : UInt64)
  | readReply (id : UInt64)
  | cancel (id : UInt64)
  | shutdown
  deriving DecidableEq, Repr

inductive WorkerFrame
  | ready
  | readRequest (id : UInt64)
  | result (kind : RequestKind) (id : UInt64)
  | complete (id : UInt64)
  | cancelAck (id : UInt64)
  deriving DecidableEq, Repr

inductive Letter
  | parent (frame : ParentFrame)
  | worker (frame : WorkerFrame)
  deriving DecidableEq, Repr

/-- The letter of a frame in its direction; a message kind that never travels
in that direction has none. -/
def letterOf (direction : Direction) (header : FrameHeader) : Option Letter :=
  match direction, header.messageType with
  | .parentToWorker, .hello => some (.parent .hello)
  | .parentToWorker, .enumerate => some (.parent (.request .enumerate header.requestId))
  | .parentToWorker, .streamEntry => some (.parent (.request .stream header.requestId))
  | .parentToWorker, .readReply => some (.parent (.readReply header.requestId))
  | .parentToWorker, .cancel => some (.parent (.cancel header.requestId))
  | .parentToWorker, .shutdown => some (.parent .shutdown)
  | .workerToParent, .ready => some (.worker .ready)
  | .workerToParent, .readRequest => some (.worker (.readRequest header.requestId))
  | .workerToParent, .entryBatch => some (.worker (.result .enumerate header.requestId))
  | .workerToParent, .dataChunk => some (.worker (.result .stream header.requestId))
  | .workerToParent, .complete => some (.worker (.complete header.requestId))
  | .workerToParent, .cancelAck => some (.worker (.cancelAck header.requestId))
  | _, _ => none

/-- `late` is the request whose stale cancel (`idle`) or crossing read reply
(`cancelled`) is still accepted once. -/
inductive Phase
  | awaitingHello
  | awaitingReady
  | idle (last : UInt64) (late : Option UInt64)
  | active (kind : RequestKind) (id : UInt64) (read : Bool)
  | cancelling (kind : RequestKind) (id : UInt64) (read crossed : Bool)
  | cancelled (late : Option UInt64)
  | closed
  deriving DecidableEq, Repr

namespace Phase

def parent : Phase → ParentFrame → Option Phase
  | awaitingHello, .hello => some awaitingReady
  | idle last _, .request kind id => if last < id then some (active kind id false) else none
  | idle last (some completed), .cancel id => if id = completed then some (idle last none) else none
  | idle _ _, .shutdown => some closed
  | active kind id true, .readReply id' => if id' = id then some (active kind id false) else none
  | active kind id read, .cancel id' =>
    if id' = id then some (cancelling kind id read false) else none
  | cancelling kind id true crossed, .readReply id' =>
    if id' = id then some (cancelling kind id false crossed) else none
  | cancelled (some late), .readReply id => if id = late then some (cancelled none) else none
  | cancelled _, .shutdown => some closed
  | _, _ => none

def worker : Phase → WorkerFrame → Option Phase
  | awaitingReady, .ready => some (idle 0 none)
  | active kind id false, .readRequest id' => if id' = id then some (active kind id true) else none
  | active kind id false, .result kind' id' =>
    if kind' = kind ∧ id' = id then some (active kind id false) else none
  | active _ id false, .complete id' => if id' = id then some (idle id (some id)) else none
  | cancelling kind id false false, .readRequest id' =>
    if id' = id then some (cancelling kind id false true) else none
  | cancelling kind id false false, .result kind' id' =>
    if kind' = kind ∧ id' = id then some (cancelling kind id false false) else none
  | cancelling _ id false false, .complete id' => if id' = id then some (idle id none) else none
  | cancelling _ id read _, .cancelAck id' =>
    if id' = id then some (cancelled (if read then some id else none)) else none
  | _, _ => none

def next (p : Phase) : Letter → Option Phase
  | .parent frame => p.parent frame
  | .worker frame => p.worker frame

end Phase

namespace SessionValidator

def Tracks (v : SessionValidator) : Phase → Prop
  | .awaitingHello =>
    v.state = .awaitingHello ∧ v.lastRequestId = 0 ∧ v.acceptLateCancel = false
  | .awaitingReady =>
    v.state = .awaitingReady ∧ v.lastRequestId = 0 ∧ v.acceptLateCancel = false
  | .idle last none => v.state = .idle ∧ v.lastRequestId = last ∧ v.acceptLateCancel = false
  | .idle last (some completed) =>
    v.state = .idle ∧ v.lastRequestId = last ∧ v.acceptLateCancel = true ∧
      v.completedRequestId = completed
  | .active kind id read =>
    v.state = kind.state ∧ v.activeRequestId = id ∧ v.lastRequestId = id ∧ id ≠ 0 ∧
      v.activeResultType = kind.resultType ∧ v.readInFlight = read
  | .cancelling kind id read crossed =>
    v.state = .cancelling ∧ v.activeRequestId = id ∧ v.lastRequestId = id ∧ id ≠ 0 ∧
      v.activeResultType = kind.resultType ∧ v.readInFlight = read ∧
      v.crossedReadRequestSeen = crossed
  | .cancelled none => v.state = .cancelled ∧ v.lateReadReplyRequestId = 0
  | .cancelled (some late) =>
    v.state = .cancelled ∧ v.lateReadReplyRequestId = late ∧ late ≠ 0
  | .closed => v.state = .closed

/-- The ordering rules touch neither the sticky error nor the budgets. -/
structure SameAccount (v v' : SessionValidator) : Prop where
  error : v'.error = v.error
  sessionId : v'.sessionId = v.sessionId
  budgets : v'.budgets = v.budgets
  messageCount : v'.messageCount = v.messageCount
  payloadBytes : v'.payloadBytes = v.payloadBytes

def Moves (v : SessionValidator) (target : Option Phase) (observed : Observed) : Prop :=
  match target with
  | some p => observed.1 = .ok () ∧ observed.2.Tracks p ∧ v.SameAccount observed.2
  | none => ∃ e, observed = v.fail e

theorem Moves.accept {v v' : SessionValidator} {p : Phase} (hTracks : v'.Tracks p)
    (hAccount : v.SameAccount v') : v.Moves (some p) (.ok (), v') := ⟨rfl, hTracks, hAccount⟩

theorem Moves.fail (v : SessionValidator) (e : ProtocolError) : v.Moves none (v.fail e) := ⟨e, rfl⟩

theorem Moves.ite {v v' : SessionValidator} {p : Phase} {c : Prop} [Decidable c] {e : ProtocolError}
    (hTracks : c → v'.Tracks p) (hAccount : v.SameAccount v') :
    v.Moves (if c then some p else none) (if c then (.ok (), v') else v.fail e) := by
  by_cases hc : c
  · simpa [hc] using Moves.accept (hTracks hc) hAccount
  · simpa [hc] using Moves.fail v e

theorem new_tracks (sessionId : SessionId) (budgets : ProtocolBudgets) :
    (new sessionId budgets).Tracks .awaitingHello := ⟨rfl, rfl, rfl⟩

theorem beginRequest_moves {v : SessionValidator} (kind : RequestKind) (header : FrameHeader)
    (hId : header.requestId ≠ 0) :
    v.Moves (if v.lastRequestId < header.requestId then some (.active kind header.requestId false)
      else none) (v.beginRequest header kind.state) := by
  unfold beginRequest
  by_cases hLast : header.requestId ≤ v.lastRequestId
  · simpa [hLast, UInt64.not_lt.mpr hLast] using Moves.fail v _
  · rw [if_neg hLast, if_pos (UInt64.not_le.mp hLast)]
    refine Moves.accept ⟨rfl, rfl, rfl, hId, ?_, rfl⟩ ⟨rfl, rfl, rfl, rfl, rfl⟩
    cases kind <;> rfl

section

-- what a rule does is what its equations say
attribute [local simp] letterOf Phase.next Phase.parent Phase.worker

theorem observeIdle_moves {v : SessionValidator} {last : UInt64} {late : Option UInt64}
    (h : v.Tracks (.idle last late)) (direction : Direction) (header : FrameHeader)
    (hHeader : header.Valid) :
    v.Moves ((letterOf direction header).bind (Phase.idle last late).next)
      (v.observeIdle direction header) := by
  have hZero := hHeader.requestId_eq_zero_iff
  have hLast : v.lastRequestId = last := by cases late <;> exact h.2.1
  cases direction with
  | workerToParent =>
    cases hType : header.messageType <;>
      simp [hType, observeIdle, Moves.fail]
  | parentToWorker =>
    cases hType : header.messageType
    case enumerate =>
      have hId : header.requestId ≠ 0 := by simpa [hType, MessageType.requiresZeroRequestId] using hZero
      simp only [letterOf, hType, observeIdle, Option.bind_some, Phase.next, Phase.parent, ← hLast,
        ne_eq, not_true_eq_false, if_false]
      exact beginRequest_moves .enumerate header hId
    case streamEntry =>
      have hId : header.requestId ≠ 0 := by simpa [hType, MessageType.requiresZeroRequestId] using hZero
      simp only [letterOf, hType, observeIdle, Option.bind_some, Phase.next, Phase.parent, ← hLast,
        ne_eq, not_true_eq_false, if_false]
      exact beginRequest_moves .stream header hId
    case shutdown =>
      simp only [letterOf, hType, observeIdle, Option.bind_some, Phase.next, Phase.parent, ne_eq,
        not_true_eq_false, if_false]
      exact Moves.accept rfl ⟨rfl, rfl, rfl, rfl, rfl⟩
    case cancel =>
      cases late with
      | none => simp [hType, observeIdle, h.2.2, Moves.fail]
      | some completed =>
        obtain ⟨hState, -, hAccept, hCompleted⟩ := h
        simp only [letterOf, hType, observeIdle, Option.bind_some, Phase.next, Phase.parent, hAccept,
          hCompleted, ne_eq, not_true_eq_false, if_false, if_true, ite_not]
        exact Moves.ite (fun _ => ⟨hState, hLast, rfl⟩) ⟨rfl, rfl, rfl, rfl, rfl⟩
    all_goals
      cases late <;> simp [hType, observeIdle, Moves.fail]

theorem next_eq_none_of_ne {p : Phase} {kind : RequestKind} {id : UInt64} {read : Bool}
    (crossed : Bool) (hp : p = .active kind id read ∨ p = .cancelling kind id read crossed)
    (direction : Direction) (header : FrameHeader) (hNe : header.requestId ≠ id) :
    (letterOf direction header).bind p.next = none := by
  rcases hp with rfl | rfl <;> cases direction <;> cases hType : header.messageType <;>
    cases read <;> simp [hType, hNe] <;>
    cases crossed <;> simp [hNe]

theorem observeActive_moves {v : SessionValidator} {kind : RequestKind} {id : UInt64} {read : Bool}
    (h : v.Tracks (.active kind id read)) (direction : Direction) (header : FrameHeader)
    (hHeader : header.Valid) :
    v.Moves ((letterOf direction header).bind (Phase.active kind id read).next)
      (v.observeActive direction header kind.resultType) := by
  obtain ⟨hState, hActive, hLast, hId, hResult, hRead⟩ := h
  by_cases hSame : header.requestId = id
  · have hZero := hHeader.requestId_eq_zero_iff
    rw [hSame] at hZero
    have hKind : header.messageType.requiresZeroRequestId = false := by
      simpa [hId] using hZero
    -- What the rules accept is left after `simp`: a read, its reply, a result, completion, cancel.
    cases direction <;> cases hType : header.messageType <;> rw [hType] at hKind <;>
      cases read <;> cases kind <;>
      simp [hType, observeActive, hRead, hActive, hSame, hId, RequestKind.resultType, Moves.fail] <;>
      exact Moves.accept (by simp_all [Tracks, completeRequest]) ⟨rfl, rfl, rfl, rfl, rfl⟩
  · rw [next_eq_none_of_ne false (.inl rfl) direction header hSame]
    unfold observeActive
    split
    · exact Moves.fail v _
    split
    · exact Moves.fail v _
    rw [hActive, if_pos hSame]
    exact Moves.fail v _

theorem observeCancelling_moves {v : SessionValidator} {kind : RequestKind} {id : UInt64}
    {read crossed : Bool} (h : v.Tracks (.cancelling kind id read crossed)) (direction : Direction)
    (header : FrameHeader) (hHeader : header.Valid) :
    v.Moves ((letterOf direction header).bind (Phase.cancelling kind id read crossed).next)
      (v.observeCancelling direction header) := by
  obtain ⟨hState, hActive, hLast, hId, hResult, hRead, hCrossed⟩ := h
  by_cases hSame : header.requestId = id
  · have hZero := hHeader.requestId_eq_zero_iff
    rw [hSame] at hZero
    have hKind : header.messageType.requiresZeroRequestId = false := by
      simpa [hId] using hZero
    cases direction <;> cases hType : header.messageType <;> rw [hType] at hKind <;>
      cases read <;> cases crossed <;> cases kind <;>
      simp [hType, observeCancelling, hRead, hActive, hSame, hCrossed, hResult, RequestKind.resultType, Moves.fail] <;>
      exact Moves.accept (by simp_all [Tracks, completeRequest, RequestKind.resultType]) ⟨rfl, rfl, rfl, rfl, rfl⟩
  · rw [next_eq_none_of_ne crossed (.inr rfl) direction header hSame]
    unfold observeCancelling
    rw [hActive, if_pos hSame]
    exact Moves.fail v _

theorem observeCancelled_moves {v : SessionValidator} {late : Option UInt64}
    (h : v.Tracks (.cancelled late)) (direction : Direction) (header : FrameHeader) :
    v.Moves ((letterOf direction header).bind (Phase.cancelled late).next)
      (v.observeCancelled direction header) := by
  cases late with
  | none =>
    obtain ⟨hState, hLate⟩ := h
    cases direction <;> cases hType : header.messageType <;>
      simp [hType, observeCancelled, hLate, Moves.fail]
    exact Moves.accept rfl ⟨rfl, rfl, rfl, rfl, rfl⟩
  | some id =>
    obtain ⟨hState, hLate, hId⟩ := h
    cases direction <;> cases hType : header.messageType <;>
      simp [hType, observeCancelled, hLate, hId, Moves.fail]
    · exact Moves.ite (fun _ => ⟨hState, rfl⟩) ⟨rfl, rfl, rfl, rfl, rfl⟩
    · exact Moves.accept rfl ⟨rfl, rfl, rfl, rfl, rfl⟩

theorem observeCharged_moves {v : SessionValidator} {p : Phase} (h : v.Tracks p)
    (direction : Direction) (header : FrameHeader) (hHeader : header.Valid) :
    v.Moves ((letterOf direction header).bind p.next) (v.observeCharged direction header) := by
  cases p with
  | awaitingHello =>
    obtain ⟨hState, hLast, hLate⟩ := h
    cases direction <;> cases hType : header.messageType <;>
      simp [hType, observeCharged, hState, Moves.fail]
    exact Moves.accept ⟨rfl, hLast, hLate⟩ ⟨rfl, rfl, rfl, rfl, rfl⟩
  | awaitingReady =>
    obtain ⟨hState, hLast, hLate⟩ := h
    cases direction <;> cases hType : header.messageType <;>
      simp [hType, observeCharged, hState, Moves.fail]
    exact Moves.accept ⟨rfl, hLast, hLate⟩ ⟨rfl, rfl, rfl, rfl, rfl⟩
  | idle last late =>
    have hState : v.state = .idle := by cases late <;> exact h.1
    simpa [observeCharged, hState] using observeIdle_moves h direction header hHeader
  | active kind id read =>
    have hActive := observeActive_moves h direction header hHeader
    cases kind <;> simpa [observeCharged, h.1, RequestKind.state, RequestKind.resultType] using hActive
  | cancelling kind id read crossed =>
    simpa [observeCharged, h.1] using observeCancelling_moves h direction header hHeader
  | cancelled late =>
    have hState : v.state = .cancelled := by cases late <;> exact h.1
    simpa [observeCharged, hState] using observeCancelled_moves h direction header
  | closed =>
    have hState : v.state = .closed := h
    have hNone : (letterOf direction header).bind Phase.closed.next = none := by
      cases letterOf direction header with
      | none => rfl
      | some letter => cases letter <;> rfl
    rw [hNone]
    simpa [observeCharged, hState] using Moves.fail v .terminalState

end

def Fits (v : SessionValidator) (header : FrameHeader) : Prop :=
  v.messageCount < v.budgets.maximumMessages ∧
    v.payloadBytes + header.payloadLength.toNat ≤ v.budgets.maximumPayloadBytes

structure Charged (v : SessionValidator) (header : FrameHeader) (v' : SessionValidator) : Prop where
  error : v'.error = v.error
  sessionId : v'.sessionId = v.sessionId
  budgets : v'.budgets = v.budgets
  messageCount : v'.messageCount = v.messageCount + 1
  payloadBytes : v'.payloadBytes = v.payloadBytes + header.payloadLength.toNat

theorem Tracks.congr {v v' : SessionValidator} {p : Phase} (h : v.Tracks p)
    (hFields : (v'.state, v'.activeRequestId, v'.lastRequestId, v'.completedRequestId,
        v'.lateReadReplyRequestId, v'.activeResultType, v'.readInFlight, v'.acceptLateCancel,
        v'.crossedReadRequestSeen) =
      (v.state, v.activeRequestId, v.lastRequestId, v.completedRequestId,
        v.lateReadReplyRequestId, v.activeResultType, v.readInFlight, v.acceptLateCancel,
        v.crossedReadRequestSeen)) : v'.Tracks p := by
  simp only [Prod.mk.injEq] at hFields
  obtain ⟨h₁, h₂, h₃, h₄, h₅, h₆, h₇, h₈, h₉⟩ := hFields
  cases p with
  | idle last late => cases late <;> simpa [Tracks, h₁, h₃, h₄, h₈] using h
  | cancelled late => cases late <;> simpa [Tracks, h₁, h₅] using h
  | _ => simpa [Tracks, h₁, h₂, h₃, h₄, h₅, h₆, h₇, h₈, h₉] using h

theorem charge_of_fits {v : SessionValidator} {header : FrameHeader} (h : v.Fits header) :
    ∃ v', v.charge header = (.ok (), v') ∧ v.Charged header v' ∧
      ∀ p, v.Tracks p → v'.Tracks p := by
  obtain ⟨hCount, hBytes⟩ := h
  unfold charge
  rw [dif_neg (by omega), dif_neg (by simp only; omega)]
  exact ⟨_, rfl, ⟨rfl, rfl, rfl, rfl, rfl⟩, fun p hp => hp.congr rfl⟩

theorem charge_of_not_fits {v : SessionValidator} {header : FrameHeader} (h : ¬ v.Fits header) :
    ∃ e v', v.charge header = (.error e, v') ∧ v'.error = some e ∧
      (e = .messageBudgetExceeded ∨ e = .byteBudgetExceeded) := by
  unfold charge
  split
  · exact ⟨_, _, rfl, rfl, .inl rfl⟩
  · rename_i hCount
    simp only
    split
    · exact ⟨_, _, rfl, rfl, .inr rfl⟩
    · rename_i hBytes
      have := v.payloadBytes_le
      exact absurd ⟨by omega, by omega⟩ h

theorem Tracks.closed_iff {v : SessionValidator} {p : Phase} (h : v.Tracks p) :
    v.state = .closed ↔ p = .closed := by
  cases p with
  | idle last late => cases late <;> simp [h.1]
  | cancelled late => cases late <;> simp [h.1]
  | active kind id read => cases kind <;> simp [h.1, RequestKind.state]
  | closed => exact ⟨fun _ => rfl, fun _ => h⟩
  | _ => simp [h.1]

theorem observe_of_error {v : SessionValidator} {e : ProtocolError} (hError : v.error = some e)
    (direction : Direction) (header : FrameHeader) :
    v.observe direction header = (.error e, v) := by
  simp [observe, hError]

section Observe

variable {v : SessionValidator} {p : Phase} {direction : Direction} {header : FrameHeader}

theorem observe_ok (hTracks : v.Tracks p) {v' : SessionValidator}
    (h : v.observe direction header = (.ok (), v')) :
    v.error = none ∧ header.Valid ∧ header.sessionId = v.sessionId.value ∧ v.Fits header ∧
      v.Charged header v' ∧
      ∃ p', (letterOf direction header).bind p.next = some p' ∧ v'.Tracks p' := by
  unfold observe at h
  cases hError : v.error with
  | some e => simp [hError] at h
  | none =>
    simp only [hError] at h
    by_cases hClosed : v.state = .closed
    · simp [hClosed, fail] at h
    rw [if_neg hClosed] at h
    cases hValid : header.validate with
    | error e => simp [hValid, fail] at h
    | ok _ =>
      simp only [hValid] at h
      by_cases hSession : header.sessionId = v.sessionId.value
      · rw [if_neg (not_not.mpr hSession)] at h
        by_cases hFits : v.Fits header
        · obtain ⟨v₁, hCharge, hCharged, hMono⟩ := charge_of_fits hFits
          simp only [hCharge] at h
          have hMoves := observeCharged_moves (hMono p hTracks) direction header hValid
          rw [h] at hMoves
          cases hNext : (letterOf direction header).bind p.next with
          | none =>
            rw [hNext] at hMoves
            obtain ⟨e, he⟩ := hMoves
            cases he
          | some p' =>
            rw [hNext] at hMoves
            obtain ⟨-, hTracks', hAccount⟩ := hMoves
            refine ⟨rfl, hValid, hSession, hFits, ?_, p', rfl, hTracks'⟩
            exact ⟨hAccount.error.trans hCharged.error, hAccount.sessionId.trans hCharged.sessionId,
              hAccount.budgets.trans hCharged.budgets,
              hAccount.messageCount.trans hCharged.messageCount,
              hAccount.payloadBytes.trans hCharged.payloadBytes⟩
        · obtain ⟨e, v₁, hCharge, -⟩ := charge_of_not_fits hFits
          simp [hCharge] at h
      · simp [hSession, fail] at h

variable (hError : v.error = none) (hTracks : v.Tracks p) (hHeader : header.Valid)
  (hSession : header.sessionId = v.sessionId.value)

include hError hTracks hHeader hSession

theorem observe_of_next {p' : Phase} (hNext : (letterOf direction header).bind p.next = some p') :
    (v.Fits header ∧ ∃ v', v.observe direction header = (.ok (), v')) ∨
    (¬ v.Fits header ∧ ∃ e v', v.observe direction header = (.error e, v') ∧ v'.error = some e ∧
      (e = .messageBudgetExceeded ∨ e = .byteBudgetExceeded)) := by
  have hOpen : v.state ≠ .closed := by
    intro hClosed
    rw [hTracks.closed_iff.mp hClosed] at hNext
    obtain ⟨letter, -, hLetter⟩ := Option.bind_eq_some_iff.mp hNext
    cases letter <;> cases hLetter
  have hValid : header.validate = .ok () := hHeader
  by_cases hFits : v.Fits header
  · obtain ⟨v₁, hCharge, hCharged, hMono⟩ := charge_of_fits hFits
    have hMoves := observeCharged_moves (hMono p hTracks) direction header hHeader
    rw [hNext] at hMoves
    refine .inl ⟨hFits, (v₁.observeCharged direction header).2, ?_⟩
    simp only [observe, hError, hOpen, if_false, hValid, hSession, ne_eq, not_true_eq_false, hCharge]
    rw [← hMoves.1]
  · obtain ⟨e, v₁, hCharge, hSticky, hBudget⟩ := charge_of_not_fits hFits
    refine .inr ⟨hFits, e, v₁, ?_, hSticky, hBudget⟩
    simp only [observe, hError, hOpen, if_false, hValid, hSession, ne_eq, not_true_eq_false, hCharge]

end Observe

end SessionValidator

end OpenHalfLife.Protocol
