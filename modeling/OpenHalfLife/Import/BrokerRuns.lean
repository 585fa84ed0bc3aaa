import OpenHalfLife.Import.Authority
import OpenHalfLife.Import.Broker

/-! # Runs of the source-read broker

One lemma says everything a call can do to a sound brokerage. Calls of the
broker are interleaved with operations of its session in any order, and a
reply handed to a call may be any reply at all.
-/

namespace OpenHalfLife.Import

open Protocol Machine

set_option autoImplicit false

def SourceCall.isRead : SourceCall → Bool
  | .readExactAt .. => true
  | .verifyUnchanged => false

namespace Brokerage

def reads (calls : List SourceCall) : List SourceCall := calls.filter SourceCall.isRead

def Retired (w : Brokerage) : Prop := w.broker.isTerminal = true ∧ w.session.isTerminal = true

structure Sound (w : Brokerage) : Prop where
  requests_le : w.broker.requestsCharged ≤ w.broker.limits.requests
  bytes_le : w.broker.replyPayloadBytesCharged ≤ w.broker.limits.replyPayloadBytes
  ticket_lt : w.broker.ticketCounter < 2 ^ 64
  pending_ticket : ∀ pending, w.broker.pending = some pending → pending.ticket = w.broker.ticketCounter
  reads_le : (reads w.calls).length ≤ w.broker.requestsCharged
  failed : ∀ error, w.broker.failure = some error →
    error.isTerminal = true ∧ w.broker.pending = none ∧ w.session.isTerminal = true

structure Uncharged (w w' : Brokerage) : Prop where
  limits : w'.broker.limits = w.broker.limits
  requests : w'.broker.requestsCharged = w.broker.requestsCharged
  bytes : w'.broker.replyPayloadBytesCharged = w.broker.replyPayloadBytesCharged
  calls : w'.calls = w.calls

/-- One observed request was charged to both quotas and then read at most once. -/
structure Serviced (w : Brokerage) (request : FrameView) (w' : Brokerage) : Prop where
  limits : w'.broker.limits = w.broker.limits
  live : w.session.protocol.state ≠ .cancelling
  serviced : ∃ decoded t made,
    decodeReadRequestPayload request w.broker.policy (w.broker.expectedSequence request) = .ok decoded ∧
    w.session.Observed .workerToParent request t ∧
    w.broker.requestsCharged < w.broker.limits.requests ∧
    w.broker.replyPayloadBytesCharged + SourceReadBroker.replySize decoded ≤ w.broker.limits.replyPayloadBytes ∧
    w'.broker.requestsCharged = w.broker.requestsCharged + 1 ∧
    w'.broker.replyPayloadBytesCharged =
      w.broker.replyPayloadBytesCharged + SourceReadBroker.replySize decoded ∧
    w'.calls = w.calls ++ made ∧
    (reads made = [] ∨ reads made = [.readExactAt decoded.offset decoded.length
      w'.broker.requestsCharged w'.broker.replyPayloadBytesCharged])

/-- A terminal error that charged nothing or failed after a charged service. -/
def Refused (w : Brokerage) (request : Option FrameView) (stop : Stop SourceReadError) (w' : Brokerage) : Prop :=
  ∃ error, stop = .error error ∧ error.isTerminal = true ∧ w'.broker.failure = some error ∧
    w'.broker.pending = none ∧ w'.session.isTerminal = true ∧ w'.broker.ticketCounter = w.broker.ticketCounter ∧
    (w.Uncharged w' ∨ ∃ frame, request = some frame ∧ w.Serviced frame w')

theorem Uncharged.refl (w : Brokerage) : w.Uncharged w := ⟨rfl, rfl, rfl, rfl⟩

end Brokerage

namespace SourceReadBroker

open Brokerage

variable {w : Brokerage} {α : Type}

theorem retireWith_of_none (hFailure : w.broker.failure = none) (error : SourceReadError) :
    retireWith error w = { w with
      broker := { w.broker with failure := some error, pending := none }
      session := if w.session.isTerminal then w.session else w.session.workerFailed } := by
  simp only [retireWith, hFailure]

theorem isTerminal_workerFailed (s : ResultSession) :
    (if s.isTerminal then s else s.workerFailed).isTerminal = true := by
  by_cases hTerminal : s.isTerminal = true
  · rw [if_pos hTerminal]
    exact hTerminal
  · rw [if_neg hTerminal]
    have hNone : s.failure = none := by simpa [ResultSession.isTerminal] using hTerminal
    simp [ResultSession.workerFailed, ResultSession.retire, hNone, ResultSession.isTerminal]

/-- Every failing exit: `v` is the state the call started from. -/
theorem fail_ensures {v : Brokerage} {request : Option FrameView} {Q : α → Brokerage → Prop}
    {error : SourceReadError} (hFailure : w.broker.failure = none) (hTerminal : error.isTerminal = true)
    (hTicket : w.broker.ticketCounter = v.broker.ticketCounter)
    (hEffect : v.Uncharged w ∨ ∃ frame, request = some frame ∧ v.Serviced frame w) :
    Ensures (fail error) w Q (v.Refused request) := by
  rw [fail, ensures_ofFun, retireWith_of_none hFailure]
  constructor
  · intro a t hOk
    cases hOk
  · intro stop t hError
    cases hError
    refine ⟨error, rfl, hTerminal, rfl, rfl, isTerminal_workerFailed w.session, hTicket, ?_⟩
    rcases hEffect with ⟨hLimits, hRequests, hBytes, hCalls⟩ | ⟨frame, hFrame, hLimits, hLive, hServiced⟩
    · exact .inl ⟨hLimits, hRequests, hBytes, hCalls⟩
    · exact .inr ⟨frame, hFrame, hLimits, hLive, hServiced⟩

theorem onSession_ensures {m : ResultSession.Method α} {Q : α → ResultSession → Prop}
    {E : ResultSessionError → ResultSession → Prop}
    {R : Except ResultSessionError α → Brokerage → Prop} {F : Stop SourceReadError → Brokerage → Prop}
    (hm : Ensures m w.session Q fun stop s => ∃ error, stop = .error error ∧ E error s)
    (hOk : ∀ a s, Q a s → R (.ok a) { w with session := s })
    (hError : ∀ error s, E error s → R (.error error) { w with session := s }) :
    Ensures (onSession m) w R F := by
  unfold Ensures at hm
  rw [onSession, ensures_ofFun]
  rcases hExec : m.exec w.session with ⟨stop | a, s⟩ <;> rw [hExec] at hm
  · obtain ⟨error, rfl, hE⟩ := hm
    constructor
    · intro r t hr
      cases hr
      exact hError error s hE
    · intro stop t hStop
      cases hStop
  · constructor
    · intro r t hr
      cases hr
      exact hOk a s hm
    · intro stop t hStop
      cases hStop

theorem acceptReadRequest_ensures (s : ResultSession) (frame : FrameView) (policy : SourceReadPolicy)
    (sequence : UInt32) :
    Ensures (ResultSession.acceptReadRequest frame policy sequence) s
      (fun _ t => s.Observed .workerToParent frame t)
      (fun stop _ => ∃ error, stop = .error error) := by
  cases hFailure : s.failure with
  | none =>
    exact (ResultSession.acceptReadRequest_ensures hFailure frame policy sequence).mono
      (fun _ _ h => h.2) fun _ _ h => h.stop_eq.imp fun _ h => h.1
  | some error =>
    unfold Ensures
    rw [ResultSession.acceptReadRequest, guard_of_failure hFailure]
    exact ⟨error, rfl⟩

theorem acceptReadReply_ensures (s : ResultSession) (frame : FrameView) (sequence length : UInt32) :
    Ensures (ResultSession.acceptReadReply frame sequence length) s
      (fun _ _ => True) (fun stop _ => ∃ error, stop = .error error) := by
  cases hFailure : s.failure with
  | none =>
    exact (ResultSession.acceptReadReply_ensures hFailure frame sequence length).mono
      (fun _ _ _ => trivial) fun _ _ h => h.stop_eq.imp fun _ h => h.1
  | some error =>
    unfold Ensures
    rw [ResultSession.acceptReadReply, guard_of_failure hFailure]
    exact ⟨error, rfl⟩

section Ops

variable (ops : SourceOps)

theorem service_ensures (offset : UInt64) (length : UInt32) {E : Stop SourceReadError → Brokerage → Prop} :
    Ensures (service ops offset length) w
      (fun _ w' => w'.broker = w.broker ∧ w'.session = w.session ∧ ∃ made, w'.calls = w.calls ++ made ∧
        (reads made = [] ∨ reads made =
          [.readExactAt offset length w.broker.requestsCharged w.broker.replyPayloadBytesCharged])) E := by
  rw [service, ensures_bind, verifyUnchanged, ensures_ofFun]
  constructor
  · rintro first _ ⟨⟩
    split
    · exact ⟨rfl, rfl, [.verifyUnchanged], rfl, .inl rfl⟩
    · rw [ensures_bind, readExactAt, ensures_ofFun]
      constructor
      · rintro outcome _ ⟨⟩
        rw [ensures_bind, ensures_ofFun]
        constructor
        · rintro after _ ⟨⟩
          refine ⟨rfl, rfl, [.verifyUnchanged, .readExactAt offset length w.broker.requestsCharged
            w.broker.replyPayloadBytesCharged, .verifyUnchanged], ?_, .inr rfl⟩
          simp only [List.append_assoc, List.cons_append, List.nil_append]
        · intro _ _ hError
          cases hError
      · intro _ _ hError
        cases hError
  · intro _ _ hError
    cases hError

variable {ops}

theorem charge_ensures {v : Brokerage} {decoded : ReadRequest} {Q : Unit → Brokerage → Prop}
    {E : Stop SourceReadError → Brokerage → Prop} (hBroker : w.broker = v.broker)
    (hRequests : v.broker.requestsCharged < v.broker.limits.requests)
    (hBytes : v.broker.replyPayloadBytesCharged + replySize decoded ≤ v.broker.limits.replyPayloadBytes)
    (hQ : Q () { w with broker := { v.broker with
      requestsCharged := v.broker.requestsCharged + 1
      replyPayloadBytesCharged := v.broker.replyPayloadBytesCharged + replySize decoded } }) :
    Ensures (charge decoded) w Q E := by
  have hRequestsLe := v.broker.limits.requests_le
  have hBytesLe := v.broker.limits.replyPayloadBytes_le
  have hMessages : maximumProtocolMessages / 2 < 2 ^ 63 := by decide
  have hCumulative : maximumCumulativePayloadBytes < 2 ^ 63 := by decide
  rw [charge, ensures_bind, ensures_get, ensures_bind, ensures_addOrPanic (by rw [hBroker]; omega),
    ensures_bind, ensures_addOrPanic (by rw [hBroker]; omega), ensures_modify, hBroker]
  exact hQ

/-- What a call of `prepare` does when it does not fail. -/
def Prepared (v : Brokerage) (request : FrameView) : PrepareOutcome → Brokerage → Prop
  | .ignoredAfterCancel, w => v.session.protocol.state = .cancelling ∧
      ∃ t, v.session.Observed .workerToParent request t ∧ w = { v with session := t }
  | .replyReady prepared, w => v.Serviced request w ∧ w.broker.failure = none ∧
      w.broker.ticketCounter = v.broker.ticketCounter + 1 ∧ v.broker.ticketCounter + 1 < 2 ^ 64 ∧
      prepared.ticket = w.broker.ticketCounter ∧
      ∃ pending, w.broker.pending = some pending ∧ pending.ticket = prepared.ticket

/-- A failing exit of `prepare`: nothing changed, or the broker is retired. -/
def Unprepared (v : Brokerage) (request : FrameView) (stop : Stop SourceReadError) (w : Brokerage) : Prop :=
  (∃ error, stop = .error error ∧ error.isTerminal = false ∧ w = v) ∨ v.Refused (some request) stop w

theorem fail_unprepared {v : Brokerage} {request : FrameView} {Q : α → Brokerage → Prop}
    {error : SourceReadError} (hFailure : w.broker.failure = none) (hTerminal : error.isTerminal = true)
    (hTicket : w.broker.ticketCounter = v.broker.ticketCounter)
    (hEffect : v.Uncharged w ∨ v.Serviced request w) :
    Ensures (fail error) w Q (Unprepared v request) := by
  have hFail : Ensures (fail error) w Q (v.Refused (some request)) := by
    apply fail_ensures hFailure hTerminal hTicket
    exact hEffect.imp id fun hServiced => ⟨request, rfl, hServiced⟩
  exact hFail.mono (fun _ _ h => h) fun _ _ h => .inr h

/-- A request that passed every check before its observation. -/
structure Admitted (v : Brokerage) (decoded : ReadRequest) (scratch : Nat) : Prop where
  scratch : decoded.length.toNat ≤ scratch
  requests : v.broker.requestsCharged < v.broker.limits.requests
  bytes : v.broker.replyPayloadBytesCharged + replySize decoded ≤ v.broker.limits.replyPayloadBytes
  ticket : v.broker.ticketCounter + 1 < 2 ^ 64

theorem admit_ensures {decoded : ReadRequest} {request : FrameView} {scratch replyStorage : Nat}
    (hSound : w.Sound) (hFailure : w.broker.failure = none) :
    Ensures (admitRead decoded scratch replyStorage) w
      (fun _ w' => w' = w ∧ Admitted w decoded scratch) (Unprepared w request) := by
  have hFail {error : SourceReadError} (hTerminal : error.isTerminal = true) :
      Ensures (fail error : Method Unit) w (fun _ w' => w' = w ∧ Admitted w decoded scratch)
        (Unprepared w request) := fail_unprepared hFailure hTerminal rfl (.inl (.refl w))
  have hTicketLt := hSound.ticket_lt
  rw [admitRead, ensures_bind, ensures_get, ensures_ite]
  constructor
  · intro _
    exact .inl ⟨.outputTooSmall, rfl, rfl, rfl⟩
  intro hBuffers
  rw [ensures_ite]
  constructor
  · intro _
    exact hFail rfl
  intro hRequests
  rw [ensures_bind, ensures_subOrPanic hSound.bytes_le, ensures_ite]
  constructor
  · intro _
    exact hFail rfl
  intro hHeadroom
  rw [ensures_ite]
  constructor
  · intro _
    exact hFail rfl
  intro hTicket
  have hBytesLe := hSound.bytes_le
  exact ⟨rfl, by omega, by omega, by omega, by omega⟩

theorem answer_ensures (ops : SourceOps) {v : Brokerage} {request : FrameView} {decoded : ReadRequest}
    {scratch replyStorage : Nat} (hFailure : v.broker.failure = none)
    (hAdmitted : Admitted v decoded scratch) (hLive : v.session.protocol.state ≠ .cancelling)
    (hDecode : decodeReadRequestPayload request v.broker.policy (v.broker.expectedSequence request) = .ok decoded)
    (hObserved : v.session.Observed .workerToParent request w.session) (hBroker : w.broker = v.broker)
    (hCalls : w.calls = v.calls) (sequence : UInt32) :
    Ensures (answer ops request decoded sequence scratch replyStorage) w (Prepared v request)
      (Unprepared v request) := by
  rw [answer, ensures_bind]
  apply charge_ensures hBroker hAdmitted.requests hAdmitted.bytes
  rw [ensures_bind, ensures_assertOrPanic hAdmitted.scratch, ensures_bind]
  refine (service_ensures ops decoded.offset decoded.length).mono ?_ fun _ _ h => h
  rintro ⟨status, data⟩ u ⟨hCharged, hSession, made, hMade, hReads⟩
  have hServiced {u' : Brokerage} (hLimits : u'.broker.limits = u.broker.limits)
      (hRequests : u'.broker.requestsCharged = u.broker.requestsCharged)
      (hBytes : u'.broker.replyPayloadBytesCharged = u.broker.replyPayloadBytesCharged)
      (hSame : u'.calls = u.calls) : v.Serviced request u' := by
    refine ⟨by rw [hLimits, hCharged], hLive, decoded, w.session, made, hDecode, hObserved,
      hAdmitted.requests, hAdmitted.bytes, by rw [hRequests, hCharged], by rw [hBytes, hCharged],
      by rw [hSame, hMade]; exact congrArg (· ++ made) hCalls, ?_⟩
    rw [hRequests, hBytes, hCharged]
    exact hReads
  dsimp only
  split
  · exact fail_unprepared (by rw [hCharged]; exact hFailure) rfl (by rw [hCharged])
      (.inr (hServiced rfl rfl rfl rfl))
  · rw [issue, ensures_bind, ensures_get, ensures_bind,
      ensures_addOrPanic (by rw [hCharged]; exact hAdmitted.ticket), ensures_bind, ensures_modify,
      ensures_pure]
    refine ⟨hServiced rfl rfl rfl rfl, by rw [hCharged]; exact hFailure, by rw [hCharged],
      hAdmitted.ticket, rfl, _, rfl, rfl⟩

theorem settle_ensures (ops : SourceOps) {v : Brokerage} {request : FrameView} {decoded : ReadRequest}
    {scratch replyStorage : Nat} {cancelling : Bool} (hFailure : v.broker.failure = none)
    (hCancelling : cancelling = true ↔ v.session.protocol.state = .cancelling)
    (hAdmitted : cancelling = false → Admitted v decoded scratch)
    (hDecode : decodeReadRequestPayload request v.broker.policy (v.broker.expectedSequence request) = .ok decoded)
    (accepted : Except ResultSessionError ReadRequestOutcome) (s : ResultSession)
    (hAccepted : ∀ outcome, accepted = .ok outcome → v.session.Observed .workerToParent request s)
    (sequence : UInt32) :
    Ensures (settle ops request decoded sequence scratch replyStorage cancelling accepted)
      { v with session := s } (Prepared v request) (Unprepared v request) := by
  have hFail {error : SourceReadError} (hTerminal : error.isTerminal = true) :
      Ensures (fail error : Method PrepareOutcome) { v with session := s } (Prepared v request)
        (Unprepared v request) := fail_unprepared hFailure hTerminal rfl (.inl ⟨rfl, rfl, rfl, rfl⟩)
  cases accepted with
  | error error =>
    cases error <;> exact hFail rfl
  | ok outcome =>
    have hObserved := hAccepted outcome rfl
    cases outcome with
    | ignoredAfterCancel =>
      rw [settle, ensures_ite]
      constructor
      · intro hCancel
        exact ⟨hCancelling.mp hCancel, s, hObserved, rfl⟩
      · intro _
        exact hFail rfl
    | serviceable message =>
      rw [settle, ensures_ite]
      constructor
      · intro _
        exact hFail rfl
      · intro hSame
        have hLive : cancelling = false := by
          cases cancelling with
          | false => rfl
          | true => exact absurd (.inl rfl) hSame
        have hState : v.session.protocol.state ≠ .cancelling := by
          intro hState
          rw [hCancelling.mpr hState] at hLive
          cases hLive
        exact answer_ensures (w := { v with session := s }) ops hFailure (hAdmitted hLive) hState hDecode
          hObserved rfl rfl sequence

theorem consider_ensures (ops : SourceOps) {request : FrameView} {scratch replyStorage : Nat}
    (hSound : w.Sound) (hFailure : w.broker.failure = none) :
    Ensures (consider ops request (w.broker.expectedSequence request) scratch replyStorage) w
      (Prepared w request) (Unprepared w request) := by
  have hFail (s : ResultSession) {error : SourceReadError} (hTerminal : error.isTerminal = true) :
      Ensures (fail error : Method PrepareOutcome) { w with session := s } (Prepared w request)
        (Unprepared w request) := fail_unprepared hFailure hTerminal rfl (.inl ⟨rfl, rfl, rfl, rfl⟩)
  have hAccept := acceptReadRequest_ensures w.session request w.broker.policy
    (w.broker.expectedSequence request)
  rw [consider, ensures_bind, ensures_get]
  dsimp only
  split
  · rw [refuse, ensures_bind, ensures_get, ensures_bind]
    apply onSession_ensures (E := fun _ _ => True) (hAccept.mono (fun _ _ h => h)
      fun _ _ h => h.imp fun _ h => ⟨h, trivial⟩)
    · intro outcome s _
      exact hFail s rfl
    · intro error s _
      cases error <;> exact hFail s rfl
  · rename_i decoded hDecode
    have hSettle (cancelling : Bool) (hCancelling : cancelling = true ↔ w.session.protocol.state = .cancelling)
        (hAdmitted : cancelling = false → Admitted w decoded scratch) :
        Ensures (onSession (ResultSession.acceptReadRequest request w.broker.policy
            (w.broker.expectedSequence request)) >>= fun accepted =>
          settle ops request decoded (w.broker.expectedSequence request) scratch replyStorage cancelling
            accepted) w (Prepared w request) (Unprepared w request) := by
      rw [ensures_bind]
      apply onSession_ensures (E := fun _ _ => True) (hAccept.mono (fun _ _ h => h)
        fun _ _ h => h.imp fun _ h => ⟨h, trivial⟩)
      · intro outcome s hObserved
        exact settle_ensures ops hFailure hCancelling hAdmitted hDecode _ s (fun _ _ => hObserved) _
      · intro error s _
        exact settle_ensures ops hFailure hCancelling hAdmitted hDecode _ s (fun _ h => by cases h) _
    rw [ensures_bind, admitUnless]
    by_cases hState : w.session.protocol.state = .cancelling
    · simp only [hState, decide_true, if_true, ensures_pure]
      exact hSettle true (by simp [hState]) fun h => by cases h
    · simp only [hState, decide_false, Bool.false_eq_true, if_false]
      refine (admit_ensures hSound hFailure).mono ?_ fun _ _ h => h
      rintro _ _ ⟨rfl, hAdmitted⟩
      exact hSettle false (by simp [hState]) fun _ => hAdmitted

/-- Everything a call of `prepare` can do. -/
theorem prepare_ensures (ops : SourceOps) (hSound : w.Sound) (request : FrameView)
    (scratch replyStorage : Nat) :
    Ensures (prepare ops request scratch replyStorage) w
      (fun outcome w' => w.broker.failure = none ∧ w.broker.pending = none ∧ Prepared w request outcome w')
      (Unprepared w request) := by
  rw [prepare, ensures_bind, ensures_get]
  split
  · rename_i error hFailure
    obtain ⟨hTerminal, hPending, hSession⟩ := hSound.failed error hFailure
    exact .inr ⟨error, rfl, hTerminal, hFailure, hPending, hSession, rfl, .inl (.refl w)⟩
  · rename_i hFailure
    rw [ensures_ite]
    constructor
    · intro _
      exact .inl ⟨.replyPending, rfl, rfl, rfl⟩
    intro hPending
    have hNone : w.broker.pending = none := by simpa using hPending
    rw [ensures_ite]
    constructor
    · intro _
      exact fail_unprepared hFailure rfl rfl (.inl (.refl w))
    · intro _
      exact (consider_ensures ops hSound hFailure).mono (fun _ _ h => ⟨hFailure, hNone, h⟩) fun _ _ h => h

end Ops

theorem takePending_ensures (hSound : w.Sound) (ticket : Nat) :
    Ensures (takePending ticket) w
      (fun pending w' => w.broker.failure = none ∧ w.broker.pending = some pending ∧ ticket = pending.ticket ∧
        w' = { w with broker := { w.broker with pending := none } })
      (w.Refused none) := by
  rw [takePending, ensures_bind, ensures_get]
  split
  · rename_i error hFailure
    obtain ⟨hTerminal, hPending, hSession⟩ := hSound.failed error hFailure
    exact ⟨error, rfl, hTerminal, hFailure, hPending, hSession, rfl, .inl (.refl w)⟩
  · rename_i hFailure
    split
    · exact fail_ensures hFailure rfl rfl (.inl (.refl w))
    · rename_i pending hPending
      rw [ensures_ite]
      constructor
      · intro _
        exact fail_ensures hFailure rfl rfl (.inl (.refl w))
      · intro hTicket
        exact ⟨hFailure, hPending, not_not.mp hTicket, rfl⟩

theorem isTerminal_replyError (status : ProtocolStatus) (accepted : Except ResultSessionError Unit) :
    (replyError status accepted).isTerminal = true := by
  unfold replyError
  split <;> try rfl
  rename_i error _ _
  cases error <;> rfl

theorem isTerminal_mapSessionError (error : ResultSessionError) :
    (mapSessionError error).isTerminal = true := by
  cases error <;> rfl

/-- The pending reply was sent: its slot is free and nothing was charged. -/
def Sent (v : Brokerage) (ticket : Nat) (w : Brokerage) : Prop :=
  v.broker.failure = none ∧ (∃ pending, v.broker.pending = some pending ∧ ticket = pending.ticket) ∧
    w.broker.failure = none ∧ w.broker.pending = none ∧
    w.broker.ticketCounter = v.broker.ticketCounter ∧ v.Uncharged w

theorem commitReplySent_ensures (hSound : w.Sound) (prepared : PreparedReply) :
    Ensures (commitReplySent prepared) w (fun _ w' => Sent w prepared.ticket w') (w.Refused none) := by
  rw [commitReplySent, ensures_bind]
  refine (takePending_ensures hSound prepared.ticket).mono ?_ fun _ _ h => h
  rintro pending _ ⟨hFailure, hPending, hTicket, rfl⟩
  have hFail (s : ResultSession) {error : SourceReadError} (hTerminal : error.isTerminal = true) :
      Ensures (fail error : Method Unit)
        { w with broker := { w.broker with pending := none }, session := s }
        (fun _ w' => Sent w prepared.ticket w') (w.Refused none) :=
    fail_ensures hFailure hTerminal rfl (.inl ⟨rfl, rfl, rfl, rfl⟩)
  rw [ensures_bind]
  apply onSession_ensures (w := { w with broker := { w.broker with pending := none } }) (E := fun _ _ => True)
    ((acceptReadReply_ensures w.session _ _ _).mono (fun _ _ h => h) fun _ _ h => h.imp fun _ h => ⟨h, trivial⟩)
  · intro _ s _
    rw [ensures_ite]
    constructor
    · intro _
      rw [ensures_modify, commitSequence]
      split <;> exact ⟨hFailure, ⟨pending, hPending, hTicket⟩, hFailure, rfl, rfl, rfl, rfl, rfl, rfl⟩
    · intro _
      exact hFail s (isTerminal_replyError _ _)
  · intro error s _
    rw [ensures_ite]
    constructor
    · intro _
      exact hFail s (isTerminal_mapSessionError error)
    · intro _
      exact hFail s (isTerminal_replyError _ _)

theorem abandonReply_ensures (hSound : w.Sound) (prepared : PreparedReply) :
    Ensures (abandonReply prepared) w (fun _ _ => False) (w.Refused none) := by
  rw [abandonReply, ensures_bind]
  refine (takePending_ensures hSound prepared.ticket).mono ?_ fun _ _ h => h
  rintro pending _ ⟨hFailure, -, -, rfl⟩
  exact fail_ensures hFailure rfl rfl (.inl ⟨rfl, rfl, rfl, rfl⟩)

end SourceReadBroker

namespace Brokerage

variable {v w : Brokerage}

/-- Both counters are within their quotas, and no read goes uncharged. -/
def WithinQuota (w : Brokerage) : Prop :=
  w.broker.requestsCharged ≤ w.broker.limits.requests ∧
    w.broker.replyPayloadBytesCharged ≤ w.broker.limits.replyPayloadBytes ∧
    (reads w.calls).length ≤ w.broker.requestsCharged

theorem Sound.uncharged (hSound : v.Sound) (h : v.Uncharged w) : w.WithinQuota := by
  rw [WithinQuota, h.limits, h.requests, h.bytes, h.calls]
  exact ⟨hSound.requests_le, hSound.bytes_le, hSound.reads_le⟩

theorem Sound.serviced (hSound : v.Sound) {frame : FrameView} (h : v.Serviced frame w) : w.WithinQuota := by
  obtain ⟨decoded, t, made, -, -, hRoom, hHeadroom, hRequests, hBytes, hCalls, hMade⟩ := h.serviced
  have hReads := hSound.reads_le
  have hLength : (reads made).length ≤ 1 := by
    rcases hMade with hMade | hMade <;> simp [hMade]
  have hAppend : reads w.calls = reads v.calls ++ reads made := by
    rw [hCalls, reads, List.filter_append]
    rfl
  rw [WithinQuota, hAppend, List.length_append, h.limits]
  omega

theorem Sound.refused (hSound : v.Sound) {request : Option FrameView} {stop : Stop SourceReadError}
    (hRefused : v.Refused request stop w) : w.Sound := by
  obtain ⟨error, -, hTerminal, hFailure, hPending, hSession, hTicket, hEffect⟩ := hRefused
  have hQuota : w.WithinQuota := by
    rcases hEffect with hUncharged | ⟨frame, -, hServiced⟩
    · exact hSound.uncharged hUncharged
    · exact hSound.serviced hServiced
  constructor
  · exact hQuota.1
  · exact hQuota.2.1
  · rw [hTicket]
    exact hSound.ticket_lt
  · intro pending h
    cases hPending.symm.trans h
  · exact hQuota.2.2
  · intro error' h
    cases hFailure.symm.trans h
    exact ⟨hTerminal, hPending, hSession⟩

theorem Sound.unprepared (hSound : v.Sound) {request : FrameView} {stop : Stop SourceReadError}
    (h : SourceReadBroker.Unprepared v request stop w) : w.Sound := by
  rcases h with ⟨error, -, -, rfl⟩ | hRefused
  · exact hSound
  · exact hSound.refused hRefused

theorem Sound.prepared (hSound : v.Sound) (hFailure : v.broker.failure = none) {request : FrameView}
    {outcome : PrepareOutcome} (h : SourceReadBroker.Prepared v request outcome w) : w.Sound := by
  cases outcome with
  | ignoredAfterCancel =>
    obtain ⟨-, t, -, rfl⟩ := h
    refine ⟨hSound.requests_le, hSound.bytes_le, hSound.ticket_lt, hSound.pending_ticket,
      hSound.reads_le, ?_⟩
    intro error hError
    cases hFailure.symm.trans hError
  | replyReady prepared =>
    obtain ⟨hServiced, hNone, hTicket, hTicketLt, hPrepared, pending, hPending, hSame⟩ := h
    obtain ⟨hRequests, hBytes, hReads⟩ := hSound.serviced hServiced
    refine ⟨hRequests, hBytes, by omega, ?_, hReads, ?_⟩
    · intro pending' h
      rw [hPending] at h
      cases h
      exact hSame.trans hPrepared
    · intro error hError
      cases hNone.symm.trans hError

theorem Sound.sent (hSound : v.Sound) {ticket : Nat} (h : SourceReadBroker.Sent v ticket w) : w.Sound := by
  obtain ⟨-, -, hFailure, hPending, hTicket, hUncharged⟩ := h
  obtain ⟨hRequests, hBytes, hReads⟩ := hSound.uncharged hUncharged
  refine ⟨hRequests, hBytes, by rw [hTicket]; exact hSound.ticket_lt, ?_, hReads, ?_⟩
  · intro pending h
    cases hPending.symm.trans h
  · intro error h
    cases hFailure.symm.trans h

end Brokerage

/-! ## Runs -/

inductive BrokerAction
  | prepare (request : FrameView) (scratch replyStorage : Nat)
  | commitReplySent (prepared : PreparedReply)
  | abandonReply (prepared : PreparedReply)
  | session (operation : Operation)

abbrev BrokerHost (κ : Type) := Brokerage × LoggedSink κ

/-- `some` outcome is one of `prepare`. -/
abbrev BrokerResult := Except (Stop SourceReadError) (Option PrepareOutcome)

open SourceReadBroker in
def callBroker (ops : SourceOps) : BrokerAction → Method (Option PrepareOutcome)
  | .prepare request scratch replyStorage => do
    let outcome ← prepare ops request scratch replyStorage
    return some outcome
  | .commitReplySent prepared => do
    commitReplySent prepared
    return none
  | .abandonReply prepared => do
    abandonReply prepared
    return none
  | .session _ => return none

section Runs

variable {κ : Type} [ByteSink κ] (ops : SourceOps)

def brokerStep (action : BrokerAction) (h : BrokerHost κ) : BrokerResult × BrokerHost κ :=
  match action with
  | .session operation =>
    let (_, session, sink) := step operation (h.1.session, h.2)
    (.ok none, { h.1 with session := session }, sink)
  | _ =>
    let (result, w) := (callBroker ops action).exec h.1
    (result, w, h.2)

def brokerRun : List BrokerAction → BrokerHost κ → BrokerHost κ
  | [], h => h
  | action :: actions, h => brokerRun actions (brokerStep ops action h).2

/-- The laws of one step of a run, from `w` to `w'`. -/
structure BrokerLaws (action : BrokerAction) (w : Brokerage) (result : BrokerResult) (w' : Brokerage) :
    Prop where
  checked : result ≠ .error .panic ∧ result ≠ .error .stuck
  requests_le : w'.broker.requestsCharged ≤ w'.broker.limits.requests
  bytes_le : w'.broker.replyPayloadBytesCharged ≤ w'.broker.limits.replyPayloadBytes
  /-- A reply becomes pending only in an empty slot, under a ticket never issued before. -/
  pending : ∀ pending, w'.broker.pending = some pending → w.broker.pending ≠ some pending →
    w.broker.pending = none ∧ w.broker.ticketCounter < pending.ticket ∧
      ∃ prepared, result = .ok (some (.replyReady prepared)) ∧ prepared.ticket = pending.ticket
  /-- A request is charged to both quotas before it is read, and read at most once. -/
  serviced : w.Uncharged w' ∨ ∃ request scratch replyStorage,
    action = .prepare request scratch replyStorage ∧ w.Serviced request w'
  ignored : result = .ok (some .ignoredAfterCancel) → ∃ request scratch replyStorage t,
    action = .prepare request scratch replyStorage ∧ w.session.protocol.state = .cancelling ∧
      w.session.Observed .workerToParent request t ∧ w' = { w with session := t }
  unchanged : ∀ error, result = .error (.error error) → error.isTerminal = false → w' = w
  retired : ∀ error, result = .error (.error error) → error.isTerminal = true → w'.Retired
  /-- No call brings a retired broker back. -/
  kept : w.broker.isTerminal = true → w'.broker = w.broker ∧ w'.calls = w.calls ∧ w'.Retired

variable {ops}

theorem callBroker_of_failure {w : Brokerage} {error : SourceReadError} (hFailure : w.broker.failure = some error)
    {action : BrokerAction} (hAction : ∀ operation, action ≠ .session operation) :
    (callBroker ops action).exec w = (.error (.error error), w) := by
  have hTake (ticket : Nat) : (SourceReadBroker.takePending ticket).exec w = (.error (.error error), w) := by
    unfold SourceReadBroker.takePending
    rw [exec_bind, exec_get]
    simp only [hFailure]
    rfl
  cases action with
  | prepare request scratch replyStorage =>
    have hPrepare : (SourceReadBroker.prepare ops request scratch replyStorage).exec w =
        (.error (.error error), w) := by
      unfold SourceReadBroker.prepare
      rw [exec_bind, exec_get]
      simp only [hFailure]
      rfl
    rw [callBroker, exec_bind, hPrepare]
  | commitReplySent prepared =>
    rw [callBroker, exec_bind, SourceReadBroker.commitReplySent, exec_bind, hTake]
  | abandonReply prepared =>
    rw [callBroker, exec_bind, SourceReadBroker.abandonReply, exec_bind, hTake]
  | session operation => exact absurd rfl (hAction operation)

theorem BrokerLaws.of_refused {action : BrokerAction} {w w' : Brokerage} {request : Option FrameView}
    {stop : Stop SourceReadError} (hSound : w.Sound) (hLive : w.broker.failure = none)
    (hRequest : ∀ frame, request = some frame → ∃ scratch replyStorage,
      action = .prepare frame scratch replyStorage)
    (hRefused : w.Refused request stop w') : BrokerLaws action w (.error stop) w' := by
  have hAfter := hSound.refused hRefused
  obtain ⟨error, rfl, hTerminal, hFailure, hPending, hSession, -, hEffect⟩ := hRefused
  constructor
  · simp
  · exact hAfter.requests_le
  · exact hAfter.bytes_le
  · intro pending h
    cases hPending.symm.trans h
  · refine hEffect.imp id ?_
    rintro ⟨frame, hFrame, hServiced⟩
    obtain ⟨scratch, replyStorage, rfl⟩ := hRequest frame hFrame
    exact ⟨frame, scratch, replyStorage, rfl, hServiced⟩
  · intro h
    cases h
  · intro error' h hNot
    cases h
    rw [hTerminal] at hNot
    cases hNot
  · intro _ _ _
    exact ⟨by rw [SourceReadBroker.isTerminal, hFailure]; rfl, hSession⟩
  · intro h
    rw [SourceReadBroker.isTerminal, hLive] at h
    cases h

theorem BrokerLaws.of_same {action : BrokerAction} {w : Brokerage} {error : SourceReadError}
    (hSound : w.Sound) (hError : error.isTerminal = true → w.broker.isTerminal = true) :
    BrokerLaws action w (.error (.error error)) w := by
  have hRetired (h : w.broker.isTerminal = true) : w.Retired := by
    obtain ⟨failure, hFailure⟩ := Option.isSome_iff_exists.mp h
    exact ⟨h, (hSound.failed failure hFailure).2.2⟩
  constructor
  · simp
  · exact hSound.requests_le
  · exact hSound.bytes_le
  · intro pending h hNot
    exact absurd h hNot
  · exact .inl (.refl w)
  · intro h
    cases h
  · intro _ _ _
    rfl
  · intro error' h hTerminal
    cases h
    exact hRetired (hError hTerminal)
  · intro h
    exact ⟨rfl, rfl, hRetired h⟩

theorem BrokerLaws.of_prepared {w w' : Brokerage} {request : FrameView} {scratch replyStorage : Nat}
    {outcome : PrepareOutcome} (hSound : w.Sound) (hLive : w.broker.failure = none)
    (hEmpty : w.broker.pending = none) (h : SourceReadBroker.Prepared w request outcome w') :
    BrokerLaws (.prepare request scratch replyStorage) w (.ok (some outcome)) w' := by
  have hAfter := hSound.prepared hLive h
  have hKept : w.broker.isTerminal = true → w'.broker = w.broker ∧ w'.calls = w.calls ∧ w'.Retired := by
    intro hTerminal
    rw [SourceReadBroker.isTerminal, hLive] at hTerminal
    cases hTerminal
  cases outcome with
  | ignoredAfterCancel =>
    obtain ⟨hState, t, hObserved, rfl⟩ := h
    refine ⟨by simp, hAfter.requests_le, hAfter.bytes_le, ?_, .inl ⟨rfl, rfl, rfl, rfl⟩, ?_, ?_, ?_, hKept⟩
    · intro pending hPending hNot
      exact absurd hPending hNot
    · intro _
      exact ⟨request, scratch, replyStorage, t, rfl, hState, hObserved, rfl⟩
    · intro _ hError
      cases hError
    · intro _ hError
      cases hError
  | replyReady prepared =>
    obtain ⟨hServiced, -, hTicket, -, hPrepared, pending, hPending, hSame⟩ := h
    refine ⟨by simp, hAfter.requests_le, hAfter.bytes_le, ?_,
      .inr ⟨request, scratch, replyStorage, rfl, hServiced⟩, ?_, ?_, ?_, hKept⟩
    · intro pending' hPending' _
      cases hPending.symm.trans hPending'
      exact ⟨hEmpty, by omega, prepared, rfl, hSame.symm⟩
    · intro hOk
      cases hOk
    · intro _ hError
      cases hError
    · intro _ hError
      cases hError

theorem BrokerLaws.of_sent {action : BrokerAction} {w w' : Brokerage} {ticket : Nat} (hSound : w.Sound)
    (h : SourceReadBroker.Sent w ticket w') : BrokerLaws action w (.ok none) w' := by
  have hAfter := hSound.sent h
  obtain ⟨hLive, -, -, hPending, -, hUncharged⟩ := h
  constructor
  · simp
  · exact hAfter.requests_le
  · exact hAfter.bytes_le
  · intro pending h
    cases hPending.symm.trans h
  · exact .inl hUncharged
  · intro h
    cases h
  · intro _ h
    cases h
  · intro _ h
    cases h
  · intro h
    rw [SourceReadBroker.isTerminal, hLive] at h
    cases h

theorem brokerStep_laws {h : BrokerHost κ} (hSound : h.1.Sound) (action : BrokerAction) :
    (brokerStep ops action h).2.1.Sound ∧
      BrokerLaws action h.1 (brokerStep ops action h).1 (brokerStep ops action h).2.1 := by
  obtain ⟨w, sink⟩ := h
  have hCall (hAction : ∀ operation, action ≠ .session operation)
      (hCalled : w.broker.failure = none → ∀ result w', (callBroker ops action).exec w = (result, w') →
        w'.Sound ∧ BrokerLaws action w result w') :
      (brokerStep ops action (w, sink)).2.1.Sound ∧
        BrokerLaws action w (brokerStep ops action (w, sink)).1 (brokerStep ops action (w, sink)).2.1 := by
    have hStep : brokerStep ops action (w, sink) =
        (((callBroker ops action).exec w).1, ((callBroker ops action).exec w).2, sink) := by
      cases action with
      | session operation => exact absurd rfl (hAction operation)
      | _ => rfl
    rw [hStep]
    cases hFailure : w.broker.failure with
    | none => exact hCalled hFailure _ _ rfl
    | some error =>
      rw [callBroker_of_failure hFailure hAction]
      exact ⟨hSound, .of_same hSound fun _ => by rw [SourceReadBroker.isTerminal, hFailure]; rfl⟩
  cases action with
  | prepare request scratch replyStorage =>
    refine hCall (by simp) fun hLive result w' hExec => ?_
    have hPrepare := SourceReadBroker.prepare_ensures ops hSound request scratch replyStorage
    unfold Ensures at hPrepare
    rw [callBroker, exec_bind] at hExec
    rcases hCase : (SourceReadBroker.prepare ops request scratch replyStorage).exec w with ⟨stop | outcome, u⟩
    · rw [hCase] at hExec hPrepare
      cases hExec
      refine ⟨hSound.unprepared hPrepare, ?_⟩
      rcases hPrepare with ⟨error, rfl, hTerminal, rfl⟩ | hRefused
      · exact .of_same hSound fun h => by rw [hTerminal] at h; cases h
      · apply BrokerLaws.of_refused hSound hLive _ hRefused
        rintro _ ⟨⟩
        exact ⟨scratch, replyStorage, rfl⟩
    · rw [hCase] at hExec hPrepare
      cases hExec
      obtain ⟨-, hEmpty, hPrepared⟩ := hPrepare
      exact ⟨hSound.prepared hLive hPrepared, .of_prepared hSound hLive hEmpty hPrepared⟩
  | commitReplySent prepared =>
    refine hCall (by simp) fun hLive result w' hExec => ?_
    have hCommit := SourceReadBroker.commitReplySent_ensures hSound prepared
    unfold Ensures at hCommit
    rw [callBroker, exec_bind] at hExec
    rcases hCase : (SourceReadBroker.commitReplySent prepared).exec w with ⟨stop | _, u⟩
    · rw [hCase] at hExec hCommit
      cases hExec
      exact ⟨hSound.refused hCommit, .of_refused hSound hLive (fun _ h => by cases h) hCommit⟩
    · rw [hCase] at hExec hCommit
      cases hExec
      exact ⟨hSound.sent hCommit, .of_sent hSound hCommit⟩
  | abandonReply prepared =>
    refine hCall (by simp) fun hLive result w' hExec => ?_
    have hAbandon := SourceReadBroker.abandonReply_ensures hSound prepared
    unfold Ensures at hAbandon
    rw [callBroker, exec_bind] at hExec
    rcases hCase : (SourceReadBroker.abandonReply prepared).exec w with ⟨stop | _, u⟩
    · rw [hCase] at hExec hAbandon
      cases hExec
      exact ⟨hSound.refused hAbandon, .of_refused hSound hLive (fun _ h => by cases h) hAbandon⟩
    · rw [hCase] at hAbandon
      exact hAbandon.elim
  | session operation =>
    -- The broker only needs that an ended session stays ended.
    have hEnded (hTerminal : w.session.isTerminal = true) : (step operation (w.session, sink)).2.1 = w.session := by
      obtain ⟨error, hFailure⟩ := Option.isSome_iff_exists.mp hTerminal
      rw [step_of_failure hFailure]
    have hStep : (brokerStep ops (.session operation) (w, sink)) =
        (.ok none, { w with session := (step operation (w.session, sink)).2.1 },
          (step operation (w.session, sink)).2.2) := rfl
    rw [hStep]
    refine ⟨⟨hSound.requests_le, hSound.bytes_le, hSound.ticket_lt, hSound.pending_ticket, hSound.reads_le, ?_⟩,
      ⟨by simp, hSound.requests_le, hSound.bytes_le, fun _ h hNot => absurd h hNot, .inl ⟨rfl, rfl, rfl, rfl⟩,
        (by intro h; cases h), (by intro _ h; cases h), (by intro _ h; cases h), ?_⟩⟩
    · intro error hFailure
      obtain ⟨hTerminal, hPending, hSession⟩ := hSound.failed error hFailure
      exact ⟨hTerminal, hPending, by dsimp only; rw [hEnded hSession]; exact hSession⟩
    · intro hTerminal
      obtain ⟨error, hFailure⟩ := Option.isSome_iff_exists.mp hTerminal
      obtain ⟨-, -, hSession⟩ := hSound.failed error hFailure
      exact ⟨rfl, rfl, hTerminal, by dsimp only; rw [hEnded hSession]; exact hSession⟩

theorem BrokerLaws.limits {action : BrokerAction} {w w' : Brokerage} {result : BrokerResult}
    (h : BrokerLaws action w result w') : w'.broker.limits = w.broker.limits := by
  rcases h.serviced with hUncharged | ⟨_, _, _, -, hServiced⟩
  · exact hUncharged.limits
  · exact hServiced.limits

theorem brokerRun_sound (actions : List BrokerAction) {h : BrokerHost κ} (hSound : h.1.Sound) :
    (brokerRun ops actions h).1.Sound ∧ (brokerRun ops actions h).1.broker.limits = h.1.broker.limits := by
  induction actions generalizing h with
  | nil => exact ⟨hSound, rfl⟩
  | cons action actions ih =>
    obtain ⟨hNext, hLaws⟩ := brokerStep_laws hSound action
    obtain ⟨hSound', hLimits⟩ := ih hNext
    exact ⟨hSound', hLimits.trans hLaws.limits⟩

theorem withOps_sound {sourceSize mediaSize : UInt64} {session session' : ResultSession}
    {limits : SourceReadLimits} {broker : SourceReadBroker}
    (hNew : SourceReadBroker.withOps sourceSize mediaSize session limits = (.ok broker, session')) :
    Brokerage.Sound ⟨broker, session', []⟩ ∧ broker.limits = limits := by
  unfold SourceReadBroker.withOps at hNew
  split at hNew
  · dsimp only at hNew
    split at hNew
    · cases hNew
      refine ⟨?_, rfl⟩
      constructor
      · exact Nat.zero_le _
      · exact Nat.zero_le _
      · exact Nat.two_pow_pos 64
      · intro _ h
        cases h
      · exact Nat.zero_le _
      · intro _ h
        cases h
    · cases hNew
  · cases hNew

/-- Every step of every run of a fresh broker obeys the laws under the limits it
was built with, and in all it reads the source at most once for each charge. -/
theorem broker_quota_and_ticket (ops : SourceOps) {sourceSize mediaSize : UInt64}
    {session session' : ResultSession} {limits : SourceReadLimits} {broker : SourceReadBroker}
    (hNew : SourceReadBroker.withOps sourceSize mediaSize session limits = (.ok broker, session'))
    (sink : LoggedSink κ) (actions : List BrokerAction) (action : BrokerAction) :
    let h := brokerRun ops actions (⟨broker, session', []⟩, sink)
    let (result, h') := brokerStep ops action h
    h'.1.broker.limits = limits ∧
      (Brokerage.reads h'.1.calls).length ≤ h'.1.broker.requestsCharged ∧
      BrokerLaws action h.1 result h'.1 := by
  obtain ⟨hFresh, hLimits⟩ := withOps_sound hNew
  obtain ⟨hSound, hSame⟩ := brokerRun_sound actions (h := (⟨broker, session', []⟩, sink)) hFresh
  obtain ⟨hNext, hLaws⟩ := brokerStep_laws hSound action
  exact ⟨hLaws.limits.trans (hSame.trans hLimits), hNext.reads_le, hLaws⟩

def sampleOps : SourceOps where
  verifyUnchanged _ := .ok ()
  readExactAt _ _ length := .ok ⟨List.replicate length.toNat 0, List.length_replicate⟩

def sampleReadRequest : FrameView := sampleFrame .readRequest 1 (toLe 4 1 ++ toLe 8 0 ++ toLe 4 4)

def sampleBroker : SourceReadBroker where
  policy := ⟨100, SourceReadLimits.default.readBytes, by decide, by decide, by decide⟩
  limits := .default
  failure := none
  committedRequestId := none
  nextSequence := 1
  sequenceExhausted := false
  requestsCharged := 0
  replyPayloadBytesCharged := 0
  ticketCounter := 0
  pending := none

theorem sampleBroker_new :
    SourceReadBroker.withOps 100 100 sampleSession .default = (.ok sampleBroker, sampleSession) := rfl

theorem broker_quota_and_ticket_oneRead :
    let h := brokerRun sampleOps [.session (.beginEnumeration (sampleFrame .enumerate 1 []))]
      (⟨sampleBroker, sampleSession, []⟩, sampleSink)
    let (result, h') := brokerStep sampleOps (.prepare sampleReadRequest 4 10) h
    h'.1.broker.requestsCharged = 1 ∧ (Brokerage.reads h'.1.calls).length ≤ 1 ∧
      BrokerLaws (.prepare sampleReadRequest 4 10) h.1 result h'.1 := by
  obtain ⟨-, hReads, hLaws⟩ := broker_quota_and_ticket sampleOps sampleBroker_new sampleSink
    [.session (.beginEnumeration (sampleFrame .enumerate 1 []))] (.prepare sampleReadRequest 4 10)
  have hCharged : (brokerStep sampleOps (.prepare sampleReadRequest 4 10) (brokerRun sampleOps
      [.session (.beginEnumeration (sampleFrame .enumerate 1 []))]
      (⟨sampleBroker, sampleSession, []⟩, sampleSink))).2.1.broker.requestsCharged = 1 := by
    decide +kernel
  exact ⟨hCharged, hCharged ▸ hReads, hLaws⟩

end Runs

end OpenHalfLife.Import
