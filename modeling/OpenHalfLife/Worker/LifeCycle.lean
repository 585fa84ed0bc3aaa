import OpenHalfLife.Protocol.Messages
import OpenHalfLife.Protocol.Phase
import OpenHalfLife.Worker.Service

/-! # The life cycle a dispatcher sees

Whatever the transport and the dispatcher answer, the dispatcher's calls form
closed brackets, and the transport is aborted or closed exactly once.
-/

namespace OpenHalfLife.Protocol

set_option autoImplicit false

def WorkerFrame.isComplete : WorkerFrame → Bool
  | complete _ => true
  | _ => false

namespace Phase

def isActive : Phase → Bool
  | active _ _ _ => true
  | _ => false

variable {p p' : Phase}

theorem isActive_of_request {kind : RequestKind} {id : UInt64}
    (h : p.parent (.request kind id) = some p') : p.isActive = false ∧ p'.isActive = true := by
  cases p with
  | idle last late =>
    cases late <;> simp only [parent] at h <;> split at h <;> cases h <;> exact ⟨rfl, rfl⟩
  | active kind id read => cases read <;> simp [parent] at h
  | cancelling kind id read crossed => cases read <;> simp [parent] at h
  | cancelled late => cases late <;> simp [parent] at h
  | _ => simp [parent] at h

theorem isActive_of_readReply {id : UInt64} (h : p.parent (.readReply id) = some p') :
    p'.isActive = p.isActive := by
  cases p with
  | active kind id read => cases read <;> simp [parent] at h; simp [← h.2, isActive]
  | cancelling kind id read crossed => cases read <;> simp [parent] at h; simp [← h.2, isActive]
  | cancelled late => cases late <;> simp [parent] at h; simp [← h.2, isActive]
  | idle last late => cases late <;> simp [parent] at h
  | _ => simp [parent] at h

theorem isActive_of_cancel {id : UInt64} (h : p.parent (.cancel id) = some p') :
    p'.isActive = false ∧ ((∃ last late, p = .idle last late) ∨ p.isActive = true) := by
  cases p with
  | active kind id read =>
    cases read <;> simp [parent] at h <;> simp [← h.2, isActive]
  | idle last late => cases late <;> simp [parent] at h; simp [← h.2, isActive]
  | cancelling kind id read crossed => cases read <;> simp [parent] at h
  | cancelled late => cases late <;> simp [parent] at h
  | _ => simp [parent] at h

theorem isActive_of_shutdown (h : p.parent .shutdown = some p') : p.isActive = false := by
  cases p with
  | active kind id read => cases read <;> simp [parent] at h
  | _ => rfl

theorem isActive_of_worker {frame : WorkerFrame} (h : p.worker frame = some p') :
    p'.isActive = (p.isActive && !frame.isComplete) := by
  cases p with
  | active kind id read =>
    cases read <;> cases frame <;> simp [worker] at h <;> simp [← h.2, isActive, WorkerFrame.isComplete]
  | cancelling kind id read crossed =>
    cases read <;> cases crossed <;> cases frame <;> simp [worker] at h <;> simp [← h.2, isActive, WorkerFrame.isComplete]
  | awaitingReady => cases frame <;> simp [worker] at h; simp [← h, isActive]
  | _ => cases frame <;> simp [worker] at h

end Phase

end OpenHalfLife.Protocol

namespace OpenHalfLife.Worker

open Protocol Machine

set_option autoImplicit false

/-- Calls that may only stand between a successful `begin` and its end. -/
def DispatchCall.isWork : DispatchCall → Bool
  | step | acceptReadReply => true
  | _ => false

def DispatchCall.isClosing : DispatchCall → Bool
  | cancel | end_ => true
  | _ => false

inductive WellBracketed : List DispatchCall → Prop
  | nil : WellBracketed []
  | refused {calls : List DispatchCall} (h : WellBracketed calls) :
      WellBracketed (calls ++ [.begin false])
  | served {calls work : List DispatchCall} {closing : DispatchCall} (h : WellBracketed calls)
      (hWork : work.all DispatchCall.isWork) (hClosing : closing.isClosing) :
      WellBracketed (calls ++ [.begin true] ++ work ++ [closing])

/-- Closed brackets, followed by an open one exactly when a request is active. -/
def Bracketed (active : Bool) (calls : List DispatchCall) : Prop :=
  if active then
    ∃ closed work, WellBracketed closed ∧ work.all DispatchCall.isWork ∧
      calls = closed ++ [.begin true] ++ work
  else WellBracketed calls

namespace Bracketed

variable {calls : List DispatchCall}

theorem begin_ok (h : Bracketed false calls) : Bracketed true (calls ++ [.begin true]) :=
  ⟨calls, [], h, rfl, by simp⟩

theorem begin_error (h : Bracketed false calls) : Bracketed false (calls ++ [.begin false]) :=
  WellBracketed.refused h

theorem work {call : DispatchCall} (h : Bracketed true calls) (hCall : call.isWork) :
    Bracketed true (calls ++ [call]) := by
  obtain ⟨closed, work, hClosed, hWork, rfl⟩ := h
  exact ⟨closed, work ++ [call], hClosed, by simp [hWork, hCall], by simp⟩

theorem close {call : DispatchCall} (h : Bracketed true calls) (hCall : call.isClosing) :
    Bracketed false (calls ++ [call]) := by
  obtain ⟨closed, work, hClosed, hWork, rfl⟩ := h
  exact WellBracketed.served hClosed hWork hCall

end Bracketed

def Commit.messageType : Commit → MessageType
  | readRequest _ _ => .readRequest
  | entryBatch _ => .entryBatch
  | dataChunk _ => .dataChunk
  | complete => .complete

def Commit.isComplete : Commit → Bool
  | complete => true
  | _ => false

theorem PreparedFrame.new_ok {messageType : MessageType} {context : FrameContext}
    {payload : List UInt8} {commit : Commit} {prepared : PreparedFrame}
    (h : PreparedFrame.new messageType context payload commit = .ok prepared)
    (hType : messageType = commit.messageType) :
    prepared.header.messageType = prepared.commit.messageType := by
  rw [PreparedFrame.new, Result.ite_error_eq_ok] at h
  cases h.2
  exact hType

def Quiet {τ : Type} (t : Recorded TransportCall τ) : Prop :=
  .abortIo ∉ t.calls ∧ .closeIo ∉ t.calls

theorem Quiet.call {τ ρ : Type} {t : Recorded TransportCall τ} (h : Quiet t) {entry : TransportCall}
    (hEntry : entry ≠ .abortIo ∧ entry ≠ .closeIo) (f : τ → ρ × τ) :
    Quiet (t.call (fun _ => entry) f).2 := by
  simp only [Quiet, Recorded.call, List.mem_append, List.mem_singleton, not_or] at h ⊢
  exact ⟨⟨h.1, hEntry.1.symm⟩, h.2, hEntry.2.symm⟩

section Channel

variable {τ : Type}

abbrev QuietChannel (c : Channel (Recorded TransportCall τ)) : Prop := Quiet c.transport

theorem transfer_quiet {ρ : Type}
    {call : Recorded TransportCall τ → (IoStatus × ρ) × Recorded TransportCall τ}
    (hCall : ∀ t, Quiet t → Quiet (call t).2) : Preserves QuietChannel (transfer call) := by
  intro c hQuiet
  have hNext := hCall c.transport hQuiet
  simp only [transfer, ensures_ofFun]
  constructor <;> intro _ _ h <;> split at h <;> cases h <;> simp_all [QuietChannel]

variable [Transport τ]

theorem readExact_quiet (size : Nat) :
    Preserves QuietChannel (readExact size : Machine _ (Channel (Recorded TransportCall τ)) _) :=
  (transfer_quiet fun _ h => h.call (by decide) _).bind fun _ => preserves_pure _

theorem writeAll_quiet (bytes : List UInt8) :
    Preserves QuietChannel (writeAll bytes : Machine _ (Channel (Recorded TransportCall τ)) _) :=
  transfer_quiet fun _ h => h.call (by decide) _

theorem receiveFrame_quiet (sessionId : UInt64) :
    Preserves QuietChannel
      (receiveFrame sessionId : Machine _ (Channel (Recorded TransportCall τ)) _) := by
  refine (readExact_quiet _).bind fun _ => (preserves_ofExcept _ _).bind fun header =>
    (preserves_rejectIf _ _).bind fun _ => preserves_get.bind fun _ =>
    (preserves_rejectIf _ _).bind fun _ => Preserves.ite ?_ (preserves_pure _)
  refine (readExact_quiet _).bind fun _ => Preserves.bind (preserves_modify ?_) fun _ =>
    preserves_pure _
  exact fun _ hQuiet => hQuiet

end Channel

section Endpoint

variable {τ : Type}

theorem observe_endpoint (e : Endpoint τ) (direction : Direction) (header : FrameHeader) :
    Ensures (observe direction header) e
      (fun _ e' => e'.toChannel = e.toChannel ∧
        e.validator.observe direction header = (.ok (), e'.validator))
      fun _ e' => e'.toChannel = e.toChannel := by
  rw [observe, ensures_zoom, ensures_ofFun]
  exact ⟨fun _ v h => ⟨rfl, h⟩, fun _ v _ => rfl⟩

theorem onChannel_endpoint {α : Type}
    {m : Machine ServiceFailure (Channel (Recorded TransportCall τ)) α}
    (hm : Preserves QuietChannel m) (e : Endpoint (Recorded TransportCall τ)) :
    Ensures (onChannel m) e
      (fun _ e' => (Quiet e.transport → Quiet e'.transport) ∧ e'.validator = e.validator)
      fun _ e' => Quiet e.transport → Quiet e'.transport := by
  rw [onChannel, ensures_zoom]
  by_cases h : Quiet e.transport
  · exact (hm e.toChannel h).mono (fun _ _ hc => ⟨fun _ => hc, rfl⟩) fun _ _ hc _ => hc
  · exact ensures_iff.mpr ⟨fun _ _ _ => ⟨fun h' => absurd h' h, rfl⟩, fun _ _ _ h' => absurd h' h⟩

variable [Transport τ]

theorem sendFrame_endpoint (e : Endpoint (Recorded TransportCall τ)) (header : FrameHeader)
    (payload : List UInt8) :
    Ensures (sendFrame header payload) e
      (fun _ e' => (Quiet e.transport → Quiet e'.transport) ∧
        e.validator.observe .workerToParent header = (.ok (), e'.validator))
      fun _ e' => Quiet e.transport → Quiet e'.transport := by
  simp only [sendFrame, ensures_bind, ensures_rejectIf, ensures_ofExcept, ensures_ite, ensures_pure]
  refine ⟨fun _ => id, fun _ => (observe_endpoint e .workerToParent header).mono ?_ ?_⟩
  · rintro _ e₁ ⟨hChannel, hObserve⟩
    have hQuiet : Quiet e.transport → Quiet e₁.transport := by rw [hChannel]; exact id
    refine ⟨fun bytes _ => (onChannel_endpoint (writeAll_quiet bytes) e₁).mono ?_ ?_, fun _ _ => hQuiet⟩
    · rintro _ e₂ ⟨hStep, hValidator⟩
      refine ⟨fun _ => (onChannel_endpoint (writeAll_quiet payload) e₂).mono ?_ ?_, fun _ => ?_⟩
      · rintro _ e₃ ⟨hStep', hValidator'⟩
        exact ⟨hStep' ∘ hStep ∘ hQuiet, by rw [hValidator', hValidator, hObserve]⟩
      · exact fun _ _ hStep' => hStep' ∘ hStep ∘ hQuiet
      · exact ⟨hStep ∘ hQuiet, by rw [hValidator, hObserve]⟩
    · exact fun _ _ hStep => hStep ∘ hQuiet
  · rintro _ e₁ hChannel
    rw [hChannel]
    exact id

end Endpoint

namespace Service

variable {τ δ : Type}

abbrev Logged (τ δ : Type) := Service (Recorded TransportCall τ) (Recorded DispatchCall δ)

structure Sound (s : Logged τ δ) : Prop where
  bracketed : Bracketed s.dispatchActive s.dispatch.calls
  quiet : Quiet s.transport

/-- What the methods keep as long as they return `Ok`. -/
structure Live (limits : ServiceLimits) (p : Phase) (s : Logged τ δ) : Prop extends Sound s where
  tracks : s.validator.Tracks p
  limits_eq : s.limits = limits
  budgets_eq : s.validator.budgets = limits.protocolBudgets
  steps_le : s.dispatchSteps ≤ limits.maximumDispatchSteps

def spent (s : Logged τ δ) : Nat := s.validator.messageCount + s.dispatchSteps

/-- `t` differs from `s` in its endpoint, bookkeeping of reads and frames apart. -/
structure SameRequest (s t : Logged τ δ) : Prop where
  dispatch : t.dispatch = s.dispatch
  dispatchActive : t.dispatchActive = s.dispatchActive
  limits : t.limits = s.limits
  steps : t.dispatchSteps = s.dispatchSteps
  quiet : Quiet s.transport → Quiet t.transport

theorem SameRequest.sound {s t : Logged τ δ} (h : SameRequest s t) (hSound : Sound s) : Sound t :=
  ⟨by rw [h.dispatchActive, h.dispatch]; exact hSound.bracketed, h.quiet hSound.quiet⟩

/-- The validator of `t` is that of `s` after one accepted frame. -/
def Observed (s t : Logged τ δ) (direction : Direction) (header : FrameHeader) : Prop :=
  s.validator.observe direction header = (.ok (), t.validator)

variable {limits : ServiceLimits} {p : Phase}

theorem Live.observed {s t : Logged τ δ} {direction : Direction} {header : FrameHeader}
    (h : Live limits p s) (hSame : SameRequest s t) (hObserved : Observed s t direction header) :
    ∃ p', (letterOf direction header).bind p.next = some p' ∧ Live limits p' t ∧
      spent t = spent s + 1 := by
  obtain ⟨-, -, -, -, hCharged, p', hNext, hTracks⟩ := SessionValidator.observe_ok h.tracks hObserved
  refine ⟨p', hNext, ⟨hSame.sound h.toSound, hTracks, hSame.limits.trans h.limits_eq,
    hCharged.budgets.trans h.budgets_eq, hSame.steps ▸ h.steps_le⟩, ?_⟩
  rw [spent, spent, hCharged.messageCount, hSame.steps]
  omega

theorem Live.same {s t : Logged τ δ} (h : Live limits p s) (hSame : SameRequest s t)
    (hValidator : t.validator = s.validator) : Live limits p t ∧ spent t = spent s := by
  refine ⟨⟨hSame.sound h.toSound, hValidator ▸ h.tracks, hSame.limits.trans h.limits_eq,
    hValidator ▸ h.budgets_eq, hSame.steps ▸ h.steps_le⟩, ?_⟩
  rw [spent, spent, hValidator, hSame.steps]

theorem onEndpoint_ensures {α : Type}
    {m : Machine ServiceFailure (Endpoint (Recorded TransportCall τ)) α} {s : Logged τ δ}
    {Q : α → Endpoint (Recorded TransportCall τ) → Prop}
    (h : Ensures m s.toEndpoint (fun a e => (Quiet s.transport → Quiet e.transport) ∧ Q a e)
      fun _ e => Quiet s.transport → Quiet e.transport) :
    Ensures (onEndpoint m) s (fun a t => SameRequest s t ∧ Q a t.toEndpoint)
      fun _ t => SameRequest s t := by
  rw [onEndpoint, ensures_zoom]
  exact h.mono (fun _ _ h => ⟨⟨rfl, rfl, rfl, rfl, h.1⟩, h.2⟩) fun _ _ h => ⟨rfl, rfl, rfl, rfl, h⟩

theorem observe_ensures (s : Logged τ δ) (direction : Direction) (header : FrameHeader) :
    Ensures (onEndpoint (observe direction header)) s
      (fun _ t => SameRequest s t ∧ Observed s t direction header) fun _ t => SameRequest s t :=
  onEndpoint_ensures ((observe_endpoint s.toEndpoint direction header).mono
    (fun _ e h => ⟨fun hQuiet => by rwa [h.1], h.2⟩) fun _ e h hQuiet => by rwa [h])

/-- `t` is `s` after one more logged dispatcher call. -/
def Asked (s t : Logged τ δ) (call : DispatchCall) : Prop :=
  ∃ d : Recorded DispatchCall δ, t = { s with dispatch := d } ∧ d.calls = s.dispatch.calls ++ [call]

theorem ask_ensures {α : Type} (log : Except DispatchError α → DispatchCall)
    (f : δ → Except DispatchError α × δ) (s : Logged τ δ) :
    Ensures (ask (Recorded.call log f)) s (fun a t => Asked s t (log (.ok a)))
      fun _ t => ∃ e, Asked s t (log (.error e)) := by
  rw [ask, ensures_zoom, ensures_ofFun]
  simp only [Recorded.call, Prod.mk.injEq]
  constructor
  · rintro a d ⟨hResult, rfl⟩
    exact ⟨_, rfl, by rw [hResult]⟩
  · rintro e d ⟨hResult, rfl⟩
    exact ⟨e, _, rfl, by rw [hResult]⟩

theorem Asked.live {s t : Logged τ δ} {call : DispatchCall} (hAsked : Asked s t call)
    (hLive : Live limits p s) (hActive : s.dispatchActive = true) (hCall : call.isWork) :
    Live limits p t ∧ t.dispatchActive = true ∧ spent t = spent s := by
  obtain ⟨d, rfl, hCalls⟩ := hAsked
  have hOpen : Bracketed true s.dispatch.calls := hActive ▸ hLive.bracketed
  refine ⟨⟨⟨?_, hLive.quiet⟩, hLive.tracks, hLive.limits_eq, hLive.budgets_eq, hLive.steps_le⟩,
    hActive, rfl⟩
  simp only [hActive, hCalls]
  exact hOpen.work hCall

/-- The state between two turns: a request is active for the dispatcher exactly
when it is for the validator. -/
def Steady (limits : ServiceLimits) (n : Nat) (s : Logged τ δ) : Prop :=
  ∃ p, Live limits p s ∧ s.dispatchActive = p.isActive ∧ n ≤ spent s

theorem Live.steady {s : Logged τ δ} {n : Nat} (h : Live limits p s)
    (hActive : s.dispatchActive = p.isActive) (hSpent : n ≤ spent s) : Steady limits n s :=
  ⟨p, h, hActive, hSpent⟩

theorem prepare_ok {s : Logged τ δ} {action : DispatchAction} {prepared : PreparedFrame}
    (h : s.prepare action = .ok prepared) :
    prepared.header.messageType = prepared.commit.messageType := by
  cases action <;>
    simp only [prepare, prepareReadRequest, prepareEntryBatch, prepareDataChunk, prepareComplete,
      Result.ite_error_eq_ok, Result.bind_eq_ok] at h
  case needRead =>
    obtain ⟨-, _, -, h⟩ := h
    exact PreparedFrame.new_ok h rfl
  case entryBatch =>
    obtain ⟨-, -, _, -, _, -, h⟩ := h
    split at h
    · cases h
    · exact PreparedFrame.new_ok h rfl
  case dataChunk =>
    obtain ⟨-, _, -, -, h⟩ := h
    exact PreparedFrame.new_ok h rfl
  case complete =>
    obtain ⟨_, -, _, -, h⟩ := h
    exact PreparedFrame.new_ok h rfl

theorem isActive_of_sent {header : FrameHeader} {commit : Commit} {p' : Phase}
    (hType : header.messageType = commit.messageType)
    (hNext : (letterOf .workerToParent header).bind p.next = some p') :
    p'.isActive = (p.isActive && !commit.isComplete) := by
  cases commit <;> rw [Commit.messageType] at hType <;>
    simp only [letterOf, hType, Option.bind_some, Phase.next] at hNext <;>
    exact Phase.isActive_of_worker hNext

section Dispatch

variable [Dispatcher δ]

theorem begin_ensures {s : Logged τ δ} {kind : RequestKind} {id : UInt64} {p' : Phase}
    (hNext : p.parent (.request kind id) = some p') (hActive : s.dispatchActive = p.isActive)
    (hLive : Live limits p' s) (operation : Operation) (token : UInt64) (policy : SourceReadPolicy) :
    Ensures (ask (Dispatcher.begin operation token policy)) s
      (fun _ t => Asked s t (.begin true) ∧ Bracketed true t.dispatch.calls) fun _ t => Sound t := by
  have hInactive : s.dispatchActive = false := hActive.trans (Phase.isActive_of_request hNext).1
  have hClosed : Bracketed false s.dispatch.calls := hInactive ▸ hLive.bracketed
  refine (ask_ensures _ _ s).mono ?_ ?_
  · rintro _ t hAsked
    have hAsked' := hAsked
    obtain ⟨d, rfl, hCalls⟩ := hAsked'
    exact ⟨hAsked, by rw [hCalls]; exact hClosed.begin_ok⟩
  · rintro _ t ⟨e, d, rfl, hCalls⟩
    refine ⟨?_, hLive.quiet⟩
    simp only [hInactive, hCalls]
    exact hClosed.begin_error

theorem requestToken_ok {frame : FrameView} {operation : Operation} {token : UInt64}
    (h : requestToken frame operation = .ok token) :
    ∃ kind, letterOf .parentToWorker frame.header =
      some (.parent (.request kind frame.header.requestId)) := by
  cases operation with
  | enumerate =>
    obtain ⟨_, hDecode, -⟩ := Result.bind_eq_ok.mp h
    exact ⟨.enumerate, by simp [letterOf, (decodeEmpty_ok hDecode).messageType_eq]⟩
  | stream =>
    obtain ⟨_, hDecode, -⟩ := Result.bind_eq_ok.mp h
    exact ⟨.stream, by simp [letterOf, (decodeStreamEntryPayload_ok hDecode).messageType_eq]⟩

variable {s : Logged τ δ}

theorem beginOperation_ensures (hLive : Live limits p s) (hActive : s.dispatchActive = p.isActive)
    (header : FrameHeader) (operation : Operation) :
    Ensures (beginOperation header operation) s
      (fun flow t => flow = .continue_ ∧ Steady limits (spent s + 1) t) fun _ t => Sound t := by
  simp only [beginOperation, ensures_bind, ensures_get, ensures_ofExcept]
  refine ⟨fun token hToken => ?_, fun _ _ => hLive.toSound⟩
  refine (observe_ensures s .parentToWorker header).mono ?_ fun _ t hSame => hSame.sound hLive.toSound
  rintro _ t ⟨hSame, hObserved⟩
  obtain ⟨p', hNext, hLive', hSpent⟩ := hLive.observed hSame hObserved
  obtain ⟨kind, hLetter⟩ := requestToken_ok hToken
  have hParent : p.parent (.request kind header.requestId) = some p' := by
    rw [show letterOf .parentToWorker header = _ from hLetter] at hNext
    exact hNext
  refine (begin_ensures hParent (hSame.dispatchActive.trans hActive) hLive' operation token
    s.sourcePolicy).mono ?_ fun _ _ h => h
  rintro size u ⟨⟨d, rfl, hCalls⟩, hOpen⟩
  simp only [ensures_ite, ensures_bind, ensures_modify, ensures_pure, ensures_throw, true_and]
  refine ⟨fun _ => ?_, fun _ => ?_⟩
  · refine Live.steady (p := p') ⟨⟨hOpen, hLive'.quiet⟩, hLive'.tracks, hLive'.limits_eq,
      hLive'.budgets_eq, hLive'.steps_le⟩ (Phase.isActive_of_request hParent).2.symm ?_
    exact hSpent.ge
  · -- A stream size out of range: the request is cancelled while the flag is still false.
    have hInactive : t.dispatchActive = false :=
      hSame.dispatchActive.trans (hActive.trans (Phase.isActive_of_request hParent).1)
    refine ⟨?_, hLive'.quiet⟩
    simp only [hInactive]
    exact hOpen.close rfl

theorem acceptReadReply_ensures (hLive : Live limits p s) (hActive : s.dispatchActive = p.isActive)
    (header : FrameHeader) (discard : Bool) (hDiscard : discard = false → s.dispatchActive = true) :
    Ensures (acceptReadReply header discard) s (fun _ t => Steady limits (spent s + 1) t)
      fun _ t => Sound t := by
  simp only [acceptReadReply, ensures_bind, ensures_get, ensures_rejectIf, ensures_ofExcept,
    ensures_modify]
  refine ⟨fun _ => hLive.toSound, fun _ => ⟨fun reply hReply => ?_, fun _ _ => hLive.toSound⟩⟩
  refine (observe_ensures s .parentToWorker header).mono ?_ fun _ t hSame => hSame.sound hLive.toSound
  rintro _ t ⟨hSame, hObserved⟩
  obtain ⟨p', hNext, hLive', hSpent⟩ := hLive.observed hSame hObserved
  have hType : header.messageType = .readReply := (decodeReadReplyPayload_ok hReply).messageType_eq
  have hParent : p.parent (.readReply header.requestId) = some p' := by
    simpa [letterOf, hType, Phase.next] using hNext
  have hActive' : t.dispatchActive = p'.isActive := by
    rw [hSame.dispatchActive, hActive, Phase.isActive_of_readReply hParent]
  obtain ⟨hLive₁, hSpent₁⟩ := hLive'.same (t := { t with
    pendingRead := false
    lateReadReply := false
    nextReadSequence := t.pendingReadSequence + 1
    pendingReadSequence := 0
    pendingReadLength := 0 }) ⟨rfl, rfl, rfl, rfl, id⟩ rfl
  simp only [ensures_ite, ensures_pure, ensures_throw]
  refine ⟨fun _ => hLive₁.steady hActive' (by omega), fun hKeep => ⟨fun _ => hLive₁.toSound, fun _ => ?_⟩⟩
  have hOpen : t.dispatchActive = true := hSame.dispatchActive.trans (hDiscard (by simpa using hKeep))
  refine (ask_ensures _ _ _).mono ?_ ?_
  · rintro _ u hAsked
    obtain ⟨hLive₂, hActive₂, hSpent₂⟩ := hAsked.live hLive₁ hOpen rfl
    exact hLive₂.steady (hActive₂.trans (hOpen.symm.trans hActive')) (by omega)
  · rintro _ u ⟨_, hAsked⟩
    exact (hAsked.live hLive₁ hOpen rfl).1.toSound

theorem handleLateReadReply_ensures (hLive : Live limits p s)
    (hActive : s.dispatchActive = p.isActive) (header : FrameHeader) :
    Ensures (handleLateReadReply header) s
      (fun flow t => flow = .continue_ ∧ Steady limits (spent s + 1) t) fun _ t => Sound t := by
  simp only [handleLateReadReply, ensures_bind, ensures_get, ensures_rejectIf, ensures_pure, true_and]
  refine ⟨fun _ => hLive.toSound, fun _ => ?_⟩
  exact acceptReadReply_ensures hLive hActive header true (fun h => absurd h (by decide))

end Dispatch

section Transport

variable [Transport τ]

theorem receive_ensures (s : Logged τ δ) :
    Ensures receive s (fun _ t => SameRequest s t ∧ t.validator = s.validator)
      fun _ t => SameRequest s t := by
  simp only [receive, ensures_bind, ensures_get]
  exact onEndpoint_ensures (onChannel_endpoint (receiveFrame_quiet s.sessionId) s.toEndpoint)

theorem sendFrame_ensures (s : Logged τ δ) (header : FrameHeader) (payload : List UInt8) :
    Ensures (onEndpoint (sendFrame header payload)) s
      (fun _ t => SameRequest s t ∧ Observed s t .workerToParent header)
      fun _ t => SameRequest s t :=
  onEndpoint_ensures (sendFrame_endpoint s.toEndpoint header payload)

/-- A closed session: brackets all closed, the transport closed once and not aborted. -/
structure Shut (s : Logged τ δ) : Prop where
  bracketed : WellBracketed s.dispatch.calls
  closed : s.transport.calls.count .closeIo = 1
  notAborted : s.transport.calls.count .abortIo = 0

variable {s : Logged τ δ}

theorem handleShutdown_ensures (hLive : Live limits p s) (hActive : s.dispatchActive = p.isActive)
    (header : FrameHeader) :
    Ensures (handleShutdown header) s (fun flow t => flow = .shutdown ∧ Shut t) fun _ t => Sound t := by
  simp only [handleShutdown, ensures_bind, ensures_get, ensures_ofExcept, ensures_modify, ensures_pure,
    true_and]
  refine ⟨fun _ hDecode => ?_, fun _ _ => hLive.toSound⟩
  refine (observe_ensures s .parentToWorker header).mono ?_ fun _ t hSame => hSame.sound hLive.toSound
  rintro _ t ⟨hSame, hObserved⟩
  obtain ⟨p', hNext, hLive', -⟩ := hLive.observed hSame hObserved
  have hType : header.messageType = .shutdown := (decodeEmpty_ok hDecode).messageType_eq
  have hParent : p.parent .shutdown = some p' := by simpa [letterOf, hType, Phase.next] using hNext
  have hInactive : t.dispatchActive = false :=
    hSame.dispatchActive.trans (hActive.trans (Phase.isActive_of_shutdown hParent))
  have hClosed : Bracketed false t.dispatch.calls := hInactive ▸ hLive'.bracketed
  obtain ⟨hAbort, hClose⟩ := hLive'.quiet
  refine ⟨hClosed, ?_, ?_⟩
  · simp [Transport.closeIo, Recorded.notify, List.count_eq_zero.mpr hClose]
  · simp [Transport.closeIo, Recorded.notify, List.count_eq_zero.mpr hAbort]

end Transport

section Both

variable [Transport τ] [Dispatcher δ] {s : Logged τ δ}

theorem handleCancel_ensures (hLive : Live limits p s) (hActive : s.dispatchActive = p.isActive)
    (header : FrameHeader) :
    Ensures (handleCancel header) s
      (fun flow t => flow = .continue_ ∧ Steady limits (spent s + 1) t) fun _ t => Sound t := by
  simp only [handleCancel, ensures_bind, ensures_get, ensures_ofExcept]
  refine ⟨fun _ hDecode => ?_, fun _ _ => hLive.toSound⟩
  refine (observe_ensures s .parentToWorker header).mono ?_ fun _ t hSame => hSame.sound hLive.toSound
  rintro _ t ⟨hSame, hObserved⟩
  obtain ⟨p', hNext, hLive', hSpent⟩ := hLive.observed hSame hObserved
  have hType : header.messageType = .cancel := (decodeEmpty_ok hDecode).messageType_eq
  have hParent : p.parent (.cancel header.requestId) = some p' := by
    simpa [letterOf, hType, Phase.next] using hNext
  obtain ⟨hEnded, hPhase⟩ := Phase.isActive_of_cancel hParent
  simp only [ensures_ite, ensures_bind, ensures_pure, ensures_rejectIf, ensures_modify, true_and]
  refine ⟨fun hIdle => ?_, fun hBusy => ⟨fun _ => hLive'.toSound, fun _ => ?_⟩⟩
  · -- A stale cancel: the request had already been completed.
    have hInactive : p.isActive = false := by
      cases p with
      | active kind id read => cases kind <;> simp [hLive.tracks.1, RequestKind.state] at hIdle
      | _ => rfl
    exact hLive'.steady (hSame.dispatchActive.trans (hActive.trans (hInactive.trans hEnded.symm))) hSpent.ge
  · have hOpen : t.dispatchActive = true := by
      rw [hSame.dispatchActive, hActive]
      refine hPhase.resolve_left ?_
      rintro ⟨last, late, rfl⟩
      cases late <;> exact hBusy hLive.tracks.1
    have hClosed : Bracketed false (t.dispatch.calls ++ [.cancel]) :=
      Bracketed.close (hOpen ▸ hLive'.bracketed) rfl
    have hCancelled : Live limits p' { t with
        dispatch := Dispatcher.cancel t.dispatch
        dispatchActive := false
        lateReadReply := t.pendingRead } :=
      ⟨⟨hClosed, hLive'.quiet⟩, hLive'.tracks, hLive'.limits_eq, hLive'.budgets_eq, hLive'.steps_le⟩
    refine (sendFrame_ensures _ _ _).mono ?_ fun _ u hSame' => hSame'.sound hCancelled.toSound
    rintro _ u ⟨hSame', hObserved'⟩
    obtain ⟨p'', hNext', hLive'', hSpent'⟩ := hCancelled.observed hSame' hObserved'
    have hAck : p'.worker (.cancelAck header.requestId) = some p'' := hNext'
    have hDone : p''.isActive = false := by rw [Phase.isActive_of_worker hAck, hEnded, Bool.false_and]
    obtain ⟨hLast, hSpentLast⟩ := hLive''.same (t := { u with activeRequestId := 0 })
      ⟨rfl, rfl, rfl, rfl, id⟩ rfl
    refine hLast.steady (hSame'.dispatchActive.trans hDone.symm) ?_
    change spent _ = spent t + 1 at hSpent'
    omega

theorem handleParentFrame_ensures (hLive : Live limits p s)
    (hActive : s.dispatchActive = p.isActive) (header : FrameHeader) :
    Ensures (handleParentFrame header) s
      (fun flow t => match flow with
        | .continue_ => Steady limits (spent s + 1) t
        | .shutdown => Shut t) fun _ t => Sound t := by
  unfold handleParentFrame
  split
  · refine (beginOperation_ensures hLive hActive header .enumerate).mono ?_ fun _ _ h => h
    rintro _ t ⟨rfl, hSteady⟩
    exact hSteady
  · refine (beginOperation_ensures hLive hActive header .stream).mono ?_ fun _ _ h => h
    rintro _ t ⟨rfl, hSteady⟩
    exact hSteady
  · refine (handleCancel_ensures hLive hActive header).mono ?_ fun _ _ h => h
    rintro _ t ⟨rfl, hSteady⟩
    exact hSteady
  · refine (handleLateReadReply_ensures hLive hActive header).mono ?_ fun _ _ h => h
    rintro _ t ⟨rfl, hSteady⟩
    exact hSteady
  · refine (handleShutdown_ensures hLive hActive header).mono ?_ fun _ _ h => h
    rintro _ t ⟨rfl, hShut⟩
    exact hShut
  · exact hLive.toSound

theorem awaitReadReplyOrCancel_ensures (hLive : Live limits p s)
    (hActive : s.dispatchActive = p.isActive) (hOpen : s.dispatchActive = true) :
    Ensures awaitReadReplyOrCancel s (fun _ t => Steady limits (spent s + 1) t)
      fun _ t => Sound t := by
  rw [awaitReadReplyOrCancel, ensures_bind]
  refine (receive_ensures s).mono ?_ fun _ t hSame => hSame.sound hLive.toSound
  rintro header t ⟨hSame, hValidator⟩
  obtain ⟨hLive', hSpent⟩ := hLive.same hSame hValidator
  have hActive' : t.dispatchActive = p.isActive := hSame.dispatchActive.trans hActive
  rw [← hSpent]
  split
  · rw [ensures_bind]
    exact (handleCancel_ensures hLive' hActive' header).mono (fun _ _ h => h.2) fun _ _ h => h
  · exact acceptReadReply_ensures hLive' hActive' header false
      (fun _ => hSame.dispatchActive.trans hOpen)
  · exact hLive'.toSound

theorem commitFrame_ensures {commit : Commit} {p' : Phase} (hLive : Live limits p' s)
    (hOpen : s.dispatchActive = true) (hPhase : p'.isActive = !commit.isComplete) :
    Ensures (commitFrame commit) s (fun _ t => Steady limits (spent s) t) fun _ t => Sound t := by
  cases commit with
  | readRequest sequence length =>
    refine (awaitReadReplyOrCancel_ensures hLive (hOpen.trans hPhase.symm) hOpen).mono ?_ fun _ _ h => h
    rintro _ t ⟨p'', hLive', hActive, hSpent⟩
    exact hLive'.steady hActive (by omega)
  | entryBatch next =>
    obtain ⟨hLive', hSpent⟩ := hLive.same (t := { s with enumeration := next })
      ⟨rfl, rfl, rfl, rfl, id⟩ rfl
    exact hLive'.steady (hOpen.trans hPhase.symm) hSpent.ge
  | dataChunk remaining =>
    obtain ⟨hLive', hSpent⟩ := hLive.same (t := { s with remainingStreamBytes := remaining })
      ⟨rfl, rfl, rfl, rfl, id⟩ rfl
    exact hLive'.steady (hOpen.trans hPhase.symm) hSpent.ge
  | complete =>
    have hClosed : Bracketed false (s.dispatch.calls ++ [.end_]) :=
      Bracketed.close (hOpen ▸ hLive.bracketed) rfl
    refine Live.steady (p := p') ⟨⟨hClosed, hLive.quiet⟩, hLive.tracks, hLive.limits_eq,
      hLive.budgets_eq, hLive.steps_le⟩ hPhase.symm le_rfl

theorem dispatchStep_ensures (hLive : Live limits p s) (hActive : s.dispatchActive = p.isActive)
    (hOpen : s.dispatchActive = true) :
    Ensures dispatchStep s (fun _ t => Steady limits (spent s + 1) t) fun _ t => Sound t := by
  simp only [dispatchStep, ensures_bind, ensures_get, ensures_rejectIf, ensures_modify,
    ensures_ofExcept]
  refine ⟨fun _ => hLive.toSound, fun hSteps => ?_⟩
  have hCounted : Live limits p { s with dispatchSteps := s.dispatchSteps + 1 } := by
    rw [hLive.limits_eq] at hSteps
    exact ⟨⟨hLive.bracketed, hLive.quiet⟩, hLive.tracks, hLive.limits_eq, hLive.budgets_eq,
      Nat.lt_of_not_le hSteps⟩
  refine (ask_ensures _ _ _).mono ?_ ?_
  · rintro action t hAsked
    obtain ⟨hLive₁, hOpen₁, hSpent₁⟩ := hAsked.live hCounted hOpen rfl
    refine ⟨fun prepared hPrepared => ?_, fun _ _ => hLive₁.toSound⟩
    have hRecorded : SameRequest t (t.recordRead prepared.commit) ∧
        (t.recordRead prepared.commit).validator = t.validator := by
      cases prepared.commit <;> exact ⟨⟨rfl, rfl, rfl, rfl, id⟩, rfl⟩
    obtain ⟨hLive₂, hSpent₂⟩ := hLive₁.same hRecorded.1 hRecorded.2
    refine (sendFrame_ensures _ _ _).mono ?_ fun _ u hSame => hSame.sound hLive₂.toSound
    rintro _ u ⟨hSame, hObserved⟩
    obtain ⟨p', hNext, hLive₃, hSpent₃⟩ := hLive₂.observed hSame hObserved
    have hPhase := isActive_of_sent (prepare_ok hPrepared) hNext
    rw [← hActive, hOpen, Bool.true_and] at hPhase
    have hOpen₃ : u.dispatchActive = true :=
      hSame.dispatchActive.trans (hRecorded.1.dispatchActive.trans hOpen₁)
    refine (commitFrame_ensures hLive₃ hOpen₃ hPhase).mono ?_ fun _ _ h => h
    rintro _ w ⟨p'', hLive₄, hActive₄, hSpent₄⟩
    have hStep : spent { s with dispatchSteps := s.dispatchSteps + 1 } = spent s + 1 := rfl
    exact hLive₄.steady hActive₄ (by omega)
  · rintro _ t ⟨_, hAsked⟩
    exact (hAsked.live hCounted hOpen rfl).1.toSound

theorem runActiveOperation_ensures (hLive : Live limits p s)
    (hActive : s.dispatchActive = p.isActive) (hOpen : s.dispatchActive = true) :
    Ensures runActiveOperation s (fun _ t => Steady limits (spent s + 1) t) fun _ t => Sound t := by
  rw [runActiveOperation, ensures_bind, probeInput, ensures_ofFun]
  refine ⟨fun status t hProbe => ?_, fun _ _ hProbe => by cases hProbe⟩
  have hSame : SameRequest s t ∧ t.validator = s.validator := by
    cases hProbe
    exact ⟨⟨rfl, rfl, rfl, rfl, fun hQuiet => hQuiet.call (by decide) _⟩, rfl⟩
  obtain ⟨hLive₁, hSpent₁⟩ := hLive.same hSame.1 hSame.2
  have hActive₁ : t.dispatchActive = p.isActive := hSame.1.dispatchActive.trans hActive
  rw [← hSpent₁]
  cases status with
  | peerClosed => exact hLive₁.toSound
  | failed => exact hLive₁.toSound
  | unavailable => exact dispatchStep_ensures hLive₁ hActive₁ (hSame.1.dispatchActive.trans hOpen)
  | available =>
    simp only [ensures_bind, ensures_rejectIf, ensures_pure]
    refine (receive_ensures t).mono ?_ fun _ u hSame' => hSame'.sound hLive₁.toSound
    rintro header u ⟨hSame', hValidator'⟩
    obtain ⟨hLive₂, hSpent₂⟩ := hLive₁.same hSame' hValidator'
    rw [← hSpent₂]
    refine ⟨fun _ => hLive₂.toSound, fun _ => ?_⟩
    exact (handleCancel_ensures hLive₂ (hSame'.dispatchActive.trans hActive₁) header).mono
      (fun _ _ h => h.2) fun _ _ h => h

theorem Tracks.isActive_of_state {v : SessionValidator} (h : v.Tracks p)
    (hState : v.state = .enumerating ∨ v.state = .streaming) : p.isActive = true := by
  cases p with
  | active kind id read => rfl
  | idle last late => cases late <;> simp [h.1] at hState
  | cancelled late => cases late <;> simp [h.1] at hState
  | closed => simp [show v.state = .closed from h] at hState
  | _ => simp [h.1] at hState

theorem turn_ensures {n : Nat} (hSteady : Steady limits n s) :
    Ensures turn s (fun r t => match r with
      | none => Steady limits (spent s + 1) t
      | some () => Shut t) fun _ t => Sound t := by
  obtain ⟨p, hLive, hActive, -⟩ := hSteady
  have hServe (hState : s.validator.state = .enumerating ∨ s.validator.state = .streaming) :
      Ensures (do runActiveOperation; return none) s (fun r t => match r with
        | none => Steady limits (spent s + 1) t
        | some () => Shut t) fun _ t => Sound t := by
    rw [ensures_bind]
    exact runActiveOperation_ensures hLive hActive
      (hActive.trans (Tracks.isActive_of_state hLive.tracks hState))
  simp only [turn, ensures_bind, ensures_get]
  split
  · exact hServe (.inl ‹_›)
  · exact hServe (.inr ‹_›)
  · simp only [ensures_bind, ensures_pure]
    refine (receive_ensures s).mono ?_ fun _ t hSame => hSame.sound hLive.toSound
    rintro header t ⟨hSame, hValidator⟩
    obtain ⟨hLive', hSpent⟩ := hLive.same hSame hValidator
    refine (handleParentFrame_ensures hLive' (hSame.dispatchActive.trans hActive) header).mono ?_
      fun _ _ h => h
    rw [hSpent]
    rintro (_ | _) u h <;> exact h

theorem run_terminates (hSteady : Steady limits 0 s) (fuel : Nat)
    (hFuel : limits.protocolBudgets.maximumMessages + limits.maximumDispatchSteps < fuel) :
    ∃ r, s.run fuel = some r ∧ Outcome (fun _ t => Shut t) (fun _ t => Sound t) r := by
  refine repeatFor_ensures (Steady limits 0)
    (fun s => limits.protocolBudgets.maximumMessages + limits.maximumDispatchSteps - spent s)
    ?_ fuel s hSteady (by omega)
  intro s hSteady
  refine (turn_ensures hSteady).mono ?_ fun _ _ h => h
  rintro (_ | _) t h
  · obtain ⟨p, hLive, hActive, hSpent⟩ := h
    refine ⟨hLive.steady hActive (Nat.zero_le _), ?_⟩
    have hMessages := t.validator.messageCount_le
    rw [hLive.budgets_eq] at hMessages
    have hSteps := hLive.steps_le
    have hTotal : spent t = t.validator.messageCount + t.dispatchSteps := rfl
    omega
  · exact h

end Both

end Service

section Lifetime

variable {τ δ : Type} [Transport τ] [Dispatcher δ]

theorem handshake_ensures (limits : ServiceLimits) (c : Channel (Recorded TransportCall τ))
    (hQuiet : Quiet c.transport) :
    Ensures (handshake limits) c
      (fun r c' => Quiet c'.transport ∧ r.1.Tracks (.idle 0 none) ∧ r.1.budgets = limits.protocolBudgets)
      fun _ c' => Quiet c'.transport := by
  rw [handshake, ensures_bind]
  refine (receiveFrame_quiet 0 c hQuiet).mono ?_ fun _ _ h => h
  intro header c₁ hQuiet₁
  simp only [ensures_bind, ensures_get, ensures_ofExcept]
  refine ⟨fun hello hHello => ?_, fun _ _ => hQuiet₁⟩
  have hType : header.messageType = .hello := (decodeHelloPayload_ok hHello).messageType_eq
  split
  · exact hQuiet₁
  · rename_i sessionId _
    simp only [ensures_bind, ensures_ofExcept, ensures_zoom, ensures_get, ensures_pure]
    refine ⟨fun policy _ => (observe_endpoint _ _ _).mono ?_ ?_, fun _ _ => hQuiet₁⟩
    · rintro _ e ⟨hChannel, hObserve⟩
      have hQuiet₂ : Quiet e.transport := by rw [hChannel]; exact hQuiet₁
      obtain ⟨-, -, -, -, hCharged, p, hNext, hTracks⟩ :=
        SessionValidator.observe_ok (SessionValidator.new_tracks _ _) hObserve
      simp only [letterOf, hType, Option.bind_some, Phase.next, Phase.parent, Option.some.injEq] at hNext
      subst hNext
      refine (sendFrame_endpoint e _ _).mono ?_ fun _ _ h => h hQuiet₂
      rintro _ e' ⟨hQuiet₃, hObserve'⟩
      obtain ⟨-, -, -, -, hCharged', p', hNext', hTracks'⟩ := SessionValidator.observe_ok hTracks hObserve'
      cases (show some (Phase.idle 0 none) = some p' from hNext')
      exact ⟨hQuiet₃ hQuiet₂, hTracks', hCharged'.budgets.trans hCharged.budgets⟩
    · rintro _ e hChannel
      rw [hChannel]
      exact hQuiet₁

theorem Quiet.abortIo {t : Recorded TransportCall τ} (h : Quiet t) :
    (Transport.abortIo t).calls.count .abortIo = 1 ∧ (Transport.abortIo t).calls.count .closeIo = 0 := by
  obtain ⟨hAbort, hClose⟩ := h
  simp [Transport.abortIo, Recorded.notify, List.count_eq_zero.mpr hAbort, List.count_eq_zero.mpr hClose]

theorem teardown_wellBracketed {s : Service.Logged τ δ} (h : s.Sound) :
    WellBracketed s.teardown.dispatch.calls ∧ s.teardown.transport = Transport.abortIo s.transport := by
  have hBracketed := h.bracketed
  cases hActive : s.dispatchActive with
  | false =>
    rw [hActive] at hBracketed
    simp only [Service.teardown, hActive]
    exact ⟨hBracketed, rfl⟩
  | true =>
    rw [hActive] at hBracketed
    simp only [Service.teardown, hActive, if_true, and_true]
    exact hBracketed.close rfl

/-- Every lifetime returns, leaves the dispatcher with closed brackets, and ends
its transport once: aborted after a failure, closed after a shutdown. -/
theorem dispatcher_life_cycle (transport : τ) (dispatch : δ) (receivePayload : List UInt8)
    (sendPayload : Nat) (limits : ServiceLimits) (extra : Nat) :
    ∃ result, ∃ t : Recorded TransportCall τ, ∃ d : Recorded DispatchCall δ,
      runParserWorkerService
        (limits.protocolBudgets.maximumMessages + limits.maximumDispatchSteps + 1 + extra)
        (Recorded.start transport) (Recorded.start dispatch) receivePayload sendPayload limits =
        some (result, t, d) ∧
      WellBracketed d.calls ∧
      match result with
      | .ok _ => t.calls.count .closeIo = 1 ∧ t.calls.count .abortIo = 0
      | .error _ => t.calls.count .abortIo = 1 ∧ t.calls.count .closeIo = 0 := by
  have hFresh : Quiet (Recorded.start transport) := ⟨List.not_mem_nil, List.not_mem_nil⟩
  unfold runParserWorkerService
  split
  · exact ⟨_, _, _, rfl, .nil, hFresh.abortIo⟩
  have hHandshake := handshake_ensures limits ⟨Recorded.start transport, receivePayload⟩ hFresh
  split
  · rename_i failure c hExec
    exact ⟨_, _, _, rfl, .nil, (hHandshake.of_error hExec).abortIo⟩
  · rename_i validator sessionId sourcePolicy c hExec
    obtain ⟨hQuiet, hTracks, hBudgets⟩ := hHandshake.of_ok hExec
    have hSteady : Service.Steady limits 0 (Service.start c (Recorded.start dispatch) sendPayload limits
        validator sessionId sourcePolicy) :=
      Service.Live.steady ⟨⟨WellBracketed.nil, hQuiet⟩, hTracks, rfl, hBudgets, Nat.zero_le _⟩ rfl
        (Nat.zero_le _)
    obtain ⟨⟨r, s⟩, hRun, hEnd⟩ := Service.run_terminates hSteady
      (limits.protocolBudgets.maximumMessages + limits.maximumDispatchSteps + 1 + extra) (by omega)
    rw [hRun]
    cases r with
    | ok _ => exact ⟨_, _, _, rfl, hEnd.bracketed, hEnd.closed, hEnd.notAborted⟩
    | error failure =>
      obtain ⟨hBracketed, hTransport⟩ := teardown_wellBracketed hEnd
      refine ⟨_, _, _, rfl, hBracketed, ?_⟩
      rw [hTransport]
      exact hEnd.quiet.abortIo

end Lifetime

end OpenHalfLife.Worker
