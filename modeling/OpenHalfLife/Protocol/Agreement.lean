import OpenHalfLife.Lib.Duplex
import OpenHalfLife.Protocol.Phase

/-! # Duplex agreement

Parent and worker each run one validator, joined by one FIFO channel per
direction. Crossing frames reach the two sides in different orders; the
phases differ then only by an unserviceable read, which `Phase.le` absorbs.
-/

namespace OpenHalfLife.Protocol

set_option autoImplicit false

namespace Phase

/-- The parent phase may lag the worker phase by one crossed read request: the
parent saw it after its own cancel, the worker sent it before. -/
inductive le : Phase → Phase → Prop
  | refl (p : Phase) : le p p
  | crossed (kind : RequestKind) (id : UInt64) :
      le (cancelling kind id false true) (cancelling kind id true false)
  | drained (id : UInt64) : le (cancelled none) (cancelled (some id))

def automaton : Duplex.Automaton Phase ParentFrame WorkerFrame := ⟨parent, worker⟩

theorem parent_mono {p q p' : Phase} {frame : ParentFrame} (h : le p q)
    (hNext : p.parent frame = some p') : ∃ q', q.parent frame = some q' ∧ le p' q' := by
  cases h with
  | refl => exact ⟨p', hNext, .refl p'⟩
  | crossed kind id => cases frame <;> cases hNext
  | drained id =>
    cases frame <;> cases hNext
    exact ⟨closed, rfl, .refl closed⟩

theorem worker_mono {p q q' : Phase} {frame : WorkerFrame} (h : le p q)
    (hNext : q.worker frame = some q') : ∃ p', p.worker frame = some p' ∧ le p' q' := by
  cases h with
  | refl => exact ⟨q', hNext, .refl q'⟩
  | crossed kind id =>
    cases frame with
    | cancelAck id' =>
      simp only [worker, if_true, Option.ite_none_right_eq_some, Option.some.injEq] at hNext
      obtain ⟨hId, rfl⟩ := hNext
      exact ⟨cancelled none, by simp [worker, hId], .drained id⟩
    | _ => cases hNext
  | drained id => cases frame <;> cases hNext

/-- Only a cancel crosses worker traffic of an active request, and only a read
reply crosses a `cancel_ack`. -/
theorem crossing {p a b : Phase} {f : ParentFrame} {g : WorkerFrame} (hf : p.parent f = some a)
    (hg : p.worker g = some b) :
    ∃ c d, a.worker g = some c ∧ b.parent f = some d ∧ le c d := by
  cases p with
  | awaitingHello | idle _ _ | cancelled _ | closed => cases g <;> cases hg
  | awaitingReady => cases f <;> cases hf
  | active kind id read =>
    cases read with
    | true => cases g <;> cases hg
    | false =>
      cases f with
      | cancel id' =>
        simp only [parent, Option.ite_none_right_eq_some, Option.some.injEq] at hf
        obtain ⟨rfl, rfl⟩ := hf
        cases g with
        | ready | cancelAck _ => cases hg
        | readRequest id =>
          simp only [worker, Option.ite_none_right_eq_some, Option.some.injEq] at hg
          obtain ⟨rfl, rfl⟩ := hg
          exact ⟨_, _, if_pos rfl, if_pos rfl, .crossed kind id⟩
        | result kind' id =>
          simp only [worker, Option.ite_none_right_eq_some, Option.some.injEq] at hg
          obtain ⟨hSame, rfl⟩ := hg
          exact ⟨_, _, if_pos hSame, if_pos rfl, .refl _⟩
        | complete id =>
          simp only [worker, Option.ite_none_right_eq_some, Option.some.injEq] at hg
          obtain ⟨rfl, rfl⟩ := hg
          exact ⟨_, _, if_pos rfl, if_pos rfl, .refl _⟩
      | _ => cases hf
  | cancelling kind id read crossed =>
    cases f with
    | readReply id' =>
      cases read with
      | false => cases hf
      | true =>
        simp only [parent, Option.ite_none_right_eq_some, Option.some.injEq] at hf
        obtain ⟨rfl, rfl⟩ := hf
        cases g with
        | cancelAck id =>
          simp only [worker, if_true, Option.ite_none_right_eq_some, Option.some.injEq] at hg
          obtain ⟨rfl, rfl⟩ := hg
          refine ⟨cancelled none, cancelled none, ?_, if_pos rfl, .refl _⟩
          cases crossed <;> exact if_pos rfl
        | _ => cases hg
    | _ => simp [parent] at hf

theorem coherent : Duplex.Coherent automaton le where
  refl := .refl
  trans := by
    intro p q r hpq hqr
    cases hpq <;> cases hqr <;> constructor
  left_mono := parent_mono
  right_mono := worker_mono
  diamond := crossing

end Phase

structure Link where
  parent : SessionValidator
  worker : SessionValidator
  toWorker : List FrameHeader
  toParent : List FrameHeader

namespace Link

def start (sessionId : SessionId) (budgets : ProtocolBudgets) : Link :=
  ⟨.new sessionId budgets, .new sessionId budgets, [], []⟩

/-- A peer sends only what its own validator accepts; a received frame is
observed whatever the validator answers. -/
inductive Step : Link → Link → Prop
  | parentSend {p p' w : SessionValidator} {toW toP : List FrameHeader} (header : FrameHeader)
      (h : p.observe .parentToWorker header = (.ok (), p')) :
      Step ⟨p, w, toW, toP⟩ ⟨p', w, toW ++ [header], toP⟩
  | workerSend {p w w' : SessionValidator} {toW toP : List FrameHeader} (header : FrameHeader)
      (h : w.observe .workerToParent header = (.ok (), w')) :
      Step ⟨p, w, toW, toP⟩ ⟨p, w', toW, toP ++ [header]⟩
  | parentReceive {p w : SessionValidator} {toW toP : List FrameHeader} {header : FrameHeader} :
      Step ⟨p, w, toW, header :: toP⟩ ⟨(p.observe .workerToParent header).2, w, toW, toP⟩
  | workerReceive {p w : SessionValidator} {toW toP : List FrameHeader} {header : FrameHeader} :
      Step ⟨p, w, header :: toW, toP⟩ ⟨p, (w.observe .parentToWorker header).2, toW, toP⟩

abbrev Reaches (sessionId : SessionId) (budgets : ProtocolBudgets) : Link → Prop :=
  Relation.ReflTransGen Step (start sessionId budgets)

/-- A validator follows its phase until a budget stops it for good. -/
def Follows (sessionId : SessionId) (v : SessionValidator) (p : Phase) : Prop :=
  (v.error = none ∧ v.sessionId = sessionId ∧ v.Tracks p) ∨
    v.error = some .messageBudgetExceeded ∨ v.error = some .byteBudgetExceeded

/-- A header in flight was accepted by the validator of its sender. -/
def Carries (sessionId : SessionId) (direction : Direction) (header : FrameHeader)
    (letter : Letter) : Prop :=
  header.Valid ∧ header.sessionId = sessionId.value ∧ letterOf direction header = some letter

/-- The link shadows a pair of phases whose budgets are never exhausted. -/
structure Shadows (sessionId : SessionId) (l : Link)
    (c : Duplex.Config Phase ParentFrame WorkerFrame) : Prop where
  parent : Follows sessionId l.parent c.leftState
  worker : Follows sessionId l.worker c.rightState
  toWorker : List.Forall₂ (fun header frame => Carries sessionId .parentToWorker header (.parent frame))
    l.toWorker c.toRight
  toParent : List.Forall₂ (fun header frame => Carries sessionId .workerToParent header (.worker frame))
    l.toParent c.toLeft

def BudgetOnly (result : Except ProtocolError Unit) : Prop :=
  result = .ok () ∨ result = .error .messageBudgetExceeded ∨ result = .error .byteBudgetExceeded

theorem letterOf_parent {header : FrameHeader} {letter : Letter}
    (h : letterOf .parentToWorker header = some letter) : ∃ frame, letter = .parent frame := by
  unfold letterOf at h
  cases hType : header.messageType <;> simp only [hType] at h <;> cases h <;> exact ⟨_, rfl⟩

theorem letterOf_worker {header : FrameHeader} {letter : Letter}
    (h : letterOf .workerToParent header = some letter) : ∃ frame, letter = .worker frame := by
  unfold letterOf at h
  cases hType : header.messageType <;> simp only [hType] at h <;> cases h <;> exact ⟨_, rfl⟩

variable {sessionId : SessionId} {budgets : ProtocolBudgets} {v v' : SessionValidator}
  {p p' : Phase} {direction : Direction} {header : FrameHeader} {letter : Letter}

theorem Follows.receive (h : Follows sessionId v p)
    (hCarries : Carries sessionId direction header letter) (hNext : p.next letter = some p') :
    BudgetOnly (v.observe direction header).1 ∧
      Follows sessionId (v.observe direction header).2 p' := by
  obtain ⟨hValid, hHeader, hLetter⟩ := hCarries
  obtain ⟨hError, hSession, hTracks⟩ | hBudget | hBudget := h
  · have hMove : (letterOf direction header).bind p.next = some p' := by rw [hLetter]; exact hNext
    have hSame : header.sessionId = v.sessionId.value := by rw [hHeader, hSession]
    obtain ⟨-, v', hOk⟩ | ⟨-, e, v', hFail, hSticky, rfl | rfl⟩ :=
      SessionValidator.observe_of_next hError hTracks hValid hSame hMove
    · obtain ⟨-, -, -, -, hCharged, q, hq, hTracks'⟩ := SessionValidator.observe_ok hTracks hOk
      rw [hMove] at hq
      cases hq
      rw [hOk]
      exact ⟨.inl rfl, .inl ⟨hCharged.error.trans hError, hCharged.sessionId.trans hSession, hTracks'⟩⟩
    · rw [hFail]
      exact ⟨.inr (.inl rfl), .inr (.inl hSticky)⟩
    · rw [hFail]
      exact ⟨.inr (.inr rfl), .inr (.inr hSticky)⟩
  · rw [SessionValidator.observe_of_error hBudget]
    exact ⟨.inr (.inl rfl), .inr (.inl hBudget)⟩
  · rw [SessionValidator.observe_of_error hBudget]
    exact ⟨.inr (.inr rfl), .inr (.inr hBudget)⟩

theorem Follows.send (h : Follows sessionId v p)
    (hSend : v.observe direction header = (.ok (), v')) :
    ∃ letter p', Carries sessionId direction header letter ∧ p.next letter = some p' ∧
      Follows sessionId v' p' := by
  obtain ⟨hError, hSession, hTracks⟩ | hBudget | hBudget := h
  · obtain ⟨-, hValid, hHeader, -, hCharged, p', hMove, hTracks'⟩ :=
      SessionValidator.observe_ok hTracks hSend
    obtain ⟨letter, hLetter, hNext⟩ := Option.bind_eq_some_iff.mp hMove
    rw [hSession] at hHeader
    exact ⟨letter, p', ⟨hValid, hHeader, hLetter⟩, hNext,
      .inl ⟨hCharged.error.trans hError, hCharged.sessionId.trans hSession, hTracks'⟩⟩
  · rw [SessionValidator.observe_of_error hBudget] at hSend
    cases hSend
  · rw [SessionValidator.observe_of_error hBudget] at hSend
    cases hSend

theorem start_shadows (sessionId : SessionId) (budgets : ProtocolBudgets) :
    Shadows sessionId (start sessionId budgets) ⟨.awaitingHello, .awaitingHello, [], []⟩ :=
  ⟨.inl ⟨rfl, rfl, SessionValidator.new_tracks _ _⟩, .inl ⟨rfl, rfl, SessionValidator.new_tracks _ _⟩,
    .nil, .nil⟩

theorem Shadows.step {l l' : Link} {c : Duplex.Config Phase ParentFrame WorkerFrame}
    (h : Shadows sessionId l c) (hc : Duplex.Settled Phase.automaton Phase.le c) (hStep : Step l l') :
    ∃ c', Shadows sessionId l' c' ∧ Duplex.Step Phase.automaton c c' := by
  obtain ⟨s, t, fs, gs⟩ := c
  obtain ⟨hParent, hWorker, hToWorker, hToParent⟩ := h
  cases hStep with
  | parentSend _ hSend =>
    obtain ⟨letter, s', hCarries, hNext, hFollows⟩ := hParent.send hSend
    obtain ⟨frame, rfl⟩ := letterOf_parent hCarries.2.2
    exact ⟨⟨s', t, fs ++ [frame], gs⟩,
      ⟨hFollows, hWorker, List.rel_append hToWorker (.cons hCarries .nil), hToParent⟩, .leftSend hNext⟩
  | workerSend _ hSend =>
    obtain ⟨letter, t', hCarries, hNext, hFollows⟩ := hWorker.send hSend
    obtain ⟨frame, rfl⟩ := letterOf_worker hCarries.2.2
    exact ⟨⟨s, t', fs, gs ++ [frame]⟩,
      ⟨hParent, hFollows, hToWorker, List.rel_append hToParent (.cons hCarries .nil)⟩, .rightSend hNext⟩
  | parentReceive =>
    cases hToParent with
    | cons hCarries hRest =>
      obtain ⟨s', hNext⟩ := hc.left_accepts rfl
      exact ⟨⟨s', t, fs, _⟩, ⟨(hParent.receive hCarries hNext).2, hWorker, hToWorker, hRest⟩,
        .leftReceive hNext⟩
  | workerReceive =>
    cases hToWorker with
    | cons hCarries hRest =>
      obtain ⟨t', hNext⟩ := hc.right_accepts rfl
      exact ⟨⟨s, t', _, gs⟩, ⟨hParent, (hWorker.receive hCarries hNext).2, hRest, hToParent⟩,
        .rightReceive hNext⟩

theorem Reaches.shadows {l : Link} (h : Reaches sessionId budgets l) :
    ∃ c, Shadows sessionId l c ∧ Duplex.Settled Phase.automaton Phase.le c := by
  induction h with
  | refl => exact ⟨_, start_shadows sessionId budgets, Phase.coherent.settled_start _⟩
  | tail _ hStep ih =>
    obtain ⟨c, hShadows, hSettled⟩ := ih
    obtain ⟨c', hShadows', hStep'⟩ := hShadows.step hSettled hStep
    exact ⟨c', hShadows', Phase.coherent.settled_step hStep' hSettled⟩

theorem Follows.failed (h : Follows sessionId v p) (hFailed : v.state = .failed) :
    v.error = some .messageBudgetExceeded ∨ v.error = some .byteBudgetExceeded := by
  obtain ⟨-, -, hTracks⟩ | hBudget := h
  · cases p with
    | idle last late => cases late <;> cases hFailed.symm.trans hTracks.1
    | cancelled late => cases late <;> cases hFailed.symm.trans hTracks.1
    | active kind id read => cases kind <;> cases hFailed.symm.trans hTracks.1
    | closed => cases hFailed.symm.trans hTracks
    | _ => cases hFailed.symm.trans hTracks.1
  · exact hBudget

/-- However sends and receives interleave, a received frame is accepted unless
a budget is exhausted, and no other error ever fails either side. -/
theorem duplex_agreement (sessionId : SessionId) (budgets : ProtocolBudgets) (l : Link)
    (h : Reaches sessionId budgets l) :
    (∀ header rest, l.toParent = header :: rest →
      BudgetOnly (l.parent.observe .workerToParent header).1) ∧
    (∀ header rest, l.toWorker = header :: rest →
      BudgetOnly (l.worker.observe .parentToWorker header).1) ∧
    ∀ v, v = l.parent ∨ v = l.worker → v.state = .failed →
      v.error = some .messageBudgetExceeded ∨ v.error = some .byteBudgetExceeded := by
  obtain ⟨c, hShadows, hSettled⟩ := Reaches.shadows h
  refine ⟨?_, ?_, ?_⟩
  · intro header rest hHead
    have hToParent := hShadows.toParent
    rw [hHead] at hToParent
    generalize hc : c.toLeft = frames at hToParent
    cases hToParent with
    | cons hCarries _ =>
      obtain ⟨s', hNext⟩ := hSettled.left_accepts hc
      exact (hShadows.parent.receive hCarries hNext).1
  · intro header rest hHead
    have hToWorker := hShadows.toWorker
    rw [hHead] at hToWorker
    generalize hc : c.toRight = frames at hToWorker
    cases hToWorker with
    | cons hCarries _ =>
      obtain ⟨t', hNext⟩ := hSettled.right_accepts hc
      exact (hShadows.worker.receive hCarries hNext).1
  · rintro v (rfl | rfl) hFailed
    · exact hShadows.parent.failed hFailed
    · exact hShadows.worker.failed hFailed

/-- Session 7 up to the point where `complete` and `cancel` of request 1 cross. -/
theorem duplex_agreement_complete_cancel :
    ∃ p w, Reaches ⟨7, by decide⟩ .default
        ⟨p, w, [FrameHeader.new .cancel 7 1 0], [FrameHeader.new .complete 7 1 4]⟩ ∧
      BudgetOnly (p.observe .workerToParent (FrameHeader.new .complete 7 1 4)).1 ∧
      BudgetOnly (w.observe .parentToWorker (FrameHeader.new .cancel 7 1 0)).1 := by
  have hRun : ∃ p w, Reaches ⟨7, by decide⟩ .default
      ⟨p, w, [FrameHeader.new .cancel 7 1 0], [FrameHeader.new .complete 7 1 4]⟩ :=
    ⟨_, _, .tail (.tail (.tail (.tail (.tail (.tail (.tail (.tail .refl
      (.parentSend (.new .hello 7 0 12) rfl)) .workerReceive)
      (.workerSend (.new .ready 7 0 0) rfl)) .parentReceive)
      (.parentSend (.new .enumerate 7 1 0) rfl)) .workerReceive)
      (.parentSend (.new .cancel 7 1 0) rfl))
      (.workerSend (.new .complete 7 1 4) rfl)⟩
  obtain ⟨p, w, h⟩ := hRun
  have hAgree := duplex_agreement _ _ _ h
  exact ⟨p, w, h, hAgree.1 _ _ rfl, hAgree.2.1 _ _ rfl⟩

end Link

end OpenHalfLife.Protocol
