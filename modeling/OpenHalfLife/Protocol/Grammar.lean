import OpenHalfLife.Protocol.Phase

/-! # The session grammar

The words of a whole session, stated without any state: which frames of which
peer may follow each other, and how a cancel may cross the traffic of its
request. The validator accepts exactly the prefixes of these words.
-/

namespace OpenHalfLife.Protocol.Grammar

set_option autoImplicit false

abbrev Word := List Letter

inductive Served (kind : RequestKind) (id : UInt64) : Word → Prop
  | nil : Served kind id []
  | result {w : Word} (h : Served kind id w) : Served kind id (w ++ [.worker (.result kind id)])
  | read {w : Word} (h : Served kind id w) :
      Served kind id (w ++ [.worker (.readRequest id), .parent (.readReply id)])

/-- A cancelled request with no read unresolved: the one reply to a pre-cancel
read may cross, and then results only. -/
inductive Crossing (kind : RequestKind) (id : UInt64) : Word → Prop
  | cancel {w : Word} (h : Served kind id w) : Crossing kind id (w ++ [.parent (.cancel id)])
  | reply {w : Word} (h : Served kind id w) :
      Crossing kind id (w ++ [.worker (.readRequest id), .parent (.cancel id), .parent (.readReply id)])
  | result {w : Word} (h : Crossing kind id w) : Crossing kind id (w ++ [.worker (.result kind id)])

/-- A request that the worker completes. Only an uncancelled one may be
followed by a stale cancel. -/
inductive Completed (kind : RequestKind) (id : UInt64) : Word → Prop
  | served {w : Word} (h : Served kind id w) : Completed kind id (w ++ [.worker (.complete id)])
  | stale {w : Word} (h : Served kind id w) :
      Completed kind id (w ++ [.worker (.complete id), .parent (.cancel id)])
  | crossed {w : Word} (h : Crossing kind id w) : Completed kind id (w ++ [.worker (.complete id)])

/-- A request that `cancel_ack` terminates, possibly after one read request
that can no longer be serviced. A pre-cancel read left unresolved may still be
answered once, to drain the transport. -/
inductive Acknowledged (kind : RequestKind) (id : UInt64) : Word → Prop
  | crossed {w : Word} (h : Crossing kind id w) : Acknowledged kind id (w ++ [.worker (.cancelAck id)])
  | unserviceable {w : Word} (h : Crossing kind id w) :
      Acknowledged kind id (w ++ [.worker (.readRequest id), .worker (.cancelAck id)])
  | unresolved {w : Word} (h : Served kind id w) : Acknowledged kind id
      (w ++ [.worker (.readRequest id), .parent (.cancel id), .worker (.cancelAck id)])
  | drained {w : Word} (h : Served kind id w) : Acknowledged kind id
      (w ++ [.worker (.readRequest id), .parent (.cancel id), .worker (.cancelAck id),
        .parent (.readReply id)])

inductive Requests : UInt64 → Word → Prop
  | nil : Requests 0 []
  | snoc {last id : UInt64} {kind : RequestKind} {w body : Word} (h : Requests last w)
      (hId : last < id) (hBody : Completed kind id body) :
      Requests id (w ++ .parent (.request kind id) :: body)

def handshake : Word := [.parent .hello, .worker .ready]

inductive Session : Word → Prop
  | served {last : UInt64} {w : Word} (h : Requests last w) :
      Session (handshake ++ w ++ [.parent .shutdown])
  | cancelled {last id : UInt64} {kind : RequestKind} {w body : Word} (h : Requests last w)
      (hId : last < id) (hBody : Acknowledged kind id body) :
      Session (handshake ++ w ++ .parent (.request kind id) :: body ++ [.parent .shutdown])

/-! ## Every session word runs to the end -/

variable {kind : RequestKind} {id : UInt64} {w : Word}

theorem Served.run (h : Served kind id w) :
    w.foldlM Phase.next (.active kind id false) = some (.active kind id false) := by
  induction h with
  | nil => rfl
  | result _ ih => simp [List.foldlM_append, ih, Phase.next, Phase.worker]
  | read _ ih => simp [List.foldlM_append, ih, Phase.next, Phase.worker, Phase.parent]

theorem Crossing.run (h : Crossing kind id w) :
    w.foldlM Phase.next (.active kind id false) = some (.cancelling kind id false false) := by
  induction h with
  | cancel h => simp [List.foldlM_append, h.run, Phase.next, Phase.parent]
  | reply h => simp [List.foldlM_append, h.run, Phase.next, Phase.worker, Phase.parent]
  | result _ ih => simp [List.foldlM_append, ih, Phase.next, Phase.worker]

theorem Completed.run (h : Completed kind id w) :
    ∃ late, w.foldlM Phase.next (.active kind id false) = some (.idle id late) := by
  cases h with
  | served h => exact ⟨some id, by simp [List.foldlM_append, h.run, Phase.next, Phase.worker]⟩
  | stale h =>
    exact ⟨none, by simp [List.foldlM_append, h.run, Phase.next, Phase.worker, Phase.parent]⟩
  | crossed h => exact ⟨none, by simp [List.foldlM_append, h.run, Phase.next, Phase.worker]⟩

theorem Acknowledged.run (h : Acknowledged kind id w) :
    ∃ late, w.foldlM Phase.next (.active kind id false) = some (.cancelled late) := by
  cases h with
  | crossed h => exact ⟨none, by simp [List.foldlM_append, h.run, Phase.next, Phase.worker]⟩
  | unserviceable h => exact ⟨none, by simp [List.foldlM_append, h.run, Phase.next, Phase.worker]⟩
  | unresolved h =>
    exact ⟨some id, by simp [List.foldlM_append, h.run, Phase.next, Phase.worker, Phase.parent]⟩
  | drained h =>
    exact ⟨none, by simp [List.foldlM_append, h.run, Phase.next, Phase.worker, Phase.parent]⟩

theorem Requests.run {last : UInt64} (h : Requests last w) :
    ∃ late, w.foldlM Phase.next (.idle 0 none) = some (.idle last late) := by
  induction h with
  | nil => exact ⟨none, rfl⟩
  | snoc _ hId hBody ih =>
    obtain ⟨late, hRun⟩ := ih
    obtain ⟨late', hBody⟩ := hBody.run
    exact ⟨late', by simp [List.foldlM_append, hRun, Phase.next, Phase.parent, hId, hBody]⟩

theorem Session.run (h : Session w) : w.foldlM Phase.next .awaitingHello = some .closed := by
  cases h with
  | served h =>
    obtain ⟨late, hRun⟩ := h.run
    simp [handshake, List.foldlM_append, Phase.next, Phase.parent, Phase.worker, hRun]
  | cancelled h hId hBody =>
    obtain ⟨late, hRun⟩ := h.run
    obtain ⟨late', hBody⟩ := hBody.run
    simp [handshake, List.foldlM_append, Phase.next, Phase.parent, Phase.worker, hRun, hId, hBody]

/-! ## Every accepted word extends to a session word -/

/-- The word of an open request: completed requests, then this request and `body`. -/
def Opens (kind : RequestKind) (id : UInt64) (body w : Word) : Prop :=
  ∃ last before, Requests last before ∧ last < id ∧
    w = handshake ++ before ++ .parent (.request kind id) :: body

def Leads : Phase → Word → Prop
  | .awaitingHello, w => w = []
  | .awaitingReady, w => w = [.parent .hello]
  | .idle last none, w => ∃ before, Requests last before ∧ w = handshake ++ before
  | .idle last (some id), w => last = id ∧
    ∃ kind body, Served kind id body ∧ Opens kind id (body ++ [.worker (.complete id)]) w
  | .active kind id false, w => ∃ body, Served kind id body ∧ Opens kind id body w
  | .active kind id true, w =>
    ∃ body, Served kind id body ∧ Opens kind id (body ++ [.worker (.readRequest id)]) w
  | .cancelling kind id false false, w => ∃ body, Crossing kind id body ∧ Opens kind id body w
  | .cancelling kind id false true, w =>
    ∃ body, Crossing kind id body ∧ Opens kind id (body ++ [.worker (.readRequest id)]) w
  | .cancelling kind id true crossed, w => crossed = false ∧ ∃ body, Served kind id body ∧
    Opens kind id (body ++ [.worker (.readRequest id), .parent (.cancel id)]) w
  | .cancelled none, w => ∃ kind id body, Acknowledged kind id body ∧ Opens kind id body w
  | .cancelled (some id), w => ∃ kind body, Served kind id body ∧ Opens kind id
    (body ++ [.worker (.readRequest id), .parent (.cancel id), .worker (.cancelAck id)]) w
  | .closed, w => Session w

theorem Opens.snoc {body : Word} (h : Opens kind id body w) (letter : Letter) :
    Opens kind id (body ++ [letter]) (w ++ [letter]) := by
  obtain ⟨last, before, hBefore, hId, rfl⟩ := h
  exact ⟨last, before, hBefore, hId, by simp⟩

theorem Opens.requests {body : Word} (h : Opens kind id body w) (hBody : Completed kind id body) :
    ∃ before, Requests id before ∧ w = handshake ++ before := by
  obtain ⟨last, before, hBefore, hId, rfl⟩ := h
  exact ⟨_, hBefore.snoc hId hBody, by simp⟩

theorem Opens.session {body : Word} (h : Opens kind id body w) (hBody : Acknowledged kind id body) :
    Session (w ++ [.parent .shutdown]) := by
  obtain ⟨last, before, hBefore, hId, rfl⟩ := h
  simpa using Session.cancelled hBefore hId hBody

theorem Leads.idle {last : UInt64} {late : Option UInt64} (h : Leads (.idle last late) w) :
    ∃ before, Requests last before ∧ w = handshake ++ before := by
  cases late with
  | none => exact h
  | some id =>
    obtain ⟨rfl, kind, body, hBody, hOpens⟩ := h
    exact hOpens.requests (.served hBody)

theorem Leads.shutdown {last : UInt64} {late : Option UInt64} (h : Leads (.idle last late) w) :
    Session (w ++ [.parent .shutdown]) := by
  obtain ⟨before, hBefore, rfl⟩ := h.idle
  exact .served hBefore

theorem Leads.cancelled {late : Option UInt64} (h : Leads (.cancelled late) w) :
    Session (w ++ [.parent .shutdown]) := by
  cases late with
  | none =>
    obtain ⟨kind, id, body, hBody, hOpens⟩ := h
    exact hOpens.session hBody
  | some id =>
    obtain ⟨kind, body, hBody, hOpens⟩ := h
    exact hOpens.session (.unresolved hBody)

theorem Leads.parent {p p' : Phase} (h : Leads p w) (frame : ParentFrame)
    (hNext : p.parent frame = some p') : Leads p' (w ++ [.parent frame]) := by
  unfold Phase.parent at hNext
  split at hNext
  · cases hNext
    rw [show w = [] from h]
    rfl
  · rename_i last late kind id
    simp only [Option.ite_none_right_eq_some, Option.some.injEq] at hNext
    obtain ⟨hId, rfl⟩ := hNext
    obtain ⟨before, hBefore, rfl⟩ := h.idle
    exact ⟨[], .nil, last, before, hBefore, hId, rfl⟩
  · rename_i last completed id
    simp only [Option.ite_none_right_eq_some, Option.some.injEq] at hNext
    obtain ⟨rfl, rfl⟩ := hNext
    obtain ⟨rfl, kind, body, hBody, hOpens⟩ := h
    exact (hOpens.snoc _).requests (by simpa using Completed.stale hBody)
  · cases hNext
    exact h.shutdown
  · rename_i kind id id'
    simp only [Option.ite_none_right_eq_some, Option.some.injEq] at hNext
    obtain ⟨rfl, rfl⟩ := hNext
    obtain ⟨body, hBody, hOpens⟩ := h
    exact ⟨_, hBody.read, by simpa using hOpens.snoc (.parent (.readReply id'))⟩
  · rename_i kind id read id'
    simp only [Option.ite_none_right_eq_some, Option.some.injEq] at hNext
    obtain ⟨rfl, rfl⟩ := hNext
    cases read with
    | false =>
      obtain ⟨body, hBody, hOpens⟩ := h
      exact ⟨_, .cancel hBody, hOpens.snoc _⟩
    | true =>
      obtain ⟨body, hBody, hOpens⟩ := h
      exact ⟨rfl, body, hBody, by simpa using hOpens.snoc (.parent (.cancel id'))⟩
  · rename_i kind id crossed id'
    simp only [Option.ite_none_right_eq_some, Option.some.injEq] at hNext
    obtain ⟨rfl, rfl⟩ := hNext
    obtain ⟨rfl, body, hBody, hOpens⟩ := h
    exact ⟨_, .reply hBody, by simpa using hOpens.snoc (.parent (.readReply id'))⟩
  · rename_i late id
    simp only [Option.ite_none_right_eq_some, Option.some.injEq] at hNext
    obtain ⟨rfl, rfl⟩ := hNext
    obtain ⟨kind, body, hBody, hOpens⟩ := h
    exact ⟨kind, id, _, .drained hBody, by simpa using hOpens.snoc (.parent (.readReply id))⟩
  · cases hNext
    exact h.cancelled
  · cases hNext

theorem Leads.worker {p p' : Phase} (h : Leads p w) (frame : WorkerFrame)
    (hNext : p.worker frame = some p') : Leads p' (w ++ [.worker frame]) := by
  unfold Phase.worker at hNext
  split at hNext
  · cases hNext
    rw [show w = [.parent .hello] from h]
    exact ⟨[], .nil, rfl⟩
  · simp only [Option.ite_none_right_eq_some, Option.some.injEq] at hNext
    obtain ⟨rfl, rfl⟩ := hNext
    obtain ⟨body, hBody, hOpens⟩ := h
    exact ⟨body, hBody, hOpens.snoc _⟩
  · simp only [Option.ite_none_right_eq_some, Option.some.injEq] at hNext
    obtain ⟨⟨rfl, rfl⟩, rfl⟩ := hNext
    obtain ⟨body, hBody, hOpens⟩ := h
    exact ⟨_, hBody.result, hOpens.snoc _⟩
  · simp only [Option.ite_none_right_eq_some, Option.some.injEq] at hNext
    obtain ⟨rfl, rfl⟩ := hNext
    obtain ⟨body, hBody, hOpens⟩ := h
    exact ⟨rfl, _, body, hBody, hOpens.snoc _⟩
  · simp only [Option.ite_none_right_eq_some, Option.some.injEq] at hNext
    obtain ⟨rfl, rfl⟩ := hNext
    obtain ⟨body, hBody, hOpens⟩ := h
    exact ⟨body, hBody, hOpens.snoc _⟩
  · simp only [Option.ite_none_right_eq_some, Option.some.injEq] at hNext
    obtain ⟨⟨rfl, rfl⟩, rfl⟩ := hNext
    obtain ⟨body, hBody, hOpens⟩ := h
    exact ⟨_, hBody.result, hOpens.snoc _⟩
  · simp only [Option.ite_none_right_eq_some, Option.some.injEq] at hNext
    obtain ⟨rfl, rfl⟩ := hNext
    obtain ⟨body, hBody, hOpens⟩ := h
    exact (hOpens.snoc _).requests (.crossed hBody)
  · rename_i kind id read crossed id'
    simp only [Option.ite_none_right_eq_some, Option.some.injEq] at hNext
    obtain ⟨rfl, rfl⟩ := hNext
    cases read with
    | true =>
      obtain ⟨rfl, body, hBody, hOpens⟩ := h
      exact ⟨kind, body, hBody, by simpa using hOpens.snoc (.worker (.cancelAck id'))⟩
    | false =>
      cases crossed with
      | false =>
        obtain ⟨body, hBody, hOpens⟩ := h
        exact ⟨kind, id', _, .crossed hBody, hOpens.snoc _⟩
      | true =>
        obtain ⟨body, hBody, hOpens⟩ := h
        exact ⟨kind, id', _, .unserviceable hBody, by simpa using hOpens.snoc (.worker (.cancelAck id'))⟩
  · cases hNext

theorem leads_of_run {p : Phase} (h : w.foldlM Phase.next .awaitingHello = some p) : Leads p w := by
  induction w using List.reverseRecOn generalizing p with
  | nil =>
    cases h
    rfl
  | append_singleton w letter ih =>
    rw [List.foldlM_append] at h
    obtain ⟨q, hRun, hLast⟩ := Option.bind_eq_some_iff.mp h
    have hNext : q.next letter = some p := by simpa using hLast
    cases letter with
    | parent frame => exact (ih hRun).parent frame hNext
    | worker frame => exact (ih hRun).worker frame hNext

theorem Leads.extends {p : Phase} (h : Leads p w) : ∃ rest, Session (w ++ rest) := by
  cases p with
  | awaitingHello =>
    rw [show w = [] from h]
    exact ⟨_, .served .nil⟩
  | awaitingReady =>
    rw [show w = [.parent .hello] from h]
    exact ⟨[.worker .ready, .parent .shutdown], .served .nil⟩
  | idle last late => exact ⟨_, h.shutdown⟩
  | active kind id read =>
    cases read with
    | false =>
      have hIdle := h.worker (.complete id) (if_pos rfl)
      exact ⟨[.worker (.complete id), .parent .shutdown], by simpa using hIdle.shutdown⟩
    | true =>
      have hServed := h.parent (.readReply id) (if_pos rfl)
      have hIdle := hServed.worker (.complete id) (if_pos rfl)
      exact ⟨[.parent (.readReply id), .worker (.complete id), .parent .shutdown], by
        simpa using hIdle.shutdown⟩
  | cancelling kind id read crossed =>
    have hAck : (Phase.cancelling kind id read crossed).worker (.cancelAck id) =
        some (.cancelled (if read then some id else none)) := by
      cases read <;> cases crossed <;> simp [Phase.worker]
    exact ⟨[.worker (.cancelAck id), .parent .shutdown], by simpa using (h.worker _ hAck).cancelled⟩
  | cancelled late => exact ⟨_, h.cancelled⟩
  | closed =>
    have hSession : Session w := h
    exact ⟨[], by simpa using hSession⟩

theorem run_iff_opens (w : Word) :
    (∃ p, w.foldlM Phase.next .awaitingHello = some p) ↔ ∃ rest, Session (w ++ rest) := by
  constructor
  · rintro ⟨p, hRun⟩
    exact (leads_of_run hRun).extends
  · rintro ⟨rest, hSession⟩
    have hRun := hSession.run
    rw [List.foldlM_append] at hRun
    obtain ⟨p, hPrefix, -⟩ := Option.bind_eq_some_iff.mp hRun
    exact ⟨p, hPrefix⟩

/-! ## The validator recognises the grammar -/

abbrev Observation := Direction × FrameHeader

def results : SessionValidator → List Observation → List (Except ProtocolError Unit)
  | _, [] => []
  | v, (direction, header) :: rest =>
    (v.observe direction header).1 :: results (v.observe direction header).2 rest

def payloadTotal (observations : List Observation) : Nat :=
  (observations.map fun o => o.2.payloadLength.toNat).sum

theorem results_ok_iff {sessionId : SessionId} {v : SessionValidator} {p : Phase}
    (hError : v.error = none) (hSession : v.sessionId = sessionId) (hTracks : v.Tracks p)
    (observations : List Observation)
    (hHeaders : ∀ o ∈ observations, o.2.Valid ∧ o.2.sessionId = sessionId.value)
    (hCount : v.messageCount + observations.length ≤ v.budgets.maximumMessages)
    (hBytes : v.payloadBytes + payloadTotal observations ≤ v.budgets.maximumPayloadBytes) :
    (∀ r ∈ results v observations, r = .ok ()) ↔
      ∃ (word : Word) (p' : Phase), observations.map (fun o => letterOf o.1 o.2) = word.map some ∧
        word.foldlM Phase.next p = some p' := by
  induction observations generalizing v p with
  | nil =>
    simp only [results, List.not_mem_nil, false_implies, implies_true, List.map_nil, true_iff]
    exact ⟨[], p, rfl, rfl⟩
  | cons o rest ih =>
    obtain ⟨direction, header⟩ := o
    obtain ⟨hValid, hHeader⟩ := hHeaders _ List.mem_cons_self
    simp only [payloadTotal, List.map_cons, List.sum_cons, List.length_cons] at hCount hBytes
    have hFits : v.Fits header := ⟨by omega, by omega⟩
    simp only [results, List.forall_mem_cons]
    -- An accepted head hands the rest of the sequence to the validator after it.
    have hTail : ∀ {q v'}, v.observe direction header = (.ok (), v') →
        (letterOf direction header).bind p.next = some q →
        ((∀ r ∈ results v' rest, r = .ok ()) ↔
          ∃ (word : Word) (p' : Phase), rest.map (fun o => letterOf o.1 o.2) = word.map some ∧
            word.foldlM Phase.next q = some p') := by
      intro q v' hOk hMove
      obtain ⟨-, -, -, -, hCharged, q', hMove', hTracks'⟩ := SessionValidator.observe_ok hTracks hOk
      rw [hMove] at hMove'
      cases hMove'
      refine ih (hCharged.error.trans hError) (hCharged.sessionId.trans hSession) hTracks'
        (fun o ho => hHeaders o (List.mem_cons_of_mem _ ho)) ?_ ?_
      · rw [hCharged.messageCount, hCharged.budgets]
        omega
      · rw [hCharged.payloadBytes, hCharged.budgets, payloadTotal]
        omega
    constructor
    · rintro ⟨hOk, hRest⟩
      have hObserve : v.observe direction header = (.ok (), (v.observe direction header).2) := by
        rw [← hOk]
      obtain ⟨-, -, -, -, -, q, hMove, -⟩ := SessionValidator.observe_ok hTracks hObserve
      obtain ⟨word, p', hWord, hRun⟩ := (hTail hObserve hMove).mp hRest
      obtain ⟨letter, hLetter, hNext⟩ := Option.bind_eq_some_iff.mp hMove
      refine ⟨letter :: word, p', by simp [hLetter, hWord], ?_⟩
      rw [List.foldlM_cons, hNext]
      exact hRun
    · rintro ⟨word, p', hWord, hRun⟩
      cases word with
      | nil => cases hWord
      | cons letter word =>
        simp only [List.map_cons, List.cons.injEq] at hWord
        rw [List.foldlM_cons] at hRun
        obtain ⟨q, hNext, hRun⟩ := Option.bind_eq_some_iff.mp hRun
        have hMove : (letterOf direction header).bind p.next = some q := by
          rw [hWord.1]
          exact hNext
        obtain ⟨-, v', hOk⟩ | ⟨hNot, -⟩ := SessionValidator.observe_of_next hError hTracks hValid
          (by rw [hHeader, hSession]) hMove
        · rw [hOk]
          exact ⟨rfl, (hTail hOk hMove).mpr ⟨word, p', hWord.2, hRun⟩⟩
        · exact absurd hFits hNot

/-- Within its budgets a fresh validator accepts a sequence of valid headers of
its session exactly when their letters are a prefix of a session word. -/
theorem accepts_iff_opens_session (sessionId : SessionId) (budgets : ProtocolBudgets)
    (observations : List Observation)
    (hHeaders : ∀ o ∈ observations, o.2.Valid ∧ o.2.sessionId = sessionId.value)
    (hCount : observations.length ≤ budgets.maximumMessages)
    (hBytes : payloadTotal observations ≤ budgets.maximumPayloadBytes) :
    (∀ r ∈ results (.new sessionId budgets) observations, r = .ok ()) ↔
      ∃ word rest : Word, observations.map (fun o => letterOf o.1 o.2) = word.map some ∧
        Session (word ++ rest) := by
  rw [results_ok_iff rfl rfl (SessionValidator.new_tracks sessionId budgets) observations hHeaders
    (by simpa [SessionValidator.new] using hCount) (by simpa [SessionValidator.new] using hBytes)]
  constructor
  · rintro ⟨word, p, hWord, hRun⟩
    obtain ⟨rest, hSession⟩ := (run_iff_opens word).mp ⟨p, hRun⟩
    exact ⟨word, rest, hWord, hSession⟩
  · rintro ⟨word, rest, hWord, hSession⟩
    obtain ⟨p, hRun⟩ := (run_iff_opens word).mpr ⟨rest, hSession⟩
    exact ⟨word, p, hWord, hRun⟩

def crossedRead : List Observation :=
  [(.parentToWorker, .new .hello 7 0 12), (.workerToParent, .new .ready 7 0 0),
    (.parentToWorker, .new .enumerate 7 1 0), (.workerToParent, .new .readRequest 7 1 16),
    (.parentToWorker, .new .cancel 7 1 0), (.parentToWorker, .new .readReply 7 1 10),
    (.workerToParent, .new .entryBatch 7 1 30), (.workerToParent, .new .complete 7 1 4)]

theorem accepts_crossedRead :
    (∀ r ∈ results (.new ⟨7, by decide⟩ .default) crossedRead, r = .ok ()) ∧
      ∃ word rest : Word, crossedRead.map (fun o => letterOf o.1 o.2) = word.map some ∧
        Session (word ++ rest) := by
  have hOk : results (.new ⟨7, by decide⟩ .default) crossedRead = List.replicate 8 (.ok ()) := rfl
  have hResults : ∀ r ∈ results (.new ⟨7, by decide⟩ .default) crossedRead, r = .ok () := by
    rw [hOk]
    simp
  exact ⟨hResults, (accepts_iff_opens_session ⟨7, by decide⟩ .default crossedRead (by decide)
    (by decide) (by decide)).mp hResults⟩

end OpenHalfLife.Protocol.Grammar
