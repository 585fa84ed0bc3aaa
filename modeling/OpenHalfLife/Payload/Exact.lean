import OpenHalfLife.Payload.Calls
import Mathlib.Data.List.Induction
import Mathlib.Data.List.ModifyLast

/-! # What a published tree holds

The accepted chunks of a run, file by file, against the files below `files`.
A write that fails after part of its bytes reached the file is not counted by
the transaction.
-/

namespace OpenHalfLife.Payload

open Machine

set_option autoImplicit false

abbrev Content := Path × List UInt8

def total (contents : List Content) : Nat := (contents.map fun content => content.2.length).sum

/-- The file at `path` is continued by `bytes`. -/
def extend (path : Path) (bytes : List UInt8) (contents : List Content) : List Content :=
  contents.map fun content => if content.1 = path then (content.1, content.2 ++ bytes) else content

section Contents

variable {path : Path} {bytes : List UInt8} {contents : List Content}

theorem extend_cons (content : Content) : extend path bytes (content :: contents) =
    (if content.1 = path then (content.1, content.2 ++ bytes) else content) :: extend path bytes contents := rfl

theorem extend_fst : (extend path bytes contents).map Prod.fst = contents.map Prod.fst := by
  rw [extend, List.map_map]
  apply List.map_congr_left
  intro content _
  simp only [Function.comp]
  split <;> rfl

theorem extend_nil : extend path [] contents = contents := by
  induction contents with
  | nil => rfl
  | cons content contents ih =>
    rw [extend_cons, ih, List.append_nil]
    split <;> rfl

theorem extend_of_not_mem (h : path ∉ contents.map Prod.fst) : extend path bytes contents = contents := by
  induction contents with
  | nil => rfl
  | cons content contents ih =>
    rw [List.map_cons, List.mem_cons, not_or] at h
    rw [extend_cons, ih h.2, if_neg (Ne.symm h.1)]

theorem total_cons (content : Content) : total (content :: contents) = content.2.length + total contents := rfl

theorem total_append (others : List Content) : total (contents ++ others) = total contents + total others := by
  rw [total, List.map_append, List.sum_append]
  rfl

theorem total_extend (hNodup : (contents.map Prod.fst).Nodup) (hMem : path ∈ contents.map Prod.fst) :
    total (extend path bytes contents) = total contents + bytes.length := by
  induction contents with
  | nil => cases hMem
  | cons content contents ih =>
    rw [List.map_cons, List.nodup_cons] at hNodup
    rw [extend_cons, total_cons, total_cons]
    by_cases hSame : content.1 = path
    · rw [if_pos hSame, extend_of_not_mem (hSame ▸ hNodup.1), List.length_append]
      omega
    · have hRest : path ∈ contents.map Prod.fst := (List.mem_cons.mp hMem).resolve_left (Ne.symm hSame)
      rw [if_neg hSame, ih hNodup.2 hRest]
      omega

theorem extend_last {old : List UInt8} (hNew : path ∉ contents.map Prod.fst) :
    extend path bytes (contents ++ [(path, old)]) = contents ++ [(path, old ++ bytes)] := by
  have hFront : contents.map _ = contents := (extend_of_not_mem hNew : extend path bytes contents = contents)
  rw [extend, List.map_append, hFront]
  simp

end Contents

def StagingEntry.path (entry : StagingEntry) : Path := filesDirectory :: entry.components

def StagingPlan.sizes (entries : List StagingEntry) : List (Path × Nat) :=
  entries.map fun entry => (entry.path, entry.sizeBytes.toNat)

def sizes (contents : List Content) : List (Path × Nat) :=
  contents.map fun content => (content.1, content.2.length)

/-- A reply is counted: an opened file is empty, and an accepted chunk goes to the last one. -/
def deliver (history : List Content) : TransactionCall → TransactionReply → List Content
  | .openFile components _, .ok _ => history ++ [(filesDirectory :: components, [])]
  | .writeChunk bytes, .ok _ => history.modifyLast fun content => (content.1, content.2 ++ bytes)
  | _, _ => history

theorem Native.entries_withFile (native : Native) (components : List Text) :
    (native.withFile (filesDirectory :: components)).entries = native.entries ++ [(filesDirectory :: components, [])] := by
  rw [Native.entries, Native.entries, Native.withFile, List.filter_append]
  rfl

namespace DirectoryTransaction

def audited (s : World × List Content) (c : TransactionCall) : World × List Content :=
  (((call c).exec s.1).2, deliver s.2 c ((call c).exec s.1).1)

def delivered (answers : Nat → Answer) (calls : List TransactionCall) : List Content :=
  (calls.foldl audited (start answers, [])).2

theorem foldl_audited_fst (s : World × List Content) (calls : List TransactionCall) :
    (calls.foldl audited s).1 = run s.1 calls := by
  induction calls generalizing s with
  | nil => rfl
  | cons c calls ih => exact ih (audited s c)

theorem delivered_append (answers : Nat → Answer) (calls : List TransactionCall) (c : TransactionCall) :
    delivered answers (calls ++ [c]) =
      deliver (delivered answers calls) c ((call c).exec (run (start answers) calls)).1 := by
  rw [delivered, List.foldl_append, ← foldl_audited_fst (start answers, [])]
  rfl

def Tears (w : World) : TransactionCall → Prop
  | .writeChunk bytes =>
    (∃ file, Writes w bytes file) ∧ w.2.answer.error ≠ none ∧ bytes.take w.2.answer.appended ≠ []
  | _ => False

/-- Exactly the planned files, each of its planned size and holding what was delivered to it. -/
structure Exact (plan : StagingPlan) (native : Native) (history : List Content) : Prop where
  contents : native.entries = history
  sizes : sizes history = StagingPlan.sizes plan.entries

inductive Current (tx : DirectoryTransaction) (plan : StagingPlan) : List Content → Prop
  | closed : tx.openEntry = none → Current tx plan []
  | lost (entry : StagingEntry) (bytes : List UInt8) : tx.openEntry = none → tx.state = .staging →
    plan.entries[tx.nextEntry]? = some entry → Current tx plan [(entry.path, bytes)]
  | opened (entry : StagingEntry) (bytes : List UInt8) : tx.state = .staging →
    plan.entries[tx.nextEntry]? = some entry →
    tx.openEntry = some ⟨entry.path, entry.sizeBytes.toNat, bytes.length⟩ → Current tx plan [(entry.path, bytes)]

/-- The history is the sealed entries and the current one, and the files have its names. -/
structure Filled (w : World) (plan : StagingPlan) (history : List Content) : Prop where
  planned : w.1.plan = some plan
  names : w.2.entries.map Prod.fst = history.map Prod.fst
  nodup : (history.map Prod.fst).Nodup
  split : ∃ done current, history = done ++ current ∧
    sizes done = StagingPlan.sizes (plan.entries.take w.1.nextEntry) ∧ Current w.1 plan current
  whole : w.1.state ≠ .staging → w.1.nextEntry = plan.entries.length

/-- A run up to now, given whether some write of it was torn. -/
inductive Audited (w : World) (history : List Content) (torn : Prop) : Prop
  | before : w.1.state = .created → w.1.openEntry = none → w.1.nextEntry = 0 → history = [] → ¬ torn →
    Audited w history torn
  | filled (plan : StagingPlan) : w.1.state ≠ .created → Filled w plan history →
    (¬ torn → w.2.entries = history) → (torn → total history < total w.2.entries) → Audited w history torn
  | finished : w.1.state = .finished → Audited w history torn

section Steps

variable {w w' : World} {plan : StagingPlan} {history : List Content} {tears : Prop} {c : TransactionCall}
  {reply : TransactionReply}

theorem Filled.of_same (h : Filled w plan history) (hTransaction : w'.1 = w.1)
    (hEntries : w'.2.entries = w.2.entries) : Filled w' plan history := by
  obtain ⟨hPlanned, hNames, hNodup, hSplit, hWhole⟩ := h
  rw [← hTransaction] at hPlanned hSplit hWhole
  rw [← hEntries] at hNames
  exact ⟨hPlanned, hNames, hNodup, hSplit, hWhole⟩

theorem Filled.withParents (h : Filled w plan history) (paths : List Path) :
    Filled (withParents w paths) plan history := by
  obtain ⟨hPlanned, hNames, hNodup, ⟨done, current, hSplit, hDone, hCurrent⟩, hWhole⟩ := h
  refine ⟨hPlanned, hNames, hNodup, ⟨done, current, hSplit, hDone, ?_⟩, hWhole⟩
  cases hCurrent with
  | closed hOpen => exact .closed hOpen
  | lost entry bytes hOpen hState hEntry => exact .lost entry bytes hOpen hState hEntry
  | opened entry bytes hState hEntry hOpen => exact .opened entry bytes hState hEntry hOpen

theorem Filled.unmade (h : Filled w plan history) {path : Path} (hTransaction : w'.1 = withUnmade w path)
    (hEntries : w'.2.entries = w.2.entries) : Filled w' plan history := by
  obtain ⟨tx, native⟩ := w'
  cases hTransaction
  obtain ⟨hPlanned, hNames, hNodup, ⟨done, current, hSplit, hDone, hCurrent⟩, hWhole⟩ := h
  rw [← hEntries] at hNames
  refine ⟨hPlanned, hNames, hNodup, ⟨done, current, hSplit, hDone, ?_⟩, hWhole⟩
  cases hCurrent with
  | closed hOpen => exact .closed hOpen
  | lost entry bytes hOpen hState hEntry => exact .lost entry bytes hOpen hState hEntry
  | opened entry bytes hState hEntry hOpen => exact .opened entry bytes hState hEntry hOpen

theorem Filled.opened (h : Filled w plan history) {staging : StagingDirectory} {entry : StagingEntry}
    {native : Native} (hOpens : Opens w plan staging entry) (hEntries : native.entries = w.2.entries)
    (hFree : ¬ native.Exists entry.path) :
    Filled ({ w.1 with openEntry := some ⟨entry.path, entry.sizeBytes.toNat, 0⟩ }, native.withFile entry.path) plan
      (history ++ [(entry.path, [])]) := by
  have hNew : entry.path ∉ history.map Prod.fst := by
    rw [← h.names, ← hEntries]
    intro hMem
    obtain ⟨file, hFile, hPath⟩ := List.mem_map.mp hMem
    exact hFree (.inr (List.mem_map.mpr ⟨file, (List.mem_filter.mp hFile).1, hPath⟩))
  obtain ⟨done, current, rfl, hDone, hCurrent⟩ := h.split
  have hNone : current = [] := by
    cases hCurrent with
    | closed hOpen => rfl
    | lost entry' bytes hOpen hState hEntry =>
      cases hOpens.entry.symm.trans hEntry
      exact absurd (by simp) hNew
    | opened entry' bytes hState hEntry hOpen => cases hOpens.closed.symm.trans hOpen
  subst hNone
  have hMade : (native.withFile entry.path).entries = native.entries ++ [(entry.path, [])] :=
    Native.entries_withFile native entry.components
  constructor
  · exact h.planned
  · rw [hMade, hEntries, List.map_append, List.map_append, h.names]
  · rw [List.map_append]
    exact List.nodup_append.mpr ⟨h.nodup, by simp, by
      rintro path hMem _ hPath rfl
      cases List.mem_singleton.mp hPath
      exact hNew hMem⟩
  · exact ⟨done, [(entry.path, [])], by rw [List.append_nil], hDone,
      .opened entry [] hOpens.admits.state hOpens.entry rfl⟩
  · exact fun hState => absurd hOpens.admits.state hState

theorem Filled.last (h : Filled w plan history) {file : OpenFile} (hOpen : w.1.openEntry = some file) :
    ∃ done entry bytes, history = done ++ [(entry.path, bytes)] ∧ w.1.state = .staging ∧
      sizes done = StagingPlan.sizes (plan.entries.take w.1.nextEntry) ∧
      plan.entries[w.1.nextEntry]? = some entry ∧ file = ⟨entry.path, entry.sizeBytes.toNat, bytes.length⟩ := by
  obtain ⟨done, current, hSplit, hDone, hCurrent⟩ := h.split
  cases hCurrent with
  | closed hNone => cases hNone.symm.trans hOpen
  | lost entry bytes hNone hState hEntry => cases hNone.symm.trans hOpen
  | opened entry bytes hState hEntry hSame =>
    exact ⟨done, entry, bytes, hSplit, hState, hDone, hEntry, (Option.some.inj (hSame.symm.trans hOpen)).symm⟩

theorem Filled.extend_history (h : Filled w plan history) {file : OpenFile} (hOpen : w.1.openEntry = some file)
    (bytes : List UInt8) :
    extend file.path bytes history = history.modifyLast fun content => (content.1, content.2 ++ bytes) := by
  obtain ⟨done, entry, accepted, rfl, hState, hDone, hEntry, rfl⟩ := h.last hOpen
  have hNew : entry.path ∉ done.map Prod.fst := by
    have hNodup := h.nodup
    rw [List.map_append, List.nodup_append] at hNodup
    exact fun hMem => hNodup.2.2 _ hMem _ List.mem_cons_self rfl
  rw [List.modifyLast_concat]
  exact extend_last hNew

theorem Filled.total_extend (h : Filled w plan history) {file : OpenFile} (hOpen : w.1.openEntry = some file)
    (bytes : List UInt8) : total (extend file.path bytes w.2.entries) = total w.2.entries + bytes.length := by
  obtain ⟨done, entry, accepted, rfl, hState, hDone, hEntry, rfl⟩ := h.last hOpen
  apply Payload.total_extend
  · rw [h.names]
    exact h.nodup
  · rw [h.names, List.map_append]
    exact List.mem_append_right _ List.mem_cons_self

theorem Filled.total_history (h : Filled w plan history) {file : OpenFile} (hOpen : w.1.openEntry = some file)
    (bytes : List UInt8) :
    total (history.modifyLast fun content => (content.1, content.2 ++ bytes)) = total history + bytes.length := by
  obtain ⟨done, entry, accepted, rfl, hRest⟩ := h.last hOpen
  rw [List.modifyLast_concat, total_append, total_append, total_cons, total_cons, List.length_append]
  omega

theorem Filled.written (h : Filled w plan history) {file : OpenFile} (hOpen : w.1.openEntry = some file)
    (bytes : List UInt8) :
    Filled ({ w.1 with openEntry := some { file with written := file.written + bytes.length } },
      w.2.next.append file.path bytes) plan
      (history.modifyLast fun content => (content.1, content.2 ++ bytes)) := by
  obtain ⟨done, entry, accepted, rfl, hState, hDone, hEntry, rfl⟩ := h.last hOpen
  have hNames : ((done ++ [(entry.path, accepted ++ bytes)]).map Prod.fst) =
      (done ++ [(entry.path, accepted)]).map Prod.fst := by
    rw [List.map_append, List.map_append]
    rfl
  rw [List.modifyLast_concat]
  constructor
  · exact h.planned
  · rw [hNames, ← h.names, Native.entries_append]
    exact extend_fst
  · rw [hNames]
    exact h.nodup
  · refine ⟨done, _, rfl, hDone, .opened entry _ hState hEntry ?_⟩
    rw [List.length_append]
  · exact fun hOther => absurd hState hOther

theorem Filled.torn (h : Filled w plan history) (path : Path) (bytes : List UInt8) :
    Filled (w.1, w.2.next.append path bytes) plan history := by
  refine ⟨h.planned, ?_, h.nodup, h.split, h.whole⟩
  rw [← h.names, Native.entries_append]
  exact extend_fst

theorem Filled.lost (h : Filled w plan history) {file : OpenFile} (hOpen : w.1.openEntry = some file)
    {native : Native} (hEntries : native.entries = w.2.entries) :
    Filled ({ w.1 with openEntry := none }, native) plan history := by
  obtain ⟨done, entry, accepted, rfl, hState, hDone, hEntry, rfl⟩ := h.last hOpen
  refine ⟨h.planned, ?_, h.nodup, ⟨done, _, rfl, hDone, .lost entry accepted rfl hState hEntry⟩, h.whole⟩
  rw [← h.names, ← hEntries]

theorem Filled.sealed (h : Filled w plan history) {file : OpenFile} (hOpen : w.1.openEntry = some file)
    (hWhole : file.written = file.expectedSize) :
    Filled ({ w.1 with openEntry := none, nextEntry := w.1.nextEntry + 1 }, w.2.next) plan history := by
  obtain ⟨done, entry, accepted, rfl, hState, hDone, hEntry, rfl⟩ := h.last hOpen
  refine ⟨h.planned, h.names, h.nodup, ⟨_, [], (List.append_nil _).symm, ?_, .closed rfl⟩, ?_⟩
  · rw [sizes, List.map_append, ← sizes, hDone, List.take_add_one, hEntry, StagingPlan.sizes, StagingPlan.sizes,
      List.map_append]
    simpa using hWhole
  · exact fun hOther => absurd hState hOther

theorem Filled.completed (h : Filled w plan history) (hOpen : w.1.openEntry = none)
    (hNext : w.1.nextEntry = plan.entries.length) {native : Native} (hEntries : native.entries = w.2.entries) :
    Filled ({ w.1 with state := .ready }, native) plan history := by
  obtain ⟨done, current, hSplit, hDone, hCurrent⟩ := h.split
  refine ⟨h.planned, ?_, h.nodup, ⟨done, current, hSplit, hDone, ?_⟩, fun _ => hNext⟩
  · rw [← h.names, ← hEntries]
  · cases hCurrent with
    | closed hNone => exact .closed hNone
    | lost entry bytes hNone hState hEntry =>
      rw [hNext, List.getElem?_eq_none (Nat.le_refl _)] at hEntry
      cases hEntry
    | opened entry bytes hState hEntry hSame => cases hOpen.symm.trans hSame

theorem Filled.sizes (h : Filled w plan history) (hState : w.1.state ≠ .staging) :
    sizes history = StagingPlan.sizes plan.entries := by
  obtain ⟨done, current, rfl, hDone, hCurrent⟩ := h.split
  cases hCurrent with
  | closed hNone => rw [List.append_nil, hDone, h.whole hState, List.take_length]
  | lost entry bytes hNone hStaging hEntry => exact absurd hStaging hState
  | opened entry bytes hStaging hEntry hSame => exact absurd hStaging hState

theorem Filled.published (h : Filled w plan history) (hState : w.1.state = .ready) :
    Filled ({ w.1 with staging := none, state := .published }, w.2.next) plan history := by
  have hReady : w.1.state ≠ .staging := by
    rw [hState]
    decide
  obtain ⟨done, current, hSplit, hDone, hCurrent⟩ := h.split
  refine ⟨h.planned, h.names, h.nodup, ⟨done, current, hSplit, hDone, ?_⟩, fun _ => h.whole hReady⟩
  cases hCurrent with
  | closed hNone => exact .closed hNone
  | lost entry bytes hNone hStaging hEntry => exact absurd hStaging hReady
  | opened entry bytes hStaging hEntry hSame => exact absurd hStaging hReady

theorem deliver_error (history : List Content) (c : TransactionCall) (e : PayloadStoreError) :
    deliver history c (.error e) = history := by
  cases c <;> rfl

theorem Audited.of_same {history' : List Content} (h : Audited w history tears) (hCreated : w.1.state ≠ .created)
    (hFinished : w.1.state ≠ .finished) (hCreated' : w'.1.state ≠ .created)
    (hFilled : ∀ plan, Filled w plan history → Filled w' plan history')
    (hSame : w.2.entries = history → w'.2.entries = history')
    (hExcess : total history < total w.2.entries → total history' < total w'.2.entries) :
    Audited w' history' tears := by
  cases h with
  | before hState hOpen hNext hHistory hTorn => exact absurd hState hCreated
  | filled plan hState hBefore hExact hTorn =>
    exact .filled plan hCreated' (hFilled plan hBefore) (fun hNot => hSame (hExact hNot)) fun hTears => hExcess (hTorn hTears)
  | finished hState => exact absurd hState hFinished

theorem Audited.step (h : Audited w history tears) (hStep : Steps w c reply w') :
    Audited w' (deliver history c reply) (tears ∨ Tears w c) := by
  have hUntorn (hNot : ¬ Tears w c) : tears = (tears ∨ Tears w c) :=
    propext ⟨Or.inl, fun hTears => hTears.resolve_right hNot⟩
  cases hStep with
  | refused c e hTurn =>
    have hNot : ¬ Tears w c := by
      intro hTears
      cases c with
      | writeChunk bytes => exact hTurn hTears.1
      | _ => exact hTears
    rw [deliver_error, ← hUntorn hNot]
    exact h
  | notBegun plan e native hState hMade hFiles =>
    rw [← hUntorn id]
    cases h with
    | before _ hOpen hNext hHistory hTorn => exact .before hState hOpen hNext hHistory hTorn
    | filled plan hOther hFilled hExact hTorn => exact absurd hState hOther
    | finished hOther => cases hState.symm.trans hOther
  | begun plan staging native hState hEmptied =>
    rw [← hUntorn id]
    cases h with
    | before _ hOpen hNext hHistory hTorn =>
      subst hHistory
      have hEntries : (native.withDirectory [filesDirectory]).entries = [] := by
        rw [Native.entries, Native.withDirectory, hEmptied.entries]
        rfl
      refine .filled plan (by intro hOther; cases hOther) ⟨rfl, ?_, List.nodup_nil, ⟨[], [], rfl, ?_, .closed hOpen⟩, ?_⟩
        (fun _ => hEntries) fun hTears => absurd hTears hTorn
      · rw [hEntries]
        rfl
      · change sizes [] = StagingPlan.sizes (plan.entries.take w.1.nextEntry)
        rw [hNext]
        rfl
      · exact fun hOther => absurd rfl hOther
    | filled plan hOther hFilled hExact hTorn => exact absurd hState hOther
    | finished hOther => cases hState.symm.trans hOther
  | parentDenied plan staging entry e w' hOpens hDenied hUnmade =>
    obtain ⟨made, path, rest, hSplit, hTransaction, hNative⟩ := hUnmade.split
    have hEntries : w'.2.entries = (DirectoryTransaction.withParents w made).2.entries := by
      rcases hNative with hSame | hSame
      · rw [hSame]
      · rw [hSame]
        rfl
    change w'.2.entries = w.2.entries at hEntries
    have hState := hOpens.admits.state
    have hState' : w'.1.state = .staging := (congrArg state hTransaction).trans hState
    rw [deliver_error, ← hUntorn id]
    apply h.of_same (by simp [hState]) (by simp [hState]) (by simp [hState'])
    · exact fun plan hFilled => (hFilled.withParents made).unmade hTransaction hEntries
    · exact hEntries.trans
    · exact fun hTotal => hEntries ▸ hTotal
  | notOpened plan staging entry e native hOpens hFree hKept =>
    have hState := hOpens.admits.state
    rw [deliver_error, ← hUntorn id]
    apply h.of_same (by simp [hState]) (by simp [hState]) (by simp [DirectoryTransaction.withParents, hState])
    · exact fun plan hFilled => (hFilled.withParents _).of_same rfl hKept.entries
    · exact hKept.entries.trans
    · exact fun hTotal => hKept.entries ▸ hTotal
  | opened plan staging entry native hOpens hFree hKept hNew =>
    have hState := hOpens.admits.state
    have hMade : (native.withFile entry.path).entries = w.2.entries ++ [(entry.path, [])] :=
      (Native.entries_withFile _ _).trans (congrArg (· ++ [(entry.path, [])]) hKept.entries)
    rw [← hUntorn id]
    apply h.of_same (by simp [hState]) (by simp [hState]) (by simp [DirectoryTransaction.withParents, hState])
    · intro plan' hFilled
      cases hFilled.planned.symm.trans hOpens.admits.plan
      have hParents := hFilled.withParents (missingParents w entry)
      have hOpens' : Opens (DirectoryTransaction.withParents w (missingParents w entry)) plan staging entry :=
        ⟨⟨hState, hOpens.admits.plan, hOpens.admits.staging⟩, hOpens.closed, hOpens.entry⟩
      exact hParents.opened hOpens' hKept.entries hNew
    · intro hSame
      exact hMade.trans (congrArg (· ++ [(entry.path, [])]) hSame)
    · intro hTotal
      change _ < total (native.withFile entry.path).entries
      rw [hMade, total_append]
      change total (history ++ [(entry.path, [])]) < _
      rw [total_append]
      exact Nat.add_lt_add_right hTotal _
  | written bytes file hWrites hFine =>
    have hState := hWrites.state
    rw [← hUntorn fun hTears => hTears.2.1 hFine]
    cases h with
    | before hOther hOpen hNext hHistory hTorn => cases hState.symm.trans hOther
    | finished hOther => cases hState.symm.trans hOther
    | filled plan hOther hFilled hExact hTorn =>
      have hEntries : (w.2.next.append file.path bytes).entries = extend file.path bytes w.2.entries :=
        Native.entries_append w.2.next file.path bytes
      refine .filled plan hOther (hFilled.written hWrites.openEntry bytes) (fun hNot => ?_) fun hTears => ?_
      · rw [hEntries, hExact hNot]
        exact hFilled.extend_history hWrites.openEntry bytes
      · rw [hEntries, hFilled.total_extend hWrites.openEntry]
        change total (history.modifyLast _) < _
        rw [hFilled.total_history hWrites.openEntry]
        exact Nat.add_lt_add_right (hTorn hTears) _
  | torn bytes file e hWrites hFails =>
    have hState := hWrites.state
    rw [deliver_error]
    cases h with
    | before hOther hOpen hNext hHistory hTorn => cases hState.symm.trans hOther
    | finished hOther => cases hState.symm.trans hOther
    | filled plan hOther hFilled hExact hTorn =>
      have hEntries : (w.2.next.append file.path (bytes.take w.2.answer.appended)).entries =
          extend file.path (bytes.take w.2.answer.appended) w.2.entries := Native.entries_append w.2.next file.path _
      have hTotal := hFilled.total_extend hWrites.openEntry (bytes.take w.2.answer.appended)
      refine .filled plan hOther (hFilled.torn _ _) (fun hNot => ?_) fun hTears => ?_
      · rw [not_or] at hNot
        have hNothing : bytes.take w.2.answer.appended = [] := by
          by_contra hSome
          exact hNot.2 ⟨⟨file, hWrites⟩, hFails, hSome⟩
        rw [hEntries, hNothing, extend_nil]
        exact hExact hNot.1
      · rw [hEntries, hTotal]
        by_cases hBefore : tears
        · exact Nat.lt_add_right _ (hTorn hBefore)
        · have hSome := List.length_pos_iff.mpr (hTears.resolve_left hBefore).2.2
          rw [hExact hBefore]
          omega
  | lost file e native hState hOpen hKept =>
    rw [deliver_error, ← hUntorn id]
    apply h.of_same (by simp [hState]) (by simp [hState]) (by simp [hState])
    · exact fun plan hFilled => hFilled.lost hOpen hKept.entries
    · exact hKept.entries.trans
    · exact fun hTotal => hKept.entries ▸ hTotal
  | «sealed» file hState hOpen hWhole =>
    rw [← hUntorn id]
    apply h.of_same (by simp [hState]) (by simp [hState]) (by simp [hState])
    · exact fun plan hFilled => hFilled.sealed hOpen hWhole
    · exact id
    · exact id
  | incomplete e native hState hKept =>
    rw [deliver_error, ← hUntorn id]
    apply h.of_same (by simp [hState]) (by simp [hState]) (by simp [hState])
    · exact fun plan hFilled => hFilled.of_same rfl hKept.entries
    · exact hKept.entries.trans
    · exact fun hTotal => hKept.entries ▸ hTotal
  | completed plan staging native hAdmits hClosed hNext hKept =>
    have hState := hAdmits.state
    rw [← hUntorn id]
    apply h.of_same (by simp [hState]) (by simp [hState]) (by simp)
    · intro plan' hFilled
      cases hFilled.planned.symm.trans hAdmits.plan
      exact hFilled.completed hClosed hNext hKept.entries
    · exact hKept.entries.trans
    · exact fun hTotal => hKept.entries ▸ hTotal
  | unpublished reply hState hReply =>
    rw [← hUntorn id]
    apply h.of_same (by simp [hState]) (by simp [hState]) (by simp [hState])
    · exact fun plan hFilled => hFilled.of_same rfl rfl
    · exact id
    · exact id
  | published hState =>
    rw [← hUntorn id]
    apply h.of_same (by simp [hState]) (by simp [hState]) (by simp)
    · exact fun plan hFilled => hFilled.published hState
    · exact id
    · exact id
  | synced reply hState =>
    rw [← hUntorn id]
    apply h.of_same (by simp [hState]) (by simp [hState]) (by simp [hState])
    · exact fun plan hFilled => hFilled.of_same rfl rfl
    · exact id
    · exact id
  | aborted reply native hState hMade hFiles => exact .finished rfl

end Steps

def Torn (answers : Nat → Answer) (calls : List TransactionCall) : Prop :=
  ∃ before c, before ++ [c] <+: calls ∧ Tears (run (start answers) before) c

theorem torn_append (answers : Nat → Answer) (calls : List TransactionCall) (c : TransactionCall) :
    Torn answers (calls ++ [c]) ↔ Torn answers calls ∨ Tears (run (start answers) calls) c := by
  constructor
  · rintro ⟨before, d, hPrefix, hTears⟩
    rcases List.prefix_concat_iff.mp hPrefix with hSame | hEarlier
    · obtain ⟨rfl, hLast⟩ := List.append_inj' hSame rfl
      cases hLast
      exact .inr hTears
    · exact .inl ⟨before, d, hEarlier, hTears⟩
  · rintro (⟨before, d, hPrefix, hTears⟩ | hTears)
    · exact ⟨before, d, hPrefix.trans (List.prefix_append _ _), hTears⟩
    · exact ⟨calls, c, List.prefix_rfl, hTears⟩

theorem audited_run (answers : Nat → Answer) (calls : List TransactionCall) :
    Audited (run (start answers) calls) (delivered answers calls) (Torn answers calls) := by
  induction calls using List.reverseRecOn with
  | nil =>
    refine .before rfl rfl rfl rfl ?_
    rintro ⟨before, c, hPrefix, -⟩
    exact absurd hPrefix.length_le (by simp)
  | append_singleton calls c ih =>
    rw [run_append, delivered_append, propext (torn_append answers calls c)]
    exact ih.step (call_steps _ c)

/-- A published tree is exact unless a write of the run was torn. -/
theorem published_exact_iff (answers : Nat → Answer) (calls : List TransactionCall)
    (hPublished : ((call .publishNoReplace).exec (run (start answers) calls)).1 = .ok (some .published)) :
    (∃ plan, (run (start answers) calls).1.plan = some plan ∧
      Exact plan (run (start answers) (calls ++ [.publishNoReplace])).2 (delivered answers calls)) ↔
      ∀ before c, before ++ [c] <+: calls → ¬ Tears (run (start answers) before) c := by
  have hStep := call_steps (run (start answers) calls) .publishNoReplace
  have hEntries : (run (start answers) (calls ++ [.publishNoReplace])).2.entries =
      (run (start answers) calls).2.entries ∧ (run (start answers) calls).1.state = .ready := by
    rw [run_append]
    rw [hPublished] at hStep
    generalize ((call .publishNoReplace).exec (run (start answers) calls)).2 = after at hStep ⊢
    cases hStep with
    | unpublished reply hState hReply => exact absurd rfl hReply
    | published hState => exact ⟨rfl, hState⟩
  have hTorn : (∀ before c, before ++ [c] <+: calls → ¬ Tears (run (start answers) before) c) ↔ ¬ Torn answers calls := by
    simp only [Torn, not_exists, not_and]
  rw [hTorn]
  cases audited_run answers calls with
  | before hState => cases hEntries.2.symm.trans hState
  | finished hState => cases hEntries.2.symm.trans hState
  | filled plan hState hFilled hExact hExcess =>
    constructor
    · rintro ⟨plan', hPlan, hContents, hSizes⟩ hTears
      have hMore := hExcess hTears
      rw [hEntries.1] at hContents
      rw [hContents] at hMore
      exact Nat.lt_irrefl _ hMore
    · intro hNot
      refine ⟨plan, hFilled.planned, hEntries.1.trans (hExact hNot), hFilled.sizes ?_⟩
      rw [hEntries.2]
      decide

theorem published_exact_iff_fine :
    let plan : StagingPlan := ⟨text "payload-v1", [⟨[text "inner.bin"], 4⟩], by decide, by decide, by decide⟩
    let calls := [.begin plan, .openFile [text "inner.bin"] 4, .writeChunk [1, 2], .writeChunk [3, 4], .sealFile,
      .sealCompletion]
    let w := run (start fun _ => .fine) calls
    ((call .publishNoReplace).exec w).1 = .ok (some .published) ∧
      ((∃ plan, w.1.plan = some plan ∧
        Exact plan (run (start fun _ => .fine) (calls ++ [.publishNoReplace])).2 (delivered (fun _ => .fine) calls)) ↔
        ∀ before c, before ++ [c] <+: calls → ¬ Tears (run (start fun _ => .fine) before) c) :=
  ⟨by decide +kernel, published_exact_iff _ _ (by decide +kernel)⟩

/-- One byte of the first attempt stays in the file, and the retry is accepted whole. -/
theorem torn_write_is_published :
    let plan : StagingPlan := ⟨text "payload-v1", [⟨[text "inner.bin"], 4⟩], by decide, by decide, by decide⟩
    let answers (turn : Nat) : Answer := if turn = 3 then ⟨some .other, 1, .done⟩ else .fine
    let calls := [.begin plan, .openFile [text "inner.bin"] 4, .writeChunk [1, 2, 3, 4], .writeChunk [1, 2, 3, 4],
      .sealFile, .sealCompletion]
    let w := run (start answers) calls
    ((call .publishNoReplace).exec w).1 = .ok (some .published) ∧
      delivered answers calls = [([filesDirectory, text "inner.bin"], [1, 2, 3, 4])] ∧
      (run (start answers) (calls ++ [.publishNoReplace])).2.entries =
        [([filesDirectory, text "inner.bin"], [1, 1, 2, 3, 4])] ∧
      ¬ ∃ plan, w.1.plan = some plan ∧
        Exact plan (run (start answers) (calls ++ [.publishNoReplace])).2 (delivered answers calls) := by
  refine ⟨by decide +kernel, by decide +kernel, by decide +kernel, ?_⟩
  rintro ⟨plan, -, hContents, -⟩
  exact absurd hContents (by decide +kernel)

end DirectoryTransaction

end OpenHalfLife.Payload
