import OpenHalfLife.Payload.Transaction

/-! # What a call on a transaction does

One specification for each native call and for the parents of an entry.
-/

namespace OpenHalfLife.Payload

open Machine

set_option autoImplicit false

variable {native : Native} {path : Path}

namespace Native

theorem act_ensures {change : Native → Native} {Q : Unit → Native → Prop} {E : IoErrorKind → Native → Prop} :
    Ensures (act change) native Q E ↔
      (native.answer.error = none → Q () (change native.next)) ∧
        ∀ kind, native.answer.error = some kind → E kind native.next := by
  rw [act, ensures_bind, ensures_get, ensures_bind, ensures_set]
  cases native.answer.error with
  | none => simp
  | some kind => simp

/-- A directory made at `path`. -/
def withDirectory (native : Native) (path : Path) : Native :=
  { native with
    directories := native.directories ++ [path]
    madeDirectories := native.madeDirectories ++ [path] }

/-- An empty file made at `path`. -/
def withFile (native : Native) (path : Path) : Native :=
  { native with
    files := native.files ++ [(path, [])]
    madeFiles := native.madeFiles ++ [path] }

def Refuses (native : Native) (path : Path) : Prop := native.Exists path ∨ native.answer.error ≠ none

theorem createDir_ensures {Q : Unit → Native → Prop} {E : IoErrorKind → Native → Prop}
    (hOk : ¬ native.Refuses path → Q () (native.next.withDirectory path))
    (hError : native.Refuses path → ∀ kind, E kind native ∧ E kind native.next) :
    Ensures (createDir path) native Q E := by
  rw [createDir, ensures_bind, ensures_get, ensures_bind, ensures_rejectIf]
  refine ⟨fun h => (hError (.inl h) _).1, fun h => act_ensures.mpr ⟨fun hFine => ?_, fun kind hKind => ?_⟩⟩
  · exact hOk (not_or.mpr ⟨h, not_not.mpr hFine⟩)
  · exact (hError (.inr (hKind ▸ Option.some_ne_none kind)) kind).2

theorem createFile_ensures {Q : Unit → Native → Prop} {E : IoErrorKind → Native → Prop}
    (hOk : ¬ native.Refuses path → Q () (native.next.withFile path))
    (hError : native.Refuses path → ∀ kind, E kind native ∧ E kind native.next) :
    Ensures (createFile path) native Q E := by
  rw [createFile, ensures_bind, ensures_get, ensures_bind, ensures_rejectIf]
  refine ⟨fun h => (hError (.inl h) _).1, fun h => act_ensures.mpr ⟨fun hFine => ?_, fun kind hKind => ?_⟩⟩
  · exact hOk (not_or.mpr ⟨h, not_not.mpr hFine⟩)
  · exact (hError (.inr (hKind ▸ Option.some_ne_none kind)) kind).2

theorem writeAll_ensures {bytes : List UInt8} {Q : Unit → Native → Prop} {E : IoErrorKind → Native → Prop}
    (hOk : native.answer.error = none → Q () (native.next.append path bytes))
    (hError : native.answer.error ≠ none →
      ∀ kind, E kind (native.next.append path (bytes.take native.answer.appended))) :
    Ensures (writeAll path bytes) native Q E := by
  rw [writeAll, ensures_bind, ensures_get, ensures_bind, ensures_set]
  cases hAnswer : native.answer.error with
  | none =>
    simp only [ensures_modify]
    exact hOk hAnswer
  | some kind =>
    simp only [ensures_bind, ensures_modify, ensures_throw]
    exact hError (hAnswer ▸ Option.some_ne_none kind) kind

end Native

def missing (created : List Path) (relative : Path) : List Text → List Path
  | [] => []
  | component :: components =>
    if created.contains (relative ++ [component]) then missing created (relative ++ [component]) components
    else (relative ++ [component]) ::
      missing (created ++ [relative ++ [component]]) (relative ++ [component]) components

section Missing

variable {created : List Path} {relative : Path} {component : Text} {components : List Text}

theorem missing_known (h : relative ++ [component] ∈ created) :
    missing created relative (component :: components) = missing created (relative ++ [component]) components := by
  rw [missing, if_pos (List.contains_iff_mem.mpr h)]

theorem missing_new (h : relative ++ [component] ∉ created) :
    missing created relative (component :: components) = (relative ++ [component]) ::
      missing (created ++ [relative ++ [component]]) (relative ++ [component]) components := by
  rw [missing, if_neg (mt List.contains_iff_mem.mp h)]

theorem length_lt_of_mem_missing (h : path ∈ missing created relative components) : relative.length < path.length := by
  induction components generalizing created relative with
  | nil => cases h
  | cons component components ih =>
    have hLonger : (relative ++ [component]).length = relative.length + 1 := List.length_append
    by_cases hKnown : relative ++ [component] ∈ created
    · rw [missing_known hKnown] at h
      have hRest := ih h
      omega
    · rw [missing_new hKnown] at h
      rcases List.mem_cons.mp h with rfl | h
      · omega
      · have hRest := ih h
        omega

end Missing

namespace DirectoryTransaction

variable {w : World} {relative : Path}

theorem ensures_onNative {α : Type} {m : Machine IoErrorKind Native α} {Q : α → World → Prop}
    {E : PayloadStoreError → World → Prop} :
    Ensures (onNative m) w Q E ↔
      Ensures m w.2 (fun a native => Q a (w.1, native)) fun kind native => E (mapIo kind) (w.1, native) :=
  ensures_zoom

theorem ensures_update {change : DirectoryTransaction → DirectoryTransaction} {Q : Unit → World → Prop}
    {E : PayloadStoreError → World → Prop} : Ensures (update change) w Q E ↔ Q () (change w.1, w.2) :=
  ensures_modify

theorem ensures_orInvalid {α : Type} {o : Option α} {Q : α → World → Prop} {E : PayloadStoreError → World → Prop} :
    Ensures (orInvalid o) w Q E ↔ (∀ a, o = some a → Q a w) ∧ (o = none → E .invalidState w) := by
  cases o with
  | none => simp [orInvalid]
  | some a => simp [orInvalid]

def withParents (w : World) (paths : List Path) : World :=
  ({ w.1 with createdDirectories := w.1.createdDirectories ++ paths },
    { w.2 with
      turn := w.2.turn + paths.length
      directories := w.2.directories ++ paths.map (filesDirectory :: ·)
      madeDirectories := w.2.madeDirectories ++ paths.map (filesDirectory :: ·) })

def withUnmade (w : World) (path : Path) : DirectoryTransaction :=
  { w.1 with createdDirectories := w.1.createdDirectories ++ [path] }

theorem withParents_nil (w : World) : withParents w [] = w := by
  simp [withParents]

theorem withParents_cons (w : World) (path : Path) (paths : List Path) :
    withParents (withParents w [path]) paths = withParents w (path :: paths) := by
  simp [withParents, Nat.add_assoc, Nat.add_comm 1]

theorem createParent_ensures {Q : Unit → World → Prop} {E : PayloadStoreError → World → Prop}
    (hKnown : path ∈ w.1.createdDirectories → Q () w)
    (hMade : path ∉ w.1.createdDirectories → ¬ w.2.Refuses (filesDirectory :: path) → Q () (withParents w [path]))
    (hUnmade : path ∉ w.1.createdDirectories → w.2.Refuses (filesDirectory :: path) →
      ∀ e, E e (withUnmade w path, w.2) ∧ E e (withUnmade w path, w.2.next)) :
    Ensures (createParent path) w Q E := by
  rw [createParent, ensures_bind, ensures_get, ensures_ite]
  refine ⟨hKnown, fun hNew => ?_⟩
  rw [ensures_bind, ensures_update, ensures_onNative]
  apply Native.createDir_ensures
  · exact hMade hNew
  · exact fun h kind => hUnmade hNew h (mapIo kind)

/-- Some parent that is still to be made cannot be: the name is taken, or the native call fails. -/
def Denied (w : World) (paths : List Path) : Prop :=
  ∃ made path rest, paths = made ++ path :: rest ∧
    (w.2.Exists (filesDirectory :: path) ∨ (w.2.answers (w.2.turn + made.length)).error ≠ none)

theorem not_denied_nil : ¬ Denied w [] := by
  rintro ⟨made, path, rest, h, -⟩
  simp at h

theorem denied_cons {paths : List Path} (hLonger : ∀ q ∈ paths, path.length < q.length) :
    Denied w (path :: paths) ↔ w.2.Refuses (filesDirectory :: path) ∨ Denied (withParents w [path]) paths := by
  have hExists {q : Path} (hq : q ∈ paths) :
      (withParents w [path]).2.Exists (filesDirectory :: q) ↔ w.2.Exists (filesDirectory :: q) := by
    have hNe : q ≠ path := fun h => absurd (hLonger q hq) (h ▸ Nat.lt_irrefl _)
    simp [withParents, Native.Exists, hNe]
  constructor
  · rintro ⟨made, q, rest, hSplit, hRefused⟩
    cases made with
    | nil =>
      cases hSplit
      exact .inl hRefused
    | cons head made =>
      cases hSplit
      have hMem : q ∈ made ++ q :: rest := by simp
      refine .inr ⟨made, q, rest, rfl, hRefused.imp (hExists hMem).mpr fun h => ?_⟩
      rw [List.length_cons] at h
      change (w.2.answers (w.2.turn + 1 + made.length)).error ≠ none
      rwa [Nat.add_assoc, Nat.add_comm 1]
  · rintro (hRefused | ⟨made, q, rest, rfl, hRefused⟩)
    · exact ⟨[], path, paths, rfl, hRefused⟩
    · have hMem : q ∈ made ++ q :: rest := by simp
      refine ⟨path :: made, q, rest, rfl, hRefused.imp (hExists hMem).mp fun h => ?_⟩
      change (w.2.answers (w.2.turn + 1 + made.length)).error ≠ none at h
      rwa [List.length_cons, Nat.add_comm made.length 1, ← Nat.add_assoc]

/-- How `create_parents` fails: at the first parent it cannot make, which stays recorded. -/
structure Unmade (w : World) (paths : List Path) (w' : World) : Prop where
  split : ∃ made path rest, paths = made ++ path :: rest ∧ w'.1 = withUnmade (withParents w made) path ∧
    (w'.2 = (withParents w made).2 ∨ w'.2 = (withParents w made).2.next)

theorem createParents_ensures (components : List Text) :
    Ensures (createParents relative components) w
      (fun _ w' => ¬ Denied w (missing w.1.createdDirectories relative components) ∧
        w' = withParents w (missing w.1.createdDirectories relative components))
      fun _ w' => Denied w (missing w.1.createdDirectories relative components) ∧
        Unmade w (missing w.1.createdDirectories relative components) w' := by
  induction components generalizing w relative with
  | nil =>
    rw [createParents, missing, withParents_nil, ensures_pure]
    exact ⟨not_denied_nil, rfl⟩
  | cons component components ih =>
    rw [createParents, ensures_bind]
    have hLonger : ∀ q ∈ missing (w.1.createdDirectories ++ [relative ++ [component]]) (relative ++ [component])
        components, (relative ++ [component]).length < q.length :=
      fun q hq => length_lt_of_mem_missing hq
    apply createParent_ensures
    · intro hKnown
      rw [missing_known hKnown]
      exact ih
    · intro hNew hMade
      rw [missing_new hNew, denied_cons hLonger]
      apply (ih (w := withParents w [relative ++ [component]])).mono
      · rintro _ _ ⟨hAllowed, rfl⟩
        exact ⟨not_or.mpr ⟨hMade, hAllowed⟩, withParents_cons _ _ _⟩
      · rintro _ w' ⟨hDenied, ⟨made, path, rest, hSplit, hTransaction, hNative⟩⟩
        rw [withParents_cons] at hTransaction hNative
        change missing (w.1.createdDirectories ++ [relative ++ [component]]) _ _ = _ at hSplit
        refine ⟨.inr hDenied, ⟨(relative ++ [component]) :: made, path, rest, ?_, hTransaction, hNative⟩⟩
        rw [hSplit]
        rfl
    · intro hNew hRefused e
      rw [missing_new hNew, denied_cons hLonger]
      have hFirst (native : Native) (h : native = w.2 ∨ native = w.2.next) :
          Unmade w ((relative ++ [component]) :: missing (w.1.createdDirectories ++ [relative ++ [component]])
            (relative ++ [component]) components) (withUnmade w (relative ++ [component]), native) := by
        refine ⟨[], _, _, rfl, ?_, ?_⟩
        · rw [withParents_nil]
        · rw [withParents_nil]
          exact h
      exact ⟨⟨.inl hRefused, hFirst _ (.inl rfl)⟩, ⟨.inl hRefused, hFirst _ (.inr rfl)⟩⟩

end DirectoryTransaction

namespace Native

/-- The files below `files`, in the order they were made. -/
def entries (native : Native) : List (Path × List UInt8) :=
  native.files.filter fun file => file.1.head? = some filesDirectory

/-- Nothing below `files` changed; the completion file may have been made. -/
structure Kept (native native' : Native) : Prop where
  answers : native'.answers = native.answers
  entries : native'.entries = native.entries
  directories : native'.directories = native.directories
  madeDirectories : native'.madeDirectories = native.madeDirectories
  madeFiles : ∀ path ∈ native'.madeFiles, path ∈ native.madeFiles ∨ path = [completionName]

theorem Kept.refl (native : Native) : native.Kept native := ⟨rfl, rfl, rfl, rfl, fun _ h => .inl h⟩

theorem Kept.next (native : Native) : native.Kept native.next := ⟨rfl, rfl, rfl, rfl, fun _ h => .inl h⟩

theorem Kept.trans {a b c : Native} (h : a.Kept b) (h' : b.Kept c) : a.Kept c := by
  refine ⟨h'.answers.trans h.answers, h'.entries.trans h.entries, h'.directories.trans h.directories,
    h'.madeDirectories.trans h.madeDirectories, fun path hMade => ?_⟩
  rcases h'.madeFiles path hMade with hMade | hCompletion
  · exact h.madeFiles path hMade
  · exact .inr hCompletion

structure Emptied (native native' : Native) : Prop where
  answers : native'.answers = native.answers
  entries : native'.files = []
  directories : native'.directories = []
  madeDirectories : native'.madeDirectories = native.madeDirectories
  madeFiles : native'.madeFiles = native.madeFiles

theorem completionName_ne : completionName ≠ filesDirectory := by decide

theorem withFile_completion_kept (native : Native) : native.Kept (native.withFile [completionName]) := by
  refine ⟨rfl, ?_, rfl, rfl, fun path h => ?_⟩
  · rw [entries, entries, withFile, List.filter_append]
    simp [completionName_ne]
  · rcases List.mem_append.mp h with h | h
    · exact .inl h
    · exact .inr (List.mem_singleton.mp h)

theorem entries_append (native : Native) (path : Path) (bytes : List UInt8) :
    (native.append path bytes).entries =
      native.entries.map fun file => if file.1 = path then (file.1, file.2 ++ bytes) else file := by
  rw [entries, entries, append, List.filter_map]
  congr 1
  apply List.filter_congr
  intro file _
  simp only [Function.comp]
  split <;> rfl

theorem append_completion_kept (native : Native) (bytes : List UInt8) :
    native.Kept (native.append [completionName] bytes) := by
  refine ⟨rfl, ?_, rfl, rfl, fun _ h => .inl h⟩
  rw [entries_append]
  refine (List.map_congr_left fun file hFile => ?_).trans (List.map_id _)
  have hUnder := (List.mem_filter.mp hFile).2
  rw [if_neg]
  · rfl
  · rintro hSame
    rw [hSame] at hUnder
    exact completionName_ne (Option.some.inj (of_decide_eq_true hUnder))

end Native

namespace DirectoryTransaction

variable {w : World}

structure Admits (w : World) (plan : StagingPlan) (staging : StagingDirectory) : Prop where
  state : w.1.state = .staging
  plan : w.1.plan = some plan
  staging : w.1.staging = some staging

structure Opens (w : World) (plan : StagingPlan) (staging : StagingDirectory) (entry : StagingEntry) : Prop where
  admits : Admits w plan staging
  closed : w.1.openEntry = none
  entry : plan.entries[w.1.nextEntry]? = some entry

structure Writes (w : World) (bytes : List UInt8) (file : OpenFile) : Prop where
  state : w.1.state = .staging
  chunk : bytes.length ≤ maximumChunkBytes
  openEntry : w.1.openEntry = some file
  fits : bytes.length ≤ file.expectedSize - file.written

def missingParents (w : World) (entry : StagingEntry) : List Path :=
  missing w.1.createdDirectories [] entry.components.dropLast

def InTurn (w : World) : TransactionCall → Prop
  | .openFile components expectedSize => ∃ plan staging entry, Opens w plan staging entry ∧
      components = entry.components ∧ expectedSize = entry.sizeBytes
  | .writeChunk bytes => ∃ file, Writes w bytes file
  | _ => False

inductive Steps (w : World) : TransactionCall → TransactionReply → World → Prop
  | refused (c : TransactionCall) (e : PayloadStoreError) : ¬ InTurn w c → Steps w c (.error e) w
  | notBegun (plan : StagingPlan) (e : PayloadStoreError) (native : Native) : w.1.state = .created →
    native.madeDirectories = w.2.madeDirectories → native.madeFiles = w.2.madeFiles →
    Steps w (.begin plan) (.error e) (w.1, native)
  | begun (plan : StagingPlan) (staging : StagingDirectory) (native : Native) : w.1.state = .created →
    w.2.Emptied native →
    Steps w (.begin plan) (.ok none)
      ({ w.1 with staging := some staging, plan := some plan, state := .staging },
        native.withDirectory [filesDirectory])
  | parentDenied (plan : StagingPlan) (staging : StagingDirectory) (entry : StagingEntry) (e : PayloadStoreError)
    (w' : World) : Opens w plan staging entry → Denied w (missingParents w entry) →
    Unmade w (missingParents w entry) w' →
    Steps w (.openFile entry.components entry.sizeBytes) (.error e) w'
  | notOpened (plan : StagingPlan) (staging : StagingDirectory) (entry : StagingEntry) (e : PayloadStoreError)
    (native : Native) : Opens w plan staging entry → ¬ Denied w (missingParents w entry) →
    (withParents w (missingParents w entry)).2.Kept native →
    Steps w (.openFile entry.components entry.sizeBytes) (.error e)
      ((withParents w (missingParents w entry)).1, native)
  | opened (plan : StagingPlan) (staging : StagingDirectory) (entry : StagingEntry) (native : Native) :
    Opens w plan staging entry → ¬ Denied w (missingParents w entry) →
    (withParents w (missingParents w entry)).2.Kept native →
    ¬ native.Exists (filesDirectory :: entry.components) →
    Steps w (.openFile entry.components entry.sizeBytes) (.ok none)
      ({ (withParents w (missingParents w entry)).1 with
          openEntry := some ⟨filesDirectory :: entry.components, entry.sizeBytes.toNat, 0⟩ },
        native.withFile (filesDirectory :: entry.components))
  | written (bytes : List UInt8) (file : OpenFile) : Writes w bytes file → w.2.answer.error = none →
    Steps w (.writeChunk bytes) (.ok none)
      ({ w.1 with openEntry := some { file with written := file.written + bytes.length } },
        w.2.next.append file.path bytes)
  | torn (bytes : List UInt8) (file : OpenFile) (e : PayloadStoreError) : Writes w bytes file →
    w.2.answer.error ≠ none →
    Steps w (.writeChunk bytes) (.error e) (w.1, w.2.next.append file.path (bytes.take w.2.answer.appended))
  | lost (file : OpenFile) (e : PayloadStoreError) (native : Native) : w.1.state = .staging →
    w.1.openEntry = some file → w.2.Kept native →
    Steps w .sealFile (.error e) ({ w.1 with openEntry := none }, native)
  | sealed (file : OpenFile) : w.1.state = .staging → w.1.openEntry = some file →
    file.written = file.expectedSize →
    Steps w .sealFile (.ok none) ({ w.1 with openEntry := none, nextEntry := w.1.nextEntry + 1 }, w.2.next)
  | incomplete (e : PayloadStoreError) (native : Native) : w.1.state = .staging → w.2.Kept native →
    Steps w .sealCompletion (.error e) (w.1, native)
  | completed (plan : StagingPlan) (staging : StagingDirectory) (native : Native) : Admits w plan staging →
    w.1.openEntry = none → w.1.nextEntry = plan.entries.length → w.2.Kept native →
    Steps w .sealCompletion (.ok none) ({ w.1 with state := .ready }, native)
  | unpublished (reply : TransactionReply) : w.1.state = .ready → reply ≠ .ok (some .published) →
    Steps w .publishNoReplace reply (w.1, w.2.next)
  | published : w.1.state = .ready →
    Steps w .publishNoReplace (.ok (some .published))
      ({ w.1 with staging := none, state := .published }, w.2.next)
  | synced (reply : TransactionReply) : w.1.state = .published → Steps w .syncPublishedParent reply (w.1, w.2.next)
  | aborted (reply : TransactionReply) (native : Native) : w.1.state ≠ .published →
    native.madeDirectories = w.2.madeDirectories → native.madeFiles = w.2.madeFiles →
    Steps w .abort reply ({ w.1 with openEntry := none, staging := none, state := .finished }, native)

theorem ensures_onStaging {α : Type} {m : Machine AtomicDirectoryError Native α} {Q : α → World → Prop}
    {E : PayloadStoreError → World → Prop} :
    Ensures (onStaging m) w Q E ↔
      Ensures m w.2 (fun a native => Q a (w.1, native)) fun error native => E error.toStore (w.1, native) :=
  ensures_zoom

theorem removeStaging_ensures (native : Native) :
    Ensures Native.removeStaging native
      (fun _ n => n.madeDirectories = native.madeDirectories ∧ n.madeFiles = native.madeFiles)
      fun _ n => n.madeDirectories = native.madeDirectories ∧ n.madeFiles = native.madeFiles := by
  rw [Native.removeStaging, ensures_bind, ensures_get, ensures_bind, ensures_set]
  split <;> exact ⟨rfl, rfl⟩

theorem begin_ensures (plan : StagingPlan) :
    Ensures (begin plan) w (fun _ w' => Steps w (.begin plan) (.ok none) w')
      fun e w' => Steps w (.begin plan) (.error e) w' := by
  rw [begin, ensures_bind, ensures_get, ensures_bind, ensures_rejectIf]
  refine ⟨fun _ => .refused _ _ id, fun hState => ?_⟩
  have hState : w.1.state = .created := not_not.mp hState
  rw [ensures_bind, ensures_onStaging, Native.createStaging, ensures_bind, ensures_get, ensures_bind, ensures_set]
  have hNot (e : PayloadStoreError) : Steps w (.begin plan) (.error e) (w.1, w.2.next) :=
    .notBegun plan e _ hState rfl rfl
  split
  · exact hNot _
  · exact hNot _
  · exact hNot _
  · rw [ensures_bind, ensures_modify, ensures_pure, ensures_bind, createFiles, ensures_bind, ensures_attempt,
      ensures_onNative]
    have hRemoved (native : Native) (hMade : native.madeDirectories = w.2.madeDirectories)
        (hFiles : native.madeFiles = w.2.madeFiles) (e : PayloadStoreError) :
        Ensures (do
          let _ ← (attempt (onStaging Native.removeStaging) : Method (Except PayloadStoreError Unit))
          throw e : Method Unit) (w.1, native) (fun _ _ => False) fun e w' => Steps w (.begin plan) (.error e) w' := by
      rw [ensures_bind, ensures_attempt, ensures_onStaging]
      apply (removeStaging_ensures native).mono
      · exact fun _ n h => .notBegun plan e _ hState (h.1.trans hMade) (h.2.trans hFiles)
      · exact fun _ n h => .notBegun plan e _ hState (h.1.trans hMade) (h.2.trans hFiles)
    apply Native.createDir_ensures
    · intro _
      rw [ensures_pure, ensures_update]
      exact .begun plan _ _ hState ⟨rfl, rfl, rfl, rfl, rfl⟩
    · intro _ kind
      let emptied : Native := { w.2.next with directories := [], files := [] }
      exact ⟨(hRemoved emptied rfl rfl _).mono (fun _ _ h => h.elim) fun _ _ h => h,
        (hRemoved emptied.next rfl rfl _).mono (fun _ _ h => h.elim) fun _ _ h => h⟩

theorem openFile_ensures (components : List Text) (expectedSize : UInt64) :
    Ensures (openFile components expectedSize) w
      (fun _ w' => Steps w (.openFile components expectedSize) (.ok none) w')
      fun e w' => Steps w (.openFile components expectedSize) (.error e) w' := by
  rw [openFile, ensures_bind, ensures_get, ensures_bind, ensures_rejectIf]
  constructor
  · rintro hState
    apply Steps.refused
    rintro ⟨plan, staging, entry, hOpens, -, -⟩
    exact hState.elim (· hOpens.admits.state) (· hOpens.closed)
  intro hState
  rw [not_or, not_not, not_not] at hState
  rw [ensures_bind, ensures_orInvalid]
  constructor
  swap
  · intro hPlan
    apply Steps.refused
    rintro ⟨plan, staging, entry, hOpens, -, -⟩
    exact Option.some_ne_none plan (hOpens.admits.plan.symm.trans hPlan)
  intro plan hPlan
  rw [ensures_bind, ensures_orInvalid]
  constructor
  swap
  · intro hEntry
    apply Steps.refused
    rintro ⟨plan', staging, entry, hOpens, -, -⟩
    cases hPlan.symm.trans hOpens.admits.plan
    exact Option.some_ne_none entry (hOpens.entry.symm.trans hEntry)
  intro entry hEntry
  rw [ensures_bind, ensures_rejectIf]
  constructor
  · intro hOther
    apply Steps.refused
    rintro ⟨plan', staging, entry', hOpens, hComponents, hSize⟩
    cases hPlan.symm.trans hOpens.admits.plan
    cases hEntry.symm.trans hOpens.entry
    exact hOther.elim (· hComponents.symm) (· hSize.symm)
  intro hSame
  rw [not_or, not_not, not_not] at hSame
  obtain ⟨rfl, rfl⟩ := hSame
  rw [ensures_bind, ensures_orInvalid]
  constructor
  swap
  · intro hStaging
    apply Steps.refused
    rintro ⟨plan', staging, entry', hOpens, -, -⟩
    exact Option.some_ne_none staging (hOpens.admits.staging.symm.trans hStaging)
  intro staging hStaging
  have hOpens : Opens w plan staging entry := ⟨⟨hState.1, hPlan, hStaging⟩, hState.2, hEntry⟩
  rw [createEntry, ensures_bind]
  apply (createParents_ensures (w := w) entry.components.dropLast).mono
  · rintro _ _ ⟨hAllowed, rfl⟩
    rw [ensures_bind, ensures_onNative]
    apply Native.createFile_ensures
    · intro hFree
      rw [ensures_update]
      exact .opened plan staging entry _ hOpens hAllowed (.next _) fun h => hFree (.inl h)
    · intro _ kind
      exact ⟨.notOpened plan staging entry _ _ hOpens hAllowed (.refl _),
        .notOpened plan staging entry _ _ hOpens hAllowed (.next _)⟩
  · rintro e w' ⟨hDenied, hUnmade⟩
    exact .parentDenied plan staging entry e w' hOpens hDenied hUnmade

theorem writeChunk_ensures (bytes : List UInt8) :
    Ensures (writeChunk bytes) w (fun _ w' => Steps w (.writeChunk bytes) (.ok none) w')
      fun e w' => Steps w (.writeChunk bytes) (.error e) w' := by
  rw [writeChunk, ensures_bind, ensures_get, ensures_bind, ensures_rejectIf]
  constructor
  · intro hState
    apply Steps.refused
    rintro ⟨file, hWrites⟩
    exact hState.elim (· hWrites.state) fun h => absurd hWrites.chunk (Nat.not_le_of_lt h)
  intro hState
  rw [not_or, not_not] at hState
  rw [ensures_bind, ensures_orInvalid]
  constructor
  swap
  · intro hNone
    apply Steps.refused
    rintro ⟨file, hWrites⟩
    exact Option.some_ne_none file (hWrites.openEntry.symm.trans hNone)
  intro file hFile
  rw [ensures_bind, ensures_rejectIf]
  constructor
  · intro hLong
    apply Steps.refused
    rintro ⟨file', hWrites⟩
    cases hFile.symm.trans hWrites.openEntry
    exact absurd hWrites.fits (Nat.not_le_of_lt hLong)
  intro hFits
  have hWrites : Writes w bytes file := ⟨hState.1, Nat.le_of_not_lt hState.2, hFile, Nat.le_of_not_lt hFits⟩
  rw [ensures_bind, ensures_onNative]
  apply Native.writeAll_ensures
  · intro hFine
    rw [ensures_update]
    exact .written bytes file hWrites hFine
  · intro hFails kind
    exact .torn bytes file _ hWrites hFails

theorem sealFile_ensures :
    Ensures sealFile w (fun _ w' => Steps w .sealFile (.ok none) w') fun e w' => Steps w .sealFile (.error e) w' := by
  rw [sealFile, ensures_bind, ensures_get, ensures_bind, ensures_rejectIf]
  refine ⟨fun _ => .refused _ _ id, fun hState => ?_⟩
  have hState : w.1.state = .staging := not_not.mp hState
  rw [ensures_bind, ensures_orInvalid]
  refine ⟨fun file hFile => ?_, fun _ => .refused _ _ id⟩
  rw [ensures_bind, ensures_update, ensures_bind, ensures_rejectIf]
  refine ⟨fun _ => .lost file _ _ hState hFile (.refl _), fun hWhole => ?_⟩
  rw [ensures_bind, ensures_onNative, Native.syncAll, Native.act_ensures]
  constructor
  · intro _
    rw [ensures_update]
    exact .sealed file hState hFile (not_not.mp hWhole)
  · intro kind _
    exact .lost file _ _ hState hFile (.next _)

theorem publishNoReplace_ensures :
    Ensures publishNoReplace w (fun state w' => Steps w .publishNoReplace (.ok (some state)) w')
      fun e w' => Steps w .publishNoReplace (.error e) w' := by
  rw [publishNoReplace, ensures_bind, ensures_get, ensures_bind, ensures_rejectIf]
  refine ⟨fun _ => .refused _ _ id, fun hState => ?_⟩
  have hState : w.1.state = .ready := not_not.mp hState
  rw [ensures_bind, ensures_orInvalid]
  refine ⟨fun plan hPlan => ?_, fun _ => .refused _ _ id⟩
  rw [ensures_bind, ensures_orInvalid]
  refine ⟨fun staging hStaging => ?_, fun _ => .refused _ _ id⟩
  have hReturned : { w.1 with staging := some staging } = w.1 := by
    rw [← hStaging]
  have hBack : ({ { w.1 with staging := none } with staging := some staging }, w.2.next) = (w.1, w.2.next) :=
    Prod.ext hReturned rfl
  rw [ensures_bind, ensures_update, ensures_bind, ensures_attempt, ensures_zoom, Native.renameNoReplace,
    ensures_bind, ensures_get, ensures_bind, ensures_set]
  split
  · rw [ensures_pure, concludePublish, ensures_bind, ensures_update, ensures_pure]
    exact .published hState
  · rw [ensures_pure, concludePublish, ensures_bind, ensures_update, ensures_pure]
    exact hBack ▸ .unpublished _ hState (by decide)
  · rw [ensures_throw, concludePublish, ensures_bind, ensures_update, ensures_throw]
    exact hBack ▸ .unpublished _ hState (fun h => by cases h)

/-- Writing the completion document leaves what is below `files` as it is. -/
theorem writeCompletion_ensures (document : Text) :
    Ensures (writeCompletion document) w (fun _ w' => w'.1 = w.1 ∧ w.2.Kept w'.2)
      fun _ w' => w'.1 = w.1 ∧ w.2.Kept w'.2 := by
  have hSync {native : Native} (h : w.2.Kept native) :
      Ensures (onNative Native.syncAll) (w.1, native) (fun _ w' => w'.1 = w.1 ∧ w.2.Kept w'.2)
        fun _ w' => w'.1 = w.1 ∧ w.2.Kept w'.2 := by
    rw [ensures_onNative, Native.syncAll, Native.act_ensures]
    exact ⟨fun _ => ⟨rfl, h.trans (.next _)⟩, fun _ _ => ⟨rfl, h.trans (.next _)⟩⟩
  rw [writeCompletion, ensures_bind, ensures_onNative]
  apply Native.createFile_ensures
  · intro _
    have hMade : w.2.Kept (w.2.next.withFile [completionName]) :=
      (Native.Kept.next _).trans (Native.withFile_completion_kept _)
    rw [ensures_bind, ensures_onNative]
    apply Native.writeAll_ensures
    · intro _
      exact hSync ((hMade.trans (.next _)).trans (Native.append_completion_kept _ _))
    · intro _ _
      exact ⟨rfl, (hMade.trans (.next _)).trans (Native.append_completion_kept _ _)⟩
  · intro _ _
    exact ⟨⟨rfl, .refl _⟩, ⟨rfl, .next _⟩⟩

theorem syncDirectories_ensures (count : Nat) :
    Ensures (syncDirectories count) w (fun _ w' => w'.1 = w.1 ∧ w.2.Kept w'.2)
      fun _ w' => w'.1 = w.1 ∧ w.2.Kept w'.2 := by
  rw [syncDirectories]
  generalize List.replicate (count + 2) () = turns
  induction turns generalizing w with
  | nil => exact ⟨rfl, .refl _⟩
  | cons _ turns ih =>
    change Ensures (onNative Native.syncAll >>= fun _ => turns.forM fun _ => onNative Native.syncAll) w _ _
    rw [ensures_bind, ensures_onNative, Native.syncAll, Native.act_ensures]
    refine ⟨fun _ => ?_, fun _ _ => ⟨rfl, .next _⟩⟩
    apply (ih (w := (w.1, w.2.next))).mono
    · exact fun _ w' h => ⟨h.1, (Native.Kept.next _).trans h.2⟩
    · exact fun _ w' h => ⟨h.1, (Native.Kept.next _).trans h.2⟩

theorem sealCompletion_ensures :
    Ensures sealCompletion w (fun _ w' => Steps w .sealCompletion (.ok none) w')
      fun e w' => Steps w .sealCompletion (.error e) w' := by
  rw [sealCompletion, ensures_bind, ensures_get, ensures_bind, ensures_orInvalid]
  refine ⟨fun plan hPlan => ?_, fun _ => .refused _ _ id⟩
  rw [ensures_bind, ensures_rejectIf]
  refine ⟨fun _ => .refused _ _ id, fun hState => ?_⟩
  rw [not_or, not_or, not_not, not_not, not_not] at hState
  obtain ⟨hState, hOpen, hNext⟩ := hState
  rw [ensures_bind, ensures_rejectIf]
  refine ⟨fun _ => .refused _ _ id, fun _ => ?_⟩
  rw [ensures_bind, ensures_orInvalid]
  refine ⟨fun staging hStaging => ?_, fun _ => .refused _ _ id⟩
  have hIncomplete (e : PayloadStoreError) (w' : World) (h : w'.1 = w.1 ∧ w.2.Kept w'.2) :
      Steps w .sealCompletion (.error e) w' := by
    obtain ⟨tx, native⟩ := w'
    obtain ⟨rfl, hKept⟩ := h
    exact .incomplete e native hState hKept
  rw [ensures_bind]
  apply (writeCompletion_ensures plan.completionDocument).mono
  · rintro _ w₁ ⟨hSame₁, hKept₁⟩
    rw [ensures_bind]
    apply (syncDirectories_ensures (w := w₁) _).mono
    · rintro _ w₂ ⟨hSame₂, hKept₂⟩
      rw [ensures_update, hSame₂, hSame₁]
      exact .completed plan staging _ ⟨hState, hPlan, hStaging⟩ hOpen hNext (hKept₁.trans hKept₂)
    · exact fun e w₂ h => hIncomplete e w₂ ⟨h.1.trans hSame₁, hKept₁.trans h.2⟩
  · exact hIncomplete

theorem syncPublishedParent_ensures :
    Ensures syncPublishedParent w (fun _ w' => Steps w .syncPublishedParent (.ok none) w')
      fun e w' => Steps w .syncPublishedParent (.error e) w' := by
  rw [syncPublishedParent, ensures_bind, ensures_get, ensures_bind, ensures_rejectIf]
  refine ⟨fun _ => .refused _ _ id, fun hState => ?_⟩
  rw [ensures_onNative, Native.syncAll, Native.act_ensures]
  exact ⟨fun _ => .synced _ (not_not.mp hState), fun _ _ => .synced _ (not_not.mp hState)⟩

theorem abort_ensures :
    Ensures abort w (fun _ w' => Steps w .abort (.ok none) w') fun e w' => Steps w .abort (.error e) w' := by
  rw [abort, ensures_bind, ensures_get, ensures_bind, ensures_rejectIf]
  refine ⟨fun _ => .refused _ _ id, fun hState => ?_⟩
  rw [ensures_bind, ensures_update]
  split
  · exact .aborted _ _ hState rfl rfl
  · rw [ensures_onStaging]
    apply (removeStaging_ensures w.2).mono
    · exact fun _ n h => .aborted _ n hState h.1 h.2
    · exact fun _ n h => .aborted _ n hState h.1 h.2

theorem call_steps (w : World) (c : TransactionCall) :
    Steps w c ((call c).exec w).1 ((call c).exec w).2 := by
  have hReply {α : Type} {m : Method α} {f : α → Option PublishState}
      (h : Ensures m w (fun a w' => Steps w c (.ok (f a)) w') fun e w' => Steps w c (.error e) w') :
      Steps w c ((do let a ← m; return f a : Method (Option PublishState)).exec w).1
        ((do let a ← m; return f a : Method (Option PublishState)).exec w).2 := by
    unfold Ensures at h
    rw [exec_bind]
    rcases hExec : m.exec w with ⟨e | a, w'⟩ <;> rw [hExec] at h <;> exact h
  cases c with
  | begin plan => exact hReply (begin_ensures plan)
  | openFile components expectedSize => exact hReply (openFile_ensures components expectedSize)
  | writeChunk bytes => exact hReply (writeChunk_ensures bytes)
  | sealFile => exact hReply sealFile_ensures
  | sealCompletion => exact hReply sealCompletion_ensures
  | publishNoReplace => exact hReply publishNoReplace_ensures
  | syncPublishedParent => exact hReply syncPublishedParent_ensures
  | abort => exact hReply abort_ensures

end DirectoryTransaction

end OpenHalfLife.Payload
