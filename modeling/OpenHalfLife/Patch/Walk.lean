import OpenHalfLife.Lib.Machine
import OpenHalfLife.Patch.Overlay

/-! # The walk over the base tree

What the walk comes to, in the order it comes to it, and what each of its
steps asks. The walk is the run of one step for each thing it comes to.
-/

namespace OpenHalfLife.Patch

open Payload

set_option autoImplicit false

inductive Event (H : Type)
  | directory (task : Task H)
  | child (task : Task H) (child : Option (DirEntry H))

theorem saturate_mono {a b : Nat} (h : a ≤ b) : saturate a ≤ saturate b := min_le_min_right _ h

theorem saturate_le (n : Nat) : saturate n ≤ n := Nat.min_le_left _ _

theorem saturate_add (a b : Nat) : saturate (saturate a + b) = saturate (a + b) := by
  unfold saturate
  omega

theorem orError_eq_ok {α : Type} {e : ImportError} {o : Option α} {a : α} : orError e o = .ok a ↔ o = some a := by
  cases o <;> simp [orError]

def MediaSource.whole (source : MediaSource) : Option Text := do
  let chunks ← (offsets source.size).mapM fun offset =>
    (source.readExactAt offset (chunkLength source.size offset)).map Vector.toList
  if source.verifyUnchanged 0 ∧ source.verifyUnchanged 1 then some chunks.flatten else none

def Walk.counted {H : Type} (walk : Walk H) (relative : Text) : Walk H :=
  { walk with
    polls := walk.polls + 1
    visited := walk.visited + 1
    pathBytes := saturate (walk.pathBytes + relative.length) }

def Walk.keyed {H : Type} (walk : Walk H) (key : Text) : Walk H := { walk with baseKeys := insert key walk.baseKeys }

def Walk.withFile {H : Type} (walk : Walk H) (key : Text) (file : BaseFile H) : Walk H :=
  { walk with
    polls := walk.polls + (offsets file.size).length
    totalBytes := saturate (walk.totalBytes + file.size.toNat)
    token := walk.token + 1
    entries := walk.entries.insert key ⟨walk.token + 1, key, file.size⟩
    fingerprints := walk.fingerprints.insert key file.digest
    files := walk.files.insert (walk.token + 1) file }

namespace Walk

variable {H : Type} (walk : Walk H) (key : Text) (file : BaseFile H)

theorem visited_withFile : (walk.withFile key file).visited = walk.visited := rfl

theorem pathBytes_withFile : (walk.withFile key file).pathBytes = walk.pathBytes := rfl

theorem baseKeys_withFile : (walk.withFile key file).baseKeys = walk.baseKeys := rfl

end Walk

namespace Setting

variable {H : Type} (setting : Setting H)

def Quiet (first next : Nat) : Prop := ∀ poll, first ≤ poll → poll < next → setting.stop poll = false

def visitBound : Nat := min (setting.limits.maximumEntries * 2) (2 ^ 64 - 1)

def baseFile? (path : H) : Option (BaseFile H) := do
  let source ← setting.fs.openSource path
  let contents ← source.whole
  return ⟨path, source.size, setting.sha contents⟩

def apply (walk : Walk H) : Event H → Except ImportError (Walk H)
  | .directory task => do
    let (_, walk) ← setting.openDirectory task walk
    return walk
  | .child task child => do
    let ((path, kind, relative), walk) ← setting.countChild task walk child
    match kind with
    | .directory => return walk
    | .file => setting.visitFile path relative walk
    | .other => .error .layout

def subtask (task : Task H) : Option (DirEntry H) → Option (Task H)
  | some ⟨some name, path, some .directory⟩ => some ⟨path, join task.parent name, task.depth + 1⟩
  | _ => none

def listing (task : Task H) : List (Option (DirEntry H)) := (setting.fs.readDir task.directory).getD []

def below : Nat → Task H → List (Event H)
  | 0, task => [.directory task]
  | remaining + 1, task => .directory task :: ((setting.listing task).map (.child task) ++
      ((setting.listing task).filterMap (subtask task)).reverse.flatMap (below remaining))

def events (pending : List (Task H)) : List (Event H) :=
  pending.flatMap fun task => setting.below (65 - task.depth) task

section Steps

variable {setting} {task : Task H} {walk walk' : Walk H} {path : H} {key relative : Text}
  {child : Option (DirEntry H)}

theorem poll_eq_ok {polls polls' : Nat} : setting.poll polls = .ok polls' ↔
    setting.stop polls = false ∧ polls' = polls + 1 := by
  rw [poll, Result.ite_error_eq_ok, Bool.not_eq_true, Except.ok.injEq]
  exact and_congr_right fun _ => eq_comm

theorem quiet_add {first count more : Nat} : setting.Quiet first (first + (count + more)) ↔
    setting.Quiet first (first + count) ∧ setting.Quiet (first + count) (first + count + more) := by
  constructor
  · intro h
    exact ⟨fun poll hFirst hNext => h poll hFirst (by omega), fun poll hFirst hNext => h poll (by omega) (by omega)⟩
  · rintro ⟨hBefore, hAfter⟩ poll hFirst hNext
    rcases Nat.lt_or_ge poll (first + count) with hEarly | hLate
    · exact hBefore poll hFirst hEarly
    · exact hAfter poll hLate (by omega)

theorem quiet_one {first : Nat} : setting.Quiet first (first + 1) ↔ setting.stop first = false := by
  constructor
  · intro h
    exact h first (Nat.le_refl _) (Nat.lt_succ_self _)
  · intro h poll hFirst hNext
    rwa [show poll = first by omega]

theorem quiet_none {first : Nat} : setting.Quiet first first :=
  fun _ hFirst hNext => absurd hNext (Nat.not_lt.mpr hFirst)

theorem hashChunks_eq_ok {source : MediaSource} {starts : List Nat} {hashed hashed' : Text} {polls polls' : Nat} :
    starts.foldlM (setting.hashChunk source) (hashed, polls) = .ok (hashed', polls') ↔
      ∃ chunks, starts.mapM (fun offset =>
          (source.readExactAt offset (chunkLength source.size offset)).map Vector.toList) = some chunks ∧
        hashed' = hashed ++ chunks.flatten ∧ polls' = polls + starts.length ∧ setting.Quiet polls polls' := by
  induction starts generalizing hashed polls with
  | nil =>
    constructor
    · intro h
      cases h
      exact ⟨[], rfl, by simp, rfl, quiet_none⟩
    · rintro ⟨chunks, hChunks, rfl, rfl, -⟩
      cases hChunks
      simp [pure, Except.pure]
  | cons offset starts ih =>
    rw [List.foldlM_cons, Result.bind_eq_ok, List.length_cons, List.mapM_cons]
    constructor
    · rintro ⟨⟨_, _⟩, hChunk, h⟩
      rw [hashChunk, Result.bind_eq_ok] at hChunk
      obtain ⟨next, hPoll, hChunk⟩ := hChunk
      obtain ⟨buffer, hBuffer, hChunk⟩ := Result.bind_eq_ok.mp hChunk
      cases hChunk
      obtain ⟨hGo, rfl⟩ := poll_eq_ok.mp hPoll
      obtain ⟨chunks, hChunks, rfl, rfl, hQuiet⟩ := ih.mp h
      rw [orError_eq_ok] at hBuffer
      refine ⟨buffer.toList :: chunks, by simp [hBuffer, hChunks], by simp, by omega, ?_⟩
      rw [show polls + 1 + starts.length = polls + (1 + starts.length) by omega] at hQuiet ⊢
      exact quiet_add.mpr ⟨quiet_one.mpr hGo, by rwa [Nat.add_assoc]⟩
    · rintro ⟨chunks, hChunks, rfl, rfl, hQuiet⟩
      simp only [Option.bind_eq_bind, Option.bind_eq_some_iff, Option.map_eq_some_iff] at hChunks
      obtain ⟨_, ⟨buffer, hBuffer, rfl⟩, rest, hRest, hChunks⟩ := hChunks
      cases hChunks
      rw [Nat.add_comm starts.length, quiet_add] at hQuiet
      obtain ⟨hGo, hQuiet⟩ := hQuiet
      refine ⟨(hashed ++ buffer.toList, polls + 1), ?_, ?_⟩
      · rw [hashChunk, poll, if_neg (by simp [quiet_one.mp hGo])]
        simp [bind, Except.bind, orError, hBuffer, pure, Except.pure]
      · exact ih.mpr ⟨rest, hRest, by simp, by omega, by rwa [Nat.add_comm starts.length, ← Nat.add_assoc]⟩

theorem hashSource_eq_ok {source : MediaSource} {digest : MediaDigest} {polls polls' : Nat} :
    setting.hashSource source polls = .ok (digest, polls') ↔
      ∃ contents, source.whole = some contents ∧ digest = setting.sha contents ∧
        polls' = polls + (offsets source.size).length ∧ setting.Quiet polls polls' := by
  have hWhole (contents : Text) : source.whole = some contents ↔ source.verifyUnchanged 0 = true ∧
      source.verifyUnchanged 1 = true ∧ ∃ chunks, (offsets source.size).mapM (fun offset =>
        (source.readExactAt offset (chunkLength source.size offset)).map Vector.toList) = some chunks ∧
        contents = chunks.flatten := by
    rw [MediaSource.whole]
    simp only [Option.bind_eq_bind, Option.bind_eq_some_iff, Option.ite_none_right_eq_some, Option.some.injEq]
    constructor
    · rintro ⟨chunks, hChunks, ⟨hFirst, hLast⟩, rfl⟩
      exact ⟨hFirst, hLast, chunks, hChunks, rfl⟩
    · rintro ⟨hFirst, hLast, chunks, hChunks, rfl⟩
      exact ⟨chunks, hChunks, ⟨hFirst, hLast⟩, rfl⟩
  simp only [hashSource, Result.ite_error_eq_ok, Result.bind_eq_ok, Bool.not_eq_false]
  constructor
  · rintro ⟨hFirst, ⟨hashed, next⟩, hRun, hLast, h⟩
    cases h
    obtain ⟨chunks, hChunks, hHashed, hPolls, hQuiet⟩ := hashChunks_eq_ok.mp hRun
    cases hHashed
    exact ⟨_, (hWhole _).mpr ⟨hFirst, hLast, chunks, hChunks, rfl⟩, rfl, hPolls, hQuiet⟩
  · rintro ⟨contents, hContents, rfl, hPolls, hQuiet⟩
    obtain ⟨hFirst, hLast, chunks, hChunks, rfl⟩ := (hWhole _).mp hContents
    exact ⟨hFirst, ([] ++ chunks.flatten, polls'), hashChunks_eq_ok.mpr ⟨chunks, hChunks, rfl, hPolls, hQuiet⟩,
      hLast, rfl⟩

theorem openDirectory_eq_ok {listing : List (Option (DirEntry H))} :
    setting.openDirectory task walk = .ok (listing, walk') ↔
      setting.stop walk.polls = false ∧ (task.depth ≤ 64 ∧ setting.fs.isDirectory task.directory = true) ∧
        setting.fs.readDir task.directory = some listing ∧ walk' = { walk with polls := walk.polls + 1 } := by
  simp only [openDirectory, Result.bind_eq_ok, poll_eq_ok, Result.ite_error_eq_ok, orError_eq_ok, not_or, not_lt,
    Bool.not_eq_false]
  constructor
  · rintro ⟨_, ⟨hGo, rfl⟩, hDirectory, _, hRead, h⟩
    cases h
    exact ⟨hGo, hDirectory, hRead, rfl⟩
  · rintro ⟨hGo, hDirectory, hRead, rfl⟩
    exact ⟨_, ⟨hGo, rfl⟩, hDirectory, listing, hRead, rfl⟩

structure Counts (setting : Setting H) (task : Task H) (walk : Walk H) (child : Option (DirEntry H)) (path : H)
    (kind : FileType) (relative : Text) : Prop where
  named : ∃ name, child = some ⟨some name, path, some kind⟩ ∧ relative = join task.parent name
  goesOn : setting.stop walk.polls = false
  visited : walk.visited + 1 ≤ setting.visitBound
  pathBytes : saturate (walk.pathBytes + relative.length) ≤ setting.limits.maximumPathBytes.toNat

theorem countChild_eq_ok {kind : FileType} : setting.countChild task walk child = .ok ((path, kind, relative), walk') ↔
    Counts setting task walk child path kind relative ∧ walk' = walk.counted relative := by
  simp only [countChild, Result.bind_eq_ok, poll_eq_ok, Result.ite_error_eq_ok, orError_eq_ok, not_le, not_lt]
  constructor
  · rintro ⟨_, ⟨hGo, rfl⟩, ⟨_, _, _⟩, rfl, -, hVisited, name, rfl, hBytes, _, rfl, h⟩
    cases h
    exact ⟨⟨⟨name, rfl, rfl⟩, hGo, hVisited, hBytes⟩, rfl⟩
  · rintro ⟨⟨⟨name, rfl, rfl⟩, hGo, hVisited, hBytes⟩, rfl⟩
    have hWidth : walk.visited + 1 < 2 ^ 64 := by
      have hBound : setting.visitBound ≤ 2 ^ 64 - 1 := Nat.min_le_right _ _
      omega
    exact ⟨_, ⟨hGo, rfl⟩, _, rfl, hWidth, hVisited, name, rfl, hBytes, kind, rfl, rfl⟩

structure Fits (setting : Setting H) (walk : Walk H) (path : H) (key : Text) (file : BaseFile H) : Prop where
  found : setting.baseFile? path = some file
  size : file.size ≤ setting.limits.maximumEntryBytes
  totalBytes : saturate (walk.totalBytes + file.size.toNat) ≤ setting.limits.maximumTotalBytes.toNat
  goesOn : setting.Quiet walk.polls (walk.polls + (offsets file.size).length)
  token : walk.token.toNat + 1 < 2 ^ 64
  count : (walk.withFile key file).entries.pairs.length ≤ setting.limits.maximumEntries

theorem baseFile?_eq_some {file : BaseFile H} : setting.baseFile? path = some file ↔
    ∃ source contents, setting.fs.openSource path = some source ∧ source.whole = some contents ∧
      file = ⟨path, source.size, setting.sha contents⟩ := by
  simp only [baseFile?, Option.bind_eq_bind, Option.bind_eq_some_iff, Option.pure_def, Option.some.injEq]
  constructor
  · rintro ⟨source, hSource, contents, hWhole, rfl⟩
    exact ⟨source, contents, hSource, hWhole, rfl⟩
  · rintro ⟨source, contents, hSource, hWhole, rfl⟩
    exact ⟨source, hSource, contents, hWhole, rfl⟩

theorem addBaseFile_eq_ok : setting.addBaseFile path key walk = .ok walk' ↔
    ∃ file, Fits setting walk path key file ∧ walk' = walk.withFile key file := by
  simp only [addBaseFile, Result.bind_eq_ok, Result.ite_error_eq_ok, orError_eq_ok, not_or, not_lt, not_le,
    -Nat.reducePow, -Nat.reduceSub]
  constructor
  · rintro ⟨source, hSource, ⟨hSize, hTotal⟩, ⟨digest, polls⟩, hHash, hToken, hCount, h⟩
    obtain ⟨contents, hWhole, rfl, rfl, hQuiet⟩ := hashSource_eq_ok.mp hHash
    cases h
    exact ⟨⟨path, source.size, setting.sha contents⟩,
      ⟨baseFile?_eq_some.mpr ⟨source, contents, hSource, hWhole, rfl⟩, hSize, hTotal, hQuiet, hToken, hCount⟩, rfl⟩
  · rintro ⟨file, ⟨hFile, hSize, hTotal, hQuiet, hToken, hCount⟩, rfl⟩
    obtain ⟨source, contents, hSource, hWhole, rfl⟩ := baseFile?_eq_some.mp hFile
    exact ⟨source, hSource, ⟨hSize, hTotal⟩, _, hashSource_eq_ok.mpr ⟨contents, hWhole, rfl, rfl, hQuiet⟩,
      hToken, hCount, rfl⟩

inductive Takes (setting : Setting H) (walk : Walk H) : Event H → Walk H → Prop
  | opened (task : Task H) : setting.stop walk.polls = false → task.depth ≤ 64 →
    setting.fs.isDirectory task.directory = true → (setting.fs.readDir task.directory).isSome = true →
    Takes setting walk (.directory task) { walk with polls := walk.polls + 1 }
  | postponed (task : Task H) (child : Option (DirEntry H)) (path : H) (relative : Text) :
    Counts setting task walk child path .directory relative →
    Takes setting walk (.child task child) (walk.counted relative)
  | held (task : Task H) (child : Option (DirEntry H)) (path : H) (relative : Text) (normalized : PayloadPath) :
    Counts setting task walk child path .file relative → PayloadPath.parse relative = .ok normalized →
    normalized.portabilityKey ∉ walk.baseKeys → (walk.entries.get? normalized.portabilityKey).isSome = true →
    Takes setting walk (.child task child) ((walk.counted relative).keyed normalized.portabilityKey)
  | added (task : Task H) (child : Option (DirEntry H)) (path : H) (relative : Text) (normalized : PayloadPath)
    (file : BaseFile H) :
    Counts setting task walk child path .file relative → PayloadPath.parse relative = .ok normalized →
    normalized.portabilityKey ∉ walk.baseKeys → walk.entries.get? normalized.portabilityKey = none →
    Fits setting ((walk.counted relative).keyed normalized.portabilityKey) path normalized.portabilityKey file →
    Takes setting walk (.child task child)
      (((walk.counted relative).keyed normalized.portabilityKey).withFile normalized.portabilityKey file)

theorem visitFile_eq_ok : setting.visitFile path relative walk = .ok walk' ↔
    ∃ normalized, PayloadPath.parse relative = .ok normalized ∧ normalized.portabilityKey ∉ walk.baseKeys ∧
      ((walk.entries.get? normalized.portabilityKey).isSome = true ∧ walk' = walk.keyed normalized.portabilityKey ∨
        walk.entries.get? normalized.portabilityKey = none ∧
          setting.addBaseFile path normalized.portabilityKey (walk.keyed normalized.portabilityKey) = .ok walk') := by
  rw [visitFile]
  cases hParse : PayloadPath.parse relative with
  | error error => simp
  | ok normalized =>
    simp only [Result.ite_error_eq_ok, Except.ok.injEq, exists_eq_left']
    refine and_congr_right fun _ => ?_
    cases hHeld : walk.entries.get? normalized.portabilityKey with
    | some entry => simp [Walk.keyed, eq_comm]
    | none => simp [Walk.keyed]

theorem apply_eq_ok {event : Event H} : setting.apply walk event = .ok walk' ↔ Takes setting walk event walk' := by
  constructor
  · intro h
    cases event with
    | directory task =>
      obtain ⟨⟨listing, opened⟩, hOpen, h⟩ := Result.bind_eq_ok.mp h
      cases h
      obtain ⟨hGo, ⟨hDepth, hDirectory⟩, hRead, rfl⟩ := openDirectory_eq_ok.mp hOpen
      exact .opened task hGo hDepth hDirectory (by rw [hRead]; rfl)
    | child task child =>
      obtain ⟨⟨⟨path, kind, relative⟩, counted⟩, hChild, h⟩ := Result.bind_eq_ok.mp h
      obtain ⟨hCount, hCounted⟩ := countChild_eq_ok.mp hChild
      cases hCounted
      cases kind with
      | directory =>
        cases h
        exact .postponed task child path relative hCount
      | other => cases h
      | file =>
        obtain ⟨normalized, hParse, hNew, ⟨hHeld, rfl⟩ | ⟨hFree, hAdd⟩⟩ := visitFile_eq_ok.mp h
        · exact .held task child path relative normalized hCount hParse hNew hHeld
        · obtain ⟨file, hFits, rfl⟩ := addBaseFile_eq_ok.mp hAdd
          exact .added task child path relative normalized file hCount hParse hNew hFree hFits
  · intro h
    cases h with
    | opened task hGo hDepth hDirectory hRead =>
      obtain ⟨listing, hRead⟩ := Option.isSome_iff_exists.mp hRead
      exact Result.bind_eq_ok.mpr ⟨_, openDirectory_eq_ok.mpr ⟨hGo, ⟨hDepth, hDirectory⟩, hRead, rfl⟩, rfl⟩
    | postponed task child path relative hCount =>
      exact Result.bind_eq_ok.mpr ⟨_, countChild_eq_ok.mpr ⟨hCount, rfl⟩, rfl⟩
    | held task child path relative normalized hCount hParse hNew hHeld =>
      exact Result.bind_eq_ok.mpr ⟨_, countChild_eq_ok.mpr ⟨hCount, rfl⟩,
        visitFile_eq_ok.mpr ⟨normalized, hParse, hNew, .inl ⟨hHeld, rfl⟩⟩⟩
    | added task child path relative normalized file hCount hParse hNew hFree hFits =>
      exact Result.bind_eq_ok.mpr ⟨_, countChild_eq_ok.mpr ⟨hCount, rfl⟩, visitFile_eq_ok.mpr
        ⟨normalized, hParse, hNew, .inr ⟨hFree, addBaseFile_eq_ok.mpr ⟨file, hFits, rfl⟩⟩⟩⟩

end Steps

/-! ## The run of the walk -/

section Run

variable {setting} {task : Task H} {walk walk' : Walk H} {child : Option (DirEntry H)}
  {children : List (Option (DirEntry H))} {pending pending' : List (Task H)}

theorem foldlM_append_eq_ok {before after : List (Event H)} :
    (before ++ after).foldlM setting.apply walk = .ok walk' ↔
      ∃ middle, before.foldlM setting.apply walk = .ok middle ∧ after.foldlM setting.apply middle = .ok walk' := by
  rw [List.foldlM_append, Result.bind_eq_ok]

theorem visitChild_eq_ok : setting.visitChild task (pending, walk) child = .ok (pending', walk') ↔
    setting.apply walk (.child task child) = .ok walk' ∧ pending' = (subtask task child).toList ++ pending := by
  constructor
  · intro h
    obtain ⟨⟨⟨path, kind, relative⟩, counted⟩, hChild, h⟩ := Result.bind_eq_ok.mp h
    have hApply (next : Walk H) : setting.apply walk (.child task child) = .ok next ↔
        (match kind with
          | .directory => .ok counted
          | .file => setting.visitFile path relative counted
          | .other => .error .layout) = Except.ok next := by
      rw [apply, hChild]
      cases kind <;> rfl
    obtain ⟨⟨⟨name, rfl, rfl⟩, -, -, -⟩, hCounted⟩ := countChild_eq_ok.mp hChild
    cases kind with
    | directory =>
      cases h
      exact ⟨(hApply _).mpr rfl, rfl⟩
    | other => cases h
    | file =>
      obtain ⟨next, hFile, h⟩ := Result.bind_eq_ok.mp h
      cases h
      exact ⟨(hApply _).mpr hFile, rfl⟩
  · rintro ⟨h, rfl⟩
    obtain ⟨⟨⟨path, kind, relative⟩, counted⟩, hChild, h⟩ := Result.bind_eq_ok.mp h
    refine Result.bind_eq_ok.mpr ⟨_, hChild, ?_⟩
    obtain ⟨⟨⟨name, rfl, rfl⟩, -, -, -⟩, hCounted⟩ := countChild_eq_ok.mp hChild
    cases kind with
    | directory =>
      cases h
      rfl
    | other => cases h
    | file => exact Result.bind_eq_ok.mpr ⟨walk', h, rfl⟩

theorem visitChildren_eq_ok : children.foldlM (setting.visitChild task) (pending, walk) = .ok (pending', walk') ↔
    (children.map (.child task)).foldlM setting.apply walk = .ok walk' ∧
      pending' = (children.filterMap (subtask task)).reverse ++ pending := by
  induction children generalizing pending walk with
  | nil =>
    constructor
    · intro h
      cases h
      exact ⟨rfl, rfl⟩
    · rintro ⟨h, rfl⟩
      cases h
      rfl
  | cons child children ih =>
    have hPending : ((child :: children).filterMap (subtask task)).reverse ++ pending =
        (children.filterMap (subtask task)).reverse ++ ((subtask task child).toList ++ pending) := by
      rw [List.filterMap_cons]
      cases subtask task child <;> simp
    rw [List.foldlM_cons, Result.bind_eq_ok, List.map_cons, List.foldlM_cons, Result.bind_eq_ok, hPending]
    constructor
    · rintro ⟨⟨_, next⟩, hChild, h⟩
      obtain ⟨hApply, rfl⟩ := visitChild_eq_ok.mp hChild
      obtain ⟨hRest, rfl⟩ := ih.mp h
      exact ⟨⟨next, hApply, hRest⟩, rfl⟩
    · rintro ⟨⟨next, hApply, hRest⟩, rfl⟩
      exact ⟨_, visitChild_eq_ok.mpr ⟨hApply, rfl⟩, ih.mpr ⟨hRest, rfl⟩⟩

theorem Takes.child_visited (h : Takes setting walk (.child task child) walk') :
    walk'.visited = walk.visited + 1 ∧ walk'.visited ≤ setting.visitBound := by
  cases h with
  | postponed _ _ path relative hCount => exact ⟨rfl, hCount.visited⟩
  | held _ _ path relative normalized hCount => exact ⟨rfl, hCount.visited⟩
  | added _ _ path relative normalized file hCount => exact ⟨rfl, hCount.visited⟩

theorem visited_children (hBound : walk.visited ≤ setting.visitBound)
    (h : (children.map (.child task)).foldlM setting.apply walk = .ok walk') :
    walk'.visited = walk.visited + children.length ∧ walk'.visited ≤ setting.visitBound := by
  induction children generalizing walk with
  | nil =>
    cases h
    exact ⟨rfl, hBound⟩
  | cons child children ih =>
    rw [List.map_cons, List.foldlM_cons, Result.bind_eq_ok] at h
    obtain ⟨next, hApply, h⟩ := h
    obtain ⟨hVisited, hNext⟩ := (apply_eq_ok.mp hApply).child_visited
    obtain ⟨hAll, hLast⟩ := ih hNext h
    refine ⟨?_, hLast⟩
    rw [hAll, hVisited, List.length_cons]
    omega

theorem events_cons (task : Task H) (pending : List (Task H)) :
    setting.events (task :: pending) = setting.below (65 - task.depth) task ++ setting.events pending :=
  List.flatMap_cons

theorem depth_subtask {next : Task H} (h : subtask task child = some next) : next.depth = task.depth + 1 := by
  unfold subtask at h
  split at h
  · cases h
    rfl
  · cases h

theorem events_open (hDepth : task.depth ≤ 64) : setting.events (task :: pending) =
    .directory task :: ((setting.listing task).map (.child task) ++
      setting.events (((setting.listing task).filterMap (subtask task)).reverse ++ pending)) := by
  have hLevel : 65 - task.depth = (64 - task.depth) + 1 := by omega
  have hBelow : ((setting.listing task).filterMap (subtask task)).reverse.flatMap (setting.below (64 - task.depth)) =
      setting.events ((setting.listing task).filterMap (subtask task)).reverse := by
    refine List.flatMap_congr fun next hNext => ?_
    obtain ⟨child, -, hChild⟩ := List.mem_filterMap.mp (List.mem_reverse.mp hNext)
    rw [depth_subtask hChild, show 65 - (task.depth + 1) = 64 - task.depth by omega]
  rw [events_cons, hLevel, below, hBelow, events, events, events, List.flatMap_append]
  simp

theorem walkTree_eq_ok {fuel : Nat} (hBound : walk.visited ≤ setting.visitBound)
    (hFuel : pending.length + (setting.visitBound - walk.visited) ≤ fuel) :
    setting.walkTree fuel (pending, walk) = .ok walk' ↔ (setting.events pending).foldlM setting.apply walk = .ok walk' := by
  induction fuel generalizing pending walk with
  | zero =>
    obtain rfl : pending = [] := List.eq_nil_of_length_eq_zero (by omega)
    exact Iff.rfl
  | succ fuel ih =>
    cases pending with
    | nil => exact Iff.rfl
    | cons task pending =>
      have hRest {opened next : Walk H}
          (h : ((setting.listing task).map (Event.child task)).foldlM setting.apply opened = .ok next)
          (hOpened : opened.visited = walk.visited) :
          setting.walkTree fuel (((setting.listing task).filterMap (subtask task)).reverse ++ pending, next) = .ok walk' ↔
            (setting.events (((setting.listing task).filterMap (subtask task)).reverse ++ pending)).foldlM
              setting.apply next = .ok walk' := by
        obtain ⟨hVisited, hNext⟩ := visited_children (hOpened ▸ hBound) h
        have hTasks := List.length_filterMap_le (subtask task) (setting.listing task)
        apply ih hNext
        rw [List.length_append, List.length_reverse]
        rw [List.length_cons] at hFuel
        omega
      rw [walkTree, Result.bind_eq_ok]
      constructor
      · rintro ⟨⟨listing, opened⟩, hOpen, h⟩
        obtain ⟨⟨waiting, next⟩, hListing, h⟩ := Result.bind_eq_ok.mp h
        obtain ⟨hGo, ⟨hDepth, hDirectory⟩, hRead, rfl⟩ := openDirectory_eq_ok.mp hOpen
        obtain rfl : setting.listing task = listing := by rw [Setting.listing, hRead, Option.getD_some]
        obtain ⟨hChildren, rfl⟩ := visitChildren_eq_ok.mp hListing
        rw [events_open hDepth, List.foldlM_cons, Result.bind_eq_ok]
        refine ⟨_, apply_eq_ok.mpr (.opened task hGo hDepth hDirectory (by rw [hRead]; rfl)), ?_⟩
        exact foldlM_append_eq_ok.mpr ⟨next, hChildren, (hRest hChildren rfl).mp h⟩
      · intro h
        obtain ⟨opened, hOpen, h⟩ : ∃ opened, setting.apply walk (.directory task) = .ok opened ∧
            task.depth ≤ 64 ∧ ((setting.listing task).map (Event.child task) ++
              setting.events (((setting.listing task).filterMap (subtask task)).reverse ++ pending)).foldlM
                setting.apply opened = .ok walk' := by
          rcases Nat.lt_or_ge 64 task.depth with hDeep | hDepth
          · rw [events_cons, show 65 - task.depth = 0 by omega, below, List.singleton_append, List.foldlM_cons,
              Result.bind_eq_ok] at h
            obtain ⟨opened, hOpen, -⟩ := h
            cases apply_eq_ok.mp hOpen with
            | opened _ _ hDepth => exact absurd hDepth (Nat.not_le.mpr hDeep)
          · rw [events_open hDepth, List.foldlM_cons, Result.bind_eq_ok] at h
            obtain ⟨opened, hOpen, h⟩ := h
            exact ⟨opened, hOpen, hDepth, h⟩
        cases apply_eq_ok.mp hOpen with
        | opened _ hGo hDepth hDirectory hRead =>
          obtain ⟨listing, hRead⟩ := Option.isSome_iff_exists.mp hRead
          obtain rfl : setting.listing task = listing := by rw [Setting.listing, hRead, Option.getD_some]
          obtain ⟨next, hChildren, h⟩ := foldlM_append_eq_ok.mp h.2
          refine ⟨_, openDirectory_eq_ok.mpr ⟨hGo, ⟨hDepth, hDirectory⟩, hRead, rfl⟩, Result.bind_eq_ok.mpr ?_⟩
          exact ⟨_, visitChildren_eq_ok.mpr ⟨hChildren, rfl⟩, (hRest hChildren rfl).mpr h⟩

end Run

end Setting

end OpenHalfLife.Patch
