import OpenHalfLife.Payload.Calls
import Mathlib.Data.List.Induction

/-! # Nothing pre-planted is written into

A parent directory that could not be made stays recorded as made, and a second
call goes on without it.
-/

namespace OpenHalfLife.Payload

open Machine

set_option autoImplicit false

namespace DirectoryTransaction

variable {w w' : World} {c : TransactionCall} {reply : TransactionReply}

def DeniesParent (w : World) : TransactionCall → Prop
  | .openFile components expectedSize => ∃ plan staging entry, Opens w plan staging entry ∧
      components = entry.components ∧ expectedSize = entry.sizeBytes ∧ Denied w (missingParents w entry)
  | _ => False

/-- A path below `files` in a chain of directories that were made, or the completion file. -/
def Placed (made : List Path) (path : Path) : Prop :=
  path = [completionName] ∨ ∃ components, path = filesDirectory :: components ∧
    ∀ relative, relative <+: components.dropLast → filesDirectory :: relative ∈ made

/-- Every recorded directory was made, and every file lies in directories that were. -/
structure Rooted (w : World) : Prop where
  directories : ∀ relative ∈ w.1.createdDirectories, filesDirectory :: relative ∈ w.2.madeDirectories
  files : ∀ path ∈ w.2.madeFiles, Placed w.2.madeDirectories path

/-- Every directory that was made is recorded, and `files` is made before the first entry. -/
structure Recorded (w : World) : Prop where
  made : ∀ relative, relative ≠ [] → filesDirectory :: relative ∈ w.2.madeDirectories →
    relative ∈ w.1.createdDirectories
  staging : w.1.state = .staging → [filesDirectory] ∈ w.2.madeDirectories

theorem Placed.mono {made made' : List Path} {path : Path} (h : Placed made path) (hMade : made ⊆ made') :
    Placed made' path := by
  rcases h with hCompletion | ⟨components, hPath, hChain⟩
  · exact .inl hCompletion
  · exact .inr ⟨components, hPath, fun relative hPrefix => hMade (hChain relative hPrefix)⟩

theorem mem_missing {created : List Path} {relative : Path} {components : List Text} {path : Path}
    (h : path <+: components) (hNe : path ≠ []) :
    relative ++ path ∈ created ∨ relative ++ path ∈ missing created relative components := by
  induction components generalizing created relative path with
  | nil => exact absurd (List.prefix_nil.mp h) hNe
  | cons component components ih =>
    obtain ⟨head, path, rfl⟩ := List.exists_cons_of_ne_nil hNe
    obtain ⟨rfl, hRest⟩ := List.cons_prefix_cons.mp h
    have hSplit : relative ++ head :: path = relative ++ [head] ++ path := by simp
    rw [hSplit]
    by_cases hHead : relative ++ [head] ∈ created
    · rw [missing_known hHead]
      by_cases hLast : path = []
      · exact .inl (by simpa [hLast] using hHead)
      · exact ih hRest hLast
    · rw [missing_new hHead]
      by_cases hLast : path = []
      · exact .inr (by simp [hLast])
      have hLonger : relative ++ [head] ++ path ≠ relative ++ [head] := by simpa using hLast
      have hBelow : relative ++ [head] ++ path ∈ created ++ [relative ++ [head]] ∨ relative ++ [head] ++ path ∈
          missing (created ++ [relative ++ [head]]) (relative ++ [head]) components := ih hRest hLast
      rcases hBelow with hKnown | hNew
      · rcases List.mem_append.mp hKnown with hKnown | hSame
        · exact .inl hKnown
        · exact absurd (List.mem_singleton.mp hSame) hLonger
      · exact .inr (List.mem_cons_of_mem _ hNew)

theorem missing_ne_nil {created : List Path} {relative path : Path} {components : List Text}
    (h : path ∈ missing created relative components) : path ≠ [] := by
  rintro rfl
  exact absurd (length_lt_of_mem_missing h) (Nat.not_lt_zero _)

theorem not_mem_of_mem_missing {created : List Path} {relative path : Path} {components : List Text}
    (h : path ∈ missing created relative components) : path ∉ created := by
  induction components generalizing created relative with
  | nil => cases h
  | cons component components ih =>
    by_cases hKnown : relative ++ [component] ∈ created
    · rw [missing_known hKnown] at h
      exact ih h
    · rw [missing_new hKnown] at h
      rcases List.mem_cons.mp h with rfl | h
      · exact hKnown
      · exact fun hMem => ih h (List.mem_append_left _ hMem)

theorem missing_pairwise (created : List Path) (relative : Path) (components : List Text) :
    (missing created relative components).Pairwise fun a b => a.length < b.length := by
  induction components generalizing created relative with
  | nil => exact List.Pairwise.nil
  | cons component components ih =>
    by_cases hKnown : relative ++ [component] ∈ created
    · rw [missing_known hKnown]
      exact ih _ _
    · rw [missing_new hKnown]
      exact List.pairwise_cons.mpr ⟨fun _ hMem => length_lt_of_mem_missing hMem, ih _ _⟩

theorem Rooted.withParents (h : Rooted w) (paths : List Path) : Rooted (withParents w paths) := by
  constructor
  · intro relative hMem
    rcases List.mem_append.mp hMem with hMem | hMem
    · exact List.mem_append_left _ (h.directories relative hMem)
    · exact List.mem_append_right _ (List.mem_map_of_mem hMem)
  · exact fun path hMem => (h.files path hMem).mono (List.subset_append_left _ _)

theorem Recorded.withParents (h : Recorded w) (paths : List Path) : Recorded (withParents w paths) := by
  constructor
  · intro relative hNe hMade
    rcases List.mem_append.mp hMade with hMade | hMade
    · exact List.mem_append_left _ (h.made relative hNe hMade)
    · obtain ⟨path, hMem, hSame⟩ := List.mem_map.mp hMade
      cases hSame
      exact List.mem_append_right _ hMem
  · exact fun hState => List.mem_append_left _ (h.staging hState)

theorem Recorded.of_same (h : Recorded w) (hCreated : w'.1.createdDirectories = w.1.createdDirectories)
    (hState : w'.1.state = .staging → w.1.state = .staging) (hMade : w'.2.madeDirectories = w.2.madeDirectories) :
    Recorded w' := by
  constructor
  · rw [hCreated, hMade]
    exact h.made
  · rw [hMade]
    exact fun hStaging => h.staging (hState hStaging)

theorem Rooted.of_same (h : Rooted w) (hCreated : w'.1.createdDirectories = w.1.createdDirectories)
    (hMade : w'.2.madeDirectories = w.2.madeDirectories)
    (hFiles : ∀ path ∈ w'.2.madeFiles, path ∈ w.2.madeFiles ∨ path = [completionName]) : Rooted w' := by
  constructor
  · rw [hCreated, hMade]
    exact h.directories
  · rw [hMade]
    intro path hMem
    rcases hFiles path hMem with hMem | hCompletion
    · exact h.files path hMem
    · exact .inl hCompletion

theorem recorded_start (answers : Nat → Answer) : Recorded (start answers) := by
  constructor
  · intro relative _ hMade
    cases hMade
  · intro hState
    cases hState

theorem rooted_start (answers : Nat → Answer) : Rooted (start answers) := by
  constructor
  · intro relative hMem
    cases hMem
  · intro components hMem
    cases hMem

theorem Recorded.unmade (h : Recorded w) {path : Path} {native : Native}
    (hMade : native.madeDirectories = w.2.madeDirectories) : Recorded (withUnmade w path, native) := by
  constructor
  · intro relative hNe hMem
    rw [hMade] at hMem
    exact List.mem_append_left _ (h.made relative hNe hMem)
  · intro hState
    rw [hMade]
    exact h.staging hState

theorem Recorded.step (h : Recorded w) (hStep : Steps w c reply w') : Recorded w' := by
  cases hStep with
  | refused c e hTurn => exact h
  | notBegun plan e native hState hMade hFiles => exact h.of_same rfl id hMade
  | begun plan staging native hState hEmptied =>
    constructor
    · intro relative hNe hMem
      rcases List.mem_append.mp hMem with hMem | hMem
      · rw [hEmptied.madeDirectories] at hMem
        exact h.made relative hNe hMem
      · exact absurd (List.cons.inj (List.mem_singleton.mp hMem)).2 hNe
    · exact fun _ => List.mem_append_right _ List.mem_cons_self
  | parentDenied plan staging entry e w' hOpens hDenied hUnmade =>
    obtain ⟨made, path, rest, hSplit, hTransaction, hNative⟩ := hUnmade.split
    obtain ⟨tx, native⟩ := w'
    cases hTransaction
    have hMade : native.madeDirectories = (DirectoryTransaction.withParents w made).2.madeDirectories := by
      change native = _ ∨ native = _ at hNative
      rcases hNative with rfl | rfl <;> rfl
    exact (h.withParents made).unmade hMade
  | notOpened plan staging entry e native hOpens hAllowed hKept =>
    exact (h.withParents _).of_same rfl id hKept.madeDirectories
  | opened plan staging entry native hOpens hAllowed hKept hFree =>
    exact (h.withParents _).of_same rfl id hKept.madeDirectories
  | written bytes file hWrites hFine => exact h.of_same rfl id rfl
  | torn bytes file e hWrites hFails => exact h.of_same rfl id rfl
  | lost file e native hState hOpen hKept => exact h.of_same rfl id hKept.madeDirectories
  | «sealed» file hState hOpen hWhole => exact h.of_same rfl id rfl
  | incomplete e native hState hKept => exact h.of_same rfl id hKept.madeDirectories
  | completed plan staging native hAdmits hClosed hNext hKept =>
    exact h.of_same rfl (by intro hState; cases hState) hKept.madeDirectories
  | unpublished reply hState hReply => exact h.of_same rfl id rfl
  | published hState => exact h.of_same rfl (by intro hState; cases hState) rfl
  | synced reply hState => exact h.of_same rfl id rfl
  | aborted reply native hState hMade hFiles => exact h.of_same rfl (by intro hState; cases hState) hMade

theorem made_of_opens (h : Rooted w) (hRecorded : Recorded w) {plan : StagingPlan} {staging : StagingDirectory}
    {entry : StagingEntry} (hOpens : Opens w plan staging entry) {relative : Path}
    (hPrefix : relative <+: entry.components.dropLast) :
    filesDirectory :: relative ∈ (withParents w (missingParents w entry)).2.madeDirectories := by
  by_cases hNe : relative = []
  · subst hNe
    exact List.mem_append_left _ (hRecorded.staging hOpens.admits.state)
  · have hParent : [] ++ relative ∈ w.1.createdDirectories ∨ [] ++ relative ∈ missingParents w entry :=
      mem_missing hPrefix hNe
    rcases hParent with hKnown | hNew
    · exact List.mem_append_left _ (h.directories relative hKnown)
    · exact List.mem_append_right _ (List.mem_map_of_mem hNew)

theorem Rooted.step (h : Rooted w) (hRecorded : Recorded w) (hStep : Steps w c reply w') (hAllowed : ¬ DeniesParent w c) :
    Rooted w' := by
  cases hStep with
  | refused c e hTurn => exact h
  | notBegun plan e native hState hMade hFiles => exact h.of_same rfl hMade fun _ hMem => .inl (hFiles ▸ hMem)
  | begun plan staging native hState hEmptied =>
    constructor
    · intro relative hMem
      have hMade := h.directories relative hMem
      rw [← hEmptied.madeDirectories] at hMade
      exact List.mem_append_left _ hMade
    · intro path hMem
      change _ ∈ native.madeFiles at hMem
      rw [hEmptied.madeFiles] at hMem
      have hPlaced := h.files path hMem
      rw [← hEmptied.madeDirectories] at hPlaced
      exact hPlaced.mono (List.subset_append_left _ _)
  | parentDenied plan staging entry e w' hOpens hDenied hUnmade =>
    exact absurd ⟨plan, staging, entry, hOpens, rfl, rfl, hDenied⟩ hAllowed
  | notOpened plan staging entry e native hOpens hFree hKept =>
    exact (h.withParents _).of_same rfl hKept.madeDirectories hKept.madeFiles
  | opened plan staging entry native hOpens hFree hKept hNew =>
    have hParents := h.withParents (missingParents w entry)
    constructor
    · intro relative hMem
      change _ ∈ native.madeDirectories
      rw [hKept.madeDirectories]
      exact hParents.directories relative hMem
    · intro path hMem
      change Placed native.madeDirectories path
      rw [hKept.madeDirectories]
      rcases List.mem_append.mp hMem with hMem | hMem
      · rcases hKept.madeFiles path hMem with hMem | hCompletion
        · exact hParents.files path hMem
        · exact .inl hCompletion
      · refine .inr ⟨entry.components, List.mem_singleton.mp hMem, fun relative hPrefix => ?_⟩
        exact made_of_opens h hRecorded hOpens hPrefix
  | written bytes file hWrites hFine => exact h.of_same rfl rfl fun _ hMem => .inl hMem
  | torn bytes file e hWrites hFails => exact h.of_same rfl rfl fun _ hMem => .inl hMem
  | lost file e native hState hOpen hKept => exact h.of_same rfl hKept.madeDirectories hKept.madeFiles
  | «sealed» file hState hOpen hWhole => exact h.of_same rfl rfl fun _ hMem => .inl hMem
  | incomplete e native hState hKept => exact h.of_same rfl hKept.madeDirectories hKept.madeFiles
  | completed plan staging native hAdmits hClosed hNext hKept =>
    exact h.of_same rfl hKept.madeDirectories hKept.madeFiles
  | unpublished reply hState hReply => exact h.of_same rfl rfl fun _ hMem => .inl hMem
  | published hState => exact h.of_same rfl rfl fun _ hMem => .inl hMem
  | synced reply hState => exact h.of_same rfl rfl fun _ hMem => .inl hMem
  | aborted reply native hState hMade hFiles => exact h.of_same rfl hMade fun _ hMem => .inl (hFiles ▸ hMem)

theorem Opens.unique {plan plan' : StagingPlan} {staging staging' : StagingDirectory} {entry entry' : StagingEntry}
    (h : Opens w plan staging entry) (h' : Opens w plan' staging' entry') : entry' = entry := by
  cases h.admits.plan.symm.trans h'.admits.plan
  cases h.entry.symm.trans h'.entry
  rfl

theorem Recorded.not_rooted (hRecorded : Recorded w) (hStep : Steps w c reply w') (hDenies : DeniesParent w c) :
    ¬ Rooted w' := by
  intro hRooted
  cases c with
  | openFile components expectedSize =>
    obtain ⟨plan, staging, entry, hOpens, hComponents, hSize, hDenied⟩ := hDenies
    cases hStep with
    | refused c e hTurn => exact hTurn ⟨plan, staging, entry, hOpens, hComponents, hSize⟩
    | parentDenied plan' staging' entry' e w' hOpens' hDenied' hUnmade =>
      cases hOpens.unique hOpens'
      obtain ⟨made, path, rest, hSplit, hTransaction, hNative⟩ := hUnmade.split
      have hNew : path ∈ missingParents w entry := hSplit ▸ List.mem_append_right made List.mem_cons_self
      have hMade : filesDirectory :: path ∈ w'.2.madeDirectories := by
        apply hRooted.directories
        rw [hTransaction]
        exact List.mem_append_right _ List.mem_cons_self
      have hSame : w'.2.madeDirectories = w.2.madeDirectories ++ made.map (filesDirectory :: ·) := by
        rcases hNative with hSame | hSame
        · exact congrArg Native.madeDirectories hSame
        · exact congrArg Native.madeDirectories hSame
      rw [hSame] at hMade
      rcases List.mem_append.mp hMade with hMade | hMade
      · exact not_mem_of_mem_missing hNew (hRecorded.made path (missing_ne_nil hNew) hMade)
      · obtain ⟨earlier, hEarlier, hEq⟩ := List.mem_map.mp hMade
        cases hEq
        have hOrder := missing_pairwise w.1.createdDirectories [] entry.components.dropLast
        rw [show missing w.1.createdDirectories [] entry.components.dropLast = _ from hSplit] at hOrder
        exact absurd ((List.pairwise_append.mp hOrder).2.2 path hEarlier path List.mem_cons_self) (Nat.lt_irrefl _)
    | notOpened plan' staging' entry' e native hOpens' hAllowed hKept =>
      cases hOpens.unique hOpens'
      exact hAllowed hDenied
    | opened plan' staging' entry' native hOpens' hAllowed hKept hFree =>
      cases hOpens.unique hOpens'
      exact hAllowed hDenied
  | begin plan => exact hDenies
  | writeChunk bytes => exact hDenies
  | sealFile => exact hDenies
  | sealCompletion => exact hDenies
  | publishNoReplace => exact hDenies
  | syncPublishedParent => exact hDenies
  | abort => exact hDenies

theorem recorded_run (h : Recorded w) (calls : List TransactionCall) : Recorded (run w calls) := by
  induction calls generalizing w with
  | nil => exact h
  | cons c calls ih => exact ih (h.step (call_steps w c))

/-- Nothing is planted exactly as long as no parent is denied. -/
theorem rooted_run_iff (answers : Nat → Answer) (calls : List TransactionCall) :
    (∀ before, before <+: calls → Rooted (run (start answers) before)) ↔
      ∀ before c, before ++ [c] <+: calls → ¬ DeniesParent (run (start answers) before) c := by
  have hRecorded := recorded_run (recorded_start answers)
  constructor
  · intro hRooted before c hPrefix hDenies
    have hAfter := hRooted (before ++ [c]) hPrefix
    rw [run_append] at hAfter
    exact (hRecorded before).not_rooted (call_steps _ c) hDenies hAfter
  · intro hAllowed before
    induction before using List.reverseRecOn with
    | nil => exact fun _ => rooted_start answers
    | append_singleton before c ih =>
      intro hPrefix
      rw [run_append]
      have hBefore := ih ((List.prefix_append before [c]).trans hPrefix)
      exact hBefore.step (hRecorded before) (call_steps _ c) (hAllowed before c hPrefix)

/-- The third native call finds a directory of that name, and the caller tries again. -/
theorem planted_parent_is_used :
    let entry : StagingEntry := ⟨[text "Nested", text "inner.bin"], 4⟩
    let plan : StagingPlan := ⟨text "payload-v1", [entry], by decide, by decide, by decide⟩
    let answers (turn : Nat) : Answer := if turn = 2 then ⟨some .alreadyExists, 0, .done⟩ else .fine
    let calls := [.begin plan, .openFile entry.components 4, .openFile entry.components 4]
    let after := run (start answers) calls
    filesDirectory :: entry.components ∈ after.2.madeFiles ∧
      [filesDirectory, text "Nested"] ∉ after.2.madeDirectories ∧ ¬ Rooted after := by
  refine ⟨by decide, by decide, fun hRooted => ?_⟩
  have hRecorded : [text "Nested"] ∈ (run (start fun turn => if turn = 2 then ⟨some .alreadyExists, 0, .done⟩ else .fine)
    [.begin ⟨text "payload-v1", [⟨[text "Nested", text "inner.bin"], 4⟩], by decide, by decide, by decide⟩,
      .openFile [text "Nested", text "inner.bin"] 4, .openFile [text "Nested", text "inner.bin"] 4]).1.createdDirectories := by
    decide
  exact absurd (hRooted.directories _ hRecorded) (by decide)

end DirectoryTransaction

end OpenHalfLife.Payload
