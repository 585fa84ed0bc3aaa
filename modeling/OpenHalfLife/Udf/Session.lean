import OpenHalfLife.Udf.Archive
import OpenHalfLife.Lib.Behaviour
import OpenHalfLife.Lib.Machine
import Mathlib.Data.List.Dedup
import Mathlib.Data.List.Induction
import Mathlib.Data.List.Perm.Subperm

/-! # Interleaved listings

Listings of one mount in any order. The log keeps with every page the listing
its chain began with and the entries of the chain up to it.
-/

namespace OpenHalfLife.Udf

set_option autoImplicit false

open Media

/-- The pages from a `list_page` on. -/
structure Chain (Icb : Type) where
  began : Nat
  directory : DirRef Icb
  entries : List DirectoryEntry
  cursor : Option DirectoryCursor
  deriving DecidableEq

/-- What a call came to; `forgotten` where the table had no record of the directory. -/
inductive Record (Icb : Type)
  | listed (chain : Chain Icb)
  | continued (own : List DirectoryEntry) (chain : Chain Icb)
  | forgotten (chain : Chain Icb)
  | failed
  deriving DecidableEq

def Record.chain? {Icb : Type} : Record Icb → Option (Chain Icb)
  | .listed chain => some chain
  | .continued _ chain => some chain
  | _ => none

def Record.listed? {Icb : Type} : Record Icb → Option (DirRef Icb)
  | .listed chain => some chain.directory
  | _ => none

/-- `proceed` gives the cursor of an earlier page to `continue_list`. -/
inductive Call
  | list (path : Text)
  | proceed (earlier : Nat)

structure Session (Icb : Type) where
  archive : UdfArchive Icb
  log : List (Record Icb)

namespace Session

variable {Icb : Type}

def listed (session : Session Icb) (path : Text) : Record Icb :=
  match session.archive.directoryAt path, (session.archive.listPage path).1 with
  | .ok directory, .ok page => .listed ⟨session.log.length, directory, page.entries, page.cursor⟩
  | _, _ => .failed

def continued (session : Session Icb) (chain : Chain Icb) (cursor : DirectoryCursor) : Record Icb :=
  match session.archive.continueList cursor with
  | .ok page => .continued page.entries { chain with entries := chain.entries ++ page.entries, cursor := page.cursor }
  | .error _ => if (session.archive.recall cursor.directoryExtent).isNone then .forgotten chain else .failed

def step (session : Session Icb) : Call → Session Icb
  | .list path => ⟨(session.archive.listPage path).2, session.log ++ [session.listed path]⟩
  | .proceed earlier =>
    match (session.log[earlier]?).bind Record.chain? with
    | none => session
    | some chain =>
      match chain.cursor with
      | none => session
      | some cursor => { session with log := session.log ++ [session.continued chain cursor] }

def start (volume : UdfVolume Icb) (limits : DirectoryLimits) (mount : Nat) : Session Icb :=
  ⟨⟨volume, limits, mount, []⟩, []⟩

def run (session : Session Icb) (calls : List Call) : Session Icb := calls.foldl step session

end Session

section Claims

variable {Icb : Type} [DecidableEq Icb]

def listedSince (began : Nat) (log : List (Record Icb)) : List (DirRef Icb) :=
  (log.drop (began + 1)).filterMap Record.listed?

def othersSince (began : Nat) (directory : DirRef Icb) (log : List (Record Icb)) : List (DirRef Icb) :=
  ((listedSince began log).filter fun other => other ≠ directory).dedup

/-- Cursors are bound to their directory: a continuation gives entries of the directory its chain
began with, a finished chain gives them all and in order, the directory is forgotten only after
sixteen others were listed, and the table is small and without a key twice. -/
structure Bound (archive : UdfArchive Icb) (log : List (Record Icb)) : Prop where
  own : ∀ own chain, .continued own chain ∈ log →
    ∃ entries, archive.readEntries chain.directory = .ok entries ∧ ∀ entry ∈ own, entry ∈ entries
  whole : ∀ record ∈ log, ∀ chain, record.chain? = some chain → chain.cursor = none →
    archive.readEntries chain.directory = .ok chain.entries
  known : ∀ before chain after, log = before ++ .forgotten chain :: after →
    maxRememberedDirectories ≤ (othersSince chain.began chain.directory before).length
  small : archive.remembered.length ≤ maxRememberedDirectories
  keys : (archive.remembered.map Prod.fst).Nodup

/-- A listing that returns a cursor is of no directory with another's block number, and finds its
directory not in the table or as its newest record. -/
def Apart (session : Session Icb) : Call → Prop
  | .list path => ∀ directory page, session.archive.directoryAt path = .ok directory →
    session.archive.pageFrom directory 0 0 0 = .ok page → page.cursor.isSome →
    (∀ chain, .listed chain ∈ session.log → chain.cursor.isSome →
      session.archive.key chain.directory = session.archive.key directory → chain.directory = directory) ∧
    ((session.archive.remembered.any fun known => known.1 = session.archive.key directory) →
      session.archive.remembered.getLast? = some (session.archive.key directory, directory))
  | .proceed _ => True

variable {archive : UdfArchive Icb} {log : List (Record Icb)}

omit [DecidableEq Icb] in
theorem listedSince_append {began : Nat} (h : began < log.length) (record : Record Icb) :
    listedSince began (log ++ [record]) = listedSince began log ++ record.listed?.toList := by
  rw [listedSince, listedSince, List.drop_append_of_le_length h, List.filterMap_append, List.filterMap_cons]
  cases record.listed? <;> rfl

theorem mem_othersSince {began : Nat} {directory other : DirRef Icb} :
    other ∈ othersSince began directory log ↔ other ∈ listedSince began log ∧ other ≠ directory := by
  rw [othersSince, List.mem_dedup, List.mem_filter, decide_eq_true_iff]

omit [DecidableEq Icb] in
theorem listedSince_mono {began : Nat} (h : began < log.length) (record : Record Icb) {other : DirRef Icb}
    (hMem : other ∈ listedSince began log) : other ∈ listedSince began (log ++ [record]) := by
  rw [listedSince_append h]
  exact List.mem_append_left _ hMem

theorem othersSince_mono {began : Nat} (h : began < log.length) (directory : DirRef Icb) (record : Record Icb) :
    (othersSince began directory log).length ≤ (othersSince began directory (log ++ [record])).length := by
  apply List.Subperm.length_le
  apply List.subperm_of_subset (List.nodup_dedup _)
  intro other hMem
  obtain ⟨hListed, hOther⟩ := mem_othersSince.mp hMem
  exact mem_othersSince.mpr ⟨listedSince_mono h record hListed, hOther⟩

/-- A record of the table and how young it is: what stands behind it was listed since. -/
def Young (archive : UdfArchive Icb) (log : List (Record Icb)) (began : Nat) (directory : DirRef Icb) : Prop :=
  (∃ older newer, archive.remembered = older ++ (archive.key directory, directory) :: newer ∧
    (newer.map Prod.snd).Nodup ∧ ∀ known ∈ newer, known.2 ≠ directory ∧ known.2 ∈ listedSince began log) ∨
  maxRememberedDirectories ≤ (othersSince began directory log).length

theorem Young.append {began : Nat} {directory : DirRef Icb} (h : Young archive log began directory)
    (hBegan : began < log.length) (record : Record Icb) : Young archive (log ++ [record]) began directory := by
  rcases h with ⟨older, newer, hTable, hNodup, hNewer⟩ | hMany
  · refine .inl ⟨older, newer, hTable, hNodup, fun known hMem => ?_⟩
    exact (hNewer known hMem).imp_right (listedSince_mono hBegan record)
  · exact .inr (Nat.le_trans hMany (othersSince_mono hBegan directory record))

end Claims

namespace UdfArchive

variable {Icb : Type} (archive : UdfArchive Icb)

theorem key_remember (directory other : DirRef Icb) : (archive.remember directory).key other = archive.key other := by
  rw [remember]
  split <;> rfl

theorem readEntries_remember (directory other : DirRef Icb) :
    (archive.remember directory).readEntries other = archive.readEntries other := by
  rw [remember]
  split <;> rfl

theorem remember_of_known {directory : DirRef Icb}
    (h : archive.remembered.any fun known => known.1 = archive.key directory) :
    archive.remember directory = archive := by
  rw [remember, if_pos h]

theorem remembered_of_unknown {directory : DirRef Icb}
    (h : ¬ archive.remembered.any fun known => known.1 = archive.key directory) :
    (archive.remember directory).remembered =
      (if archive.remembered.length = maxRememberedDirectories then archive.remembered.drop 1
        else archive.remembered) ++ [(archive.key directory, directory)] := by
  rw [remember, if_neg h]

theorem small_remember {archive : UdfArchive Icb} (h : archive.remembered.length ≤ maxRememberedDirectories) (directory : DirRef Icb) :
    (archive.remember directory).remembered.length ≤ maxRememberedDirectories := by
  by_cases hKnown : archive.remembered.any fun known => known.1 = archive.key directory
  · rw [archive.remember_of_known hKnown]
    exact h
  · rw [archive.remembered_of_unknown hKnown, List.length_append, List.length_singleton]
    rw [maxRememberedDirectories] at h ⊢
    split
    · rw [List.length_drop]
      omega
    · rename_i hRoom
      exact Nat.lt_of_le_of_ne h hRoom

theorem mem_remember {archive : UdfArchive Icb} {directory : DirRef Icb} {known : Nat × DirRef Icb}
    (h : known ∈ (archive.remember directory).remembered) :
    known ∈ archive.remembered ∨ known = (archive.key directory, directory) := by
  by_cases hKnown : archive.remembered.any fun known => known.1 = archive.key directory
  · rw [archive.remember_of_known hKnown] at h
    exact .inl h
  · rw [archive.remembered_of_unknown hKnown] at h
    rcases List.mem_append.mp h with hOld | hNew
    · left
      split at hOld
      · exact List.mem_of_mem_drop hOld
      · exact hOld
    · exact .inr (List.mem_singleton.mp hNew)

theorem keys_remember {archive : UdfArchive Icb} (h : (archive.remembered.map Prod.fst).Nodup) (directory : DirRef Icb) :
    ((archive.remember directory).remembered.map Prod.fst).Nodup := by
  by_cases hKnown : archive.remembered.any fun known => known.1 = archive.key directory
  · rw [archive.remember_of_known hKnown]
    exact h
  · have hKept : ((if archive.remembered.length = maxRememberedDirectories then archive.remembered.drop 1
        else archive.remembered)).Sublist archive.remembered := by
      split
      · exact List.drop_sublist 1 _
      · exact List.Sublist.refl _
    rw [archive.remembered_of_unknown hKnown, List.map_append, List.nodup_append]
    refine ⟨(hKept.map Prod.fst).nodup h, List.nodup_singleton _, ?_⟩
    rintro _ hMem _ hLast rfl
    obtain ⟨known, hOld, hSame⟩ := List.mem_map.mp hMem
    apply hKnown
    exact List.any_eq_true.mpr ⟨known, hKept.subset hOld, decide_eq_true (hSame.trans (List.mem_singleton.mp hLast))⟩

end UdfArchive

section Invariant

variable {Icb : Type} [DecidableEq Icb] {archive : UdfArchive Icb} {log : List (Record Icb)}

theorem Young.remember {began : Nat} {directory other : DirRef Icb} (h : Young archive log began directory)
    (hUnknown : ¬ archive.remembered.any fun known => known.1 = archive.key other)
    (hKeyed : ∀ known ∈ archive.remembered, known.1 = archive.key known.2)
    (hOther : other ∈ listedSince began log) : Young (archive.remember other) log began directory := by
  rcases h with ⟨older, newer, hTable, hNodup, hNewer⟩ | hMany
  · have hNew (known : Nat × DirRef Icb) (hMem : known ∈ archive.remembered) : known.2 ≠ other := by
      rintro rfl
      exact hUnknown (List.any_eq_true.mpr ⟨known, hMem, decide_eq_true (hKeyed known hMem)⟩)
    have hMine : directory ≠ other := hNew (archive.key directory, directory) (by rw [hTable]; simp)
    have hFresh : ∀ known ∈ newer, known.2 ≠ other := by
      intro known hMem
      apply hNew
      rw [hTable]
      exact List.mem_append_right _ (List.mem_cons_of_mem _ hMem)
    have hBehind : ((newer ++ [(archive.key other, other)]).map Prod.snd).Nodup := by
      rw [List.map_append, List.nodup_append]
      refine ⟨hNodup, List.nodup_singleton _, ?_⟩
      rintro _ hMem _ hLast rfl
      obtain ⟨known, hKnown, rfl⟩ := List.mem_map.mp hMem
      exact hFresh known hKnown (List.mem_singleton.mp hLast)
    have hListed : ∀ known ∈ newer ++ [(archive.key other, other)],
        known.2 ≠ directory ∧ known.2 ∈ listedSince began log := by
      intro known hMem
      rcases List.mem_append.mp hMem with hMem | hMem
      · exact hNewer known hMem
      · cases List.mem_singleton.mp hMem
        exact ⟨hMine.symm, hOther⟩
    rw [Young, UdfArchive.remembered_of_unknown archive hUnknown, UdfArchive.key_remember]
    by_cases hFull : archive.remembered.length = maxRememberedDirectories
    · rw [if_pos hFull, hTable]
      rw [hTable] at hFull
      cases older with
      | nil =>
        -- sixteen others stand behind the record that goes
        right
        rw [List.nil_append, List.length_cons] at hFull
        have hCount : ((newer ++ [(archive.key other, other)]).map Prod.snd).length = maxRememberedDirectories := by
          rw [List.length_map, List.length_append, List.length_singleton, hFull]
        rw [← hCount]
        apply List.Subperm.length_le
        apply List.subperm_of_subset hBehind
        intro listed hMem
        obtain ⟨known, hKnown, rfl⟩ := List.mem_map.mp hMem
        exact mem_othersSince.mpr (hListed known hKnown).symm
      | cons oldest older =>
        left
        refine ⟨older, newer ++ [(archive.key other, other)], ?_, hBehind, hListed⟩
        rw [List.cons_append, List.drop_one, List.tail_cons, List.append_assoc, List.cons_append]
    · left
      refine ⟨older, newer ++ [(archive.key other, other)], ?_, hBehind, hListed⟩
      rw [if_neg hFull, hTable, List.append_assoc, List.cons_append]
  · exact .inr hMany

theorem young_newest {began : Nat} {directory : DirRef Icb}
    (h : archive.remembered.getLast? = some (archive.key directory, directory)) :
    Young archive log began directory := by
  obtain ⟨older, hTable⟩ := List.getLast?_eq_some_iff.mp h
  exact .inl ⟨older, [], hTable, List.nodup_nil, fun known hMem => by cases hMem⟩

end Invariant

namespace UdfArchive

variable {Icb : Type} (archive : UdfArchive Icb)

theorem fillPage_prefix {limits : DirectoryLimits} {already nameBytes : Nat} {rest page full : List DirectoryEntry}
    (h : fillPage limits already rest page nameBytes = .ok full) : ∃ taken, full = page ++ taken ∧ taken <+: rest := by
  induction rest generalizing page nameBytes with
  | nil =>
    cases h
    exact ⟨[], (List.append_nil _).symm, List.prefix_refl _⟩
  | cons entry rest ih =>
    have hNone : ∃ taken, page = page ++ taken ∧ taken <+: entry :: rest :=
      ⟨[], (List.append_nil _).symm, List.nil_prefix⟩
    rw [fillPage] at h
    split at h
    · cases h
      exact hNone
    dsimp only at h
    split at h
    · cases h
    split at h
    · split at h
      · cases h
      · cases h
        exact hNone
    split at h
    · cases h
    · obtain ⟨taken, rfl, hTaken⟩ := ih h
      refine ⟨entry :: taken, by rw [List.append_assoc, List.singleton_append], ?_⟩
      exact (List.cons_prefix_cons).mpr ⟨rfl, hTaken⟩

theorem pageFrom_ok {directory : DirRef Icb} {startIndex already pages : Nat} {page : DirectoryPage}
    (h : archive.pageFrom directory startIndex already pages = .ok page) :
    ∃ entries, archive.readEntries directory = .ok entries ∧ page.entries <+: entries.drop startIndex ∧
      (page.cursor = none → entries.length ≤ startIndex + page.entries.length) ∧
      ∀ cursor, page.cursor = some cursor → cursor.mount = archive.mount ∧
        cursor.directoryExtent = archive.key directory ∧ cursor.nextIndex = startIndex + page.entries.length := by
  rw [pageFrom] at h
  split at h
  · cases h
  obtain ⟨entries, hEntries, h⟩ := Result.bind_eq_ok.mp h
  obtain ⟨taken, hTaken, h⟩ := Result.bind_eq_ok.mp h
  obtain ⟨taken, rfl, hPrefix⟩ := fillPage_prefix hTaken
  cases h
  refine ⟨entries, hEntries, hPrefix, ?_, ?_⟩
  · intro hCursor
    by_contra hMore
    rw [Nat.not_le] at hMore
    rw [if_pos hMore] at hCursor
    cases hCursor
  · intro cursor hCursor
    split at hCursor
    · cases hCursor
      exact ⟨rfl, rfl, rfl⟩
    · cases hCursor

end UdfArchive

namespace Session

variable {Icb : Type}

theorem step_list (session : Session Icb) (path : Text) :
    session.step (.list path) = ⟨session.archive, session.log ++ [.failed]⟩ ∨
      ∃ directory page, session.archive.directoryAt path = .ok directory ∧
        session.archive.pageFrom directory 0 0 0 = .ok page ∧
        session.step (.list path) =
          ⟨if page.cursor.isSome then session.archive.remember directory else session.archive,
            session.log ++ [.listed ⟨session.log.length, directory, page.entries, page.cursor⟩]⟩ := by
  rw [step, listed, UdfArchive.listPage]
  cases hDirectory : session.archive.directoryAt path with
  | error e => exact .inl rfl
  | ok directory =>
    dsimp only
    cases hPage : session.archive.pageFrom directory 0 0 0 with
    | error e => exact .inl rfl
    | ok page => exact .inr ⟨directory, page, rfl, hPage, rfl⟩

end Session

section Invariant

variable {Icb : Type} [DecidableEq Icb] {archive archive' : UdfArchive Icb} {log : List (Record Icb)}

/-- A chain has so many of its directory's entries, and its cursor asks for the next. -/
structure InChain (archive : UdfArchive Icb) (log : List (Record Icb)) (chain : Chain Icb)
    (entries : List DirectoryEntry) : Prop where
  read : archive.readEntries chain.directory = .ok entries
  part : chain.entries <+: entries
  whole : chain.cursor = none → chain.entries = entries
  cursor : ∀ cursor, chain.cursor = some cursor → cursor.mount = archive.mount ∧
    cursor.directoryExtent = archive.key chain.directory ∧ cursor.nextIndex = chain.entries.length ∧
    ∃ first, .listed first ∈ log ∧ first.began = chain.began ∧ first.directory = chain.directory ∧ first.cursor.isSome

structure Remembers (archive : UdfArchive Icb) (log : List (Record Icb)) : Prop where
  small : archive.remembered.length ≤ maxRememberedDirectories
  keys : (archive.remembered.map Prod.fst).Nodup
  keyed : ∀ known ∈ archive.remembered, known.1 = archive.key known.2
  recorded : ∀ known ∈ archive.remembered, ∃ chain, .listed chain ∈ log ∧ chain.cursor.isSome ∧ chain.directory = known.2
  apart : ∀ a b, .listed a ∈ log → .listed b ∈ log → a.cursor.isSome → b.cursor.isSome →
    archive.key a.directory = archive.key b.directory → a.directory = b.directory
  young : ∀ chain, .listed chain ∈ log → chain.cursor.isSome → chain.began < log.length ∧
    Young archive log chain.began chain.directory

structure Tells (archive : UdfArchive Icb) (log : List (Record Icb)) : Prop where
  chains : ∀ record ∈ log, ∀ chain, record.chain? = some chain → ∃ entries, InChain archive log chain entries
  own : ∀ own chain, .continued own chain ∈ log → ∃ front, chain.entries = front ++ own
  known : ∀ before chain after, log = before ++ .forgotten chain :: after →
    maxRememberedDirectories ≤ (othersSince chain.began chain.directory before).length

omit [DecidableEq Icb] in
theorem InChain.append {chain : Chain Icb} {entries : List DirectoryEntry} (h : InChain archive log chain entries)
    (record : Record Icb) : InChain archive (log ++ [record]) chain entries where
  read := h.read
  part := h.part
  whole := h.whole
  cursor := by
    intro cursor hCursor
    obtain ⟨hMount, hExtent, hNext, first, hMem, hFirst⟩ := h.cursor cursor hCursor
    exact ⟨hMount, hExtent, hNext, first, List.mem_append_left _ hMem, hFirst⟩

omit [DecidableEq Icb] in
theorem InChain.remember {chain : Chain Icb} {entries : List DirectoryEntry} (h : InChain archive log chain entries)
    (directory : DirRef Icb) : InChain (archive.remember directory) log chain entries where
  read := by
    rw [UdfArchive.readEntries_remember]
    exact h.read
  part := h.part
  whole := h.whole
  cursor := by
    have hMount : (archive.remember directory).mount = archive.mount := by
      rw [UdfArchive.remember]
      split <;> rfl
    rw [hMount, UdfArchive.key_remember]
    exact h.cursor

structure Fits (archive : UdfArchive Icb) (log : List (Record Icb)) (record : Record Icb) : Prop where
  chain : ∀ chain, record.chain? = some chain → ∃ entries, InChain archive (log ++ [record]) chain entries
  own : ∀ own chain, record = .continued own chain → ∃ front, chain.entries = front ++ own
  known : ∀ chain, record = .forgotten chain →
    maxRememberedDirectories ≤ (othersSince chain.began chain.directory log).length

theorem Tells.append (h : Tells archive log) {record : Record Icb} (hFits : Fits archive log record) :
    Tells archive (log ++ [record]) where
  chains := by
    intro other hMem chain hChain
    rcases List.mem_append.mp hMem with hMem | hMem
    · obtain ⟨entries, hIn⟩ := h.chains other hMem chain hChain
      exact ⟨entries, hIn.append record⟩
    · cases List.mem_singleton.mp hMem
      exact hFits.chain chain hChain
  own := by
    intro own chain hMem
    rcases List.mem_append.mp hMem with hMem | hMem
    · exact h.own own chain hMem
    · exact hFits.own own chain (List.mem_singleton.mp hMem).symm
  known := by
    have hBefore : Throughout (fun before record => ∀ chain, record = .forgotten chain →
        maxRememberedDirectories ≤ (othersSince chain.began chain.directory before).length) (log ++ [record]) := by
      refine throughout_append.mpr ⟨?_, hFits.known⟩
      rintro before _ after hSplit chain rfl
      exact h.known before chain after hSplit
    exact fun before chain after hSplit => hBefore before _ after hSplit chain rfl

theorem Tells.remember (h : Tells archive log) (directory : DirRef Icb) : Tells (archive.remember directory) log where
  chains := by
    intro record hMem chain hChain
    obtain ⟨entries, hIn⟩ := h.chains record hMem chain hChain
    exact ⟨entries, hIn.remember directory⟩
  own := h.own
  known := h.known

theorem Remembers.append (h : Remembers archive log) {record : Record Icb}
    (hListed : ∀ chain, record = .listed chain → chain.cursor = none) : Remembers archive (log ++ [record]) where
  small := h.small
  keys := h.keys
  keyed := h.keyed
  recorded := by
    intro known hMem
    obtain ⟨chain, hListed, hChain⟩ := h.recorded known hMem
    exact ⟨chain, List.mem_append_left _ hListed, hChain⟩
  apart := by
    intro a b hA hB hSomeA hSomeB hKey
    rcases List.mem_append.mp hA with hA | hA
    · rcases List.mem_append.mp hB with hB | hB
      · exact h.apart a b hA hB hSomeA hSomeB hKey
      · rw [hListed b (List.mem_singleton.mp hB).symm] at hSomeB
        cases hSomeB
    · rw [hListed a (List.mem_singleton.mp hA).symm] at hSomeA
      cases hSomeA
  young := by
    intro chain hMem hSome
    rcases List.mem_append.mp hMem with hMem | hMem
    · obtain ⟨hBegan, hYoung⟩ := h.young chain hMem hSome
      rw [List.length_append]
      exact ⟨Nat.lt_add_right _ hBegan, hYoung.append hBegan record⟩
    · rw [hListed chain (List.mem_singleton.mp hMem).symm] at hSome
      cases hSome

theorem Remembers.list (h : Remembers archive log) {chain : Chain Icb} (hBegan : chain.began = log.length)
    (hSome : chain.cursor.isSome)
    (hApart : ∀ other, .listed other ∈ log → other.cursor.isSome →
      archive.key other.directory = archive.key chain.directory → other.directory = chain.directory)
    (hNewest : (archive.remembered.any fun known => known.1 = archive.key chain.directory) →
      archive.remembered.getLast? = some (archive.key chain.directory, chain.directory)) :
    Remembers (archive.remember chain.directory) (log ++ [.listed chain]) where
  small := UdfArchive.small_remember h.small chain.directory
  keys := UdfArchive.keys_remember h.keys chain.directory
  keyed := by
    intro known hMem
    rw [UdfArchive.key_remember]
    rcases UdfArchive.mem_remember hMem with hOld | rfl
    · exact h.keyed known hOld
    · rfl
  recorded := by
    intro known hMem
    rcases UdfArchive.mem_remember hMem with hOld | rfl
    · obtain ⟨other, hListed, hOther⟩ := h.recorded known hOld
      exact ⟨other, List.mem_append_left _ hListed, hOther⟩
    · exact ⟨chain, by simp, hSome, rfl⟩
  apart := by
    intro a b hA hB hSomeA hSomeB hKey
    rw [UdfArchive.key_remember, UdfArchive.key_remember] at hKey
    rcases List.mem_append.mp hA with hA | hA
    · rcases List.mem_append.mp hB with hB | hB
      · exact h.apart a b hA hB hSomeA hSomeB hKey
      · cases List.mem_singleton.mp hB
        exact hApart a hA hSomeA hKey
    · cases List.mem_singleton.mp hA
      rcases List.mem_append.mp hB with hB | hB
      · exact (hApart b hB hSomeB hKey.symm).symm
      · cases List.mem_singleton.mp hB
        rfl
  young := by
    intro other hMem hOtherSome
    rw [List.length_append, List.length_singleton]
    rcases List.mem_append.mp hMem with hMem | hMem
    · obtain ⟨hOtherBegan, hYoung⟩ := h.young other hMem hOtherSome
      refine ⟨Nat.lt_succ_of_lt hOtherBegan, ?_⟩
      have hStill := hYoung.append hOtherBegan (.listed chain)
      by_cases hKnown : archive.remembered.any fun known => known.1 = archive.key chain.directory
      · rw [archive.remember_of_known hKnown]
        exact hStill
      · apply hStill.remember hKnown h.keyed
        rw [listedSince_append hOtherBegan]
        exact List.mem_append_right _ (by simp [Record.listed?])
    · cases List.mem_singleton.mp hMem
      refine ⟨by omega, young_newest ?_⟩
      rw [UdfArchive.key_remember]
      by_cases hKnown : archive.remembered.any fun known => known.1 = archive.key chain.directory
      · rw [archive.remember_of_known hKnown]
        exact hNewest hKnown
      · rw [archive.remembered_of_unknown hKnown, List.getLast?_append, List.getLast?_singleton, Option.some_or]

namespace Session

variable {session : Session Icb}

theorem fits_failed : Fits archive log .failed where
  chain := fun chain hChain => by cases hChain
  own := fun own chain hSame => by cases hSame
  known := fun chain hSame => by cases hSame

theorem fits_listed {directory : DirRef Icb} {page : DirectoryPage}
    (h : archive.pageFrom directory 0 0 0 = .ok page) :
    Fits archive log (.listed ⟨log.length, directory, page.entries, page.cursor⟩) where
  chain := by
    intro chain hChain
    cases hChain
    obtain ⟨entries, hRead, hPart, hEnd, hCursor⟩ := archive.pageFrom_ok h
    rw [List.drop_zero] at hPart
    refine ⟨entries, hRead, hPart, fun hNone => ?_, fun cursor hSome => ?_⟩
    · have hAll := hEnd hNone
      rw [Nat.zero_add] at hAll
      exact hPart.eq_of_length_le hAll
    · obtain ⟨hMount, hExtent, hNext⟩ := hCursor cursor hSome
      rw [Nat.zero_add] at hNext
      refine ⟨hMount, hExtent, hNext, _, List.mem_append_right _ (List.mem_singleton_self _), rfl, rfl, ?_⟩
      rw [hSome]
      rfl
  own := fun own chain hSame => by cases hSame
  known := fun chain hSame => by cases hSame

theorem recall_eq (h : Remembers archive log) {chain first : Chain Icb} (hFirst : .listed first ∈ log)
    (hSome : first.cursor.isSome) (hSame : first.directory = chain.directory) {directory : DirRef Icb}
    (hRecall : archive.recall (archive.key chain.directory) = some directory) : directory = chain.directory := by
  rw [UdfArchive.recall, Option.map_eq_some_iff] at hRecall
  obtain ⟨known, hFind, rfl⟩ := hRecall
  have hKey : known.1 = archive.key chain.directory := by simpa using List.find?_some hFind
  have hMem := List.mem_of_find?_eq_some hFind
  obtain ⟨other, hListed, hOther, hDirectory⟩ := h.recorded known hMem
  rw [← hDirectory, ← hSame]
  apply h.apart other first hListed hFirst hOther hSome
  rw [hDirectory, hSame, ← h.keyed known hMem, hKey]

theorem forgotten_others (h : Remembers archive log) {first : Chain Icb} (hFirst : .listed first ∈ log)
    (hSome : first.cursor.isSome) (hRecall : archive.recall (archive.key first.directory) = none) :
    maxRememberedDirectories ≤ (othersSince first.began first.directory log).length := by
  rcases (h.young first hFirst hSome).2 with ⟨older, newer, hTable, -, -⟩ | hMany
  · rw [UdfArchive.recall, Option.map_eq_none_iff, List.find?_eq_none] at hRecall
    have hMem : (archive.key first.directory, first.directory) ∈ archive.remembered := by
      rw [hTable]
      simp
    exact absurd (decide_eq_true rfl) (hRecall _ hMem)
  · exact hMany

theorem fits_continued (hTable : Remembers session.archive session.log) {chain : Chain Icb}
    {cursor : DirectoryCursor} (hCursor : chain.cursor = some cursor) {entries : List DirectoryEntry}
    (hChain : InChain session.archive session.log chain entries) :
    Fits session.archive session.log (session.continued chain cursor) := by
  obtain ⟨hMount, hExtent, hNext, first, hFirst, hBegan, hSame, hSome⟩ := hChain.cursor cursor hCursor
  rw [continued, UdfArchive.continueList, if_neg (fun hOther => hOther hMount), hExtent]
  cases hRecall : session.archive.recall (session.archive.key chain.directory) with
  | none =>
    dsimp only
    rw [if_pos Option.isNone_none]
    refine ⟨fun other hOther => (by cases hOther), fun own other hOther => (by cases hOther), fun other hOther => ?_⟩
    cases hOther
    rw [← hSame] at hRecall
    rw [← hBegan, ← hSame]
    exact forgotten_others hTable hFirst hSome hRecall
  | some directory =>
    dsimp only
    have hDirectory := recall_eq hTable hFirst hSome hSame hRecall
    subst hDirectory
    cases hPage : session.archive.pageFrom chain.directory cursor.nextIndex cursor.returnedEntries
        cursor.pagesEmitted with
    | error e =>
      dsimp only
      rw [if_neg (by simp)]
      exact fits_failed
    | ok page =>
      obtain ⟨others, hRead, hPart, hEnd, hMore⟩ := session.archive.pageFrom_ok hPage
      cases hRead.symm.trans hChain.read
      obtain ⟨rest, hEntries⟩ := hChain.part
      have hDrop : entries.drop cursor.nextIndex = rest := by
        rw [hNext, ← hEntries, List.drop_left]
      rw [hDrop] at hPart
      have hPrefix : chain.entries ++ page.entries <+: entries := by
        rw [← hEntries]
        exact (List.prefix_append_right_inj _).mpr hPart
      dsimp only
      refine ⟨fun other hOther => ?_, fun own other hOther => ?_, fun other hOther => by cases hOther⟩
      · cases hOther
        refine ⟨entries, hChain.read, hPrefix, fun hNone => ?_, fun next hSomeNext => ?_⟩
        · have hAll := hEnd hNone
          apply hPrefix.eq_of_length_le
          rw [List.length_append, ← hNext]
          exact hAll
        · obtain ⟨hMount, hExtent, hIndex⟩ := hMore next hSomeNext
          refine ⟨hMount, hExtent, ?_, first, List.mem_append_left _ hFirst, hBegan, hSame, hSome⟩
          rw [hIndex, hNext, List.length_append]
      · cases hOther
        exact ⟨chain.entries, rfl⟩

structure Kept (session : Session Icb) : Prop where
  remembers : Remembers session.archive session.log
  tells : Tells session.archive session.log

theorem kept_start (volume : UdfVolume Icb) (limits : DirectoryLimits) (mount : Nat) :
    Kept (start volume limits mount) := by
  constructor
  · exact ⟨Nat.zero_le _, List.nodup_nil, fun known hMem => (List.not_mem_nil hMem).elim,
      fun known hMem => (List.not_mem_nil hMem).elim, fun a b hA => (List.not_mem_nil hA).elim,
      fun chain hMem => (List.not_mem_nil hMem).elim⟩
  · refine ⟨fun record hMem => (List.not_mem_nil hMem).elim, fun own chain hMem => (List.not_mem_nil hMem).elim, ?_⟩
    intro before chain after hSplit
    simp [start] at hSplit

theorem Kept.step (h : Kept session) {call : Call} (hApart : Apart session call) : Kept (session.step call) := by
  cases call with
  | list path =>
    rcases step_list session path with hStep | ⟨directory, page, hDirectory, hPage, hStep⟩
    · rw [hStep]
      exact ⟨h.remembers.append fun chain hSame => (by cases hSame), h.tells.append fits_failed⟩
    · rw [hStep]
      have hFits : Fits session.archive session.log
          (.listed ⟨session.log.length, directory, page.entries, page.cursor⟩) := fits_listed hPage
      have hTells := h.tells.append hFits
      by_cases hSome : page.cursor.isSome
      · obtain ⟨hOthers, hNewest⟩ := hApart directory page hDirectory hPage hSome
        rw [if_pos hSome]
        refine ⟨?_, hTells.remember directory⟩
        have hChain : (⟨session.log.length, directory, page.entries, page.cursor⟩ : Chain Icb).began = session.log.length :=
          rfl
        exact h.remembers.list hChain hSome hOthers hNewest
      · rw [if_neg hSome]
        refine ⟨h.remembers.append fun chain hSame => ?_, hTells⟩
        cases hSame
        exact Option.not_isSome_iff_eq_none.mp hSome
  | proceed earlier =>
    rw [Session.step]
    cases hRecord : (session.log[earlier]?).bind Record.chain? with
    | none => exact h
    | some chain =>
      dsimp only
      cases hCursor : chain.cursor with
      | none => exact h
      | some cursor =>
        obtain ⟨record, hPlace, hChain⟩ := Option.bind_eq_some_iff.mp hRecord
        obtain ⟨entries, hIn⟩ := h.tells.chains record (List.mem_of_getElem? hPlace) chain hChain
        refine ⟨h.remembers.append fun other hSame => ?_, h.tells.append (fits_continued h.remembers hCursor hIn)⟩
        rw [continued] at hSame
        split at hSame
        · cases hSame
        · split at hSame <;> cases hSame

theorem kept_run (h : Kept session) (calls : List Call)
    (hApart : Throughout (fun before call => Apart (session.run before) call) calls) : Kept (session.run calls) := by
  induction calls using List.reverseRecOn with
  | nil => exact h
  | append_singleton calls call ih =>
    obtain ⟨hBefore, hLast⟩ := throughout_append.mp hApart
    rw [run, List.foldl_append]
    exact (ih hBefore).step hLast

theorem Kept.bound (h : Kept session) : Bound session.archive session.log where
  own := by
    intro own chain hMem
    obtain ⟨entries, hIn⟩ := h.tells.chains _ hMem chain rfl
    obtain ⟨front, hFront⟩ := h.tells.own own chain hMem
    refine ⟨entries, hIn.read, fun entry hEntry => hIn.part.subset ?_⟩
    rw [hFront]
    exact List.mem_append_right front hEntry
  whole := by
    intro record hMem chain hChain hNone
    obtain ⟨entries, hIn⟩ := h.tells.chains record hMem chain hChain
    rw [hIn.whole hNone]
    exact hIn.read
  known := h.tells.known
  small := h.remembers.small
  keys := h.remembers.keys

end Session

end Invariant

def twoDirectories (first second : Nat × UInt32) : UdfVolume (Nat × UInt32) where
  logicalBlockNum := Prod.snd
  length := fun _ => 100
  rootDir := some [⟨[97], true, 0, first⟩, ⟨[98], true, 0, second⟩]
  readDirectory := fun icb =>
    if icb = first then some [⟨[1], false, 1, icb⟩, ⟨[2], false, 2, icb⟩]
    else some [⟨[3], false, 3, icb⟩, ⟨[4], false, 4, icb⟩]

def singleEntries : DirectoryLimits := ⟨64, 1, 4096, 64, 1000, 255, 4096, 64⟩

end OpenHalfLife.Udf
