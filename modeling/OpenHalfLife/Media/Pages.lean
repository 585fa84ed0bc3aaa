import OpenHalfLife.Iso.Archive
import OpenHalfLife.Lib.Machine
import OpenHalfLife.Lib.Paging
import OpenHalfLife.Udf.Archive

/-! # Directories page by page

Both readers read a directory again for each page and go on where a cursor
says. The pages of a chain are cut from one list of entries, each as long as
the limits allow.
-/

namespace OpenHalfLife.Media

set_option autoImplicit false

/-! ## A chain of pages -/

namespace DirectoryLimits

variable (limits : DirectoryLimits)

def pageBounds : Paging.Bounds := ⟨limits.maxPageEntries, limits.maxPageNameBytes⟩

/-- The greatest name is far below what a sum of bytes could hold. -/
structure Sane : Prop where
  pageEntries : 0 < limits.maxPageEntries
  pageCount : 0 < limits.maxPageCount
  small : limits.maxPageNameBytes + limits.maxEntryNameBytes < 2 ^ 64

variable {limits}

theorem sane_of_validate (h : limits.validate) : limits.Sane := by
  have hRanges := of_decide_eq_true h
  exact ⟨by omega, by omega, by omega⟩

end DirectoryLimits

def nameBytes (entry : DirectoryEntry) : Nat := entry.name.length

structure Place where
  nextIndex : Nat
  returnedEntries : Nat
  pagesEmitted : Nat

def DirectoryCursor.place (cursor : DirectoryCursor) : Place :=
  ⟨cursor.nextIndex, cursor.returnedEntries, cursor.pagesEmitted⟩

abbrev Pager := Place → Except SanitizedError DirectoryPage

inductive Chained (pager : Pager) : List (List DirectoryEntry) → Option Place → Prop
  | start {page : DirectoryPage} : pager ⟨0, 0, 0⟩ = .ok page → Chained pager [page.entries] (page.cursor.map DirectoryCursor.place)
  | next {pages : List (List DirectoryEntry)} {place : Place} {page : DirectoryPage} :
      Chained pager pages (some place) → pager place = .ok page →
      Chained pager (pages ++ [page.entries]) (page.cursor.map DirectoryCursor.place)

/-- What the pages of a chain are, of a directory with `entries`. -/
structure Paged (limits : DirectoryLimits) (entries : List DirectoryEntry) (pages : List (List DirectoryEntry))
    (place : Option Place) : Prop where
  front : pages.flatten <+: entries
  complete : place = none ↔ pages.flatten = entries
  counted : ∀ next, place = some next →
    next.nextIndex = pages.flatten.length ∧ next.returnedEntries = next.nextIndex ∧ next.pagesEmitted = pages.length
  few : pages.length ≤ limits.maxPageCount
  progress : entries ≠ [] → ∀ page ∈ pages, page ≠ []
  longest : ∀ before page after, pages = before ++ page :: after →
    Paging.Full limits.pageBounds nameBytes (entries.drop before.flatten.length) page.length

def pageAt (limits : DirectoryLimits) (entries : List DirectoryEntry) (place : Place) :
    Except SanitizedError (List DirectoryEntry × Option Place) :=
  let rest := entries.drop place.nextIndex
  let page := Paging.page limits.pageBounds nameBytes rest
  if limits.maxPageCount ≤ place.pagesEmitted ∨ page = [] ∧ rest ≠ [] then .error .invalidInput
  else
    let index := place.nextIndex + page.length
    .ok (page, if index < entries.length then
      some ⟨index, place.returnedEntries + page.length, place.pagesEmitted + 1⟩ else none)

/-- A reader whose pages are those of a directory with `entries`. -/
structure Pages (limits : DirectoryLimits) (entries : List DirectoryEntry) (pager : Pager) : Prop where
  few : entries.length ≤ limits.maxTotalEntries
  agrees : ∀ place, place.returnedEntries = place.nextIndex → place.nextIndex ≤ entries.length →
    (pager place).map (fun page => (page.entries, page.cursor.map DirectoryCursor.place)) = pageAt limits entries place

section Chain

variable {limits : DirectoryLimits} {entries : List DirectoryEntry} {pager : Pager}

theorem Pages.ok {page : DirectoryPage} {place : Place} (h : Pages limits entries pager)
    (hCounted : place.returnedEntries = place.nextIndex) (hInside : place.nextIndex ≤ entries.length)
    (hPage : pager place = .ok page) :
    page.entries = Paging.page limits.pageBounds nameBytes (entries.drop place.nextIndex) ∧
      place.pagesEmitted < limits.maxPageCount ∧
      (page.entries = [] → entries.drop place.nextIndex = []) ∧
      page.cursor.map DirectoryCursor.place = if place.nextIndex + page.entries.length < entries.length then
        some ⟨place.nextIndex + page.entries.length, place.nextIndex + page.entries.length, place.pagesEmitted + 1⟩
        else none := by
  have hAgrees := h.agrees place hCounted hInside
  rw [hPage, pageAt] at hAgrees
  dsimp only at hAgrees
  split at hAgrees
  · cases hAgrees
  · next hGood =>
    obtain ⟨hCount, hProgress⟩ := not_or.mp hGood
    obtain ⟨hEntries, hCursor⟩ := Prod.mk.inj (Except.ok.inj hAgrees)
    rw [← hEntries] at hCursor hProgress
    refine ⟨hEntries, Nat.lt_of_not_le hCount, fun hNil => ?_, by rw [hCursor, hCounted]⟩
    exact by_contra fun hRest => hProgress ⟨hNil, hRest⟩

theorem Pages.taken {page : DirectoryPage} {place : Place} (h : Pages limits entries pager)
    (hCounted : place.returnedEntries = place.nextIndex) (hInside : place.nextIndex ≤ entries.length)
    (hPage : pager place = .ok page) :
    page.entries.length = Paging.room limits.pageBounds nameBytes 0 0 (entries.drop place.nextIndex) ∧
      place.nextIndex + page.entries.length ≤ entries.length ∧
      page.entries ++ entries.drop (place.nextIndex + page.entries.length) = entries.drop place.nextIndex := by
  have hEntries := (h.ok hCounted hInside hPage).1
  have hRoom : Paging.room limits.pageBounds nameBytes 0 0 (entries.drop place.nextIndex) ≤ (entries.drop place.nextIndex).length :=
    Paging.room_le_length
  have hTaken : page.entries.length = Paging.room limits.pageBounds nameBytes 0 0 (entries.drop place.nextIndex) := by
    rw [hEntries, Paging.page, List.length_take, Nat.min_eq_left hRoom]
  rw [List.length_drop] at hRoom
  refine ⟨hTaken, by omega, ?_⟩
  rw [← List.drop_drop, hTaken, hEntries, Paging.page, List.take_append_drop]

theorem Pages.refused {error : SanitizedError} {place : Place} (h : Pages limits entries pager)
    (hCounted : place.returnedEntries = place.nextIndex) (hInside : place.nextIndex ≤ entries.length)
    (hPage : pager place = .error error) : limits.maxPageCount ≤ place.pagesEmitted ∨
      Paging.page limits.pageBounds nameBytes (entries.drop place.nextIndex) = [] ∧ entries.drop place.nextIndex ≠ [] := by
  have hAgrees := h.agrees place hCounted hInside
  rw [hPage, pageAt] at hAgrees
  dsimp only at hAgrees
  split at hAgrees
  · assumption
  · cases hAgrees

theorem flatten_concat_drop {pages : List (List DirectoryEntry)} {page : List DirectoryEntry}
    (hFront : pages.flatten <+: entries) (hPage : page <+: entries.drop pages.flatten.length) :
    (pages ++ [page]).flatten <+: entries := by
  obtain ⟨rest, hRest⟩ := hPage
  obtain ⟨tail, rfl⟩ := hFront
  rw [List.drop_left] at hRest
  exact ⟨rest, by simp [← hRest]⟩

theorem Paged.next {pages : List (List DirectoryEntry)} {place : Place} {page : DirectoryPage}
    (h : Pages limits entries pager) (hFront : pages.flatten <+: entries)
    (hNext : place.nextIndex = pages.flatten.length ∧ place.returnedEntries = place.nextIndex ∧
      place.pagesEmitted = pages.length)
    (hProgress : entries ≠ [] → ∀ page ∈ pages, page ≠ [])
    (hLeft : entries ≠ [] → pages.flatten ≠ entries)
    (hLongest : ∀ before page after, pages = before ++ page :: after →
      Paging.Full limits.pageBounds nameBytes (entries.drop before.flatten.length) page.length)
    (hPage : pager place = .ok page) :
    Paged limits entries (pages ++ [page.entries]) (page.cursor.map DirectoryCursor.place) := by
  obtain ⟨hIndex, hReturned, hEmitted⟩ := hNext
  have hInside : place.nextIndex ≤ entries.length := hIndex ▸ hFront.length_le
  obtain ⟨hEntries, hCount, hNil, hCursor⟩ := h.ok hReturned hInside hPage
  have hTaken : page.entries <+: entries.drop pages.flatten.length := by
    rw [hEntries, hIndex]
    exact List.take_prefix _ _
  have hWhole := flatten_concat_drop hFront hTaken
  have hLength : (pages ++ [page.entries]).flatten.length = place.nextIndex + page.entries.length := by
    rw [hIndex]
    simp
  rw [hCursor]
  refine ⟨hWhole, ?_, ?_, ?_, ?_, ?_⟩
  · rw [← hLength]
    constructor
    · intro hNone
      refine hWhole.eq_of_length (Nat.le_antisymm hWhole.length_le (Nat.le_of_not_lt fun hLess => ?_))
      rw [if_pos hLess] at hNone
      cases hNone
    · intro hSame
      rw [if_neg (by rw [hSame]; exact Nat.lt_irrefl _)]
  · intro next hSome
    rw [← hLength] at hSome
    split at hSome
    · obtain rfl := Option.some.inj hSome
      exact ⟨rfl, rfl, by simp [hEmitted]⟩
    · cases hSome
  · rw [List.length_append, List.length_singleton]
    omega
  · intro hSome other hOther
    rcases List.mem_append.mp hOther with hOld | hNew
    · exact hProgress hSome other hOld
    · obtain rfl := List.mem_singleton.mp hNew
      intro hEmpty
      have hDone := hNil hEmpty
      rw [hIndex, List.drop_eq_nil_iff] at hDone
      exact hLeft hSome (hFront.eq_of_length (Nat.le_antisymm hFront.length_le hDone))
  · intro before other after hSplit
    rcases List.eq_nil_or_concat after with rfl | ⟨front, last, rfl⟩
    · obtain ⟨rfl, hSame⟩ := List.append_inj' hSplit rfl
      obtain rfl := (List.cons.inj hSame).1
      rw [hEntries, hIndex, Paging.page, List.length_take, Nat.min_eq_left Paging.room_le_length]
      exact Paging.full_room
    · rw [List.concat_eq_append, ← List.cons_append, ← List.append_assoc] at hSplit
      exact hLongest before other front (List.append_inj' hSplit rfl).1

theorem paged_of_chained (h : Pages limits entries pager) {pages : List (List DirectoryEntry)} {place : Option Place}
    (hChain : Chained pager pages place) : Paged limits entries pages place := by
  induction hChain with
  | start hPage =>
    have hNone : ([] : List (List DirectoryEntry)).flatten <+: entries := List.nil_prefix
    exact Paged.next h hNone ⟨rfl, rfl, rfl⟩ (fun _ page hMem => absurd hMem List.not_mem_nil)
      (fun hSome hNil => hSome hNil.symm) (fun before page after hSplit => by simp at hSplit) hPage
  | next _ hPage ih =>
    refine Paged.next h ih.front (ih.counted _ rfl) ih.progress (fun _ hDone => ?_) ih.longest hPage
    exact absurd (ih.complete.mpr hDone) (Option.some_ne_none _)

end Chain

/-! ## The pages of the two readers -/

section Filling

variable {limits : DirectoryLimits} {already : Nat} {rest page : List DirectoryEntry} {sum : Nat}

theorem fillPage_of_ne_nil (hSome : page ≠ []) (hFew : already + page.length + rest.length ≤ limits.maxTotalEntries)
    (hNames : ∀ entry ∈ rest, nameBytes entry ≤ limits.maxEntryNameBytes) (hSum : sum ≤ limits.maxPageNameBytes)
    (hSane : limits.Sane) : Udf.UdfArchive.fillPage limits already rest page sum =
      .ok (page ++ rest.take (Paging.room limits.pageBounds nameBytes page.length sum rest)) := by
  induction rest generalizing page sum with
  | nil => simp [Udf.UdfArchive.fillPage]
  | cons entry rest ih =>
    have hName := hNames entry List.mem_cons_self
    have hSmall := hSane.small
    have hNotEmpty : page.isEmpty = false := by simpa using hSome
    unfold nameBytes at hName
    rw [List.length_cons] at hFew
    rw [Udf.UdfArchive.fillPage, Paging.room]
    unfold DirectoryLimits.pageBounds nameBytes
    dsimp only
    by_cases hFull : limits.maxPageEntries ≤ page.length
    · rw [if_pos hFull, if_pos (.inl hFull), List.take_zero, List.append_nil]
    · rw [if_neg hFull, if_neg (by omega)]
      by_cases hHeavy : limits.maxPageNameBytes < sum + entry.name.length
      · rw [if_pos hHeavy, hNotEmpty, if_neg Bool.false_ne_true, if_pos (.inr hHeavy), List.take_zero, List.append_nil]
      · rw [if_neg hHeavy, if_neg (by omega), if_neg (by omega)]
        have hMore : already + (page ++ [entry]).length + rest.length ≤ limits.maxTotalEntries := by
          rw [List.length_append, List.length_singleton]
          omega
        have hNext := ih (List.append_ne_nil_of_right_ne_nil page (List.cons_ne_nil entry [])) hMore
          (fun other hOther => hNames other (List.mem_cons_of_mem _ hOther)) (Nat.le_of_not_lt hHeavy)
        rw [hNext, List.length_append, List.length_singleton, List.take_succ_cons, List.append_assoc, List.singleton_append]
        rfl

theorem fillPage_nil (hFew : already + rest.length ≤ limits.maxTotalEntries)
    (hNames : ∀ entry ∈ rest, nameBytes entry ≤ limits.maxEntryNameBytes) (hSane : limits.Sane) :
    Udf.UdfArchive.fillPage limits already rest [] 0 =
      if Paging.page limits.pageBounds nameBytes rest = [] ∧ rest ≠ [] then .error .invalidInput
      else .ok (Paging.page limits.pageBounds nameBytes rest) := by
  cases rest with
  | nil => rfl
  | cons entry rest =>
    have hName := hNames entry List.mem_cons_self
    have hSmall := hSane.small
    have hItems := hSane.pageEntries
    unfold nameBytes at hName
    rw [List.length_cons] at hFew
    have hFirst : Paging.page limits.pageBounds nameBytes (entry :: rest) =
        if limits.maxPageNameBytes < entry.name.length then []
        else entry :: rest.take (Paging.room limits.pageBounds nameBytes 1 entry.name.length rest) := by
      rw [Paging.page, Paging.room]
      unfold DirectoryLimits.pageBounds nameBytes
      dsimp only
      rw [Nat.zero_add]
      by_cases hHeavy : limits.maxPageNameBytes < entry.name.length
      · rw [if_pos hHeavy, if_pos (.inr hHeavy), List.take_zero]
      · rw [if_neg hHeavy, if_neg (by omega), List.take_succ_cons]
    rw [hFirst, Udf.UdfArchive.fillPage]
    dsimp only
    rw [List.length_nil, if_neg (by omega), Nat.zero_add, if_neg (by omega)]
    by_cases hHeavy : limits.maxPageNameBytes < entry.name.length
    · rw [if_pos hHeavy, if_pos hHeavy, if_pos (show ([] : List DirectoryEntry).isEmpty = true from rfl),
        if_pos ⟨rfl, List.cons_ne_nil _ _⟩]
    · rw [if_neg hHeavy, if_neg hHeavy, if_neg (by omega), if_neg (by simp)]
      exact fillPage_of_ne_nil (List.cons_ne_nil _ _) (by simp; omega)
        (fun other hOther => hNames other (List.mem_cons_of_mem _ hOther)) (Nat.le_of_not_lt hHeavy) hSane

end Filling

theorem pages_of_fill {limits : DirectoryLimits} {entries : List DirectoryEntry} {pager : Pager}
    (hFew : entries.length ≤ limits.maxTotalEntries) (hNames : ∀ entry ∈ entries, nameBytes entry ≤ limits.maxEntryNameBytes)
    (hSane : limits.Sane)
    (hPager : ∀ place, (pager place).map (fun page => (page.entries, page.cursor.map DirectoryCursor.place)) =
      if limits.maxPageCount ≤ place.pagesEmitted then .error .invalidInput
      else (Udf.UdfArchive.fillPage limits place.returnedEntries (entries.drop place.nextIndex) [] 0).map fun page =>
        (page, if place.nextIndex + page.length < entries.length then
          some ⟨place.nextIndex + page.length, place.returnedEntries + page.length, place.pagesEmitted + 1⟩ else none)) :
    Pages limits entries pager where
  few := hFew
  agrees place hCounted hInside := by
    have hRest : place.returnedEntries + (entries.drop place.nextIndex).length ≤ limits.maxTotalEntries := by
      rw [hCounted, List.length_drop]
      omega
    rw [hPager, fillPage_nil hRest (fun entry hEntry => hNames entry (List.mem_of_mem_drop hEntry)) hSane, pageAt]
    dsimp only
    by_cases hSpent : limits.maxPageCount ≤ place.pagesEmitted
    · rw [if_pos hSpent, if_pos (.inl hSpent)]
    · rw [if_neg hSpent]
      by_cases hStuck : Paging.page limits.pageBounds nameBytes (entries.drop place.nextIndex) = [] ∧
          entries.drop place.nextIndex ≠ []
      · rw [if_pos hStuck, if_pos (.inr hStuck)]
        rfl
      · rw [if_neg hStuck, if_neg (not_or.mpr ⟨hSpent, hStuck⟩)]
        rfl

namespace Iso9660

variable {archive : Iso.Iso9660Archive} {records : List Iso.DirRecord} {entries : List DirectoryEntry}

def Listed (archive : Iso.Iso9660Archive) (record : Iso.DirRecord) (entry : DirectoryEntry) : Prop :=
  ∃ name, archive.decodeName record = .ok name ∧ entry = Iso.Iso9660Archive.entryOf record name

theorem fillPage_eq (h : List.Forall₂ (Listed archive) records entries) (already : Nat) (page : List DirectoryEntry) (sum : Nat) :
    archive.fillPage already records page sum = Udf.UdfArchive.fillPage archive.limits already entries page sum := by
  induction h generalizing page sum with
  | nil => rfl
  | cons hHead _ ih =>
    obtain ⟨name, hName, rfl⟩ := hHead
    rw [Iso.Iso9660Archive.fillPage, hName, Result.ok_bind, Udf.UdfArchive.fillPage]
    unfold Iso.Iso9660Archive.entryOf
    dsimp only
    split
    · rfl
    · split
      · rfl
      · split
        · rfl
        · split
          · rfl
          · exact ih _ _

theorem length_le_of_listed {record : Iso.DirRecord} {entry : DirectoryEntry} (h : Listed archive record entry) :
    nameBytes entry ≤ archive.limits.maxEntryNameBytes ∧ isSinglePathComponent entry.name := by
  obtain ⟨name, hName, rfl⟩ := h
  unfold Iso.Iso9660Archive.decodeName at hName
  obtain ⟨decoded, -, hStripped⟩ := Result.bind_eq_ok.mp hName
  obtain ⟨hGood, hSame⟩ := Result.ite_error_eq_ok.mp hStripped
  obtain rfl := Except.ok.inj hSame
  obtain ⟨hShort, hSingle⟩ := not_or.mp hGood
  exact ⟨Nat.le_of_not_lt hShort, not_not.mp hSingle⟩

theorem forall_listed (h : List.Forall₂ (Listed archive) records entries) :
    ∀ entry ∈ entries, nameBytes entry ≤ archive.limits.maxEntryNameBytes ∧ isSinglePathComponent entry.name := by
  induction h with
  | nil => exact fun entry hNone => absurd hNone List.not_mem_nil
  | cons hHead _ ih => exact List.forall_mem_cons.mpr ⟨length_le_of_listed hHead, ih⟩

theorem takeRecords_length {raw taken : List Iso.DirRecord} (h : archive.takeRecords raw taken = .ok records)
    (hTaken : taken.length ≤ archive.limits.maxTotalEntries) : records.length ≤ archive.limits.maxTotalEntries := by
  induction raw generalizing taken with
  | nil =>
    obtain rfl := Except.ok.inj h
    exact hTaken
  | cons record raw ih =>
    rw [Iso.Iso9660Archive.takeRecords] at h
    split at h
    · exact ih h hTaken
    · obtain ⟨-, -, h⟩ := Result.bind_eq_ok.mp h
      obtain ⟨hRoom, h⟩ := Result.ite_error_eq_ok.mp h
      refine ih h ?_
      rw [List.length_append, List.length_singleton]
      omega

structure Directory (archive : Iso.Iso9660Archive) (directory : Iso.DirectoryRef) (records : List Iso.DirRecord)
    (entries : List DirectoryEntry) : Prop where
  read : archive.readEntries directory = .ok records
  listed : List.Forall₂ (Listed archive) records entries

theorem Directory.length_le {directory : Iso.DirectoryRef} (h : Directory archive directory records entries) :
    records.length ≤ archive.limits.maxTotalEntries := by
  have hRead := h.read
  unfold Iso.Iso9660Archive.readEntries at hRead
  obtain ⟨-, -, hRead⟩ := Result.bind_eq_ok.mp hRead
  split at hRead
  · cases hRead
  · exact takeRecords_length hRead (Nat.zero_le _)

def pager (archive : Iso.Iso9660Archive) (directory : Iso.DirectoryRef) : Pager := fun place =>
  archive.pageFrom directory place.nextIndex place.returnedEntries place.pagesEmitted

theorem pages {directory : Iso.DirectoryRef} (h : Directory archive directory records entries)
    (hValid : archive.limits.validate) : Pages archive.limits entries (pager archive directory) := by
  have hLength := h.listed.length_eq
  refine pages_of_fill (hLength ▸ h.length_le) (fun entry hEntry => ?_) (DirectoryLimits.sane_of_validate hValid) fun place => ?_
  · exact (forall_listed h.listed entry hEntry).1
  · rw [pager, Iso.Iso9660Archive.pageFrom]
    split
    · rfl
    · rw [h.read, Result.ok_bind, fillPage_eq (List.forall₂_drop _ h.listed), hLength]
      cases Udf.UdfArchive.fillPage archive.limits place.returnedEntries (entries.drop place.nextIndex) [] 0 with
      | error error => rfl
      | ok page =>
        simp only [Result.ok_bind, Except.map]
        split <;> rfl

/-! ### Whole listings -/

theorem cursor_of_pageFrom {directory : Iso.DirectoryRef} {start already emitted : Nat} {page : DirectoryPage}
    {cursor : DirectoryCursor} (h : archive.pageFrom directory start already emitted = .ok page)
    (hCursor : page.cursor = some cursor) :
    archive.continueList cursor = pager archive directory cursor.place := by
  unfold Iso.Iso9660Archive.pageFrom at h
  obtain ⟨-, h⟩ := Result.ite_error_eq_ok.mp h
  obtain ⟨read, -, h⟩ := Result.bind_eq_ok.mp h
  obtain ⟨taken, -, h⟩ := Result.bind_eq_ok.mp h
  obtain rfl := Except.ok.inj h
  dsimp only at hCursor
  split at hCursor
  · obtain rfl := Option.some.inj hCursor
    rw [Iso.Iso9660Archive.continueList, if_neg (not_not.mpr rfl)]
    rfl
  · cases hCursor

/-- What is still listed behind an index, on pages after the first `emitted`. -/
structure Completes (limits : DirectoryLimits) (rest : List DirectoryEntry) (emitted : Nat) : Prop where
  light : ∀ entry ∈ rest, nameBytes entry ≤ limits.maxPageNameBytes
  few : emitted + (Paging.cut limits.pageBounds nameBytes rest).length ≤ limits.maxPageCount

theorem completes_nil {limits : DirectoryLimits} {emitted : Nat} :
    Completes limits [] emitted ↔ emitted ≤ limits.maxPageCount :=
  ⟨fun h => h.few, fun h => ⟨fun _ hNone => absurd hNone List.not_mem_nil, h⟩⟩

theorem completes_next {limits : DirectoryLimits} {rest : List DirectoryEntry} {emitted : Nat}
    (hItems : 0 < limits.maxPageEntries) (hSome : rest ≠ []) :
    Completes limits rest emitted ↔ Paging.page limits.pageBounds nameBytes rest ≠ [] ∧
      Completes limits (rest.drop (Paging.room limits.pageBounds nameBytes 0 0 rest)) (emitted + 1) := by
  constructor
  · rintro ⟨hLight, hFew⟩
    have hCut : Paging.cut limits.pageBounds nameBytes rest = _ := Paging.cut_of_ne_nil hItems hLight hSome
    have hMem : Paging.page limits.pageBounds nameBytes rest ∈ Paging.cut limits.pageBounds nameBytes rest := by
      rw [hCut]
      exact List.mem_cons_self
    refine ⟨Paging.ne_nil_of_mem_cut hItems hLight hMem, ?_, ?_⟩
    · exact fun entry hEntry => hLight entry (List.mem_of_mem_drop hEntry)
    · rw [hCut, List.length_cons] at hFew
      omega
  · rintro ⟨-, hLight, hFew⟩
    have hAll : ∀ entry ∈ rest, nameBytes entry ≤ limits.maxPageNameBytes := by
      intro entry hEntry
      rw [← List.take_append_drop (Paging.room limits.pageBounds nameBytes 0 0 rest) rest, List.mem_append] at hEntry
      rcases hEntry with hFront | hRest
      · have hLightPage : nameBytes entry ≤ limits.pageBounds.maxWeight := Paging.light_of_mem_page hFront
        exact hLightPage
      · exact hLight entry hRest
    refine ⟨hAll, ?_⟩
    have hCut : Paging.cut limits.pageBounds nameBytes rest = _ := Paging.cut_of_ne_nil hItems hAll hSome
    rw [hCut, List.length_cons]
    omega

theorem place_cases {cursor : Option DirectoryCursor} {index total : Nat} {place : Place}
    (h : cursor.map DirectoryCursor.place = if index < total then some place else none) :
    (cursor = none ∧ total ≤ index) ∨ ∃ found, cursor = some found ∧ index < total ∧ found.place = place := by
  cases cursor with
  | none =>
    refine .inl ⟨rfl, Nat.le_of_not_lt fun hMore => ?_⟩
    rw [if_pos hMore] at h
    cases h
  | some found =>
    split at h
    · next hMore => exact .inr ⟨found, rfl, hMore, Option.some.inj h⟩
    · cases h

theorem drop_ne_nil {index : Nat} (h : index < entries.length) : entries.drop index ≠ [] := by
  rw [ne_eq, List.drop_eq_nil_iff]
  omega

theorem last_page {emitted : Nat} (out page : List DirectoryEntry) {index : Nat} (hDone : entries.length ≤ index)
    (hEmitted : emitted ≤ archive.limits.maxPageCount) :
    (Except.ok page : Except SanitizedError (List DirectoryEntry)) = .ok out ↔
      out = page ++ entries.drop index ∧ Completes archive.limits (entries.drop index) emitted := by
  rw [List.drop_eq_nil_of_le hDone, List.append_nil, completes_nil, and_iff_left hEmitted, Except.ok.injEq, eq_comm]

theorem continueAll_eq_ok {directory : Iso.DirectoryRef} (h : Pages archive.limits entries (pager archive directory))
    (hItems : 0 < archive.limits.maxPageEntries) {turns start already emitted : Nat} {page : DirectoryPage}
    (hPage : archive.pageFrom directory start already emitted = .ok page) {index count : Nat} (hIndex : index ≤ entries.length)
    (hCursor : page.cursor.map DirectoryCursor.place = if index < entries.length then some ⟨index, index, count⟩ else none)
    (hCount : count ≤ archive.limits.maxPageCount) (hTurns : archive.limits.maxPageCount ≤ count + turns)
    (out : List DirectoryEntry) : archive.continueAll turns page = .ok out ↔
      out = page.entries ++ entries.drop index ∧ Completes archive.limits (entries.drop index) count := by
  induction turns generalizing start already emitted page index count out with
  | zero =>
    rcases place_cases hCursor with ⟨hNext, hDone⟩ | ⟨cursor, hNext, hMore, -⟩
    · rw [Iso.Iso9660Archive.continueAll, hNext]
      exact last_page out page.entries hDone hCount
    · rw [Iso.Iso9660Archive.continueAll, hNext, completes_next hItems (drop_ne_nil hMore)]
      refine iff_of_false (fun hOk => by cases hOk) ?_
      rintro ⟨-, -, hCompletes⟩
      have hFew := hCompletes.few
      omega
  | succ turns ih =>
    rcases place_cases hCursor with ⟨hNext, hDone⟩ | ⟨cursor, hNext, hMore, hPlace⟩
    · rw [Iso.Iso9660Archive.continueAll, hNext]
      exact last_page out page.entries hDone hCount
    · rw [Iso.Iso9660Archive.continueAll, hNext, completes_next hItems (drop_ne_nil hMore)]
      dsimp only
      rw [cursor_of_pageFrom hPage hNext, hPlace]
      cases hLater : pager archive directory ⟨index, index, count⟩ with
      | error error =>
        refine iff_of_false (fun hOk => by cases hOk) ?_
        rintro ⟨-, hProgress, hCompletes⟩
        rcases h.refused rfl hIndex hLater with hSpent | ⟨hStuck, -⟩
        · have hFew := hCompletes.few
          dsimp only at hSpent
          omega
        · exact hProgress hStuck
      | ok later =>
        obtain ⟨hEntries, hLess, hProgress, hLaterCursor⟩ := h.ok rfl hIndex hLater
        obtain ⟨hTaken, hInside, hSplit⟩ := h.taken rfl hIndex hLater
        dsimp only at hTaken hInside hSplit
        have hRest := ih hLater hInside hLaterCursor (Nat.succ_le_of_lt hLess) (by dsimp only; omega)
        rw [Result.ok_bind, Result.bind_eq_ok, ← hTaken, List.drop_drop]
        constructor
        · rintro ⟨tail, hTail, hOut⟩
          obtain ⟨rfl, hCompletes⟩ := (hRest tail).mp hTail
          obtain rfl := Except.ok.inj hOut
          rw [hSplit]
          exact ⟨rfl, fun hNil => drop_ne_nil hMore (hProgress (hEntries.trans hNil)), hCompletes⟩
        · rintro ⟨rfl, -, hCompletes⟩
          exact ⟨entries.drop index, (hRest _).mpr ⟨hSplit.symm, hCompletes⟩, rfl⟩

/-- A listing gives every entry of the directory, or an error if a name is too long for a page or the pages are too
many. -/
theorem list_eq_ok (hValid : archive.limits.validate) {path : Text} {directory : Iso.DirectoryRef}
    (hAt : archive.directoryAt path = .ok directory) (hDirectory : Directory archive directory records entries)
    (out : List DirectoryEntry) : archive.list path = .ok out ↔
      out = entries ∧ (∀ entry ∈ entries, entry.name.length ≤ archive.limits.maxPageNameBytes) ∧
        (Paging.cut archive.limits.pageBounds nameBytes entries).length ≤ archive.limits.maxPageCount := by
  have hPages := pages hDirectory hValid
  have hSane := DirectoryLimits.sane_of_validate hValid
  have hWhole : Completes archive.limits entries 0 ↔
      (∀ entry ∈ entries, entry.name.length ≤ archive.limits.maxPageNameBytes) ∧
        (Paging.cut archive.limits.pageBounds nameBytes entries).length ≤ archive.limits.maxPageCount :=
    ⟨fun h => ⟨h.light, by simpa using h.few⟩, fun h => ⟨h.1, by simpa using h.2⟩⟩
  rw [← hWhole, Iso.Iso9660Archive.list, Iso.Iso9660Archive.listPage, hAt, Result.ok_bind]
  change (pager archive directory ⟨0, 0, 0⟩ >>= _) = _ ↔ _
  cases hFirst : pager archive directory ⟨0, 0, 0⟩ with
  | error error =>
    refine iff_of_false (fun hOk => by cases hOk) ?_
    rintro ⟨-, hCompletes⟩
    rcases hPages.refused rfl (Nat.zero_le _) hFirst with hSpent | ⟨hStuck, hSome⟩
    · exact absurd hSpent (Nat.not_le.mpr hSane.pageCount)
    · exact ((completes_next hSane.pageEntries hSome).mp hCompletes).1 hStuck
  | ok page =>
    obtain ⟨hEntries, hLess, hProgress, hCursor⟩ := hPages.ok rfl (Nat.zero_le _) hFirst
    obtain ⟨hTaken, hInside, -⟩ := hPages.taken rfl (Nat.zero_le _) hFirst
    rw [List.drop_zero] at hEntries hTaken
    rw [Result.ok_bind, continueAll_eq_ok hPages hSane.pageEntries hFirst hInside hCursor hLess (by dsimp only; omega),
      Nat.zero_add, hTaken, hEntries, Paging.page, List.take_append_drop]
    refine and_congr_right fun _ => ?_
    by_cases hSome : entries = []
    · subst hSome
      rw [List.drop_nil, completes_nil, completes_nil]
      exact ⟨fun _ => Nat.zero_le _, fun _ => hLess⟩
    · rw [completes_next hSane.pageEntries hSome]
      exact ⟨fun h => ⟨fun hNil => hSome (by simpa using hProgress (hEntries.trans hNil)), h⟩, fun h => h.2⟩

end Iso9660

namespace Ecma167

variable {Icb : Type} {archive : Udf.UdfArchive Icb} {entries : List DirectoryEntry}

theorem takeEntries_bounds {limits : DirectoryLimits} {raw : List (Udf.UdfEntry Icb)} {taken : List DirectoryEntry}
    (h : Udf.UdfArchive.takeEntries limits raw taken = .ok entries) (hTaken : taken.length ≤ limits.maxTotalEntries)
    (hNames : ∀ entry ∈ taken, nameBytes entry ≤ limits.maxEntryNameBytes) :
    entries.length ≤ limits.maxTotalEntries ∧ ∀ entry ∈ entries, nameBytes entry ≤ limits.maxEntryNameBytes := by
  induction raw generalizing taken with
  | nil =>
    obtain rfl := Except.ok.inj h
    exact ⟨hTaken, hNames⟩
  | cons entry raw ih =>
    rw [Udf.UdfArchive.takeEntries] at h
    obtain ⟨hGood, h⟩ := Result.ite_error_eq_ok.mp h
    obtain ⟨hRoom, h⟩ := Result.ite_error_eq_ok.mp h
    refine ih h ?_ fun other hOther => ?_
    · rw [List.length_append, List.length_singleton]
      omega
    · rcases List.mem_append.mp hOther with hOld | hNew
      · exact hNames other hOld
      · rw [List.mem_singleton.mp hNew]
        exact Nat.le_of_not_lt (not_or.mp hGood).1

def pager (archive : Udf.UdfArchive Icb) (directory : Udf.DirRef Icb) : Pager := fun place =>
  archive.pageFrom directory place.nextIndex place.returnedEntries place.pagesEmitted

theorem pages {directory : Udf.DirRef Icb} (hRead : archive.readEntries directory = .ok entries)
    (hValid : archive.limits.validate) : Pages archive.limits entries (pager archive directory) := by
  have hBounds : entries.length ≤ archive.limits.maxTotalEntries ∧
      ∀ entry ∈ entries, nameBytes entry ≤ archive.limits.maxEntryNameBytes := by
    have hTake := hRead
    unfold Udf.UdfArchive.readEntries at hTake
    obtain ⟨-, hTake⟩ := Result.ite_error_eq_ok.mp hTake
    obtain ⟨raw, -, hTake⟩ := Result.bind_eq_ok.mp hTake
    exact takeEntries_bounds hTake (Nat.zero_le _) fun entry hNone => absurd hNone List.not_mem_nil
  refine pages_of_fill hBounds.1 hBounds.2 (DirectoryLimits.sane_of_validate hValid) fun place => ?_
  rw [pager, Udf.UdfArchive.pageFrom]
  split
  · rfl
  · rw [hRead, Result.ok_bind]
    cases Udf.UdfArchive.fillPage archive.limits place.returnedEntries (entries.drop place.nextIndex) [] 0 with
    | error error => rfl
    | ok page =>
      simp only [Result.ok_bind, Except.map]
      split <;> rfl

end Ecma167

/-- The pages of both readers: what a chain has given, and where it goes on. -/
theorem chains_paged {Icb : Type} :
    (∀ (archive : Iso.Iso9660Archive) (directory : Iso.DirectoryRef) (records : List Iso.DirRecord)
      (entries : List DirectoryEntry) (pages : List (List DirectoryEntry)) (place : Option Place),
      archive.limits.validate → Iso9660.Directory archive directory records entries →
      Chained (Iso9660.pager archive directory) pages place → Paged archive.limits entries pages place) ∧
    ∀ (archive : Udf.UdfArchive Icb) (directory : Udf.DirRef Icb) (entries : List DirectoryEntry)
      (pages : List (List DirectoryEntry)) (place : Option Place),
      archive.limits.validate → archive.readEntries directory = .ok entries →
      Chained (Ecma167.pager archive directory) pages place → Paged archive.limits entries pages place := by
  constructor
  · intro archive directory records entries pages place hValid hDirectory hChain
    exact paged_of_chained (Iso9660.pages hDirectory hValid) hChain
  · intro archive directory entries pages place hValid hRead hChain
    exact paged_of_chained (Ecma167.pages hRead hValid) hChain

/-! ### Two files, one on a page -/

def onePerPage : DirectoryLimits := ⟨64, 1, 4096, 64, 1000, 255, 4096, 64⟩

def letterRecord (letter : UInt8) : Iso.DirRecord := ⟨[letter], 34, false, false, false, 0, 0, 0, 0, 1, 20, 7⟩

def twoFiles : Iso.Iso9660Archive :=
  ⟨⟨fun _ => some [letterRecord 0x61, letterRecord 0x62], fun _ => none, fun _ _ => none⟩, 100, false, onePerPage, 1,
    ⟨18, 2048⟩⟩

theorem twoFiles_directory : Iso9660.Directory twoFiles ⟨18, 2048⟩ [letterRecord 0x61, letterRecord 0x62]
    [⟨[0x61], .file, 7⟩, ⟨[0x62], .file, 7⟩] :=
  ⟨rfl, .cons ⟨[0x61], rfl, rfl⟩ (.cons ⟨[0x62], rfl, rfl⟩ .nil)⟩

theorem twoFiles_chained : Chained (Iso9660.pager twoFiles ⟨18, 2048⟩)
    [[⟨[0x61], .file, 7⟩], [⟨[0x62], .file, 7⟩]] none := by
  have hFirst : Iso9660.pager twoFiles ⟨18, 2048⟩ ⟨0, 0, 0⟩ =
      .ok ⟨[⟨[0x61], .file, 7⟩], some ⟨1, 18, 2048, 1, 1, 1⟩⟩ := rfl
  have hSecond : Iso9660.pager twoFiles ⟨18, 2048⟩ ⟨1, 1, 1⟩ = .ok ⟨[⟨[0x62], .file, 7⟩], none⟩ := rfl
  exact .next (.start hFirst) hSecond

theorem twoFiles_paged : Paged onePerPage [⟨[0x61], .file, 7⟩, ⟨[0x62], .file, 7⟩]
    [[⟨[0x61], .file, 7⟩], [⟨[0x62], .file, 7⟩]] none :=
  (@chains_paged Nat).1 twoFiles ⟨18, 2048⟩ _ _ _ _ rfl twoFiles_directory twoFiles_chained

theorem twoFiles_listed : twoFiles.list [0x2f] = .ok [⟨[0x61], .file, 7⟩, ⟨[0x62], .file, 7⟩] :=
  (Iso9660.list_eq_ok (by rfl) (by rfl) twoFiles_directory _).mpr ⟨rfl, by decide, by decide⟩

end OpenHalfLife.Media
