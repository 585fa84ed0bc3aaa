import Mathlib.Data.List.Basic
import Mathlib.Data.List.Nodup
import Mathlib.Data.List.Perm.Subperm
import Mathlib.Logic.Function.Iterate
import Mathlib.Logic.Function.Basic
import Mathlib.Data.Finset.Card
import Mathlib.Data.List.Sort

/-! # The first value that is free

A search that starts somewhere and goes on until it finds a value that is not
taken. It ends if it would meet more values than are taken.
-/

namespace OpenHalfLife

set_option autoImplicit false

variable {α : Type*} [DecidableEq α] {next : α → α} {taken : List α} {fuel : Nat} {start found : α}

def firstFree (next : α → α) (taken : List α) : Nat → α → Option α
  | 0, _ => none
  | fuel + 1, start => if start ∈ taken then firstFree next taken fuel (next start) else some start

theorem firstFree_notMem (h : firstFree next taken fuel start = some found) : found ∉ taken := by
  induction fuel generalizing start with
  | zero => cases h
  | succ fuel ih =>
    rw [firstFree] at h
    split at h <;> rename_i hStart
    · exact ih h
    · obtain rfl := Option.some.inj h
      exact hStart

theorem iterate_mem_of_firstFree (h : firstFree next taken fuel start = none) {steps : Nat} (hSteps : steps < fuel) :
    next^[steps] start ∈ taken := by
  induction fuel generalizing start steps with
  | zero => exact absurd hSteps (Nat.not_lt_zero steps)
  | succ fuel ih =>
    rw [firstFree] at h
    split at h <;> rename_i hStart
    · cases steps with
      | zero => exact hStart
      | succ steps =>
        rw [Function.iterate_succ_apply]
        exact ih h (Nat.lt_of_succ_lt_succ hSteps)
    · cases h

theorem exists_firstFree (hLess : taken.length < fuel)
    (hDistinct : ∀ i < fuel, ∀ j < fuel, next^[i] start = next^[j] start → i = j) :
    ∃ found, firstFree next taken fuel start = some found := by
  cases h : firstFree next taken fuel start with
  | some found => exact ⟨found, rfl⟩
  | none =>
    have hNodup : ((List.range fuel).map fun steps => next^[steps] start).Nodup := by
      refine List.nodup_range.map_on fun i hI j hJ hSame => ?_
      exact hDistinct i (List.mem_range.mp hI) j (List.mem_range.mp hJ) hSame
    have hSub : ((List.range fuel).map fun steps => next^[steps] start) ⊆ taken := by
      intro value hValue
      obtain ⟨steps, hSteps, rfl⟩ := List.mem_map.mp hValue
      exact iterate_mem_of_firstFree h (List.mem_range.mp hSteps)
    have hLength := (hNodup.subperm hSub).length_le
    rw [List.length_map, List.length_range] at hLength
    exact absurd hLess (Nat.not_lt.mpr hLength)

end OpenHalfLife

namespace OpenHalfLife

set_option autoImplicit false

/-! ## The first place that answers

A search over a range of places, and how the searches of two adjoining ranges
compose.
-/

universe u

variable {κ : Type u} {hit : Nat → Option κ}

/-- The first place of `[low, high)` where `hit` answers, if there is one. -/
def FirstHit (hit : Nat → Option κ) (low high : Nat) : Option (Nat × κ) → Prop
  | some (place, kind) => low ≤ place ∧ place < high ∧ hit place = some kind ∧
      ∀ other, low ≤ other → other < place → hit other = none
  | none => ∀ other, low ≤ other → other < high → hit other = none

namespace FirstHit

theorem widen {low mid high : Nat} {found : Nat × κ} (h : FirstHit hit low mid (some found))
    (hLe : mid ≤ high) : FirstHit hit low high (some found) := by
  obtain ⟨hLow, hHigh, hHit, hBefore⟩ := h
  exact ⟨hLow, by omega, hHit, hBefore⟩

theorem after {low mid high : Nat} {found : Option (Nat × κ)} (hFront : FirstHit hit low mid none)
    (hRest : FirstHit hit mid high found) (hLe : low ≤ mid) : FirstHit hit low high found := by
  cases found with
  | none =>
    intro other hLow hHigh
    rcases Nat.lt_or_ge other mid with hOther | hOther
    · exact hFront other hLow hOther
    · exact hRest other hOther hHigh
  | some found =>
    obtain ⟨hLow, hHigh, hHit, hBefore⟩ := hRest
    refine ⟨by omega, hHigh, hHit, fun other hOther hLt => ?_⟩
    rcases Nat.lt_or_ge other mid with hMid | hMid
    · exact hFront other hOther hMid
    · exact hBefore other hMid hLt

/-- A search that counts from `base`. -/
theorem shift {base low high : Nat} {found : Option (Nat × κ)}
    (h : FirstHit (fun place => hit (base + place)) low high found) :
    FirstHit hit (base + low) (base + high) (found.map fun found => (base + found.1, found.2)) := by
  cases found with
  | none =>
    intro other hLow hHigh
    have hOther : hit (base + (other - base)) = none := h (other - base) (by omega) (by omega)
    rwa [show base + (other - base) = other by omega] at hOther
  | some found =>
    obtain ⟨hLow, hHigh, hHit, hBefore⟩ := h
    refine ⟨by omega, by omega, hHit, fun other hOther hLt => ?_⟩
    have hNone : hit (base + (other - base)) = none := hBefore (other - base) (by omega) (by omega)
    rwa [show base + (other - base) = other by omega] at hNone

theorem congr {other : Nat → Option κ} {low high : Nat} {found : Option (Nat × κ)}
    (h : FirstHit hit low high found) (hEq : ∀ place < high, hit place = other place) :
    FirstHit other low high found := by
  cases found with
  | none =>
    intro place hLow hHigh
    rw [← hEq place hHigh]
    exact h place hLow hHigh
  | some found =>
    obtain ⟨hLow, hHigh, hHit, hBefore⟩ := h
    refine ⟨hLow, hHigh, (hEq _ hHigh) ▸ hHit, fun place hPlace hLt => ?_⟩
    rw [← hEq place (by omega)]
    exact hBefore place hPlace hLt

end FirstHit

theorem firstHit_range (hit : Nat → Option κ) (count : Nat) :
    FirstHit hit 0 count ((List.range count).findSome? fun place => (hit place).map (place, ·)) := by
  induction count with
  | zero =>
    intro other _ hOther
    omega
  | succ count ih =>
    rw [List.range_succ, List.findSome?_append, List.findSome?_singleton]
    cases hFront : (List.range count).findSome? fun place => (hit place).map (place, ·) with
    | some found =>
      rw [hFront] at ih
      exact ih.widen (Nat.le_succ count)
    | none =>
      rw [hFront] at ih
      refine ih.after ?_ (Nat.zero_le _)
      cases hLast : hit count with
      | none =>
        intro other hLow hHigh
        rwa [show other = count by omega]
      | some kind => exact ⟨Nat.le_refl _, Nat.lt_succ_self _, hLast, fun other _ _ => by omega⟩

end OpenHalfLife

namespace OpenHalfLife.FirstSight

set_option autoImplicit false

/-! ## Keys met for the first time

A walk along a list of keys that passes by those it has met already. Each key
is visited once, and a visit changes the cell of its key alone, so the visits
do not see each other.
-/

section Walk

variable {κ σ : Type} [DecidableEq κ] {seen keys : List κ} {key : κ}

def unmet : List κ → List κ → List κ
  | _, [] => []
  | seen, key :: keys => if key ∈ seen then unmet seen keys else key :: unmet (seen ++ [key]) keys

def firsts (keys : List κ) : List κ := unmet [] keys

theorem mem_unmet : key ∈ unmet seen keys ↔ key ∈ keys ∧ key ∉ seen := by
  induction keys generalizing seen with
  | nil => simp [unmet]
  | cons head keys ih =>
    rw [unmet]
    by_cases hHead : head ∈ seen
    · rw [if_pos hHead, ih]
      grind
    · rw [if_neg hHead, List.mem_cons, ih]
      grind

theorem mem_firsts : key ∈ firsts keys ↔ key ∈ keys := by
  rw [firsts, mem_unmet]
  simp

theorem nodup_unmet (seen keys : List κ) : (unmet seen keys).Nodup := by
  induction keys generalizing seen with
  | nil => exact List.nodup_nil
  | cons head keys ih =>
    rw [unmet]
    by_cases hHead : head ∈ seen
    · rw [if_pos hHead]
      exact ih seen
    · rw [if_neg hHead, List.nodup_cons, mem_unmet]
      exact ⟨by simp, ih _⟩

theorem nodup_firsts (keys : List κ) : (firsts keys).Nodup := nodup_unmet [] keys

theorem foldl_unmet (visit : σ → κ → σ) (seen keys : List κ) (s : σ) :
    (keys.foldl (fun walk key => if key ∈ walk.1 then walk else (walk.1 ++ [key], visit walk.2 key)) (seen, s)).2 =
      (unmet seen keys).foldl visit s := by
  induction keys generalizing seen s with
  | nil => rfl
  | cons head keys ih =>
    rw [List.foldl_cons, unmet]
    by_cases hHead : head ∈ seen
    · rw [if_pos hHead, if_pos hHead]
      exact ih seen s
    · rw [if_neg hHead, if_neg hHead]
      exact ih _ _

end Walk

section Cells

variable {κ α ω ρ : Type} [DecidableEq κ] {keys : List κ}

theorem foldl_visits (record : ω → κ → α → ω) (change : κ → α → α) (hNodup : keys.Nodup) (out : ω) (cells : κ → α) :
    keys.foldl (fun (state : ω × (κ → α)) key =>
        (record state.1 key (state.2 key), Function.update state.2 key (change key (state.2 key)))) (out, cells) =
      (keys.foldl (fun out key => record out key (cells key)) out,
        fun key => if key ∈ keys then change key (cells key) else cells key) := by
  induction keys generalizing out cells with
  | nil => simp
  | cons head keys ih =>
    obtain ⟨hHead, hKeys⟩ := List.nodup_cons.mp hNodup
    rw [List.foldl_cons, ih hKeys, List.foldl_cons]
    have hOther (key : κ) (hKey : key ≠ head) :
        Function.update cells head (change head (cells head)) key = cells key := Function.update_of_ne hKey _ _
    congr 1
    · refine List.foldl_ext _ _ _ fun out key hKey => ?_
      rw [hOther key fun hSame => hHead (hSame ▸ hKey)]
    · funext key
      by_cases hSame : key = head
      · rw [hSame, if_neg hHead, if_pos List.mem_cons_self, Function.update_self]
      · rw [hOther key hSame]
        simp only [List.mem_cons, hSame, false_or]

omit [DecidableEq κ] in
theorem foldl_field {record : ω → κ → ω} {field : ω → List ρ} {report : κ → List ρ}
    (h : ∀ out key, field (record out key) = field out ++ report key) (out : ω) :
    field (keys.foldl record out) = field out ++ keys.flatMap report := by
  induction keys generalizing out with
  | nil => simp
  | cons head keys ih => rw [List.foldl_cons, ih, h, List.flatMap_cons, List.append_assoc]

theorem filter_reports {report : κ → List ρ} {tag : ρ → κ} (hTag : ∀ key, ∀ entry ∈ report key, tag entry = key)
    (hNodup : keys.Nodup) (key : κ) :
    (keys.flatMap report).filter (fun entry => tag entry = key) = if key ∈ keys then report key else [] := by
  induction keys with
  | nil => simp
  | cons head keys ih =>
    obtain ⟨hHead, hKeys⟩ := List.nodup_cons.mp hNodup
    rw [List.flatMap_cons, List.filter_append, ih hKeys]
    by_cases hSame : key = head
    · subst hSame
      rw [if_neg hHead, if_pos List.mem_cons_self, List.append_nil, List.filter_eq_self]
      exact fun entry hEntry => decide_eq_true (hTag key entry hEntry)
    · have hNone : (report head).filter (fun entry => tag entry = key) = [] :=
        List.filter_eq_nil_iff.mpr fun entry hEntry hKey =>
          hSame ((of_decide_eq_true hKey).symm.trans (hTag head entry hEntry))
      rw [hNone, List.nil_append]
      simp only [List.mem_cons, hSame, false_or]

theorem filter_reports_eq {report : κ → List ρ} {tag : ρ → κ} (hTag : ∀ key, ∀ entry ∈ report key, tag entry = key)
    (hNodup : keys.Nodup) (hNone : ∀ key, key ∉ keys → report key = []) (key : κ) :
    (keys.flatMap report).filter (fun entry => tag entry = key) = report key := by
  rw [filter_reports hTag hNodup]
  by_cases hKey : key ∈ keys
  · exact if_pos hKey
  · rw [if_neg hKey, hNone key hKey]

end Cells

end OpenHalfLife.FirstSight

namespace OpenHalfLife.FirstWins

set_option autoImplicit false

/-! ## Pairs of which the first of a key wins

A table with room for a number of keys takes pairs one after another and keeps
the first of each key. What it comes to hold depends on the order of the pairs;
whether it has room for them does not.
-/

variable {κ α β : Type} [DecidableEq κ] {key : κ}

def firstOf (key : κ) (pairs : List (κ × α)) : Option α :=
  pairs.findSome? fun pair => if pair.1 = key then some pair.2 else none

theorem firstOf_append (front rest : List (κ × α)) :
    firstOf key (front ++ rest) = (firstOf key front).or (firstOf key rest) := List.findSome?_append

theorem firstOf_flatMap (items : List β) (pairs : β → List (κ × α)) :
    firstOf key (items.flatMap pairs) = items.findSome? fun item => firstOf key (pairs item) := by
  induction items with
  | nil => rfl
  | cons item items ih =>
    rw [List.flatMap_cons, firstOf_append, ih, List.findSome?_cons]
    cases firstOf key (pairs item) <;> rfl

structure Table (κ α : Type) where
  value : κ → Option α
  room : Nat

namespace Table

def put (table : Table κ α) (pair : κ × α) : Option (Table κ α) :=
  if (table.value pair.1).isSome then some table
  else if table.room = 0 then none
  else some ⟨Function.update table.value pair.1 (some pair.2), table.room - 1⟩

def fill (table : Table κ α) (pairs : List (κ × α)) : Option (Table κ α) := pairs.foldlM put table

variable {table table' : Table κ α} {pair : κ × α} {pairs : List (κ × α)}

theorem fill_cons : table.fill (pair :: pairs) = (table.put pair).bind fun table => table.fill pairs := List.foldlM_cons

theorem fill_append (front rest : List (κ × α)) :
    table.fill (front ++ rest) = (table.fill front).bind fun table => table.fill rest := List.foldlM_append

theorem value_put (h : table.put pair = some table') (key : κ) :
    table'.value key = (table.value key).or (if pair.1 = key then some pair.2 else none) := by
  unfold put at h
  split at h
  · next hHeld =>
    obtain rfl := Option.some.inj h
    split
    · next hKey =>
      obtain ⟨value, hValue⟩ := Option.isSome_iff_exists.mp hHeld
      rw [← hKey, hValue, Option.some_or]
    · rw [Option.or_none]
  · next hNew =>
    split at h
    · cases h
    · obtain rfl := Option.some.inj h
      dsimp only
      split
      · next hKey => rw [← hKey, Function.update_self, Option.not_isSome_iff_eq_none.mp hNew, Option.none_or]
      · next hKey => rw [Function.update_of_ne (Ne.symm hKey), Option.or_none]

theorem value_fill (h : table.fill pairs = some table') (key : κ) :
    table'.value key = (table.value key).or (firstOf key pairs) := by
  induction pairs generalizing table with
  | nil =>
    obtain rfl := Option.some.inj h
    exact Option.or_none.symm
  | cons pair pairs ih =>
    rw [fill_cons] at h
    obtain ⟨next, hPut, hFill⟩ := Option.bind_eq_some_iff.mp h
    have hFirst : firstOf key (pair :: pairs) = (if pair.1 = key then some pair.2 else none).or (firstOf key pairs) := by
      rw [firstOf, List.findSome?_cons, ← firstOf]
      split <;> rename_i hHead <;> rw [hHead] <;> rfl
    rw [ih hFill, value_put hPut, Option.or_assoc, hFirst]

def newKeys (table : Table κ α) (pairs : List (κ × α)) : Finset κ :=
  (pairs.map Prod.fst).toFinset.filter fun key => (table.value key).isNone

theorem newKeys_cons_of_held (h : (table.value pair.1).isSome) : table.newKeys (pair :: pairs) = table.newKeys pairs := by
  have hHeld : ¬(table.value pair.1).isNone := by
    rw [Option.isNone_iff_eq_none]
    exact Option.isSome_iff_ne_none.mp h
  rw [newKeys, newKeys, List.map_cons, List.toFinset_cons, Finset.filter_insert, if_neg hHeld]

theorem newKeys_cons_of_new (h : ¬(table.value pair.1).isSome) :
    table.newKeys (pair :: pairs) = insert pair.1
      ((Table.mk (Function.update table.value pair.1 (some pair.2)) (table.room - 1)).newKeys pairs) := by
  ext key
  simp only [newKeys, Finset.mem_filter, List.mem_toFinset, List.map_cons, List.mem_cons, Finset.mem_insert]
  by_cases hKey : key = pair.1
  · simpa [hKey] using h
  · simp [hKey]

theorem exists_fill : (∃ table', table.fill pairs = some table') ↔ (table.newKeys pairs).card ≤ table.room := by
  induction pairs generalizing table with
  | nil =>
    refine ⟨fun _ => ?_, fun _ => ⟨table, rfl⟩⟩
    rw [newKeys, List.map_nil, List.toFinset_nil, Finset.filter_empty]
    exact Nat.zero_le _
  | cons pair pairs ih =>
    rw [fill_cons, put]
    split
    · next hHeld =>
      rw [newKeys_cons_of_held hHeld]
      exact ih
    · next hNew =>
      have hOut : pair.1 ∉ (Table.mk (Function.update table.value pair.1 (some pair.2)) (table.room - 1)).newKeys pairs := by
        simp [newKeys]
      rw [newKeys_cons_of_new hNew, Finset.card_insert_of_notMem hOut]
      split
      · next hFull => simp [hFull]
      · next hRoom =>
        refine ih.trans ?_
        dsimp only
        omega

theorem exists_fill_perm {pairs' : List (κ × α)} (hPerm : pairs.Perm pairs') :
    (∃ table', table.fill pairs = some table') ↔ ∃ table', table.fill pairs' = some table' := by
  have hKeys : table.newKeys pairs = table.newKeys pairs' := by
    rw [newKeys, newKeys, List.toFinset_eq_of_perm _ _ (hPerm.map Prod.fst)]
  rw [exists_fill, exists_fill, hKeys]

end Table

/-! ## The first of a list and of a part of it -/

variable {items : List α} {answer : α → Option β}

theorem findSome?_split {value : β} (h : items.findSome? answer = some value) :
    ∃ front item rest, items = front ++ item :: rest ∧ answer item = some value ∧ ∀ other ∈ front, answer other = none := by
  induction items with
  | nil => cases h
  | cons item items ih =>
    rw [List.findSome?_cons] at h
    cases hItem : answer item with
    | some found =>
      rw [hItem] at h
      exact ⟨[], item, items, rfl, hItem.trans h, fun _ hNone => (List.not_mem_nil hNone).elim⟩
    | none =>
      rw [hItem] at h
      obtain ⟨front, first, rest, rfl, hFirst, hBefore⟩ := ih h
      exact ⟨item :: front, first, rest, rfl, hFirst, List.forall_mem_cons.mpr ⟨hItem, hBefore⟩⟩

theorem findSome?_of_split {front rest : List α} {item : α} {value : β} (hFirst : answer item = some value)
    (hBefore : ∀ other ∈ front, answer other = none) : (front ++ item :: rest).findSome? answer = some value := by
  rw [List.findSome?_append, List.findSome?_eq_none_iff.mpr hBefore, Option.none_or, List.findSome?_cons, hFirst]

theorem findSome?_filter {part : α → Bool} {front rest : List α} {item : α} {value : β} (hFirst : answer item = some value)
    (hBefore : ∀ other ∈ front, answer other = none) (hPart : part item) :
    ((front ++ item :: rest).filter part).findSome? answer = some value := by
  rw [List.filter_append, List.filter_cons_of_pos hPart]
  exact findSome?_of_split hFirst fun other hOther => hBefore other (List.mem_of_mem_filter hOther)

theorem eq_of_findSome?_reverse (hNodup : items.Nodup)
    (hOwn : ∀ item ∈ items, ∀ other ∈ items, ∀ value, answer item = some value → answer other = some value → item = other)
    (h : items.findSome? answer = items.reverse.findSome? answer) {item other : α} (hItem : item ∈ items)
    (hOther : other ∈ items) (hAnswers : (answer item).isSome) (hToo : (answer other).isSome) : item = other := by
  obtain ⟨value, hValue⟩ := Option.isSome_iff_exists.mp
    (List.findSome?_isSome_iff.mpr ⟨item, hItem, hAnswers⟩)
  obtain ⟨front, first, rest, rfl, hFirst, hBefore⟩ := findSome?_split hValue
  obtain ⟨front', last, rest', hSplit, hLast, hAfter⟩ := findSome?_split (h.symm.trans hValue)
  have hLastMem : last ∈ front ++ first :: rest := by
    rw [← List.mem_reverse, hSplit]
    exact List.mem_append_right _ List.mem_cons_self
  obtain rfl := hOwn first (by simp) last hLastMem value hFirst hLast
  -- what answers is neither before the first nor after it
  have hOnly (candidate : α) (hMem : candidate ∈ front ++ first :: rest) (hSome : (answer candidate).isSome) :
      candidate = first := by
    have hNotFront : candidate ∉ front := fun hIn => by simp [hBefore candidate hIn] at hSome
    rcases List.mem_cons.mp ((List.mem_append.mp hMem).resolve_left hNotFront) with hSame | hRest
    · exact hSame
    · rw [List.reverse_append, List.reverse_cons, List.append_assoc, List.singleton_append] at hSplit
      have hNotRest : first ∉ rest.reverse := by
        rw [List.mem_reverse]
        exact (List.nodup_cons.mp (List.nodup_append.mp hNodup).2.1).1
      have hNotBefore : first ∉ front.reverse := fun hIn => by simp [hBefore first (List.mem_reverse.mp hIn)] at hFirst
      obtain ⟨hReverse, -, -⟩ := (List.append_cons_inj_of_notMem hNotRest hNotBefore).mp hSplit
      have hIn : candidate ∈ front' := by
        rw [← hReverse]
        exact List.mem_reverse.mpr hRest
      simp [hAfter candidate hIn] at hSome
  rw [hOnly item hItem hAnswers, hOnly other hOther hToo]

theorem filter_insertionSort {le : α → α → Prop} [DecidableRel le] {part : α → Bool}
    (hEqual : ∀ item other, part item → part other → le item other) :
    (items.insertionSort le).filter part = items.filter part := by
  have hPairwise : (items.filter part).Pairwise le := by
    refine List.Pairwise.imp_of_mem (R := fun _ _ => True) ?_ (List.pairwise_of_forall fun _ _ => trivial)
    exact fun hItem hOther _ => hEqual _ _ (List.mem_filter.mp hItem).2 (List.mem_filter.mp hOther).2
  have hSub := (List.sublist_insertionSort hPairwise List.filter_sublist).filter part
  simp only [List.filter_filter, Bool.and_self] at hSub
  refine (hSub.eq_of_length ?_).symm
  exact (((List.perm_insertionSort le items).filter part).length_eq).symm

end OpenHalfLife.FirstWins
