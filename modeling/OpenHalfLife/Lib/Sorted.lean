import Mathlib.Data.List.Chain
import Mathlib.Data.List.Lex
import Mathlib.Data.List.Sort
import Mathlib.Data.UInt
import Mathlib.Data.List.Lemmas

/-! # Ordered sets and their neighbours

An ordered set iterates in increasing order. Over words in the lexicographic
order, a word and its extensions by one letter are neighbours only when no
extension by a smaller letter stands between them.
-/

namespace OpenHalfLife

set_option autoImplicit false

universe u

instance linearOrderUInt8 : LinearOrder UInt8 where
  le_refl := UInt8.le_refl
  le_trans _ _ _ := UInt8.le_trans
  le_antisymm _ _ := UInt8.le_antisymm
  le_total := UInt8.le_total
  lt_iff_le_not_ge a b := by
    simp only [UInt8.le_iff_toNat_le, UInt8.lt_iff_toNat_lt]
    omega
  toDecidableLE := inferInstance
  toDecidableEq := inferInstance
  toDecidableLT := inferInstance

instance linearOrderUInt64 : LinearOrder UInt64 where
  le_refl := UInt64.le_refl
  le_trans _ _ _ := UInt64.le_trans
  le_antisymm _ _ := UInt64.le_antisymm
  le_total := UInt64.le_total
  lt_iff_le_not_ge a b := by
    simp only [UInt64.le_iff_toNat_le, UInt64.lt_iff_toNat_lt]
    omega
  toDecidableLE := inferInstance
  toDecidableEq := inferInstance
  toDecidableLT := inferInstance

-- a decision of equality is read off the words themselves, not off their order
attribute [instance (1100)] instDecidableEqUInt8 instDecidableEqUInt64

instance lawfulBEqUInt8 : LawfulBEq UInt8 := instLawfulBEq

structure SortedSet (α : Type u) [LT α] where
  elements : List α
  sorted : elements.Pairwise (· < ·)

namespace SortedSet

variable {α : Type u} [LinearOrder α]

def empty : SortedSet α := ⟨[], .nil⟩

/-- `none` when the element was already present. -/
def insert (a : α) (s : SortedSet α) : Option (SortedSet α) :=
  if h : a ∈ s.elements then none
  else some ⟨s.elements.orderedInsert (· ≤ ·) a, by
    have hSorted : (s.elements.orderedInsert (· ≤ ·) a).Pairwise (· ≤ ·) :=
      List.Pairwise.orderedInsert a _ (s.sorted.imp le_of_lt)
    have hNodup : (s.elements.orderedInsert (· ≤ ·) a).Nodup :=
      (List.perm_orderedInsert (· ≤ ·) a s.elements).nodup_iff.mpr
        (List.nodup_cons.mpr ⟨h, s.sorted.imp ne_of_lt⟩)
    exact (hSorted.and hNodup).imp fun h => lt_of_le_of_ne h.1 h.2⟩

theorem insert_eq_none {a : α} {s : SortedSet α} : s.insert a = none ↔ a ∈ s.elements := by
  unfold insert
  split <;> simp_all

theorem insert_eq_some {a : α} {s t : SortedSet α} (h : s.insert a = some t) :
    a ∉ s.elements ∧ t.elements.Perm (a :: s.elements) := by
  unfold insert at h
  split at h
  · cases h
  · rename_i hNew
    cases h
    exact ⟨hNew, List.perm_orderedInsert (· ≤ ·) a s.elements⟩

end SortedSet

section Words

variable {α : Type u} [LinearOrder α]

theorem extends_of_lt_of_le {p q r : List α} {c : α} (hLt : p < q) (hLe : q ≤ p ++ c :: r) :
    ∃ d s, q = p ++ d :: s ∧ d ≤ c := by
  induction p generalizing q with
  | nil =>
    cases q with
    | nil => exact absurd hLt (lt_irrefl _)
    | cons d s =>
      refine ⟨d, s, rfl, ?_⟩
      rcases hLe.lt_or_eq with h | h
      · exact List.head_le_of_lt h
      · exact (List.cons.inj h).1.le
  | cons a p ih =>
    cases q with
    | nil => exact absurd hLt (List.not_lt_nil _)
    | cons b q =>
      have hBelow : b ≤ a := by
        rcases hLe.lt_or_eq with h | h
        · exact List.head_le_of_lt h
        · exact (List.cons.inj h).1.le
      obtain rfl : a = b := le_antisymm (List.head_le_of_lt hLt) hBelow
      have hLt' : p < q := by simpa [List.cons_lt_cons_iff] using hLt
      have hLe' : q ≤ p ++ c :: r := by
        rcases hLe.lt_or_eq with h | h
        · exact le_of_lt (by simpa [List.cons_lt_cons_iff] using h)
        · exact (List.cons.inj h).2.le
      obtain ⟨d, s, rfl, hd⟩ := ih hLt' hLe'
      exact ⟨d, s, rfl, hd⟩

theorem lt_append_cons (p r : List α) (c : α) : p < p ++ c :: r := by
  induction p with
  | nil => exact List.nil_lt_cons c r
  | cons a p ih => simpa [List.cons_lt_cons_iff] using ih

theorem append_cons_lt_append_cons {p r s : List α} {c d : α} (h : c < d) :
    p ++ c :: r < p ++ d :: s := by
  induction p with
  | nil => exact List.cons_lt_cons_iff.mpr (.inl h)
  | cons a p ih => simpa [List.cons_lt_cons_iff] using ih

/-- Some neighbours `p`, `p ++ sep ++ …` exist in a sorted list exactly when some
`p` with an extension by `sep` has none by a smaller letter. -/
theorem exists_neighbour_iff {words : List (List α)} (hSorted : words.Pairwise (· < ·)) (sep : α) :
    (¬ words.IsChain fun p q => ¬ p ++ [sep] <+: q) ↔
      ∃ p ∈ words, (∃ q ∈ words, p ++ [sep] <+: q) ∧
        ∀ q ∈ words, ∀ c < sep, ¬ p ++ [c] <+: q := by
  constructor
  · intro hChain
    by_contra hNone
    refine hChain (List.isChain_iff_forall_rel_of_append_cons_cons.mpr ?_)
    rintro p q left right rfl ⟨r, rfl⟩
    refine hNone ⟨p, by simp, ⟨p ++ [sep] ++ r, by simp, r, rfl⟩, ?_⟩
    rintro q' hMem c hc ⟨r', rfl⟩
    have hAbove : p < p ++ [c] ++ r' := by simpa using lt_append_cons p r' c
    have hBelow : p ++ [c] ++ r' < p ++ [sep] ++ r := by
      simpa using append_cons_lt_append_cons (p := p) hc
    rw [List.pairwise_append, List.pairwise_cons, List.pairwise_cons] at hSorted
    obtain ⟨-, ⟨-, hRight, -⟩, hLeft⟩ := hSorted
    rcases List.mem_append.mp hMem with hMem | hMem
    · exact lt_asymm hAbove (hLeft _ hMem p (by simp))
    · rcases List.mem_cons.mp hMem with hEq | hMem
      · exact absurd hEq hAbove.ne'
      · rcases List.mem_cons.mp hMem with hEq | hMem
        · exact absurd hEq hBelow.ne
        · exact lt_asymm hBelow (hRight _ hMem)
  · rintro ⟨p, hp, ⟨q₀, hq₀, r, rfl⟩, hNone⟩ hChain
    obtain ⟨left, right, rfl⟩ := List.append_of_mem hp
    rw [List.pairwise_append, List.pairwise_cons] at hSorted
    obtain ⟨-, ⟨hRight, hRest⟩, hLeft⟩ := hSorted
    have hAbove : p < p ++ [sep] ++ r := by simpa using lt_append_cons p r sep
    have hMem : p ++ [sep] ++ r ∈ right := by
      rcases List.mem_append.mp hq₀ with h | h
      · exact absurd hAbove (lt_asymm (hLeft _ h p (by simp)))
      · exact (List.mem_cons.mp h).resolve_left hAbove.ne'
    cases right with
    | nil => cases hMem
    | cons q right =>
      have hLe : q ≤ p ++ sep :: r := by
        rcases List.mem_cons.mp hMem with h | h
        · exact (by simpa using h.symm.le)
        · exact le_of_lt (by simpa using (List.pairwise_cons.mp hRest).1 _ h)
      obtain ⟨d, s, rfl, hd⟩ := extends_of_lt_of_le (hRight q (by simp)) hLe
      rcases hd.lt_or_eq with hd | rfl
      · exact hNone (p ++ d :: s) (by simp) d hd ⟨s, by simp⟩
      · exact (List.isChain_append_cons_cons.mp hChain).2.1 ⟨s, by simp⟩

end Words

end OpenHalfLife

namespace OpenHalfLife

set_option autoImplicit false

/-! ## Ordered maps

An ordered map iterates by increasing key, so it is the same map whatever the
order in which its pairs were inserted.
-/

universe u v

structure SortedMap (κ : Type u) (ν : Type v) [LT κ] where
  pairs : List (κ × ν)
  sorted : pairs.Pairwise fun first second => first.1 < second.1

namespace SortedMap

variable {κ : Type u} {ν : Type v} [LinearOrder κ]

def empty : SortedMap κ ν := ⟨[], .nil⟩

def keys (m : SortedMap κ ν) : List κ := m.pairs.map Prod.fst

def values (m : SortedMap κ ν) : List ν := m.pairs.map Prod.snd

def get? (m : SortedMap κ ν) (key : κ) : Option ν := (m.pairs.find? fun pair => pair.1 = key).map Prod.snd

def insertPair (key : κ) (value : ν) : List (κ × ν) → List (κ × ν)
  | [] => [(key, value)]
  | pair :: pairs =>
    if key < pair.1 then (key, value) :: pair :: pairs
    else if key = pair.1 then (key, value) :: pairs
    else pair :: insertPair key value pairs

theorem insertPair_perm (key : κ) (value : ν) {pairs : List (κ × ν)}
    (hSorted : pairs.Pairwise fun first second => first.1 < second.1) :
    (insertPair key value pairs).Perm ((key, value) :: pairs.filter fun pair => pair.1 ≠ key) := by
  induction pairs with
  | nil => rfl
  | cons pair pairs ih =>
    obtain ⟨hFirst, hRest⟩ := List.pairwise_cons.mp hSorted
    have hKept (h : key ≤ pair.1) : (pairs.filter fun pair => pair.1 ≠ key) = pairs := by
      apply List.filter_eq_self.mpr
      intro other hOther
      exact decide_eq_true (ne_of_gt (lt_of_le_of_lt h (hFirst other hOther)))
    rw [insertPair]
    split
    case isTrue hBelow =>
      rw [List.filter_cons_of_pos (by simp [hBelow.ne']), hKept hBelow.le]
    case isFalse hNotBelow =>
      split
      case isTrue hSame =>
        rw [List.filter_cons_of_neg (by simp [hSame]), hKept hSame.le]
      case isFalse hOther =>
        rw [List.filter_cons_of_pos (by simp [Ne.symm hOther])]
        exact ((ih hRest).cons _).trans (.swap ..)

theorem insertPair_sorted (key : κ) (value : ν) {pairs : List (κ × ν)}
    (hSorted : pairs.Pairwise fun first second => first.1 < second.1) :
    (insertPair key value pairs).Pairwise fun first second => first.1 < second.1 := by
  induction pairs with
  | nil => exact List.pairwise_singleton _ _
  | cons pair pairs ih =>
    obtain ⟨hFirst, hRest⟩ := List.pairwise_cons.mp hSorted
    rw [insertPair]
    split
    case isTrue hBelow =>
      refine List.pairwise_cons.mpr ⟨fun other hOther => ?_, hSorted⟩
      rcases List.mem_cons.mp hOther with rfl | hOther
      · exact hBelow
      · exact hBelow.trans (hFirst other hOther)
    case isFalse hNotBelow =>
      split
      case isTrue hSame =>
        exact List.pairwise_cons.mpr ⟨fun other hOther => hSame ▸ hFirst other hOther, hRest⟩
      case isFalse hOther =>
        refine List.pairwise_cons.mpr ⟨fun other hMem => ?_, ih hRest⟩
        rcases List.mem_cons.mp ((insertPair_perm key value hRest).mem_iff.mp hMem) with rfl | hMem
        · exact lt_of_le_of_ne (not_lt.mp hNotBelow) (Ne.symm hOther)
        · exact hFirst other (List.mem_filter.mp hMem).1

def insert (m : SortedMap κ ν) (key : κ) (value : ν) : SortedMap κ ν :=
  ⟨insertPair key value m.pairs, insertPair_sorted key value m.sorted⟩

variable {m m' : SortedMap κ ν} {key : κ} {value : ν}

theorem nodup_keys (m : SortedMap κ ν) : m.keys.Nodup :=
  List.pairwise_map.mpr (m.sorted.imp fun h => h.ne)

theorem get?_eq_some : m.get? key = some value ↔ (key, value) ∈ m.pairs := by
  rw [get?, Option.map_eq_some_iff]
  constructor
  · rintro ⟨⟨other, _⟩, hFind, rfl⟩
    obtain rfl : other = key := by simpa using List.find?_some hFind
    exact List.mem_of_find?_eq_some hFind
  · intro hMem
    obtain ⟨pair, hFind⟩ := Option.isSome_iff_exists.mp
      (List.find?_isSome.mpr ⟨(key, value), hMem, decide_eq_true rfl⟩ :
        (m.pairs.find? fun pair => pair.1 = key).isSome)
    have hKey : pair.1 = key := by simpa using List.find?_some hFind
    refine ⟨pair, hFind, ?_⟩
    rw [List.inj_on_of_nodup_map m.nodup_keys (List.mem_of_find?_eq_some hFind) hMem hKey]

theorem get?_eq_none : m.get? key = none ↔ key ∉ m.keys := by
  rw [get?, Option.map_eq_none_iff, List.find?_eq_none, keys, List.mem_map]
  constructor
  · rintro hNone ⟨pair, hPair, hKey⟩
    exact hNone pair hPair (decide_eq_true hKey)
  · intro hNone pair hPair hKey
    exact hNone ⟨pair, hPair, of_decide_eq_true hKey⟩

theorem insert_perm (hNew : key ∉ m.keys) : (m.insert key value).pairs.Perm ((key, value) :: m.pairs) := by
  have hKept : (m.pairs.filter fun pair => pair.1 ≠ key) = m.pairs := by
    apply List.filter_eq_self.mpr
    intro pair hPair
    exact decide_eq_true fun hSame => hNew (hSame ▸ List.mem_map_of_mem hPair)
  have hPerm := insertPair_perm key value m.sorted
  rwa [hKept] at hPerm

theorem eq_of_perm {pairs pairs' : List (κ × ν)} (hSorted : pairs.Pairwise fun first second => first.1 < second.1)
    (hSorted' : pairs'.Pairwise fun first second => first.1 < second.1) (hPerm : pairs.Perm pairs') :
    pairs = pairs' :=
  List.Perm.eq_of_pairwise (fun _ _ _ _ h h' => absurd h' (lt_asymm h)) hSorted hSorted' hPerm

end SortedMap

end OpenHalfLife
