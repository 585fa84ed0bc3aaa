import Mathlib.Algebra.BigOperators.Group.Finset.Basic
import Mathlib.Algebra.BigOperators.Ring.Finset
import Mathlib.Algebra.Order.BigOperators.Group.Finset
import Mathlib.Algebra.Order.Field.Rat
import Mathlib.Data.Nat.Count
import Mathlib.Tactic.Linarith
import Mathlib.Tactic.Ring

/-! # Canonical codes

Path lengths alone determine a canonical code: the symbols take their codes by
increasing length, then by increasing symbol, each the first that the symbols
before it leave free. A decoder needs only how many codes there are of each length.
-/

namespace OpenHalfLife.Canonical

set_option autoImplicit false

/-! ## Bits, the most significant one first -/

def value (bits : List Bool) : Nat := bits.foldl (fun v bit => 2 * v + bit.toNat) 0

def bitsOf : Nat → Nat → List Bool
  | 0, _ => []
  | length + 1, v => bitsOf length (v / 2) ++ [decide (v % 2 = 1)]

@[simp] theorem value_nil : value [] = 0 := rfl

@[simp] theorem value_snoc (bits : List Bool) (bit : Bool) : value (bits ++ [bit]) = 2 * value bits + bit.toNat := by
  simp [value]

theorem value_append (bits rest : List Bool) : value (bits ++ rest) = value bits * 2 ^ rest.length + value rest := by
  induction rest using List.reverseRecOn with
  | nil => simp
  | append_singleton rest bit ih =>
    rw [← List.append_assoc, value_snoc, value_snoc, ih, List.length_append, List.length_singleton, pow_succ]
    ring

theorem value_lt (bits : List Bool) : value bits < 2 ^ bits.length := by
  induction bits using List.reverseRecOn with
  | nil => simp
  | append_singleton bits bit ih =>
    have hBit := bit.toNat_lt
    rw [value_snoc, List.length_append, List.length_singleton, pow_succ]
    omega

@[simp] theorem length_bitsOf (length v : Nat) : (bitsOf length v).length = length := by
  induction length generalizing v with
  | zero => rfl
  | succ length ih => simp [bitsOf, ih]

theorem bitsOf_value (bits : List Bool) : bitsOf bits.length (value bits) = bits := by
  induction bits using List.reverseRecOn with
  | nil => rfl
  | append_singleton bits bit ih =>
    have hHalf : (2 * value bits + bit.toNat) / 2 = value bits := by cases bit <;> simp; omega
    have hLast : decide ((2 * value bits + bit.toNat) % 2 = 1) = bit := by cases bit <;> simp
    rw [List.length_append, List.length_singleton, value_snoc, bitsOf, hHalf, ih, hLast]

theorem value_bitsOf {length v : Nat} (h : v < 2 ^ length) : value (bitsOf length v) = v := by
  induction length generalizing v with
  | zero => simp only [pow_zero, Nat.lt_one_iff] at h; simp [bitsOf, h]
  | succ length ih =>
    have hHalf : v / 2 < 2 ^ length := by rw [pow_succ] at h; omega
    have hLast : (decide (v % 2 = 1)).toNat = v % 2 := by
      rcases Nat.mod_two_eq_zero_or_one v with hBit | hBit <;> simp [hBit]
    rw [bitsOf, value_snoc, ih hHalf, hLast]
    omega

theorem or_bit (c : Nat) (bit : Bool) : 2 * c ||| bit.toNat = 2 * c + bit.toNat := by
  have hLow : bit.toNat < 2 ^ 1 := bit.toNat_lt
  have hShift := Nat.two_pow_add_eq_or_of_lt hLow c
  rw [pow_one] at hShift
  exact hShift.symm

theorem bitsOf_succ (length v : Nat) :
    bitsOf (length + 1) v = decide (v / 2 ^ length % 2 = 1) :: bitsOf length v := by
  induction length generalizing v with
  | zero => simp [bitsOf]
  | succ length ih =>
    rw [bitsOf, ih, List.cons_append, Nat.div_div_eq_div_mul, ← pow_succ']
    rfl

theorem bitsOf_add_mul (length v c : Nat) : bitsOf length (v + c * 2 ^ length) = bitsOf length v := by
  induction length generalizing v with
  | zero => rfl
  | succ length ih =>
    have hHalf : (v + c * 2 ^ (length + 1)) / 2 = v / 2 + c * 2 ^ length := by
      rw [pow_succ, ← mul_assoc]
      omega
    have hLast : (v + c * 2 ^ (length + 1)) % 2 = v % 2 := by
      rw [pow_succ, ← mul_assoc]
      omega
    rw [bitsOf, hHalf, hLast, ih, bitsOf]

/-! ## Codes -/

variable {lengths : List Nat} {s t l : Nat}

def len (lengths : List Nat) (s : Nat) : Nat := lengths.getD s 0

def symbols (lengths : List Nat) : Finset Nat := (Finset.range lengths.length).filter fun s => len lengths s ≠ 0

def Before (lengths : List Nat) (t s : Nat) : Prop :=
  len lengths t < len lengths s ∨ len lengths t = len lengths s ∧ t < s

instance (lengths : List Nat) (t s : Nat) : Decidable (Before lengths t s) := inferInstanceAs (Decidable (_ ∨ _))

/-- A code of `k` bits is a share of `2 ^ (l - k)` codes of `l` bits; the code of a symbol
comes after the shares of those before it. -/
def code (lengths : List Nat) (s : Nat) : Nat :=
  ∑ t ∈ symbols lengths with Before lengths t s, 2 ^ (len lengths s - len lengths t)

def codeBits (lengths : List Nat) (s : Nat) : List Bool := bitsOf (len lengths s) (code lengths s)

def kraft (lengths : List Nat) : ℚ := ∑ s ∈ symbols lengths, (1 / 2) ^ len lengths s

def tally (lengths : List Nat) (l : Nat) : Nat := if l = 0 then 0 else lengths.count l

def below (lengths : List Nat) (l : Nat) : Nat := ((List.range l).map (tally lengths)).sum

def rank (lengths : List Nat) (s : Nat) : Nat := (lengths.take s).count (len lengths s)

def slot (lengths : List Nat) (s : Nat) : Nat := below lengths (len lengths s) + rank lengths s

def first (lengths : List Nat) (l : Nat) : Nat := ∑ t ∈ symbols lengths with len lengths t < l, 2 ^ (l - len lengths t)

def load (lengths : List Nat) (l : Nat) : Nat := ∑ t ∈ symbols lengths with len lengths t ≤ l, 2 ^ (l - len lengths t)

theorem mem_symbols : s ∈ symbols lengths ↔ s < lengths.length ∧ len lengths s ≠ 0 := by
  simp [symbols]

theorem len_eq_zero (h : lengths.length ≤ s) : len lengths s = 0 := by
  simp [len, h]

theorem len_le {longest : Nat} (h : ∀ length ∈ lengths, length ≤ longest) (s : Nat) : len lengths s ≤ longest := by
  rcases Nat.lt_or_ge s lengths.length with hLess | hPast
  · rw [len, List.getD_eq_getElem?_getD, List.getElem?_eq_getElem hLess, Option.getD_some]
    exact h _ (List.getElem_mem hLess)
  · rw [len_eq_zero hPast]
    exact Nat.zero_le _

theorem count_take (h : l ≠ 0) (s : Nat) : (lengths.take s).count l = Nat.count (fun t => len lengths t = l) s := by
  induction s with
  | zero => simp
  | succ s ih =>
    rw [List.take_add_one, List.count_append, ih, Nat.count_succ]
    congr 1
    cases hEntry : lengths[s]? with
    | none => simp [len, List.getD, hEntry, h.symm]
    | some entry => simp [len, List.getD, hEntry, List.count_singleton]

theorem tally_eq (h : l ≠ 0) : tally lengths l = Nat.count (fun t => len lengths t = l) lengths.length := by
  rw [tally, if_neg h, ← count_take h, List.take_length]

theorem below_succ (lengths : List Nat) (l : Nat) : below lengths (l + 1) = below lengths l + tally lengths l := by
  simp [below, List.range_succ]

theorem below_mono (lengths : List Nat) {l m : Nat} (h : l ≤ m) : below lengths l ≤ below lengths m := by
  induction m, h using Nat.le_induction with
  | base => exact le_rfl
  | succ m _ ih => rw [below_succ]; omega

theorem rank_lt (h : s ∈ symbols lengths) : rank lengths s < tally lengths (len lengths s) := by
  obtain ⟨hLength, hLen⟩ := mem_symbols.mp h
  rw [rank, tally_eq hLen, count_take hLen]
  exact Nat.count_strict_mono rfl hLength

theorem slot_lt (h : s ∈ symbols lengths) (hl : len lengths s < l) : slot lengths s < below lengths l := by
  have hMono := below_mono lengths (show len lengths s + 1 ≤ l from hl)
  have hRank := rank_lt h
  rw [below_succ] at hMono
  rw [slot]
  omega

theorem slot_inj (hs : s ∈ symbols lengths) (ht : t ∈ symbols lengths) (h : slot lengths s = slot lengths t) : s = t := by
  have hBelow {s t : Nat} (hs : s ∈ symbols lengths) (hLess : len lengths s < len lengths t) :
      slot lengths s < slot lengths t :=
    (slot_lt hs hLess).trans_le (Nat.le_add_right _ _)
  rcases lt_trichotomy (len lengths s) (len lengths t) with hLess | hSame | hMore
  · exact absurd h (hBelow hs hLess).ne
  · have hNonzero := (mem_symbols.mp ht).2
    rw [slot, slot, hSame] at h
    have hRank := Nat.add_left_cancel h
    rw [rank, rank, hSame, count_take hNonzero, count_take hNonzero] at hRank
    exact @Nat.count_injective (fun u => len lengths u = len lengths t) _ s t hSame rfl hRank
  · exact absurd h (hBelow ht hMore).ne'

theorem exists_count_eq {p : Nat → Prop} [DecidablePred p] {n k : Nat} (h : k < Nat.count p n) :
    ∃ s < n, p s ∧ Nat.count p s = k := by
  induction n with
  | zero => simp at h
  | succ n ih =>
    rw [Nat.count_succ] at h
    by_cases hShort : k < Nat.count p n
    · obtain ⟨s, hs, hp, hCount⟩ := ih hShort
      exact ⟨s, hs.trans (Nat.lt_succ_self n), hp, hCount⟩
    · by_cases hp : p n
      · rw [if_pos hp] at h
        exact ⟨n, Nat.lt_succ_self n, hp, by omega⟩
      · rw [if_neg hp] at h
        exact absurd h hShort

theorem exists_rank {k : Nat} (h : k < tally lengths l) : ∃ s ∈ symbols lengths, len lengths s = l ∧ rank lengths s = k := by
  have hLength : l ≠ 0 := by
    rintro rfl
    simp [tally] at h
  rw [tally_eq hLength] at h
  obtain ⟨s, hs, hLen, hRank⟩ := exists_count_eq h
  refine ⟨s, mem_symbols.mpr ⟨hs, hLen ▸ hLength⟩, hLen, ?_⟩
  rw [rank, hLen, count_take hLength, hRank]

theorem load_zero : load lengths 0 = 0 := by
  rw [load, Finset.sum_eq_zero]
  intro t ht
  obtain ⟨hSymbol, hLen⟩ := Finset.mem_filter.mp ht
  exact absurd (Nat.le_zero.mp hLen) (mem_symbols.mp hSymbol).2

theorem first_zero : first lengths 0 = 0 := by simp [first]

theorem first_succ : first lengths (l + 1) = 2 * load lengths l := by
  rw [first, load, Finset.mul_sum]
  refine Finset.sum_congr (Finset.filter_congr fun t _ => Nat.lt_succ_iff) fun t ht => ?_
  have hLen := (Finset.mem_filter.mp ht).2
  rw [Nat.succ_sub hLen, pow_succ, mul_comm]

theorem sum_of_length (hLen : l ≠ 0) {n : Nat} (hn : n ≤ lengths.length) :
    ∑ t ∈ symbols lengths with (len lengths t < l ∨ len lengths t = l ∧ t < n), 2 ^ (l - len lengths t) =
      first lengths l + Nat.count (fun t => len lengths t = l) n := by
  have hApart : Disjoint ((symbols lengths).filter fun t => len lengths t < l)
      ((symbols lengths).filter fun t => len lengths t = l ∧ t < n) := by
    refine Finset.disjoint_filter.mpr fun t _ hShort hSame => ?_
    omega
  have hCard : ((symbols lengths).filter fun t => len lengths t = l ∧ t < n).card =
      Nat.count (fun t => len lengths t = l) n := by
    rw [Nat.count_eq_card_filter_range]
    congr 1
    ext t
    simp only [Finset.mem_filter, mem_symbols, Finset.mem_range]
    constructor
    · rintro ⟨-, hSame, ht⟩
      exact ⟨ht, hSame⟩
    · rintro ⟨ht, hSame⟩
      exact ⟨⟨by omega, hSame ▸ hLen⟩, hSame, ht⟩
  rw [Finset.filter_or, Finset.sum_union hApart, first, ← hCard, Finset.card_eq_sum_ones]
  congr 1
  refine Finset.sum_congr rfl fun t ht => ?_
  rw [(Finset.mem_filter.mp ht).2.1, Nat.sub_self, pow_zero]

theorem code_eq (h : s ∈ symbols lengths) : code lengths s = first lengths (len lengths s) + rank lengths s := by
  obtain ⟨hLength, hLen⟩ := mem_symbols.mp h
  rw [rank, count_take hLen, ← sum_of_length hLen hLength.le, code]
  rfl

variable (lengths l) in
theorem load_eq : load lengths l = first lengths l + tally lengths l := by
  by_cases hLen : l = 0
  · rw [hLen, load_zero, first_zero, tally, if_pos rfl]
  · rw [tally_eq hLen, ← sum_of_length hLen le_rfl, load]
    refine Finset.sum_congr (Finset.filter_congr fun t ht => ?_) fun _ _ => rfl
    have hLength := (mem_symbols.mp ht).1
    omega

variable (lengths) in
theorem load_mul_le_first {j : Nat} (h : j < l) : load lengths j * 2 ^ (l - j) ≤ first lengths l := by
  induction l, h using Nat.le_induction with
  | base => rw [first_succ, Nat.sub_eq_of_eq_add (Nat.succ_eq_one_add j), pow_one, mul_comm]
  | succ l hl ih =>
    calc load lengths j * 2 ^ (l + 1 - j)
        = 2 * (load lengths j * 2 ^ (l - j)) := by
          rw [Nat.succ_sub (by omega), pow_succ]
          ring
      _ ≤ 2 * load lengths l := by
          have hLoad := load_eq lengths l
          omega
      _ = first lengths (l + 1) := first_succ.symm

theorem load_mul_le {j : Nat} (h : j ≤ l) : load lengths j * 2 ^ (l - j) ≤ load lengths l := by
  rcases Nat.eq_or_lt_of_le h with rfl | hLess
  · simp
  · have hFirst := load_mul_le_first lengths hLess
    rw [load_eq lengths l]
    omega

/-! ## Filling the slots -/

theorem set_map_range {α : Type} (n i : Nat) (f : Nat → α) (value : α) :
    ((List.range n).map f).set i value = (List.range n).map (Function.update f i value) := by
  apply List.ext_getElem
  · simp
  · intro j hj _
    simp [List.getElem_set, Function.update_apply, eq_comm]

def slotAfter (lengths : List Nat) (placed length : Nat) : Nat :=
  below lengths length + if length = 0 then 0 else (lengths.take placed).count length

theorem slotAfter_succ (placed l : Nat) :
    slotAfter lengths (placed + 1) l =
      if len lengths placed ≠ 0 ∧ l = len lengths placed then slotAfter lengths placed l + 1
      else slotAfter lengths placed l := by
  by_cases hl : l = 0
  · subst hl
    rw [if_neg (by omega), slotAfter, slotAfter, if_pos rfl, if_pos rfl]
  · rw [slotAfter, slotAfter, if_neg hl, if_neg hl, count_take hl, count_take hl, Nat.count_succ]
    by_cases hLen : len lengths placed = l
    · rw [if_pos hLen, if_pos ⟨hLen ▸ hl, hLen.symm⟩]
      omega
    · rw [if_neg hLen, if_neg fun h => hLen h.2.symm]
      rfl

theorem slotAfter_len {placed : Nat} (h : placed ∈ Canonical.symbols lengths) :
    slotAfter lengths placed (len lengths placed) = slot lengths placed := by
  rw [slotAfter, if_neg (mem_symbols.mp h).2, slot, rank]

/-! ## Room for the codes -/

theorem load_eq_kraft (h : ∀ s ∈ symbols lengths, len lengths s ≤ l) : (load lengths l : ℚ) = 2 ^ l * kraft lengths := by
  rw [load, kraft, Finset.filter_true_of_mem h, Finset.mul_sum, Nat.cast_sum]
  refine Finset.sum_congr rfl fun s hs => ?_
  rw [Nat.cast_pow, Nat.cast_ofNat, pow_sub₀ _ (by norm_num) (h s hs), one_div, inv_pow]

theorem kraft_le_one_iff (h : ∀ s ∈ symbols lengths, len lengths s ≤ l) :
    kraft lengths ≤ 1 ↔ ∀ j ≤ l, load lengths j ≤ 2 ^ j := by
  have hPower : (0 : ℚ) < 2 ^ l := by positivity
  have hWhole : kraft lengths ≤ 1 ↔ load lengths l ≤ 2 ^ l := by
    rw [← Nat.cast_le (α := ℚ), load_eq_kraft h, Nat.cast_pow, Nat.cast_ofNat, mul_le_iff_le_one_right hPower]
  rw [hWhole]
  constructor
  · intro hLoad j hj
    have hScaled := (load_mul_le hj).trans hLoad
    rw [show 2 ^ l = 2 ^ j * 2 ^ (l - j) by rw [← pow_add, Nat.add_sub_cancel' hj]] at hScaled
    exact Nat.le_of_mul_le_mul_right hScaled (by positivity)
  · exact fun hLoad => hLoad l le_rfl

theorem code_lt_load (h : s ∈ symbols lengths) : code lengths s < load lengths (len lengths s) := by
  rw [code_eq h, load_eq]
  exact Nat.add_lt_add_left (rank_lt h) _

def Fits (lengths : List Nat) : Prop := ∀ l, load lengths l ≤ 2 ^ l

theorem fits_of_kraft (h : kraft lengths ≤ 1) : Fits lengths := by
  intro l
  have hEntries : ∀ s ∈ symbols lengths, len lengths s ≤ max l (lengths.foldr max 0) := by
    intro s hs
    have hMem : len lengths s ∈ lengths := by
      rw [len, List.getD_eq_getElem?_getD, List.getElem?_eq_getElem (mem_symbols.mp hs).1, Option.getD_some]
      exact List.getElem_mem _
    exact (List.le_max_of_le' 0 hMem le_rfl).trans (le_max_right _ _)
  exact (kraft_le_one_iff hEntries).mp h l (le_max_left _ _)

@[simp] theorem length_codeBits (lengths : List Nat) (s : Nat) : (codeBits lengths s).length = len lengths s :=
  length_bitsOf _ _

theorem value_codeBits (hFits : Fits lengths) (h : s ∈ symbols lengths) : value (codeBits lengths s) = code lengths s :=
  value_bitsOf ((code_lt_load h).trans_le (hFits _))

def Undecided (lengths : List Nat) (bits : List Bool) : Prop :=
  ∀ j ≤ bits.length, load lengths j ≤ value (bits.take j)

theorem undecided_nil : Undecided lengths [] := by
  intro j hj
  obtain rfl := Nat.le_zero.mp hj
  simp [load_zero]

theorem Undecided.snoc {bits : List Bool} {bit : Bool} (h : Undecided lengths bits)
    (hLoad : load lengths (bits.length + 1) ≤ value (bits ++ [bit])) : Undecided lengths (bits ++ [bit]) := by
  intro j hj
  rw [List.length_append, List.length_singleton] at hj
  rcases Nat.eq_or_lt_of_le hj with rfl | hLess
  · rwa [List.take_of_length_le (by simp)]
  · rw [List.take_append_of_le_length (by omega)]
    exact h j (by omega)

theorem Undecided.not_prefix {bits rest : List Bool} (hFits : Fits lengths) (h : Undecided lengths bits)
    (hs : s ∈ symbols lengths) (hLen : len lengths s ≤ bits.length) : ¬codeBits lengths s <+: bits ++ rest := by
  intro hPrefix
  have hTake : (bits.take (len lengths s)) = codeBits lengths s := by
    have hCode := List.prefix_iff_eq_take.mp hPrefix
    rw [length_codeBits, List.take_append_of_le_length hLen] at hCode
    exact hCode.symm
  have hLoad := h _ hLen
  rw [hTake, value_codeBits hFits hs] at hLoad
  exact absurd (code_lt_load hs) hLoad.not_gt

/-! ## Decoding -/

/-- One length after another, with the bits of the stream so far as a number, the first code of
the length and the place of its symbol: the place of the symbol that is found, and what follows its code. -/
def scan : List Nat → Nat → Nat → Nat → List Bool → Option (Nat × List Bool)
  | [], _, _, _, _ => none
  | _ :: _, _, _, _, [] => none
  | count :: counts, soFar, first, index, bit :: bits =>
    if soFar + bit.toNat - first < count then some (index + (soFar + bit.toNat - first), bits)
    else scan counts (2 * (soFar + bit.toNat)) (2 * (first + count)) (index + count) bits

def Lookup (symbols : List Nat) (symbol : Nat) (rest : List Bool) (found : Option (Nat × List Bool)) : Prop :=
  ∃ slot, found = some (slot, rest) ∧ symbols[slot]? = some symbol

def tallies (lengths : List Nat) (start count : Nat) : List Nat := (List.range' start count).map (tally lengths)

inductive Scanned (lengths : List Nat) (longest : Nat) (bits : List Bool) : Option (Nat × List Bool) → Prop
  | code (s : Nat) (rest : List Bool) : s ∈ symbols lengths → bits = codeBits lengths s ++ rest →
    Scanned lengths longest bits (some (slot lengths s, rest))
  | none : (∀ s ∈ symbols lengths, len lengths s ≤ longest → ¬codeBits lengths s <+: bits) →
    Scanned lengths longest bits none

theorem scanned_from (hFits : Fits lengths) (before rest : List Bool) (count : Nat) (h : Undecided lengths before) :
    Scanned lengths (before.length + count) (before ++ rest)
      (scan (tallies lengths (before.length + 1) count) (2 * value before) (first lengths (before.length + 1))
        (below lengths (before.length + 1)) rest) := by
  induction count generalizing before rest with
  | zero => exact .none fun s hs hLen => h.not_prefix hFits hs hLen
  | succ count ih =>
    rw [tallies, List.range'_succ, List.map_cons]
    cases rest with
    | nil =>
      refine .none fun s hs hLen hPrefix => ?_
      have hShort := hPrefix.length_le
      rw [length_codeBits, List.append_nil] at hShort
      exact h.not_prefix hFits hs hShort hPrefix
    | cons bit rest =>
      have hFirst : first lengths (before.length + 1) ≤ value (before ++ [bit]) := by
        have hLoad := h before.length le_rfl
        rw [List.take_length] at hLoad
        rw [first_succ, value_snoc]
        omega
      rw [scan, ← value_snoc]
      split
      · rename_i hFound
        -- the code is that of the symbol with as many of its length before it
        obtain ⟨s, hs, hLen, hRank⟩ := exists_rank hFound
        have hCode : codeBits lengths s = before ++ [bit] := by
          have hValue : code lengths s = value (before ++ [bit]) := by
            rw [code_eq hs, hLen, hRank]
            omega
          rw [codeBits, hValue, hLen]
          simpa using bitsOf_value (before ++ [bit])
        have hSlot : below lengths (before.length + 1) + (value (before ++ [bit]) - first lengths (before.length + 1)) =
            slot lengths s := by rw [slot, hLen, hRank]
        rw [hSlot]
        exact .code s rest hs (by rw [hCode]; simp)
      · rename_i hMissed
        have hLoad : load lengths (before.length + 1) ≤ value (before ++ [bit]) := by
          rw [load_eq]
          omega
        have hNext := ih (before ++ [bit]) rest (h.snoc hLoad)
        rw [List.length_append, List.length_singleton, first_succ, load_eq, below_succ] at hNext
        simpa [tallies, Nat.add_assoc, Nat.add_comm 1] using hNext

theorem scanned (hFits : Fits lengths) (longest : Nat) (bits : List Bool) :
    Scanned lengths longest bits (scan (tallies lengths 1 longest) 0 0 0 bits) := by
  have hWhole := scanned_from hFits [] bits longest undecided_nil
  simpa [first_succ, load_zero, below, tally] using hWhole

theorem not_prefix_of_longer (hFits : Fits lengths) (hs : s ∈ symbols lengths) (ht : t ∈ symbols lengths)
    (hLonger : len lengths s < len lengths t) : ¬codeBits lengths s <+: codeBits lengths t := by
  rintro ⟨rest, hRest⟩
  have hLength := congrArg List.length hRest
  rw [List.length_append, length_codeBits, length_codeBits] at hLength
  have hValue := congrArg value hRest
  rw [value_append, value_codeBits hFits hs, value_codeBits hFits ht, code_eq ht] at hValue
  have hLow := load_mul_le_first lengths hLonger
  have hHigh : (code lengths s + 1) * 2 ^ rest.length ≤ load lengths (len lengths s) * 2 ^ rest.length :=
    Nat.mul_le_mul_right _ (code_lt_load hs)
  rw [show len lengths t - len lengths s = rest.length by omega] at hLow
  have hRoom := value_lt rest
  rw [add_mul, one_mul] at hHigh
  omega

theorem eq_of_codeBits_eq (hFits : Fits lengths) (hs : s ∈ symbols lengths) (ht : t ∈ symbols lengths)
    (h : codeBits lengths s = codeBits lengths t) : s = t := by
  have hLen : len lengths s = len lengths t := by
    rw [← length_codeBits lengths s, h, length_codeBits]
  have hCode : code lengths s = code lengths t := by
    rw [← value_codeBits hFits hs, h, value_codeBits hFits ht]
  rw [code_eq hs, code_eq ht, hLen] at hCode
  exact slot_inj hs ht (by rw [slot, slot, hLen, Nat.add_left_cancel hCode])

theorem codeBits_unique {bits : List Bool} (hFits : Fits lengths) (hs : s ∈ symbols lengths) (ht : t ∈ symbols lengths)
    (hsBits : codeBits lengths s <+: bits) (htBits : codeBits lengths t <+: bits) : s = t := by
  rcases lt_trichotomy (len lengths s) (len lengths t) with hLess | hSame | hMore
  · refine absurd (List.prefix_of_prefix_length_le hsBits htBits ?_) (not_prefix_of_longer hFits hs ht hLess)
    rw [length_codeBits, length_codeBits]
    exact hLess.le
  · refine eq_of_codeBits_eq hFits hs ht (List.IsPrefix.eq_of_length ?_ (by simp [hSame]))
    exact List.prefix_of_prefix_length_le hsBits htBits (by simp [hSame])
  · refine absurd (List.prefix_of_prefix_length_le htBits hsBits ?_) (not_prefix_of_longer hFits ht hs hMore)
    rw [length_codeBits, length_codeBits]
    exact hMore.le

theorem scan_code {longest : Nat} {bits : List Bool} (hFits : Fits lengths) (hs : s ∈ symbols lengths)
    (hLen : len lengths s ≤ longest) (h : codeBits lengths s <+: bits) :
    scan (tallies lengths 1 longest) 0 0 0 bits = some (slot lengths s, bits.drop (len lengths s)) := by
  have hScan := scanned hFits longest bits
  generalize scan (tallies lengths 1 longest) 0 0 0 bits = result at hScan ⊢
  cases hScan with
  | code t rest ht hBits =>
    obtain rfl := codeBits_unique hFits hs ht h ⟨rest, hBits.symm⟩
    rw [hBits, List.drop_left' (length_codeBits lengths s)]
  | none hNone => exact absurd h (hNone s hs hLen)

theorem scan_none {longest : Nat} {bits : List Bool} (hFits : Fits lengths)
    (h : ∀ s ∈ symbols lengths, ¬codeBits lengths s <+: bits) : scan (tallies lengths 1 longest) 0 0 0 bits = none := by
  have hScan := scanned hFits longest bits
  generalize scan (tallies lengths 1 longest) 0 0 0 bits = result at hScan ⊢
  cases hScan with
  | code t rest ht hBits => exact absurd ⟨rest, hBits.symm⟩ (h t ht)
  | none => rfl

/-- A decoder gives the symbol whose code begins its stream and takes the bits of the code; it
fails in the given way on a stream that begins with no code. -/
structure Decodes {ρ ε : Type} (lengths : List Nat) (coded : Nat → List Bool) (ready : ρ → Prop) (stream : ρ → List Bool)
    (fails : ε → Prop) (decode : ρ → Except ε (Nat × ρ)) : Prop where
  code : ∀ r, ready r → ∀ s ∈ symbols lengths, coded s <+: stream r →
    ∃ t, decode r = .ok (s, t) ∧ ready t ∧ stream t = (stream r).drop (len lengths s)
  other : ∀ r, ready r → (∀ s ∈ symbols lengths, ¬coded s <+: stream r) → ∃ e, decode r = .error e ∧ fails e

end OpenHalfLife.Canonical
