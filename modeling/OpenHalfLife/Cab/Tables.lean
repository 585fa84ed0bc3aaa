import OpenHalfLife.Cab.BitReader
import OpenHalfLife.Lib.Canonical

/-! # The tables of the LZX decoder are canonical

A table is built from path lengths unless they ask for more codes than there
are. Its counts are those of the lengths, and its symbols stand in the order of their codes.
-/

namespace OpenHalfLife.Cab

open Machine Canonical

set_option autoImplicit false

namespace HuffmanTable

variable {σ : Type} {s : σ} {lengths : List Nat}

/-- The lengths are short enough and leave room for all codes. -/
structure Admitted (lengths : List Nat) : Prop where
  short : ∀ length ∈ lengths, length ≤ maxCodeBits
  room : ∀ l ≤ maxCodeBits, load lengths l ≤ 2 ^ l

abbrev Rejects (lengths : List Nat) (s : σ) (stop : Stop CabError) (t : σ) : Prop :=
  stop = .error .decompressionFailed ∧ t = s ∧ ¬Admitted lengths

theorem getElem?_of_isPrefix {α : Type} {done values : List α} {value : α} (h : done ++ [value] <+: values) :
    values[done.length]? = some value := by
  obtain ⟨rest, rfl⟩ := h
  simp

/-! ## Counts -/

theorem countLength_ensures {done : List Nat} {length : Nat} (h : done.length + 1 < 2 ^ 16)
    (hPrefix : done ++ [length] <+: lengths) :
    Ensures (countLength ((List.range 17).map done.count) length) s
      (fun counts t => t = s ∧ length ≤ maxCodeBits ∧ counts = (List.range 17).map (done ++ [length]).count)
      (Rejects lengths s) := by
  have hCount : done.count length ≤ done.length := List.count_le_length
  rw [countLength, ensures_ite]
  refine ⟨fun hLong => ⟨rfl, rfl, fun hAdmitted => ?_⟩, fun hLength => ?_⟩
  · exact absurd (hAdmitted.short length (hPrefix.subset (by simp))) (by omega)
  · rw [maxCodeBits] at hLength
    rw [ensures_bind, ensures_getOrPanic (by simp; omega), ensures_bind,
      ensures_addOrPanic (by simp; omega), ensures_setOrPanic (by simp; omega)]
    refine ⟨rfl, by rw [maxCodeBits]; omega, ?_⟩
    rw [set_map_range]
    congr 1
    funext l
    by_cases hl : l = length
    · subst hl
      simp
    · simp [Function.update_of_ne hl, List.count_append, Ne.symm hl]

theorem countLengths_ensures (h : lengths.length < 2 ^ 16) :
    Ensures (lengths.foldlM countLength (List.replicate (maxCodeBits + 1) 0)) s
      (fun counts t => t = s ∧ (∀ length ∈ lengths, length ≤ maxCodeBits) ∧
        counts = (List.range 17).map lengths.count) (Rejects lengths s) := by
  refine ensures_foldlM (fun done counts t => t = s ∧ (∀ length ∈ done, length ≤ maxCodeBits) ∧
    counts = (List.range 17).map done.count) ?_ ⟨rfl, by simp, by decide⟩ fun _ _ h => h
  rintro done length counts t hPrefix ⟨rfl, hDone, rfl⟩
  have hLength := hPrefix.length_le
  rw [List.length_append, List.length_singleton] at hLength
  refine (countLength_ensures (by omega) hPrefix).mono ?_ fun _ _ h => h
  rintro counts u ⟨rfl, hLe, rfl⟩
  refine ⟨rfl, ?_, rfl⟩
  intro l hl
  rcases List.mem_append.mp hl with hl | hl
  · exact hDone l hl
  · rwa [List.mem_singleton.mp hl]

theorem tally_le (lengths : List Nat) (length : Nat) : tally lengths length ≤ lengths.length := by
  rw [tally]
  split
  · exact Nat.zero_le _
  · exact List.count_le_length

theorem below_le (lengths : List Nat) (length : Nat) : below lengths length ≤ length * lengths.length := by
  induction length with
  | zero => simp [below]
  | succ length ih =>
    have := tally_le lengths length
    rw [below_succ, Nat.succ_mul]
    omega

theorem counts_eq : ((List.range 17).map lengths.count).set 0 0 = (List.range 17).map (tally lengths) := by
  rw [set_map_range]
  congr 1
  funext l
  simp [Function.update_apply, tally]

theorem drop_counts : ((List.range 17).map (tally lengths)).drop 1 = tallies lengths 1 maxCodeBits := by
  rw [tallies, ← List.map_drop]
  rfl

/-! ## Room -/

theorem subscribe_ensures (h : lengths.length < 2 ^ 16) :
    Ensures ((tallies lengths 1 maxCodeBits).foldlM subscribe 1) s
      (fun _ t => t = s ∧ ∀ l ≤ maxCodeBits, load lengths l ≤ 2 ^ l) (Rejects lengths s) := by
  refine ensures_foldlM (fun done left t => t = s ∧ left = 2 ^ done.length - (load lengths done.length : Int) ∧
    ∀ l ≤ done.length, load lengths l ≤ 2 ^ l) ?_ ⟨rfl, by simp [load_zero], ?_⟩ ?_
  · rintro done count left t hPrefix ⟨rfl, rfl, hRoom⟩
    have hEntry := getElem?_of_isPrefix hPrefix
    have hDone := hPrefix.length_le
    rw [List.length_append, List.length_singleton, tallies, List.length_map, List.length_range', maxCodeBits] at hDone
    rw [tallies, List.getElem?_map, List.getElem?_range' (by rw [maxCodeBits]; omega), Option.map_some, one_mul,
      Option.some.injEq] at hEntry
    have hCount : count ≤ lengths.length := hEntry ▸ tally_le lengths _
    have hHere := hRoom done.length le_rfl
    have hPower : 2 ^ done.length ≤ 2 ^ 15 := Nat.pow_le_pow_right (by decide) (by omega)
    have hShift : Int.bmod ((2 ^ done.length - (load lengths done.length : Int)) * 2) (2 ^ 32) =
        (2 ^ done.length - (load lengths done.length : Int)) * 2 := by
      zify at hHere hPower
      rw [Int.bmod_eq_of_le] <;> omega
    have hNext : (2 ^ done.length - (load lengths done.length : Int)) * 2 - count =
        2 ^ (done.length + 1) - (load lengths (done.length + 1) : Int) := by
      rw [@load_eq lengths (done.length + 1), first_succ, Nat.add_comm done.length 1, hEntry, pow_add]
      push_cast
      ring
    rw [subscribe, ensures_bind, hShift, hNext]
    have hWidth : -2 ^ (32 - 1) ≤ 2 ^ (done.length + 1) - (load lengths (done.length + 1) : Int) ∧
        2 ^ (done.length + 1) - (load lengths (done.length + 1) : Int) < 2 ^ (32 - 1) := by
      rw [← hNext]
      zify at hHere hPower hCount h
      constructor <;> omega
    rw [ensures_signedOrPanic hWidth, ensures_ite]
    refine ⟨fun hLeft => ⟨rfl, rfl, fun hAdmitted => ?_⟩, fun hLeft => ⟨rfl, by simp, fun l hl => ?_⟩⟩
    · have hFull := hAdmitted.room (done.length + 1) (by rw [maxCodeBits]; omega)
      zify at hFull
      omega
    · rw [List.length_append, List.length_singleton] at hl
      rcases Nat.eq_or_lt_of_le hl with rfl | hLess
      · zify
        omega
      · exact hRoom l (by omega)
  · intro l hl
    obtain rfl := Nat.le_zero.mp hl
    simp [load_zero]
  · rintro left t ⟨rfl, -, hRoom⟩
    refine ⟨rfl, fun l hl => hRoom l ?_⟩
    rwa [tallies, List.length_map, List.length_range']

/-! ## Symbols -/

theorem offsets_ensures {E : Stop CabError → σ → Prop} (h : lengths.length < 2 ^ 16) :
    Ensures ((((List.range 17).map (tally lengths)).zipIdx.drop 1).foldlM nextOffset
      (List.replicate (maxCodeBits + 2) 0)) s
      (fun offsets t => t = s ∧ offsets = (List.range 18).map (below lengths)) E := by
  refine ensures_foldlM (fun done offsets t => t = s ∧ done.length ≤ 16 ∧ offsets =
    (List.range 18).map fun l => if l ≤ done.length + 1 then below lengths l else 0) ?_ ⟨rfl, by simp, ?_⟩ ?_
  · rintro done ⟨count, index⟩ offsets t hPrefix ⟨rfl, hDone, rfl⟩
    have hEntry := getElem?_of_isPrefix hPrefix
    have hLength := hPrefix.length_le
    simp only [List.length_append, List.length_singleton, List.length_drop, List.length_zipIdx,
      List.length_map, List.length_range] at hLength
    simp only [List.getElem?_drop, List.getElem?_zipIdx, List.getElem?_map,
      List.getElem?_range (show 1 + done.length < 17 by omega), Option.map_some, Option.some.injEq,
      Prod.mk.injEq, Nat.zero_add] at hEntry
    obtain ⟨rfl, rfl⟩ := hEntry
    have hBelow := below_le lengths (1 + done.length)
    have hTally := tally_le lengths (1 + done.length)
    have hBound : (1 + done.length) * lengths.length ≤ 17 * 2 ^ 16 := by
      exact Nat.mul_le_mul (by omega) h.le
    have hGet : 1 + done.length ≤ done.length + 1 := by omega
    rw [nextOffset, ensures_bind, ensures_getOrPanic (by simp; omega), ensures_bind,
      ensures_addOrPanic (by simp [hGet]; omega), ensures_setOrPanic (by simp; omega), set_map_range]
    refine ⟨rfl, by simp; omega, ?_⟩
    congr 1
    funext l
    simp only [List.getElem_map, List.getElem_range, hGet, if_true, List.length_append,
      List.length_singleton, Function.update_apply]
    by_cases hl : l = 1 + done.length + 1
    · rw [if_pos hl, if_pos (by omega), hl, below_succ]
    · rw [if_neg hl]
      by_cases hLe : l ≤ done.length + 1
      · rw [if_pos hLe, if_pos (by omega)]
      · rw [if_neg hLe, if_neg (by omega)]
  · apply List.ext_getElem
    · simp [maxCodeBits]
    · intro l hl _
      simp only [List.getElem_replicate, List.getElem_map, List.getElem_range, List.length_nil]
      split
      · have hCases : l = 0 ∨ l = 1 := by omega
        rcases hCases with rfl | rfl <;> simp [below, tally]
      · rfl
  · rintro offsets t ⟨rfl, -, rfl⟩
    refine ⟨rfl, ?_⟩
    apply List.map_congr_left
    intro l hl
    rw [List.mem_range] at hl
    simp only [List.length_drop, List.length_zipIdx, List.length_map, List.length_range]
    rw [if_pos (by omega)]

structure Placed (lengths : List Nat) (placed : Nat) (placement : Placement) : Prop where
  total : placement.symbols.length = below lengths 17
  symbols_lt : ∀ symbol ∈ placement.symbols, symbol < 2 ^ 16
  slots : ∀ symbol ∈ Canonical.symbols lengths, symbol < placed → placement.symbols[slot lengths symbol]? = some symbol
  cursor_eq : placement.cursor = (List.range 18).map (slotAfter lengths placed)

theorem place_ensures {E : Stop CabError → σ → Prop} {placed length : Nat} {placement : Placement}
    (h : lengths.length < 2 ^ 16) (hLe : ∀ length ∈ lengths, length ≤ maxCodeBits) (hPlaced : placed < lengths.length)
    (hLen : len lengths placed = length) (hSoFar : Placed lengths placed placement) :
    Ensures (place placement (length, placed)) s
      (fun next t => t = s ∧ Placed lengths (placed + 1) next) E := by
  subst hLen
  obtain ⟨symbols, cursor⟩ := placement
  obtain ⟨hTotal, hSymbols, hSlots, hCursor⟩ := hSoFar
  dsimp only at hTotal hSymbols hSlots hCursor
  subst hCursor
  have hShort : len lengths placed ≤ 16 := len_le hLe placed
  rw [place, ensures_ite]
  refine ⟨fun hNonzero => ?_, fun hZero => ⟨rfl, hTotal, hSymbols, ?_, ?_⟩⟩
  · dsimp only at hNonzero
    have hSymbol : placed ∈ Canonical.symbols lengths := mem_symbols.mpr ⟨hPlaced, hNonzero⟩
    have hRoom := slot_lt hSymbol (show len lengths placed < 17 by omega)
    have hSmall := below_le lengths 17
    rw [ensures_bind, ensures_getOrPanic (by simp; omega)]
    simp only [List.getElem_map, List.getElem_range, slotAfter_len hSymbol]
    rw [if_neg (by omega), ensures_bind, ensures_setOrPanic (by omega), ensures_bind, ensures_addOrPanic (by omega),
      ensures_bind, ensures_setOrPanic (by simp; omega), set_map_range]
    refine ⟨rfl, by simpa using hTotal, ?_, ?_, ?_⟩
    · intro x hx
      rcases List.mem_or_eq_of_mem_set hx with hx | rfl
      · exact hSymbols x hx
      · omega
    · intro symbol hMem hLess
      dsimp only
      by_cases hSame : symbol = placed
      · subst hSame
        rw [List.getElem?_set_self (by omega)]
      · rw [List.getElem?_set_ne fun hSlot => hSame (slot_inj hMem hSymbol hSlot.symm)]
        exact hSlots symbol hMem (by omega)
    · refine List.map_congr_left fun l _ => ?_
      rw [slotAfter_succ]
      by_cases hl : l = len lengths placed
      · subst hl
        rw [Function.update_self, if_pos ⟨hNonzero, rfl⟩, slotAfter_len hSymbol]
      · rw [Function.update_of_ne hl, if_neg fun h => hl h.2]
  · intro symbol hMem hLess
    have hZero : len lengths placed = 0 := not_not.mp hZero
    have hNe : symbol ≠ placed := by
      rintro rfl
      exact (mem_symbols.mp hMem).2 hZero
    exact hSlots symbol hMem (by omega)
  · refine List.map_congr_left fun l _ => ?_
    rw [slotAfter_succ, if_neg fun h => hZero h.1]

theorem placeAll_ensures {E : Stop CabError → σ → Prop} (h : lengths.length < 2 ^ 16)
    (hLe : ∀ length ∈ lengths, length ≤ maxCodeBits) :
    Ensures (lengths.zipIdx.foldlM place
      ⟨List.replicate (below lengths 17) 0, (List.range 18).map (below lengths)⟩) s
      (fun placement t => t = s ∧ Placed lengths lengths.length placement) E := by
  refine ensures_foldlM (fun done placement t => t = s ∧ Placed lengths done.length placement)
    ?_ ⟨rfl, ?_, ?_, ?_, ?_⟩ fun placement t hPlaced => by simpa using hPlaced
  · rintro done ⟨length, symbol⟩ placement t hPrefix ⟨rfl, hPlaced⟩
    have hEntry := getElem?_of_isPrefix hPrefix
    have hLess := hPrefix.length_le
    rw [List.length_append, List.length_singleton, List.length_zipIdx] at hLess
    rw [List.getElem?_zipIdx, List.getElem?_eq_getElem (by omega), Option.map_some, Option.some.injEq, Prod.mk.injEq,
      Nat.zero_add] at hEntry
    obtain ⟨hLength, rfl⟩ := hEntry
    have hLen : len lengths done.length = length := by
      rw [len, List.getD_eq_getElem?_getD, List.getElem?_eq_getElem (by omega), Option.getD_some, hLength]
    rw [List.length_append, List.length_singleton]
    exact place_ensures h hLe hLess hLen hPlaced
  · simp
  · intro symbol hSymbol
    have hZero : symbol = 0 := by
      dsimp only at hSymbol
      exact List.eq_of_mem_replicate hSymbol
    omega
  · intro symbol _ hLess
    exact absurd hLess (Nat.not_lt_zero _)
  · exact List.map_congr_left fun l _ => by simp [slotAfter]

/-! ## The table -/

structure OfLengths (lengths : List Nat) (table : HuffmanTable) : Prop where
  counts_eq : table.counts = (List.range 17).map (tally lengths)
  symbols_lt : ∀ symbol ∈ table.symbols, symbol < 2 ^ 16
  slots : ∀ symbol ∈ Canonical.symbols lengths, table.symbols[slot lengths symbol]? = some symbol

theorem new_ensures (h : lengths.length < 2 ^ 16) :
    Ensures (new lengths) s (fun table t => t = s ∧ Admitted lengths ∧ OfLengths lengths table) (Rejects lengths s) := by
  rw [new, ensures_bind]
  refine (countLengths_ensures h).mono ?_ fun _ _ h => h
  rintro counts _ ⟨rfl, hLengths, rfl⟩
  rw [ensures_bind, ensures_setOrPanic (by simp), counts_eq, ensures_bind, drop_counts]
  refine (subscribe_ensures h).mono ?_ fun _ _ h => h
  rintro _ _ ⟨rfl, hRoom⟩
  rw [ensures_bind]
  refine (offsets_ensures h).mono ?_ fun _ _ h => h
  rintro offsets _ ⟨rfl, rfl⟩
  rw [ensures_bind, ensures_getOrPanic (by simp [maxCodeBits]), ensures_bind]
  simp only [maxCodeBits, List.getElem_map, List.getElem_range]
  refine (placeAll_ensures h hLengths).mono ?_ fun _ _ h => h
  rintro placement _ ⟨rfl, hPlaced⟩
  exact ⟨rfl, ⟨hLengths, hRoom⟩, rfl, hPlaced.symbols_lt,
    fun symbol hMem => hPlaced.slots symbol hMem (mem_symbols.mp hMem).1⟩

theorem new_ok_iff (h : lengths.length < 2 ^ 16) (hShort : ∀ length ∈ lengths, length ≤ maxCodeBits) :
    (∃ table, (new lengths).exec s = (.ok table, s)) ↔ kraft lengths ≤ 1 := by
  rw [kraft_le_one_iff fun symbol _ => len_le hShort symbol]
  have hNew := (@new_ensures σ s lengths h).exec
  constructor
  · rintro ⟨table, hTable⟩
    exact (hNew.of_ok hTable).2.2.1.room
  · intro hRoom
    have hBuilt : Ensures (new lengths) s (fun table t => (new lengths).exec s = (.ok table, t) ∧ t = s)
        fun _ _ => False :=
      hNew.mono (fun _ _ hBuilt => ⟨hBuilt.1, hBuilt.2.1⟩) fun _ _ hFail => hFail.2.2.2 ⟨hShort, hRoom⟩
    obtain ⟨table, t, hExec, -, rfl⟩ := hBuilt.exists_ok
    exact ⟨table, hExec⟩

end HuffmanTable

end OpenHalfLife.Cab
