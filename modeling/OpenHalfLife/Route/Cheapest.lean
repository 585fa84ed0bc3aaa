import Mathlib.Data.List.AList
import OpenHalfLife.Lib.Weighted
import OpenHalfLife.Route.Paths

/-! # Cheapest paths

Every turn of an expansion uses something up, so an expansion ends. The first
one takes its cells in the order of their costs: what was expanded is never
reached more cheaply, and what a cell costs in the end is the least of any chain
of crossings from the start.
-/

namespace OpenHalfLife.Route

set_option autoImplicit false

open Weighted

variable {Cell : Type} [LinearOrder Cell]

theorem popFrontier_none {queue : List (Nat × Cell)} : popFrontier queue = none ↔ queue = [] := by
  cases queue with
  | nil => exact iff_of_true rfl rfl
  | cons entry queue =>
    refine iff_of_false (fun popped => ?_) (List.cons_ne_nil _ _)
    rw [popFrontier] at popped
    split at popped
    · cases popped
    · split at popped <;> cases popped

theorem popFrontier_some {queue rest : List (Nat × Cell)} {least : Nat × Cell} (popped : popFrontier queue = some (least, rest)) :
    queue.Perm (least :: rest) ∧ ∀ entry ∈ rest, least.1 ≤ entry.1 := by
  induction queue generalizing least rest with
  | nil => cases popped
  | cons entry queue ih =>
    rw [popFrontier] at popped
    split at popped
    · next none =>
      obtain ⟨rfl, rfl⟩ := Prod.mk.inj (Option.some.inj popped)
      rw [popFrontier_none.mp none]
      exact ⟨List.Perm.refl _, fun other noOther => absurd noOther List.not_mem_nil⟩
    · next first others found =>
      obtain ⟨same, lower⟩ := ih found
      split at popped
      · next before =>
        obtain ⟨rfl, rfl⟩ := Prod.mk.inj (Option.some.inj popped)
        have below : entry.1 ≤ first.1 := before.elim Nat.le_of_lt fun tie => Nat.le_of_eq tie.1
        exact ⟨same.cons entry, List.forall_mem_cons.mpr ⟨below, fun other inRest => below.trans (lower other inRest)⟩⟩
      · next after =>
        obtain ⟨rfl, rfl⟩ := Prod.mk.inj (Option.some.inj popped)
        refine ⟨(same.cons entry).trans (List.Perm.swap _ _ _), List.forall_mem_cons.mpr ⟨?_, lower⟩⟩
        exact Nat.le_of_not_lt fun less => after (.inl less)

namespace Walk

variable (cellOf : Vec3 → Cell) (cap : Nat)

def size (walk : Walk Cell) : Nat := walk.trace.landing.entries.length

/-! ## What a crossing changes -/

/-- `next` is the walk after a crossing that made its cell cheaper, or reached it. -/
structure Improved (walk next : Walk Cell) (landing : Vec3) (link : ParentLink Cell) (total : Nat) : Prop where
  landed : next.trace.landing = walk.trace.landing.insert (cellOf landing) landing
  linked : next.trace.parent = walk.trace.parent.insert (cellOf landing) link
  spent : next.cost = walk.cost.insert (cellOf landing) total
  queued : next.queue = (total, cellOf landing) :: walk.queue
  arrived :
    (∃ best, walk.cost.lookup (cellOf landing) = some best ∧ total < best ∧ next.trace.order = walk.trace.order) ∨
    (walk.cost.lookup (cellOf landing) = none ∧ walk.size < cap ∧ next.trace.order = walk.trace.order ++ [landing])

theorem relax_improves (walk : Walk Cell) (start landing : Vec3) (link : ParentLink Cell) (total : Nat) :
    (walk.relax cellOf cap start landing link total = walk.cross false start landing link ∧
      ((∃ best, walk.cost.lookup (cellOf landing) = some best ∧ best ≤ total) ∨ cap ≤ walk.size)) ∨
    Improved cellOf cap walk (walk.relax cellOf cap start landing link total) landing link total := by
  rw [relax]
  cases known : walk.cost.lookup (cellOf landing) with
  | none =>
    by_cases full : walk.trace.landing.entries.length ≥ cap
    · exact .inl ⟨by simp [full], .inr full⟩
    · right
      simp only [full, if_false]
      exact ⟨rfl, rfl, rfl, rfl, .inr ⟨known, Nat.lt_of_not_le full, rfl⟩⟩
  | some best =>
    by_cases cheap : best ≤ total
    · exact .inl ⟨by simp [cheap], .inl ⟨best, rfl, cheap⟩⟩
    · right
      simp only [cheap, if_false]
      exact ⟨rfl, rfl, rfl, rfl, .inl ⟨best, known, Nat.lt_of_not_le cheap, rfl⟩⟩

def lands (round : Geometry) (position : Vec3) : Attempt → Option (Vec3 × EdgeKind × Option Vec3)
  | .ladder up => (round.ladderEdge position up).map fun edge => (edge.1, .ladder edge.2 up, none)
  | .direction direction =>
    match round.cross position direction (round.onLadder position) with
    | .landed landing kind via => some (landing, kind, via)
    | .blocked _ => none

def tries (round : Geometry) (position : Vec3) : List Attempt :=
  (if round.onLadder position then [Attempt.ladder true, Attempt.ladder false] else []) ++ directions.map Attempt.direction

def aside (walk : Walk Cell) (queue : List (Nat × Cell)) (frontier : List BrushId) : Walk Cell :=
  { walk with trace := { walk.trace with frontier := frontier }, queue := queue }

theorem attempt_cases (walk : Walk Cell) (round : Geometry) (origin : Cell) (position : Vec3) (spent : Nat) (try' : Attempt) :
    (∃ landing kind via, lands round position try' = some (landing, kind, via) ∧
      walk.attempt cellOf cap round origin position spent try' =
        walk.relax cellOf cap position landing ⟨origin, kind, via⟩ (saturate (spent + edgeCost kind position landing))) ∨
    (lands round position try' = none ∧
      ∃ frontier, walk.attempt cellOf cap round origin position spent try' = walk.aside walk.queue frontier) := by
  cases try' with
  | ladder up =>
    rw [attempt, lands]
    cases round.ladderEdge position up with
    | none => exact .inr ⟨rfl, walk.trace.frontier, rfl⟩
    | some edge => exact .inl ⟨edge.1, _, _, rfl, rfl⟩
  | direction direction =>
    rw [attempt, lands]
    cases round.cross position direction (round.onLadder position) with
    | landed landing kind via => exact .inl ⟨landing, kind, via, rfl, rfl⟩
    | blocked brush =>
      cases brush with
      | none => exact .inr ⟨rfl, walk.trace.frontier, rfl⟩
      | some brush => exact .inr ⟨rfl, walk.trace.frontier.insert brush, rfl⟩

/-! ## What every operation keeps -/

/-- A condition kept by every crossing, and by what is done to the queue and the frontier. -/
structure Lasting (holds : Walk Cell → Prop) : Prop where
  relax : ∀ walk start landing link total, holds walk → total ≤ maxCost →
    holds (walk.relax cellOf cap start landing link total)
  aside : ∀ walk queue frontier, holds walk → holds (walk.aside queue frontier)

section Lasts

variable {cellOf} {cap} {holds : Walk Cell → Prop} {walk next : Walk Cell}

theorem saturate_le (cost : Nat) : saturate cost ≤ maxCost := Nat.min_le_right _ _

theorem Lasting.attempt (lasting : Lasting cellOf cap holds) (holding : holds walk) (round : Geometry) (origin : Cell)
    (position : Vec3) (spent : Nat) (try' : Attempt) : holds (walk.attempt cellOf cap round origin position spent try') := by
  rcases walk.attempt_cases cellOf cap round origin position spent try' with ⟨landing, kind, via, -, same⟩ | ⟨-, frontier, same⟩
  · rw [same]
    exact lasting.relax walk _ _ _ _ holding (saturate_le _)
  · rw [same]
    exact lasting.aside walk _ _ holding

theorem Lasting.attempts (lasting : Lasting cellOf cap holds) (round : Geometry) (origin : Cell) (position : Vec3) (spent : Nat)
    (list : List Attempt) (holding : holds walk) : holds (walk.attempts cellOf cap round origin position spent list).1 := by
  induction list generalizing walk with
  | nil => exact holding
  | cons try' list ih =>
    rw [Walk.attempts]
    split
    · exact holding
    · exact ih (lasting.attempt holding round origin position spent try')

theorem Lasting.drain (lasting : Lasting cellOf cap holds) (round : Geometry) (fuel : Nat) (holding : holds walk)
    (ran : drain cellOf cap round fuel walk = some next) : holds next := by
  induction fuel generalizing walk with
  | zero => cases ran
  | succ fuel ih =>
    rw [Walk.drain] at ran
    split at ran
    · obtain rfl := Option.some.inj ran
      exact holding
    · next spent origin queue _ =>
      have popped : holds { walk with queue := queue } := lasting.aside walk queue walk.trace.frontier holding
      dsimp only at ran
      split at ran
      · exact ih popped ran
      · split at ran
        · exact ih popped ran
        · next position _ =>
          have tried := lasting.attempts round origin position spent
            ((if round.onLadder position then [Attempt.ladder true, Attempt.ladder false] else []) ++
              directions.map Attempt.direction) popped
          split at ran
          · next done same =>
            rw [same] at tried
            exact ih tried ran
          · next done same =>
            obtain rfl := Option.some.inj ran
            rw [same] at tried
            exact tried

theorem Lasting.perform (lasting : Lasting cellOf cap holds) (holding : holds walk) {operation : Operation Cell}
    (ran : walk.perform cellOf cap operation = some next) : holds next := by
  cases operation with
  | expand round fuel => exact lasting.drain round fuel (lasting.aside walk walk.queue [] holding) ran
  | ride board landing useYaw seconds =>
    obtain rfl := Option.some.inj ran
    rw [ride]
    split
    · exact lasting.relax walk _ _ _ _ holding (saturate_le _)
    · exact holding
  | requeueAll =>
    obtain rfl := Option.some.inj ran
    exact lasting.aside walk _ walk.trace.frontier holding

theorem Lasting.after (lasting : Lasting cellOf cap holds) {start : Vec3} (new : holds (Walk.new cellOf start))
    {operations : List (Operation Cell)} (ran : Walk.after cellOf cap start operations = some walk) : holds walk := by
  induction operations using List.reverseRecOn generalizing walk with
  | nil =>
    obtain rfl := Option.some.inj ran
    exact new
  | append_singleton operations operation ih =>
    rw [Walk.after, List.foldlM_append] at ran
    obtain ⟨before, ranBefore, last⟩ := Option.bind_eq_some_iff.mp ran
    rw [List.foldlM_cons] at last
    obtain ⟨after, ranLast, same⟩ := Option.bind_eq_some_iff.mp last
    obtain rfl := Option.some.inj same
    exact lasting.perform (ih ranBefore) ranLast

end Lasts

end Walk

/-! ## Maps -/

section Maps

variable {α : Type} {map : CellMap Cell α} {cell : Cell} {value : α}

theorem mem_of_lookup (found : map.lookup cell = some value) : cell ∈ map := AList.lookup_isSome.mp (by rw [found]; rfl)

theorem length_insert_of_mem (known : cell ∈ map) : (map.insert cell value).entries.length = map.entries.length := by
  have keys (m : CellMap Cell α) : m.entries.length = m.keys.length := (List.length_map _).symm
  have here : cell ∈ map.keys := AList.mem_keys.mp known
  rw [keys, keys, AList.keys_insert, List.length_cons, List.length_erase_of_mem here]
  exact Nat.succ_pred_eq_of_pos (List.length_pos_of_mem here)

theorem length_insert_of_notMem (fresh : cell ∉ map) : (map.insert cell value).entries.length = map.entries.length + 1 := by
  rw [AList.entries_insert_of_notMem fresh, List.length_cons]

def total : List (Sigma fun _ : Cell => Nat) → Nat
  | [] => 0
  | entry :: entries => entry.2 + total entries

theorem total_kerase {entries : List (Sigma fun _ : Cell => Nat)} {best : Nat} (found : entries.dlookup cell = some best) :
    total entries = best + total (entries.kerase cell) := by
  induction entries with
  | nil => cases found
  | cons entry entries ih =>
    obtain ⟨key, spent⟩ := entry
    by_cases here : cell = key
    · subst here
      rw [List.dlookup_cons_eq] at found
      obtain rfl := Option.some.inj found
      have first : List.kerase cell (⟨cell, spent⟩ :: entries) = entries := List.kerase_cons_eq rfl
      rw [first, total]
    · rw [List.dlookup_cons_ne _ _ here] at found
      rw [List.kerase_cons_ne here, total, total, ih found]
      exact Nat.add_left_comm _ _ _

theorem total_insert_of_lookup {cost : CellMap Cell Nat} {best spent : Nat} (found : cost.lookup cell = some best) :
    total (cost.insert cell spent).entries + best = spent + total cost.entries := by
  have split : total cost.entries = best + total (cost.entries.kerase cell) := total_kerase found
  rw [split, AList.entries_insert, total]
  dsimp only
  omega

theorem total_insert_of_notMem {cost : CellMap Cell Nat} {spent : Nat} (fresh : cell ∉ cost) :
    total (cost.insert cell spent).entries = spent + total cost.entries := by
  rw [AList.entries_insert_of_notMem fresh, total]

end Maps

namespace Walk

variable (cellOf : Vec3 → Cell) (cap : Nat)

/-- The maps have the same cells, each with a landing that lies in it, and the order lists each of them once. -/
structure Sane (walk : Walk Cell) : Prop where
  keys : ∀ cell, cell ∈ walk.cost ↔ cell ∈ walk.trace.landing
  placed : ∀ cell position, walk.trace.landing.lookup cell = some position → cellOf position = cell
  few : walk.size ≤ max cap 1
  once : (walk.trace.order.map cellOf).Nodup
  listed : ∀ cell, cell ∈ walk.trace.order.map cellOf ↔ cell ∈ walk.cost

variable {cellOf} {cap} {walk next : Walk Cell} {landing : Vec3} {link : ParentLink Cell} {spent : Nat}

theorem sane_new (start : Vec3) : Sane cellOf cap (Walk.new cellOf start) where
  keys cell := Iff.rfl
  placed cell position found := by
    obtain rfl : cell = cellOf start := List.mem_singleton.mp (mem_of_lookup found)
    exact congrArg cellOf (Option.some.inj (found.symm.trans (traced_new start).root))
  few := Nat.le_max_right _ _
  once := List.nodup_singleton _
  listed cell := Iff.rfl

theorem Improved.sane (improved : Improved cellOf cap walk next landing link spent) (sane : Sane cellOf cap walk) :
    Sane cellOf cap next where
  keys cell := by
    rw [improved.spent, improved.landed, AList.mem_insert, AList.mem_insert, sane.keys]
  placed cell position found := by
    rw [improved.landed] at found
    by_cases here : cell = cellOf landing
    · subst here
      rw [AList.lookup_insert] at found
      exact congrArg cellOf (Option.some.inj found).symm
    · rw [AList.lookup_insert_ne here] at found
      exact sane.placed cell position found
  few := by
    have few := sane.few
    rw [size, improved.landed]
    rcases improved.arrived with ⟨best, known, -, -⟩ | ⟨fresh, room, -⟩
    · have here : cellOf landing ∈ walk.trace.landing := (sane.keys _).mp (mem_of_lookup known)
      rw [length_insert_of_mem here]
      exact few
    · have away : cellOf landing ∉ walk.trace.landing := fun here => AList.lookup_eq_none.mp fresh ((sane.keys _).mpr here)
      rw [length_insert_of_notMem away]
      exact (Nat.succ_le_of_lt room).trans (Nat.le_max_left _ _)
  once := by
    rcases improved.arrived with ⟨best, -, -, same⟩ | ⟨fresh, -, longer⟩
    · rw [same]
      exact sane.once
    · rw [longer, List.map_append, List.nodup_append]
      refine ⟨sane.once, List.nodup_singleton _, fun cell old other new => ?_⟩
      rintro rfl
      rw [List.map_singleton, List.mem_singleton] at new
      exact AList.lookup_eq_none.mp fresh (new ▸ (sane.listed cell).mp old)
  listed cell := by
    rw [improved.spent, AList.mem_insert, ← sane.listed]
    rcases improved.arrived with ⟨best, known, -, same⟩ | ⟨-, -, longer⟩
    · rw [same]
      refine ⟨.inr, fun either => either.elim ?_ id⟩
      rintro rfl
      exact (sane.listed _).mpr (mem_of_lookup known)
    · rw [longer, List.map_append, List.mem_append, List.map_singleton, List.mem_singleton, or_comm]

/-- Only the queue, the frontier and the failed crossings may differ. -/
structure SameMaps (walk next : Walk Cell) : Prop where
  landing : next.trace.landing = walk.trace.landing
  parent : next.trace.parent = walk.trace.parent
  order : next.trace.order = walk.trace.order
  cost : next.cost = walk.cost

omit [LinearOrder Cell] in
theorem sameMaps_aside (walk : Walk Cell) (queue : List (Nat × Cell)) (frontier : List BrushId) :
    SameMaps walk (walk.aside queue frontier) := ⟨rfl, rfl, rfl, rfl⟩

omit [LinearOrder Cell] in
theorem sameMaps_cross (walk : Walk Cell) (start landing : Vec3) (link : ParentLink Cell) :
    SameMaps walk (walk.cross false start landing link) := ⟨rfl, rfl, rfl, rfl⟩

theorem SameMaps.sane (same : SameMaps walk next) (sane : Sane cellOf cap walk) : Sane cellOf cap next where
  keys := by rw [same.cost, same.landing]; exact sane.keys
  placed := by rw [same.landing]; exact sane.placed
  few := by rw [size, same.landing]; exact sane.few
  once := by rw [same.order]; exact sane.once
  listed := by rw [same.order, same.cost]; exact sane.listed

theorem lasting_sane : Lasting cellOf cap (Sane cellOf cap) where
  relax walk start landing link total sane _ := by
    rcases walk.relax_improves cellOf cap start landing link total with ⟨kept, -⟩ | improved
    · rw [kept]
      exact (sameMaps_cross walk start landing link).sane sane
    · exact improved.sane sane
  aside walk queue frontier sane := (sameMaps_aside walk queue frontier).sane sane

/-! ## An expansion ends -/

/-- What crossings can still use up: room for cells, and the cost of those that were reached. -/
def potential (cap : Nat) (walk : Walk Cell) : Nat := (cap - walk.size) * (maxCost + 1) + total walk.cost.entries

theorem Improved.potential_lt (improved : Improved cellOf cap walk next landing link spent) (sane : Sane cellOf cap walk)
    (bounded : spent ≤ maxCost) : next.potential cap < walk.potential cap := by
  rw [potential, potential, size, improved.landed, improved.spent]
  rcases improved.arrived with ⟨best, known, cheaper, -⟩ | ⟨fresh, room, -⟩
  · have here : cellOf landing ∈ walk.trace.landing := (sane.keys _).mp (mem_of_lookup known)
    have sum := @total_insert_of_lookup _ _ _ walk.cost best spent known
    rw [length_insert_of_mem here]
    unfold size
    omega
  · have away : cellOf landing ∉ walk.trace.landing := fun here => AList.lookup_eq_none.mp fresh ((sane.keys _).mpr here)
    rw [length_insert_of_notMem away, total_insert_of_notMem (AList.lookup_eq_none.mp fresh)]
    unfold size at room ⊢
    have left : cap - walk.trace.landing.entries.length = cap - (walk.trace.landing.entries.length + 1) + 1 := by omega
    rw [left, Nat.add_mul]
    omega

def work (cap : Nat) (walk : Walk Cell) : Nat := 2 * walk.potential cap + walk.queue.length

theorem work_attempt_le (sane : Sane cellOf cap walk) (round : Geometry) (origin : Cell) (position : Vec3) (spent : Nat)
    (try' : Attempt) : (walk.attempt cellOf cap round origin position spent try').work cap ≤ walk.work cap := by
  rcases walk.attempt_cases cellOf cap round origin position spent try' with ⟨landing, kind, via, -, same⟩ | ⟨-, frontier, same⟩
  · rw [same]
    rcases walk.relax_improves cellOf cap position landing ⟨origin, kind, via⟩
      (saturate (spent + edgeCost kind position landing)) with ⟨kept, -⟩ | improved
    · rw [kept]
      exact Nat.le_refl _
    · have less := improved.potential_lt sane (saturate_le _)
      rw [work, work, improved.queued, List.length_cons]
      omega
  · rw [same]
    exact Nat.le_refl _

theorem work_attempts_le (sane : Sane cellOf cap walk) (round : Geometry) (origin : Cell) (position : Vec3) (spent : Nat)
    (list : List Attempt) : (walk.attempts cellOf cap round origin position spent list).1.work cap ≤ walk.work cap := by
  induction list generalizing walk with
  | nil => exact Nat.le_refl _
  | cons try' list ih =>
    rw [attempts]
    split
    · exact Nat.le_refl _
    · exact (ih (lasting_sane.attempt sane round origin position spent try')).trans (work_attempt_le sane round origin position spent try')

theorem exists_drain (round : Geometry) (fuel : Nat) (sane : Sane cellOf cap walk) (enough : walk.work cap < fuel) :
    ∃ next, drain cellOf cap round fuel walk = some next := by
  induction fuel generalizing walk with
  | zero => exact absurd enough (Nat.not_lt_zero _)
  | succ fuel ih =>
    rw [drain]
    split
    · exact ⟨walk, rfl⟩
    · next spent origin queue popped =>
      have sanePopped : Sane cellOf cap { walk with queue := queue } :=
        lasting_sane.aside walk queue walk.trace.frontier sane
      have less : Walk.work cap { walk with queue := queue } < fuel := by
        have length := (popFrontier_some popped).1.length_eq
        rw [List.length_cons] at length
        have same : Walk.potential cap { walk with queue := queue } = walk.potential cap := rfl
        rw [work] at enough ⊢
        dsimp only
        omega
      dsimp only
      split
      · exact ih sanePopped less
      · split
        · exact ih sanePopped less
        · next position _ =>
          have tried := lasting_sane.attempts round origin position spent
            ((if round.onLadder position then [Attempt.ladder true, Attempt.ladder false] else []) ++
              directions.map Attempt.direction) sanePopped
          have spare := work_attempts_le sanePopped round origin position spent
            ((if round.onLadder position then [Attempt.ladder true, Attempt.ladder false] else []) ++
              directions.map Attempt.direction)
          split
          · next done same =>
            rw [same] at tried spare
            exact ih tried (Nat.lt_of_le_of_lt spare less)
          · next done _ => exact ⟨done, rfl⟩

end Walk

/-! ## The first expansion -/

namespace Walk

variable (cellOf : Vec3 → Cell) (cap : Nat) (round : Geometry) (start : Vec3)

/-- A cell's link is a crossing from where its origin stands, and the cell costs what that crossing makes it cost. -/
structure Hop (walk : Walk Cell) (cell : Cell) (link : ParentLink Cell) (position origin : Vec3) (before : Nat) : Prop where
  parent : walk.trace.parent.lookup cell = some link
  landed : walk.trace.landing.lookup cell = some position
  stands : walk.trace.landing.lookup link.origin = some origin
  spent : walk.cost.lookup link.origin = some before
  crossed : ∃ try' ∈ tries round origin, lands round origin try' = some (position, link.kind, link.via)
  costs : walk.cost.lookup cell = some (saturate (before + edgeCost link.kind origin position))

/-- The frontier has come to `level`: cheaper cells are settled, and every link comes from a settled cell. -/
structure Front (level : Nat) (walk : Walk Cell) : Prop where
  small : level ≤ maxCost
  sane : Sane cellOf cap walk
  root : walk.cost.lookup (cellOf start) = some 0
  stands : walk.trace.landing.lookup (cellOf start) = some start
  queued : ∀ entry ∈ walk.queue, level ≤ entry.1 ∧ entry.1 ≤ maxCost
  settled : ∀ cell spent, walk.cost.lookup cell = some spent → spent ≤ level ∨ (spent, cell) ∈ walk.queue
  linked : ∀ cell ∈ walk.cost, cell ≠ cellOf start →
    ∃ link position origin before, before ≤ level ∧ Hop round walk cell link position origin before

/-- Costs only fall, and a cell is queued again whenever it changes. -/
structure Onward (walk next : Walk Cell) : Prop where
  falls : ∀ cell best, walk.cost.lookup cell = some best → ∃ less ≤ best, next.cost.lookup cell = some less
  kept : ∀ cell spent, next.cost.lookup cell = some spent → (spent, cell) ∈ next.queue ∨
    walk.cost.lookup cell = some spent ∧ next.trace.landing.lookup cell = walk.trace.landing.lookup cell
  queue : ∀ entry ∈ walk.queue, entry ∈ next.queue

theorem Onward.refl (walk : Walk Cell) : Onward walk walk :=
  ⟨fun _ best found => ⟨best, Nat.le_refl best, found⟩, fun _ _ found => .inr ⟨found, rfl⟩, fun _ here => here⟩

theorem Onward.trans {walk middle next : Walk Cell} (first : Onward walk middle) (second : Onward middle next) : Onward walk next where
  falls cell best found := by
    obtain ⟨less, lower, foundLess⟩ := first.falls cell best found
    obtain ⟨least, lowest, foundLeast⟩ := second.falls cell less foundLess
    exact ⟨least, lowest.trans lower, foundLeast⟩
  kept cell spent found := by
    rcases second.kept cell spent found with queued | ⟨foundMiddle, same⟩
    · exact .inl queued
    · rcases first.kept cell spent foundMiddle with queued | ⟨foundFirst, sameFirst⟩
      · exact .inl (second.queue _ queued)
      · exact .inr ⟨foundFirst, same.trans sameFirst⟩
  queue entry here := second.queue entry (first.queue entry here)

variable {cellOf} {cap} {round} {start} {walk next : Walk Cell} {landing position : Vec3} {link : ParentLink Cell}
  {level spent : Nat} {origin cell : Cell}

theorem Improved.onward (improved : Improved cellOf cap walk next landing link spent) : Onward walk next where
  falls cell best found := by
    rw [improved.spent]
    by_cases here : cell = cellOf landing
    · subst here
      rcases improved.arrived with ⟨known, foundKnown, cheaper, -⟩ | ⟨fresh, -⟩
      · obtain rfl := Option.some.inj (foundKnown.symm.trans found)
        exact ⟨spent, Nat.le_of_lt cheaper, AList.lookup_insert _⟩
      · cases fresh.symm.trans found
    · exact ⟨best, Nat.le_refl best, by rw [AList.lookup_insert_ne here]; exact found⟩
  kept cell cost found := by
    rw [improved.spent] at found
    by_cases here : cell = cellOf landing
    · subst here
      rw [AList.lookup_insert] at found
      obtain rfl := Option.some.inj found
      rw [improved.queued]
      exact .inl List.mem_cons_self
    · rw [AList.lookup_insert_ne here] at found
      rw [improved.landed, AList.lookup_insert_ne here]
      exact .inr ⟨found, rfl⟩
  queue entry here := by
    rw [improved.queued]
    exact List.mem_cons_of_mem _ here

theorem Improved.unsettled (improved : Improved cellOf cap walk next landing link spent) (dear : level ≤ spent) {before : Nat}
    (found : walk.cost.lookup cell = some before) (cheap : before ≤ level) : cell ≠ cellOf landing := by
  rintro rfl
  rcases improved.arrived with ⟨best, known, cheaper, -⟩ | ⟨fresh, -⟩
  · obtain rfl := Option.some.inj (known.symm.trans found)
    omega
  · cases fresh.symm.trans found

theorem Hop.improved {origin : Vec3} {before : Nat} {link' : ParentLink Cell} (hop : Hop round walk cell link position origin before)
    (improved : Improved cellOf cap walk next landing link' spent) (other : cell ≠ cellOf landing)
    (settled : link.origin ≠ cellOf landing) : Hop round next cell link position origin before where
  parent := by rw [improved.linked, AList.lookup_insert_ne other]; exact hop.parent
  landed := by rw [improved.landed, AList.lookup_insert_ne other]; exact hop.landed
  stands := by rw [improved.landed, AList.lookup_insert_ne settled]; exact hop.stands
  spent := by rw [improved.spent, AList.lookup_insert_ne settled]; exact hop.spent
  crossed := hop.crossed
  costs := by rw [improved.spent, AList.lookup_insert_ne other]; exact hop.costs

theorem Front.improved {kind : EdgeKind} {via : Option Vec3} (front : Front cellOf cap round start level walk)
    (improved : Improved cellOf cap walk next landing ⟨origin, kind, via⟩ (saturate (level + edgeCost kind position landing)))
    (spent : walk.cost.lookup origin = some level) (stands : walk.trace.landing.lookup origin = some position)
    (crossed : ∃ try' ∈ tries round position, lands round position try' = some (landing, kind, via)) :
    Front cellOf cap round start level next where
  small := front.small
  sane := improved.sane front.sane
  root := by
    have other := improved.unsettled (le_saturate _ front.small) front.root (Nat.zero_le level)
    rw [improved.spent, AList.lookup_insert_ne other]
    exact front.root
  stands := by
    have other := improved.unsettled (le_saturate _ front.small) front.root (Nat.zero_le level)
    rw [improved.landed, AList.lookup_insert_ne other]
    exact front.stands
  queued := by
    rw [improved.queued]
    exact List.forall_mem_cons.mpr ⟨⟨le_saturate _ front.small, saturate_le _⟩, front.queued⟩
  settled cell cost found := by
    rcases improved.onward.kept cell cost found with queued | ⟨foundBefore, -⟩
    · exact .inr queued
    · exact (front.settled cell cost foundBefore).imp id (improved.onward.queue _)
  linked cell reached other := by
    have origin_ne := improved.unsettled (le_saturate _ front.small) spent (Nat.le_refl level)
    by_cases here : cell = cellOf landing
    · subst here
      refine ⟨⟨origin, kind, via⟩, landing, position, level, Nat.le_refl level, ?_, ?_, ?_, ?_, crossed, ?_⟩
      · rw [improved.linked, AList.lookup_insert]
      · rw [improved.landed, AList.lookup_insert]
      · rw [improved.landed, AList.lookup_insert_ne origin_ne]
        exact stands
      · rw [improved.spent, AList.lookup_insert_ne origin_ne]
        exact spent
      · rw [improved.spent, AList.lookup_insert]
    · rw [improved.spent, AList.mem_insert] at reached
      obtain ⟨link, place, from', before, cheap, hop⟩ := front.linked cell (reached.resolve_left here) other
      have settled := improved.unsettled (le_saturate _ front.small) hop.spent cheap
      exact ⟨link, place, from', before, cheap, hop.improved improved here settled⟩

theorem SameMaps.onward (same : SameMaps walk next) (queue : ∀ entry ∈ walk.queue, entry ∈ next.queue) : Onward walk next where
  falls cell best found := ⟨best, Nat.le_refl best, by rw [same.cost]; exact found⟩
  kept cell spent found := by
    rw [same.cost] at found
    rw [same.landing]
    exact .inr ⟨found, rfl⟩
  queue := queue

theorem SameMaps.hop {origin : Vec3} {before : Nat} (same : SameMaps walk next)
    (hop : Hop round walk cell link position origin before) : Hop round next cell link position origin before where
  parent := by rw [same.parent]; exact hop.parent
  landed := by rw [same.landing]; exact hop.landed
  stands := by rw [same.landing]; exact hop.stands
  spent := by rw [same.cost]; exact hop.spent
  crossed := hop.crossed
  costs := by rw [same.cost]; exact hop.costs

theorem SameMaps.front {later : Nat} (same : SameMaps walk next) (front : Front cellOf cap round start level walk)
    (higher : level ≤ later) (small : later ≤ maxCost) (queued : ∀ entry ∈ next.queue, later ≤ entry.1 ∧ entry.1 ≤ maxCost)
    (settled : ∀ cell spent, walk.cost.lookup cell = some spent → spent ≤ later ∨ (spent, cell) ∈ next.queue) :
    Front cellOf cap round start later next where
  small := small
  sane := same.sane front.sane
  root := by rw [same.cost]; exact front.root
  stands := by rw [same.landing]; exact front.stands
  queued := queued
  settled := by rw [same.cost]; exact settled
  linked cell reached other := by
    rw [same.cost] at reached
    obtain ⟨link, place, from', before, cheap, hop⟩ := front.linked cell reached other
    exact ⟨link, place, from', before, cheap.trans higher, same.hop hop⟩

/-! ### The crossings of one cell -/

/-- The crossings tried from `origin`, so far. -/
structure Tried (cellOf : Vec3 → Cell) (cap : Nat) (round : Geometry) (start : Vec3) (level : Nat) (origin : Cell) (position : Vec3)
    (walk next : Walk Cell) : Prop where
  front : Front cellOf cap round start level next
  onward : Onward walk next
  spent : next.cost.lookup origin = some level
  stands : next.trace.landing.lookup origin = some position

/-- Where an attempt lands was reached at no more than it costs from here. -/
def Reaches (cellOf : Vec3 → Cell) (round : Geometry) (spent : Nat) (position : Vec3) (walk : Walk Cell) (try' : Attempt) : Prop :=
  ∀ landing kind via, lands round position try' = some (landing, kind, via) →
    ∃ best ≤ saturate (spent + edgeCost kind position landing), walk.cost.lookup (cellOf landing) = some best

theorem Reaches.onward {try' : Attempt} (reaches : Reaches cellOf round spent position walk try') (onward : Onward walk next) :
    Reaches cellOf round spent position next try' := by
  intro landing kind via landed
  obtain ⟨best, lower, found⟩ := reaches landing kind via landed
  obtain ⟨less, lowest, foundLess⟩ := onward.falls _ best found
  exact ⟨less, lowest.trans lower, foundLess⟩

theorem tried_attempt {try' : Attempt} (front : Front cellOf cap round start level walk) (spent : walk.cost.lookup origin = some level)
    (stands : walk.trace.landing.lookup origin = some position) (listed : try' ∈ tries round position) (room : walk.size < cap) :
    Tried cellOf cap round start level origin position walk (walk.attempt cellOf cap round origin position level try') ∧
      Reaches cellOf round level position (walk.attempt cellOf cap round origin position level try') try' := by
  rcases walk.attempt_cases cellOf cap round origin position level try' with ⟨landing, kind, via, landed, same⟩ | ⟨missed, frontier, same⟩
  · have only : ∀ landing' kind' via', lands round position try' = some (landing', kind', via') →
        landing' = landing ∧ kind' = kind := by
      intro landing' kind' via' landed'
      obtain ⟨rfl, rfl, -⟩ := Prod.mk.inj (Option.some.inj (landed'.symm.trans landed)) |>.imp id Prod.mk.inj
      exact ⟨rfl, rfl⟩
    rw [same]
    rcases walk.relax_improves cellOf cap position landing ⟨origin, kind, via⟩
      (saturate (level + edgeCost kind position landing)) with ⟨kept, known⟩ | improved
    · rw [kept]
      have maps := sameMaps_cross walk position landing ⟨origin, kind, via⟩
      refine ⟨⟨maps.front front (Nat.le_refl level) front.small front.queued front.settled, maps.onward fun _ here => here,
        spent, stands⟩, fun landing' kind' via' landed' => ?_⟩
      obtain ⟨rfl, rfl⟩ := only landing' kind' via' landed'
      rcases known with ⟨best, found, lower⟩ | full
      · exact ⟨best, lower, found⟩
      · omega
    · refine ⟨⟨front.improved improved spent stands ⟨try', listed, landed⟩, improved.onward, ?_, ?_⟩, ?_⟩
      · rw [improved.spent, AList.lookup_insert_ne (improved.unsettled (le_saturate _ front.small) spent (Nat.le_refl level))]
        exact spent
      · rw [improved.landed, AList.lookup_insert_ne (improved.unsettled (le_saturate _ front.small) spent (Nat.le_refl level))]
        exact stands
      · intro landing' kind' via' landed'
        obtain ⟨rfl, rfl⟩ := only landing' kind' via' landed'
        exact ⟨_, Nat.le_refl _, by rw [improved.spent, AList.lookup_insert]⟩
  · rw [same]
    have maps := sameMaps_aside walk walk.queue frontier
    refine ⟨⟨maps.front front (Nat.le_refl level) front.small front.queued front.settled, maps.onward fun _ here => here,
      spent, stands⟩, fun landing kind via landed => ?_⟩
    cases missed.symm.trans landed

theorem tried_attempts (list : List Attempt) (front : Front cellOf cap round start level walk)
    (spent : walk.cost.lookup origin = some level) (stands : walk.trace.landing.lookup origin = some position)
    (listed : ∀ try' ∈ list, try' ∈ tries round position) :
    Tried cellOf cap round start level origin position walk (walk.attempts cellOf cap round origin position level list).1 ∧
      ((walk.attempts cellOf cap round origin position level list).2 = true →
        ∀ try' ∈ list, Reaches cellOf round level position (walk.attempts cellOf cap round origin position level list).1 try') ∧
      ((walk.attempts cellOf cap round origin position level list).2 = false →
        cap ≤ (walk.attempts cellOf cap round origin position level list).1.size) := by
  induction list generalizing walk with
  | nil =>
    refine ⟨⟨front, Onward.refl walk, spent, stands⟩, fun _ try' noTry => absurd noTry List.not_mem_nil, fun more => ?_⟩
    cases more
  | cons try' list ih =>
    obtain ⟨listedHead, listedTail⟩ := List.forall_mem_cons.mp listed
    rw [attempts]
    split
    · next full =>
      refine ⟨⟨front, Onward.refl walk, spent, stands⟩, fun more => ?_, fun _ => full⟩
      cases more
    · next room =>
      obtain ⟨tried, reaches⟩ := tried_attempt front spent stands listedHead (Nat.lt_of_not_le room)
      obtain ⟨later, all, full⟩ := ih tried.front tried.spent tried.stands listedTail
      refine ⟨⟨later.front, tried.onward.trans later.onward, later.spent, later.stands⟩, fun more => ?_, full⟩
      exact List.forall_mem_cons.mpr ⟨reaches.onward later.onward, all more⟩

/-! ### The whole frontier -/

/-- Everything that can be crossed from a cell was reached at no more than it costs from there. -/
def Closes (cellOf : Vec3 → Cell) (round : Geometry) (walk : Walk Cell) (cell : Cell) (spent : Nat) : Prop :=
  ∀ position, walk.trace.landing.lookup cell = some position →
    ∀ try' ∈ tries round position, Reaches cellOf round spent position walk try'

def Closed (cellOf : Vec3 → Cell) (round : Geometry) (walk : Walk Cell) : Prop :=
  ∀ cell spent, walk.cost.lookup cell = some spent → (spent, cell) ∉ walk.queue → Closes cellOf round walk cell spent

theorem Front.pop {queue : List (Nat × Cell)} (front : Front cellOf cap round start level walk)
    (popped : popFrontier walk.queue = some ((spent, cell), queue)) :
    Front cellOf cap round start spent { walk with queue := queue } := by
  obtain ⟨same, lower⟩ := popFrontier_some popped
  obtain ⟨above, bounded⟩ := front.queued (spent, cell) (same.mem_iff.mpr List.mem_cons_self)
  refine (sameMaps_aside walk queue walk.trace.frontier).front front above bounded (fun entry here => ?_) fun other cost found => ?_
  · exact ⟨lower entry here, (front.queued entry (same.mem_iff.mpr (List.mem_cons_of_mem _ here))).2⟩
  · rcases front.settled other cost found with cheap | queued
    · exact .inl (cheap.trans above)
    · rcases List.mem_cons.mp (same.mem_iff.mp queued) with first | later
      · exact .inl (Nat.le_of_eq (Prod.mk.inj first).1)
      · exact .inr later

theorem drained (fuel : Nat) (front : Front cellOf cap round start level walk) (closed : Closed cellOf round walk)
    (ran : drain cellOf cap round fuel walk = some next) :
    (∃ last, Front cellOf cap round start last next) ∧ (next.size < cap → Closed cellOf round next ∧ next.queue = []) := by
  induction fuel generalizing walk level with
  | zero => cases ran
  | succ fuel ih =>
    rw [drain] at ran
    split at ran
    · next empty =>
      obtain rfl := Option.some.inj ran
      exact ⟨⟨level, front⟩, fun _ => ⟨closed, popFrontier_none.mp empty⟩⟩
    · next spent origin queue popped =>
      obtain ⟨same, -⟩ := popFrontier_some popped
      have frontPopped := front.pop popped
      have closedPopped : ∀ cell cost, walk.cost.lookup cell = some cost → (cost, cell) ∉ queue → (cost, cell) ≠ (spent, origin) →
          Closes cellOf round { walk with queue := queue } cell cost := by
        intro cell cost found away other
        refine closed cell cost found fun queued => ?_
        rcases List.mem_cons.mp (same.mem_iff.mp queued) with first | later
        · exact other first
        · exact away later
      dsimp only at ran
      split at ran
      · next stale =>
        refine ih frontPopped (fun cell cost found away => closedPopped cell cost found away ?_) ran
        rintro ⟨⟩
        exact stale found
      · next live =>
        have spentOrigin := not_not.mp live
        split at ran
        · next lost =>
          have known := (front.sane.keys origin).mp (mem_of_lookup spentOrigin)
          exact absurd known (AList.lookup_eq_none.mp lost)
        · next position stands =>
          obtain ⟨tried, all, full⟩ := tried_attempts (tries round position) frontPopped spentOrigin stands (fun _ here => here)
          unfold tries at tried all full
          split at ran
          · next done more =>
            rw [more] at tried all full
            refine ih tried.front (fun cell cost found away => ?_) ran
            rcases tried.onward.kept cell cost found with queued | ⟨foundBefore, stays⟩
            · exact absurd queued away
            · by_cases here : cell = origin
              · subst here
                obtain rfl := Option.some.inj (spentOrigin.symm.trans foundBefore)
                intro place standsNow try' listed
                obtain rfl := Option.some.inj (tried.stands.symm.trans standsNow)
                exact all rfl try' listed
              · have closes := closedPopped cell cost foundBefore (fun queued => away (tried.onward.queue _ queued))
                  (fun both => here (Prod.mk.inj both).2)
                intro place standsNow try' listed
                exact (closes place (stays ▸ standsNow) try' listed).onward tried.onward
          · next done more =>
            obtain rfl := Option.some.inj ran
            rw [more] at tried full
            exact ⟨⟨spent, tried.front⟩, fun room => absurd (full rfl) (Nat.not_le_of_lt room)⟩

/-! ### What the first expansion leaves -/

/-- One cell leads to another, by a crossing from where the walk stands in it. -/
def Leads (cellOf : Vec3 → Cell) (round : Geometry) (walk : Walk Cell) (cell onto : Cell) (cost : Nat) : Prop :=
  ∃ position landing kind via, walk.trace.landing.lookup cell = some position ∧
    (∃ try' ∈ tries round position, lands round position try' = some (landing, kind, via)) ∧
    cellOf landing = onto ∧ cost = edgeCost kind position landing

def spentAlong (cellOf : Vec3 → Cell) (start : Vec3) : List (Trace.Stop Cell) → Nat
  | [] => 0
  | (_, position, link) :: rest => spentAlong cellOf start rest + edgeCost link.kind (comesFrom cellOf start rest).2 position

/-- Every link of a path is a crossing of this round, between the positions the path lists. -/
def CrossedIn (cellOf : Vec3 → Cell) (round : Geometry) (start : Vec3) : List (Trace.Stop Cell) → Prop
  | [] => True
  | (cell, position, link) :: rest =>
    cellOf position = cell ∧ link.origin = (comesFrom cellOf start rest).1 ∧
    (∃ try' ∈ tries round (comesFrom cellOf start rest).2,
      lands round (comesFrom cellOf start rest).2 try' = some (position, link.kind, link.via)) ∧
    CrossedIn cellOf round start rest

/-- Every cell has a path that costs what the cell does, and with room for more cells no chain of crossings costs less. -/
structure Cheapest (cellOf : Vec3 → Cell) (cap : Nat) (round : Geometry) (start : Vec3) (walk : Walk Cell) : Prop where
  path : ∀ cell spent, walk.cost.lookup cell = some spent → ∃ fuel stops,
    walk.trace.backFrom (cellOf start) fuel cell = some stops ∧ CrossedIn cellOf round start stops ∧
      spent = saturate (spentAlong cellOf start stops)
  least : walk.size < cap → ∀ cell cells cost, Route (Leads cellOf round walk) (cellOf start) cell cells cost →
    ∃ spent ≤ saturate cost, walk.cost.lookup cell = some spent

theorem saturate_add (cost edge : Nat) : saturate (saturate cost + edge) = saturate (cost + edge) := by
  unfold saturate
  omega

theorem Front.path (front : Front cellOf cap round start level walk) (traced : Traced cellOf start walk) (reached : cell ∈ walk.cost) :
    ∃ fuel stops, walk.trace.backFrom (cellOf start) fuel cell = some stops ∧ CrossedIn cellOf round start stops ∧
      walk.cost.lookup cell = some (saturate (spentAlong cellOf start stops)) ∧ (comesFrom cellOf start stops).1 = cell ∧
      walk.trace.landing.lookup cell = some (comesFrom cellOf start stops).2 := by
  induction rank : walk.rank cellOf cell using WellFoundedLT.induction generalizing cell with
  | ind rank' ih =>
    by_cases root : cell = cellOf start
    · subst root
      exact ⟨1, [], by simp [Trace.backFrom], trivial, front.root, rfl, front.stands⟩
    · obtain ⟨link, position, from', before, -, hop⟩ := front.linked cell reached root
      have closer : walk.rank cellOf link.origin < walk.rank cellOf cell := by
        obtain ⟨_, edge, _, _, linkedBy⟩ := traced.linked cell reached root
        obtain rfl := Option.some.inj (hop.parent.symm.trans linkedBy.parent)
        exact linkedBy.closer
      obtain ⟨fuel, stops, back, crossed, spent, comes, stands⟩ := ih _ (rank ▸ closer) (mem_of_lookup hop.spent) rfl
      obtain rfl := Option.some.inj (hop.stands.symm.trans stands)
      obtain rfl := Option.some.inj (hop.spent.symm.trans spent)
      refine ⟨fuel + 1, (cell, position, link) :: stops, ?_, ?_, ?_, rfl, hop.landed⟩
      · simp [Trace.backFrom, root, hop.landed, hop.parent, back]
      · exact ⟨front.sane.placed cell position hop.landed, comes.symm, hop.crossed, crossed⟩
      · rw [hop.costs, spentAlong, saturate_add]

theorem Closed.least (closed : Closed cellOf round walk) (empty : walk.queue = []) (root : walk.cost.lookup (cellOf start) = some 0)
    {cells : List Cell} {cost : Nat} (route : Route (Leads cellOf round walk) (cellOf start) cell cells cost) :
    ∃ spent ≤ saturate cost, walk.cost.lookup cell = some spent := by
  induction route with
  | nil => exact ⟨0, Nat.zero_le _, root⟩
  | @step before after cells total edge _ leads ih =>
    obtain ⟨spent, lower, found⟩ := ih
    obtain ⟨position, landing, kind, via, stands, ⟨try', listed, landed⟩, rfl, rfl⟩ := leads
    have away : (spent, before) ∉ walk.queue := by
      rw [empty]
      exact List.not_mem_nil
    obtain ⟨best, lowest, foundBest⟩ := closed before spent found away position stands try' listed landing kind via landed
    refine ⟨best, lowest.trans ?_, foundBest⟩
    rw [← saturate_add]
    unfold saturate at lower ⊢
    omega

end Walk

/-! ### A jump, and a floor behind it -/

end OpenHalfLife.Route
