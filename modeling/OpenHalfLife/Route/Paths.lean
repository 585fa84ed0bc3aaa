import Mathlib.Data.List.Basic
import Mathlib.Data.List.Induction
import Mathlib.Data.Prod.Lex
import Mathlib.Order.Lattice
import OpenHalfLife.Route.Walk

/-! # Planned paths and the edges that were crossed -/

namespace OpenHalfLife.Route

set_option autoImplicit false

variable {Cell : Type} [LinearOrder Cell]

theorem one_le_edgeCost (kind : EdgeKind) (start finish : Vec3) : 1 ≤ edgeCost kind start finish := by
  cases kind with
  | drop =>
    simp only [edgeCost, saturate, costFall, maxCost]
    omega
  | walk | step | jump | longJump | ladder | ride => simp [edgeCost, costWalk, costJump, costClimb, costRide]

namespace Walk

variable (cellOf : Vec3 → Cell) (cap : Nat)

/-- `next` is the walk after it kept a crossing. -/
structure Kept (walk next : Walk Cell) (start landing : Vec3) (link : ParentLink Cell) (total : Nat) : Prop where
  landed : next.trace.landing = walk.trace.landing.insert (cellOf landing) landing
  linked : next.trace.parent = walk.trace.parent.insert (cellOf landing) link
  spent : next.cost = walk.cost.insert (cellOf landing) total
  crossed : next.crossed = walk.crossed ++ [⟨start, landing, link, true⟩]
  order :
    (∃ best, walk.cost.lookup (cellOf landing) = some best ∧ total < best ∧ next.trace.order = walk.trace.order) ∨
    (walk.cost.lookup (cellOf landing) = none ∧ next.trace.order = walk.trace.order ++ [landing])

theorem relax_cases (walk : Walk Cell) (start landing : Vec3) (link : ParentLink Cell) (total : Nat) :
    walk.relax cellOf cap start landing link total = walk.cross false start landing link ∨
    Kept cellOf walk (walk.relax cellOf cap start landing link total) start landing link total := by
  rw [relax]
  cases known : walk.cost.lookup (cellOf landing) with
  | none =>
    by_cases full : walk.trace.landing.entries.length ≥ cap
    · simp [full]
    · right
      simp only [full, if_false]
      exact ⟨rfl, rfl, rfl, rfl, .inr ⟨known, rfl⟩⟩
  | some best =>
    by_cases cheap : best ≤ total
    · simp [cheap]
    · right
      simp only [cheap, if_false]
      exact ⟨rfl, rfl, rfl, rfl, .inl ⟨best, known, Nat.lt_of_not_le cheap, rfl⟩⟩

def arrival (walk : Walk Cell) (cell : Cell) : Nat := (walk.trace.order.map cellOf).idxOf cell

def rank (walk : Walk Cell) (cell : Cell) : ℕ ×ₗ ℕ :=
  toLex ((walk.cost.lookup cell).getD 0, walk.arrival cellOf cell)

/-- Where the last crossing that `cell` kept has landed. -/
def lastLanding (crossed : List (Crossed Cell)) (cell : Cell) : Option Vec3 :=
  (crossed.reverse.find? fun edge => edge.kept && decide (cellOf edge.landing = cell)).map Crossed.landing

theorem lastLanding_append (crossed : List (Crossed Cell)) (cell : Cell) (edge : Crossed Cell) :
    lastLanding cellOf (crossed ++ [edge]) cell =
      if edge.kept = true ∧ cellOf edge.landing = cell then some edge.landing else lastLanding cellOf crossed cell := by
  rw [lastLanding, List.reverse_append, List.reverse_singleton, List.singleton_append, List.find?_cons]
  by_cases keeps : edge.kept = true ∧ cellOf edge.landing = cell
  · simp [keeps]
  · rw [if_neg keeps]
    have misses : (edge.kept && decide (cellOf edge.landing = cell)) = false := by
      simpa using keeps
    rw [misses, lastLanding]

/-- The crossing a cell was last kept by, and what was kept since. -/
structure LinkedBy (walk : Walk Cell) (cell : Cell) (edge : Crossed Cell) (later : List (Crossed Cell)) : Prop where
  kept : edge.kept = true
  lands : cellOf edge.landing = cell
  last : lastLanding cellOf later cell = none
  landing : walk.trace.landing.lookup cell = some edge.landing
  parent : walk.trace.parent.lookup cell = some edge.link
  reached : edge.link.origin ∈ walk.cost
  closer : walk.rank cellOf edge.link.origin < walk.rank cellOf cell
  origin :
    walk.trace.landing.lookup edge.link.origin =
      some ((lastLanding cellOf later edge.link.origin).getD edge.start)

/-- Every reached cell but the start's own is linked, and the start stays where it is. -/
structure Traced (start : Vec3) (walk : Walk Cell) : Prop where
  root : walk.trace.landing.lookup (cellOf start) = some start
  free : walk.cost.lookup (cellOf start) = some 0
  bounded : ∀ cell spent, walk.cost.lookup cell = some spent → spent ≤ maxCost
  arrived : ∀ cell, cell ∈ walk.trace.order.map cellOf ↔ cell ∈ walk.cost
  linked : ∀ cell ∈ walk.cost, cell ≠ cellOf start →
    ∃ before edge later, walk.crossed = before ++ edge :: later ∧ LinkedBy cellOf walk cell edge later

variable {cellOf}

theorem LinkedBy.cross {walk : Walk Cell} {cell : Cell} {edge : Crossed Cell} {later : List (Crossed Cell)}
    (h : LinkedBy cellOf walk cell edge later) (start landing : Vec3) (link : ParentLink Cell) :
    LinkedBy cellOf (walk.cross false start landing link) cell edge (later ++ [⟨start, landing, link, false⟩]) where
  kept := h.kept
  lands := h.lands
  last := by simp [lastLanding_append, h.last]
  landing := h.landing
  parent := h.parent
  reached := h.reached
  closer := h.closer
  origin := by
    rw [lastLanding_append]
    exact h.origin

theorem Traced.cross {start : Vec3} {walk : Walk Cell} (h : Traced cellOf start walk) (origin landing : Vec3)
    (link : ParentLink Cell) : Traced cellOf start (walk.cross false origin landing link) where
  root := h.root
  free := h.free
  bounded := h.bounded
  arrived := h.arrived
  linked := by
    intro cell reached other
    obtain ⟨before, edge, later, split, by'⟩ := h.linked cell reached other
    refine ⟨before, edge, later ++ [⟨origin, landing, link, false⟩], ?_, by'.cross origin landing link⟩
    simp [Walk.cross, split]

section Keeping

variable {walk next : Walk Cell} {start origin landing : Vec3} {link : ParentLink Cell} {total spent : Nat}

theorem Kept.mem_cost (h : Kept cellOf walk next origin landing link total) (cell : Cell) :
    cell ∈ next.cost ↔ cell = cellOf landing ∨ cell ∈ walk.cost := by
  rw [h.spent, AList.mem_insert]

theorem Kept.order_map (h : Kept cellOf walk next origin landing link total) (traced : Traced cellOf start walk) :
    next.trace.order.map cellOf = walk.trace.order.map cellOf ∨
    (cellOf landing ∉ walk.trace.order.map cellOf ∧
      next.trace.order.map cellOf = walk.trace.order.map cellOf ++ [cellOf landing]) := by
  rcases h.order with ⟨best, _, _, same⟩ | ⟨fresh, grown⟩
  · exact .inl (by rw [same])
  · refine .inr ⟨?_, by rw [grown, List.map_append, List.map_singleton]⟩
    rw [traced.arrived]
    exact AList.lookup_eq_none.mp fresh

theorem Kept.arrived (h : Kept cellOf walk next origin landing link total) (traced : Traced cellOf start walk)
    (cell : Cell) : cell ∈ next.trace.order.map cellOf ↔ cell ∈ next.cost := by
  rw [h.mem_cost]
  rcases h.order with ⟨best, known, _, same⟩ | ⟨_, grown⟩
  · rw [same, traced.arrived]
    have there : cellOf landing ∈ walk.cost := AList.lookup_isSome.mp (by simp [known])
    constructor
    · exact Or.inr
    · rintro (rfl | old)
      · exact there
      · exact old
  · rw [grown, List.map_append, List.mem_append, traced.arrived, List.map_singleton, List.mem_singleton, or_comm]

theorem Kept.arrival_eq (h : Kept cellOf walk next origin landing link total) (traced : Traced cellOf start walk)
    {cell : Cell} (reached : cell ∈ walk.cost) : next.arrival cellOf cell = walk.arrival cellOf cell := by
  rw [arrival, arrival]
  rcases h.order_map traced with same | ⟨_, grown⟩
  · rw [same]
  · rw [grown, List.idxOf_append_of_mem ((traced.arrived cell).mpr reached)]

theorem Kept.cost_lookup_ne (h : Kept cellOf walk next origin landing link total) {cell : Cell}
    (other : cell ≠ cellOf landing) : next.cost.lookup cell = walk.cost.lookup cell := by
  rw [h.spent, AList.lookup_insert_ne other]

theorem Kept.landing_lookup_ne (h : Kept cellOf walk next origin landing link total) {cell : Cell}
    (other : cell ≠ cellOf landing) : next.trace.landing.lookup cell = walk.trace.landing.lookup cell := by
  rw [h.landed, AList.lookup_insert_ne other]

theorem Kept.parent_lookup_ne (h : Kept cellOf walk next origin landing link total) {cell : Cell}
    (other : cell ≠ cellOf landing) : next.trace.parent.lookup cell = walk.trace.parent.lookup cell := by
  rw [h.linked, AList.lookup_insert_ne other]

theorem Kept.rank_le (h : Kept cellOf walk next origin landing link total) (traced : Traced cellOf start walk)
    {cell : Cell} (reached : cell ∈ walk.cost) : next.rank cellOf cell ≤ walk.rank cellOf cell := by
  rw [rank, rank, h.arrival_eq traced reached]
  by_cases same : cell = cellOf landing
  · subst same
    rcases h.order with ⟨best, known, cheaper, _⟩ | ⟨fresh, _⟩
    · rw [h.spent, AList.lookup_insert, known]
      exact Prod.Lex.toLex_mono ⟨cheaper.le, le_rfl⟩
    · exact absurd reached (AList.lookup_eq_none.mp fresh)
  · rw [h.cost_lookup_ne same]

theorem Kept.rank_ne (h : Kept cellOf walk next origin landing link total) (traced : Traced cellOf start walk)
    {cell : Cell} (reached : cell ∈ walk.cost) (other : cell ≠ cellOf landing) :
    next.rank cellOf cell = walk.rank cellOf cell := by
  rw [rank, rank, h.arrival_eq traced reached, h.cost_lookup_ne other]

theorem Kept.linkedBy (h : Kept cellOf walk next origin landing link total) (traced : Traced cellOf start walk)
    {cell : Cell} {edge : Crossed Cell} {later : List (Crossed Cell)} (reached : cell ∈ walk.cost)
    (other : cell ≠ cellOf landing) (old : LinkedBy cellOf walk cell edge later) :
    LinkedBy cellOf next cell edge (later ++ [⟨origin, landing, link, true⟩]) where
  kept := old.kept
  lands := old.lands
  last := by simp [lastLanding_append, old.last, Ne.symm other]
  landing := (h.landing_lookup_ne other).trans old.landing
  parent := (h.parent_lookup_ne other).trans old.parent
  reached := (h.mem_cost _).mpr (.inr old.reached)
  closer := by
    rw [h.rank_ne traced reached other]
    exact (h.rank_le traced old.reached).trans_lt old.closer
  origin := by
    rw [lastLanding_append]
    by_cases moved : edge.link.origin = cellOf landing
    · rw [h.landed, moved, AList.lookup_insert]
      simp
    · rw [h.landing_lookup_ne moved, old.origin]
      simp [Ne.symm moved]

structure StandsAt (walk : Walk Cell) (cell : Cell) (position : Vec3) (spent : Nat) : Prop where
  landing : walk.trace.landing.lookup cell = some position
  cost : walk.cost.lookup cell = some spent

theorem StandsAt.reached {cell : Cell} (h : StandsAt walk cell origin spent) : cell ∈ walk.cost :=
  AList.lookup_isSome.mp (by simp [h.cost])

theorem le_saturate (edge : Nat) (bounded : spent ≤ maxCost) : spent ≤ saturate (spent + edge) := by
  rw [saturate]
  omega

theorem Kept.origin_ne (h : Kept cellOf walk next origin landing link total)
    (stands : StandsAt walk link.origin origin spent) (dearer : spent ≤ total) : link.origin ≠ cellOf landing := by
  intro same
  rcases h.order with ⟨best, known, cheaper, _⟩ | ⟨fresh, _⟩
  · rw [← same, stands.cost] at known
    cases known
    omega
  · rw [← same, stands.cost] at fresh
    cases fresh

theorem Kept.stands (h : Kept cellOf walk next origin landing link total)
    (stands : StandsAt walk link.origin origin spent) (dearer : spent ≤ total) :
    StandsAt next link.origin origin spent := by
  have other := h.origin_ne stands dearer
  constructor
  · rw [h.landing_lookup_ne other, stands.landing]
  · rw [h.cost_lookup_ne other, stands.cost]

theorem Kept.closer (h : Kept cellOf walk next origin landing link total) (traced : Traced cellOf start walk)
    (stands : StandsAt walk link.origin origin spent) {edge : Nat} (positive : 1 ≤ edge)
    (sum : total = saturate (spent + edge)) :
    next.rank cellOf link.origin < next.rank cellOf (cellOf landing) := by
  have bound := traced.bounded _ _ stands.cost
  have dearer : spent ≤ total := sum ▸ le_saturate edge bound
  have after := h.stands stands dearer
  rw [rank, rank, after.cost, h.spent, AList.lookup_insert, Prod.Lex.toLex_lt_toLex]
  change spent < total ∨ spent = total ∧ _
  rcases Nat.lt_or_ge spent total with cheaper | level
  · exact .inl cheaper
  · refine .inr ⟨by omega, ?_⟩
    have full : total = maxCost := by
      rw [saturate] at sum
      omega
    rcases h.order with ⟨best, known, cheaper, _⟩ | ⟨fresh, grown⟩
    · have := traced.bounded _ _ known
      omega
    · have absent : cellOf landing ∉ walk.trace.order.map cellOf := by
        rw [traced.arrived]
        exact AList.lookup_eq_none.mp fresh
      have there : link.origin ∈ walk.trace.order.map cellOf := (traced.arrived _).mpr stands.reached
      rw [h.arrival_eq traced stands.reached, arrival, arrival, grown, List.map_append,
        List.idxOf_append_of_notMem absent]
      have := List.idxOf_lt_length_of_mem there
      omega

theorem Kept.traced (h : Kept cellOf walk next origin landing link total) (traced : Traced cellOf start walk)
    (stands : StandsAt walk link.origin origin spent) {edge : Nat} (positive : 1 ≤ edge)
    (sum : total = saturate (spent + edge)) : Traced cellOf start next := by
  have dearer : spent ≤ total := sum ▸ le_saturate edge (traced.bounded _ _ stands.cost)
  have otherCell := h.origin_ne stands dearer
  -- the start costs nothing, so nothing is cheaper
  have notStart : cellOf start ≠ cellOf landing := by
    intro same
    rcases h.order with ⟨best, known, cheaper, _⟩ | ⟨fresh, _⟩
    · rw [← same, traced.free] at known
      cases known
      omega
    · rw [← same, traced.free] at fresh
      cases fresh
  constructor
  · rw [h.landing_lookup_ne notStart, traced.root]
  · rw [h.cost_lookup_ne notStart, traced.free]
  · intro cell cost found
    by_cases same : cell = cellOf landing
    · rw [same, h.spent, AList.lookup_insert] at found
      cases found
      rw [sum, saturate]
      omega
    · rw [h.cost_lookup_ne same] at found
      exact traced.bounded cell cost found
  · exact h.arrived traced
  · intro cell reached notRoot
    by_cases same : cell = cellOf landing
    · subst same
      refine ⟨walk.crossed, ⟨origin, landing, link, true⟩, [], h.crossed, ?_⟩
      constructor
      · rfl
      · rfl
      · rfl
      · rw [h.landed, AList.lookup_insert]
      · rw [h.linked, AList.lookup_insert]
      · exact (h.stands stands dearer).reached
      · exact h.closer traced stands positive sum
      · exact (h.stands stands dearer).landing
    · rw [h.mem_cost] at reached
      have old := reached.resolve_left same
      obtain ⟨before, edge, later, split, by'⟩ := traced.linked cell old notRoot
      refine ⟨before, edge, later ++ [⟨origin, landing, link, true⟩], ?_, h.linkedBy traced old same by'⟩
      rw [h.crossed, split]
      simp

end Keeping

section Running

variable {start : Vec3} {walk : Walk Cell} (cap : Nat)

theorem Traced.congr (traced : Traced cellOf start walk) (frontier : List BrushId) (queue : List (Nat × Cell)) :
    Traced cellOf start
      { walk with trace := { walk.trace with frontier := frontier }
                  queue := queue } where
  root := traced.root
  free := traced.free
  bounded := traced.bounded
  arrived := traced.arrived
  linked := by
    intro cell reached other
    obtain ⟨before, edge, later, split, h⟩ := traced.linked cell reached other
    exact ⟨before, edge, later, split,
      h.kept, h.lands, h.last, h.landing, h.parent, h.reached, h.closer, h.origin⟩

theorem Traced.relax (traced : Traced cellOf start walk) {origin : Vec3} {spent : Nat} (link : ParentLink Cell)
    (stands : StandsAt walk link.origin origin spent) (landing : Vec3) (kind : EdgeKind) :
    Traced cellOf start
      (walk.relax cellOf cap origin landing link (saturate (spent + edgeCost kind origin landing))) ∧
    StandsAt (walk.relax cellOf cap origin landing link (saturate (spent + edgeCost kind origin landing)))
      link.origin origin spent := by
  rcases relax_cases cellOf cap walk origin landing link (saturate (spent + edgeCost kind origin landing)) with
    dropped | kept
  · rw [dropped]
    exact ⟨traced.cross origin landing link, stands.landing, stands.cost⟩
  · constructor
    · exact kept.traced traced stands (one_le_edgeCost kind origin landing) rfl
    · exact kept.stands stands (le_saturate _ (traced.bounded _ _ stands.cost))

theorem Traced.attempt (traced : Traced cellOf start walk) (round : Geometry) {origin : Cell} {position : Vec3}
    {spent : Nat} (stands : StandsAt walk origin position spent) (next : Attempt) :
    Traced cellOf start (walk.attempt cellOf cap round origin position spent next) ∧
    StandsAt (walk.attempt cellOf cap round origin position spent next) origin position spent := by
  cases next with
  | ladder up =>
    rw [Walk.attempt]
    cases round.ladderEdge position up with
    | none => exact ⟨traced, stands⟩
    | some edge => exact traced.relax cap ⟨origin, .ladder edge.2 up, none⟩ stands edge.1 _
  | direction direction =>
    rw [Walk.attempt]
    cases round.cross position direction (round.onLadder position) with
    | landed landing kind via => exact traced.relax cap ⟨origin, kind, via⟩ stands landing kind
    | blocked brush =>
      cases brush with
      | none => exact ⟨traced, stands⟩
      | some brush => exact ⟨traced.congr _ _, stands.landing, stands.cost⟩

theorem Traced.attempts (round : Geometry) {origin : Cell} {position : Vec3} {spent : Nat} (list : List Attempt) :
    ∀ walk : Walk Cell, Traced cellOf start walk → StandsAt walk origin position spent →
      Traced cellOf start (walk.attempts cellOf cap round origin position spent list).1 := by
  induction list with
  | nil =>
    intro walk traced _
    exact traced
  | cons next rest ih =>
    intro walk traced stands
    rw [Walk.attempts]
    split
    · exact traced
    · have step := traced.attempt cap round stands next
      exact ih _ step.1 step.2

theorem Traced.drain (round : Geometry) (fuel : Nat) :
    ∀ walk next : Walk Cell, Traced cellOf start walk → walk.drain cellOf cap round fuel = some next →
      Traced cellOf start next := by
  induction fuel with
  | zero =>
    intro walk next _ result
    cases result
  | succ fuel ih =>
    intro walk next traced result
    rw [Walk.drain] at result
    split at result
    · cases result
      exact traced
    · rename_i spent origin queue _
      dsimp only at result
      have popped := traced.congr walk.trace.frontier queue
      split at result
      · exact ih _ _ popped result
      · rename_i live
        split at result
        · exact ih _ _ popped result
        · rename_i position found
          have known : walk.cost.lookup origin = some spent := not_not.mp live
          have all := Traced.attempts cap round
            ((if round.onLadder position then [Attempt.ladder true, Attempt.ladder false] else []) ++
              directions.map Attempt.direction) _ popped ⟨found, known⟩
          split at result
          · rename_i drained same
            rw [same] at all
            exact ih _ _ all result
          · rename_i drained same
            rw [same] at all
            cases result
            exact all

theorem Traced.perform (traced : Traced cellOf start walk) {operation : Operation Cell} {next : Walk Cell}
    (result : walk.perform cellOf cap operation = some next) : Traced cellOf start next := by
  cases operation with
  | expand round fuel => exact Traced.drain cap round fuel _ _ (traced.congr [] walk.queue) result
  | ride board landing useYaw seconds =>
    cases result
    rw [Walk.ride]
    split
    · rename_i position cost found spent
      exact (traced.relax cap ⟨board, .ride useYaw seconds, none⟩ ⟨found, spent⟩ landing _).1
    · exact traced
  | requeueAll =>
    cases result
    exact traced.congr walk.trace.frontier _

theorem traced_new (start : Vec3) : Traced cellOf start (Walk.new cellOf start) := by
  have lone : ∀ {α : Type} (value : α), AList.lookup (β := fun _ : Cell => α) (cellOf start) (AList.singleton (cellOf start) value) = some value := by
    intro α value
    rw [← AList.insert_empty, AList.lookup_insert]
  constructor
  · exact lone start
  · exact lone 0
  · intro cell spent found
    have there : cell ∈ AList.singleton (β := fun _ : Cell => Nat) (cellOf start) 0 :=
      AList.lookup_isSome.mp (by simpa [Walk.new] using congrArg Option.isSome found)
    rw [AList.mem_keys, AList.keys_singleton, List.mem_singleton] at there
    subst there
    cases (lone 0).symm.trans found
    exact Nat.zero_le _
  · intro cell
    rw [AList.mem_keys]
    simp [Walk.new, AList.keys_singleton]
  · intro cell reached other
    rw [AList.mem_keys] at reached
    simp [Walk.new, AList.keys_singleton] at reached
    exact absurd reached other

theorem traced_after {operations : List (Operation Cell)} :
    ∀ {walk : Walk Cell}, Walk.after cellOf cap start operations = some walk → Traced cellOf start walk := by
  induction operations using List.reverseRecOn with
  | nil =>
    intro walk result
    cases result
    exact traced_new start
  | append_singleton operations last ih =>
    intro walk result
    rw [Walk.after, List.foldlM_append] at result
    obtain ⟨before, ran, result⟩ := Option.bind_eq_some_iff.mp result
    rw [List.foldlM_cons] at result
    obtain ⟨next, ran', result⟩ := Option.bind_eq_some_iff.mp result
    cases result
    exact (ih ran).perform cap ran'

end Running

end Walk

section Paths

variable (cellOf : Vec3 → Cell)

def comesFrom (start : Vec3) : List (Trace.Stop Cell) → Cell × Vec3
  | [] => (cellOf start, start)
  | (cell, position, _) :: _ => (cell, position)

def EdgesCrossed (start : Vec3) (crossed : List (Crossed Cell)) : List (Trace.Stop Cell) → Prop
  | [] => True
  | (_, position, link) :: rest =>
    link.origin = (comesFrom cellOf start rest).1 ∧
    (∃ edge ∈ crossed, edge.start = (comesFrom cellOf start rest).2 ∧ edge.landing = position ∧
      edge.link.kind = link.kind ∧ edge.link.via = link.via) ∧
    EdgesCrossed start crossed rest

/-- The path to every reached cell is made of crossed edges. -/
def RealPaths (start : Vec3) (walk : Walk Cell) : Prop :=
  ∀ goal ∈ walk.cost, ∃ fuel stops,
    walk.trace.backFrom (cellOf start) fuel goal = some stops ∧
    walk.trace.pathTo cellOf start goal fuel = some (Trace.listed start stops) ∧
    EdgesCrossed cellOf start walk.crossed stops

def Undisplaced : List (Crossed Cell) → Prop
  | [] => True
  | edge :: later =>
    (edge.kept = true → Walk.lastLanding cellOf later (cellOf edge.landing) = none →
      (Walk.lastLanding cellOf later edge.link.origin).getD edge.start = edge.start) ∧
    Undisplaced later

instance EdgesCrossed.decidable (start : Vec3) (crossed : List (Crossed Cell)) :
    ∀ stops, Decidable (EdgesCrossed cellOf start crossed stops)
  | [] => isTrue trivial
  | (_, position, link) :: rest =>
    have := EdgesCrossed.decidable start crossed rest
    inferInstanceAs (Decidable (link.origin = (comesFrom cellOf start rest).1 ∧
      (∃ edge ∈ crossed, edge.start = (comesFrom cellOf start rest).2 ∧ edge.landing = position ∧
        edge.link.kind = link.kind ∧ edge.link.via = link.via) ∧
      EdgesCrossed cellOf start crossed rest))

instance Undisplaced.decidable : ∀ crossed, Decidable (Undisplaced cellOf crossed)
  | [] => isTrue trivial
  | edge :: later =>
    have := Undisplaced.decidable later
    inferInstanceAs (Decidable ((edge.kept = true → Walk.lastLanding cellOf later (cellOf edge.landing) = none →
      (Walk.lastLanding cellOf later edge.link.origin).getD edge.start = edge.start) ∧ Undisplaced cellOf later))

variable {cellOf}

theorem Undisplaced.at_edge {before later : List (Crossed Cell)} {edge : Crossed Cell}
    (h : Undisplaced cellOf (before ++ edge :: later)) (kept : edge.kept = true)
    (last : Walk.lastLanding cellOf later (cellOf edge.landing) = none) :
    (Walk.lastLanding cellOf later edge.link.origin).getD edge.start = edge.start := by
  induction before with
  | nil => exact h.1 kept last
  | cons _ _ ih => exact ih h.2

theorem Undisplaced.origin {walk : Walk Cell} (undisplaced : Undisplaced cellOf walk.crossed) {cell : Cell}
    {before later : List (Crossed Cell)} {edge : Crossed Cell} (split : walk.crossed = before ++ edge :: later)
    (h : Walk.LinkedBy cellOf walk cell edge later) :
    walk.trace.landing.lookup edge.link.origin = some edge.start := by
  rw [split] at undisplaced
  rw [h.origin, undisplaced.at_edge h.kept (by rw [h.lands, h.last])]

theorem Walk.Traced.edgesCrossed {start : Vec3} {walk : Walk Cell} (traced : Walk.Traced cellOf start walk)
    (undisplaced : Undisplaced cellOf walk.crossed) {goal : Cell} (reached : goal ∈ walk.cost) :
    ∃ fuel stops, walk.trace.backFrom (cellOf start) fuel goal = some stops ∧
      some (comesFrom cellOf start stops).2 = walk.trace.landing.lookup goal ∧
      (comesFrom cellOf start stops).1 = goal ∧ EdgesCrossed cellOf start walk.crossed stops := by
  induction rank : walk.rank cellOf goal using WellFoundedLT.induction generalizing goal with
  | ind level ih =>
    by_cases root : goal = cellOf start
    · subst root
      exact ⟨1, [], by simp [Trace.backFrom], traced.root.symm, rfl, trivial⟩
    · obtain ⟨before, edge, later, split, h⟩ := traced.linked goal reached root
      obtain ⟨fuel, stops, back, stands, comes, crossed⟩ := ih _ (rank ▸ h.closer) h.reached rfl
      refine ⟨fuel + 1, (goal, edge.landing, edge.link) :: stops, ?_, h.landing.symm, rfl, ?_⟩
      · simp [Trace.backFrom, root, h.landing, h.parent, back]
      · refine ⟨comes.symm, ⟨edge, by simp [split], ?_, rfl, rfl, rfl⟩, crossed⟩
        rw [undisplaced.origin split h] at stands
        exact (Option.some.inj stands).symm

theorem undisplaced_paths_are_real {cap : Nat} {start : Vec3} {operations : List (Walk.Operation Cell)}
    {walk : Walk Cell} (ran : Walk.after cellOf cap start operations = some walk)
    (undisplaced : Undisplaced cellOf walk.crossed) : RealPaths cellOf start walk := by
  intro goal reached
  obtain ⟨fuel, stops, back, _, _, crossed⟩ := (Walk.traced_after cap ran).edgesCrossed undisplaced reached
  exact ⟨fuel, stops, back, by rw [Trace.pathTo, back, Option.map_some], crossed⟩

def column (position : Vec3) : Int := ⌊position.x⌋

def gap : Geometry where
  onLadder _ := false
  ladderEdge _ _ := none
  cross position direction _ :=
    if direction ≠ (1, 0) then .blocked none
    else if position = ⟨0, 0, 0⟩ then .landed ⟨1, 0, 0⟩ .jump none
    else if position = ⟨1, 0, 0⟩ then .landed ⟨2, 0, 0⟩ .walk none
    else .blocked none

def bridged : Geometry where
  onLadder _ := false
  ladderEdge _ _ := none
  cross position direction _ :=
    if direction = (1, 0) ∧ position = ⟨0, 0, 0⟩ then .landed ⟨1, 0, 1⟩ .walk none else .blocked none

theorem gap_paths_are_real :
    ∃ walk, Walk.after column 100 ⟨0, 0, 0⟩ [.expand gap 9, .requeueAll, .expand gap 9] = some walk ∧
      RealPaths column ⟨0, 0, 0⟩ walk := by
  obtain ⟨walk, ran⟩ := Option.isSome_iff_exists.mp (show
    (Walk.after column 100 ⟨0, 0, 0⟩ [.expand gap 9, .requeueAll, .expand gap 9]).isSome by decide +kernel)
  refine ⟨walk, ran, undisplaced_paths_are_real ran ?_⟩
  have : ∀ walk ∈ Walk.after column 100 ⟨0, 0, 0⟩ [.expand gap 9, .requeueAll, .expand gap 9],
      Undisplaced column walk.crossed := by decide +kernel
  exact this walk ran

theorem Trace.backFrom_succ (trace : Trace Cell) (root : Cell) (fuel : Nat) :
    ∀ cell stops, trace.backFrom root fuel cell = some stops → trace.backFrom root (fuel + 1) cell = some stops := by
  induction fuel with
  | zero =>
    intro cell stops back
    cases back
  | succ fuel ih =>
    intro cell stops back
    rw [Trace.backFrom] at back ⊢
    split
    · rename_i here
      rw [if_pos here] at back
      exact back
    · rename_i elsewhere
      rw [if_neg elsewhere] at back
      split
      · rename_i position link found linked
        rw [found, linked] at back
        obtain ⟨rest, further, same⟩ := Option.map_eq_some_iff.mp back
        exact Option.map_eq_some_iff.mpr ⟨rest, ih link.origin rest further, same⟩
      · rename_i lost
        split at back
        · rename_i position link found linked
          exact absurd linked (lost position link found)
        · exact back

theorem Trace.backFrom_le (trace : Trace Cell) (root : Cell) {fuel more : Nat} (le : fuel ≤ more) {cell : Cell}
    {stops : List (Trace.Stop Cell)} (back : trace.backFrom root fuel cell = some stops) :
    trace.backFrom root more cell = some stops := by
  induction le with
  | refl => exact back
  | step _ ih => exact trace.backFrom_succ root _ cell stops ih

theorem Trace.backFrom_unique (trace : Trace Cell) (root : Cell) {fuel fuel' : Nat} {cell : Cell}
    {stops stops' : List (Trace.Stop Cell)} (back : trace.backFrom root fuel cell = some stops)
    (back' : trace.backFrom root fuel' cell = some stops') : stops = stops' := by
  have long := trace.backFrom_le root (Nat.le_max_left fuel fuel') back
  have long' := trace.backFrom_le root (Nat.le_max_right fuel fuel') back'
  exact Option.some.inj (long.symm.trans long')

/-- The step behind the gap was crossed from the far side of the jump, not from the new floor. -/
theorem bridged_gap_path_is_not_real :
    ¬ ∀ operations walk, Walk.after column 100 ⟨0, 0, 0⟩ operations = some walk → RealPaths column ⟨0, 0, 0⟩ walk := by
  intro claimed
  have run : ∃ walk ∈ Walk.after column 100 ⟨0, 0, 0⟩ [.expand gap 9, .requeueAll, .expand bridged 9],
      2 ∈ walk.cost ∧ ∃ stops ∈ walk.trace.backFrom 0 3 2, ¬ EdgesCrossed column ⟨0, 0, 0⟩ walk.crossed stops := by
    decide +kernel
  obtain ⟨walk, ran, reached, stops, back, broken⟩ := run
  obtain ⟨fuel, stops', back', _, crossed⟩ := claimed _ walk ran 2 reached
  have root : column ⟨0, 0, 0⟩ = 0 := by decide +kernel
  rw [root] at back'
  rw [walk.trace.backFrom_unique 0 back back'] at broken
  exact broken crossed

end Paths

end OpenHalfLife.Route
