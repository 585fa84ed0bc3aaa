import OpenHalfLife.Combat.AttackTrace
import OpenHalfLife.Lib.Nearest
import OpenHalfLife.Physics.Sweep
import Mathlib.Data.Fintype.Basic
import Mathlib.Tactic.FinCases
import Mathlib.Tactic.LinearCombination

/-! # The nearest hit

An attack trace stops at the first thing in its way. The normal it reports is that of the face it came
in through, unless it began inside a box or the box is flat.
-/

namespace OpenHalfLife.Combat

set_option autoImplicit false

variable {K : Type} [Field K]

/-! ### Rotations -/

namespace Quat

variable (q : Quat K) (v w : Physics.Vec3 K)

theorem mulVec3_add : q.mulVec3 (v + w) = q.mulVec3 v + q.mulVec3 w := by
  ext <;> simp [mulVec3, Physics.Vec3.cross, Physics.Vec3.dot] <;> ring

theorem mulVec3_scale (factor : K) : q.mulVec3 (v.scale factor) = (q.mulVec3 v).scale factor := by
  ext <;> simp [mulVec3, Physics.Vec3.cross, Physics.Vec3.dot] <;> ring

theorem mulVec3_dot : (q.mulVec3 v).dot w = v.dot (q.conjugate.mulVec3 w) := by
  simp [mulVec3, conjugate, Physics.Vec3.cross, Physics.Vec3.dot]
  ring

theorem conjugate_mulVec3 : q.conjugate.mulVec3 (q.mulVec3 v) = v := by
  have hUnit : (q.x * q.x + q.y * q.y + q.z * q.z + q.w * q.w) ^ 2 = 1 := by rw [q.unit, one_pow]
  ext
  · simp [mulVec3, conjugate, Physics.Vec3.cross, Physics.Vec3.dot]
    linear_combination v.x * hUnit
  · simp [mulVec3, conjugate, Physics.Vec3.cross, Physics.Vec3.dot]
    linear_combination v.y * hUnit
  · simp [mulVec3, conjugate, Physics.Vec3.cross, Physics.Vec3.dot]
    linear_combination v.z * hUnit

theorem mulVec3_dot_self : (q.mulVec3 v).dot (q.mulVec3 v) = v.dot v := by
  rw [mulVec3_dot, conjugate_mulVec3]

end Quat

/-! ### The boxes in the way -/

variable [LinearOrder K] (sqrt : K → K) (filter : TraceFilter) (start finish : Physics.Vec3 K) (world : Physics.Trace K)
  (index : HitboxIndex K)

namespace EntityHitboxes

variable (entity : EntityHitboxes K)

def localPoint (point : Physics.Vec3 K) : Physics.Vec3 K := entity.rotation.conjugate.mulVec3 (point - entity.origin)

def localDelta (delta : Physics.Vec3 K) : Physics.Vec3 K := entity.rotation.conjugate.mulVec3 delta

def Touches (volume : HitboxVolume K) (t : K) : Prop :=
  0 ≤ t ∧ t ≤ 1 ∧ InBox volume.min volume.max (entity.localPoint (Physics.Vec3.along start finish t))

theorem touches_iff_meets (volume : HitboxVolume K) (t : K) : entity.Touches start finish volume t ↔
    Meets (entity.localPoint start) (entity.localDelta (finish - start)) volume.min volume.max t := by
  have hLocal : entity.localPoint (Physics.Vec3.along start finish t) =
      entity.localPoint start + (entity.localDelta (finish - start)).scale t := by
    rw [localPoint, localPoint, localDelta, ← Quat.mulVec3_scale, ← Quat.mulVec3_add]
    congr 1
    ext <;> simp [Physics.Vec3.along] <;> ring
  rw [Touches, Meets, hLocal]

end EntityHitboxes

namespace HitboxIndex

def Offers (entity : EntityHitboxes K) : Prop := entity ∈ index.entries ∧ filter.ignores entity.id = false

def unignored : HitboxIndex K := ⟨index.entries.filter fun entity => !filter.ignores entity.id⟩

def candidates : List (EntityHitboxes K × HitboxVolume K) :=
  (index.unignored filter).entries.flatMap fun entity => entity.boxes.map fun volume => (entity, volume)

variable {filter index}

theorem mem_unignored {entity : EntityHitboxes K} :
    entity ∈ (index.unignored filter).entries ↔ index.Offers filter entity := by
  simp [unignored, Offers]

theorem mem_candidates {candidate : EntityHitboxes K × HitboxVolume K} : candidate ∈ index.candidates filter ↔
    index.Offers filter candidate.1 ∧ candidate.2 ∈ candidate.1.boxes := by
  obtain ⟨entity, volume⟩ := candidate
  simp only [candidates, List.mem_flatMap, mem_unignored, List.mem_map, Prod.mk.injEq]
  constructor
  · rintro ⟨_, hOffers, _, hMem, rfl, rfl⟩
    exact ⟨hOffers, hMem⟩
  · rintro ⟨hOffers, hMem⟩
    exact ⟨entity, hOffers, volume, hMem, rfl, rfl⟩

theorem candidates_unignored : (index.unignored filter).candidates filter = index.candidates filter := by
  simp [candidates, unignored]

end HitboxIndex

def strike (delta : Physics.Vec3 K) (candidate : EntityHitboxes K × HitboxVolume K) : Option (AttackTrace K) :=
  (rayBox (candidate.1.localPoint start) (candidate.1.localDelta delta) candidate.2.min candidate.2.max).map
    fun (fraction, localNormal) =>
      { fraction
        endPos := start + delta.scale fraction
        entity := some candidate.1.id
        hitbox := some candidate.2.index
        hitgroup := candidate.2.group
        surfaceNormal := (candidate.1.rotation.mulVec3 localNormal).normalizeOrZero sqrt }

theorem strikeBox_eq (delta : Physics.Vec3 K) (entity : EntityHitboxes K) (best : AttackTrace K)
    (volume : HitboxVolume K) : strikeBox sqrt start delta entity best volume =
      nearer AttackTrace.fraction (strike sqrt start delta) best (entity, volume) := by
  rw [strikeBox, nearer, strike, EntityHitboxes.localPoint, EntityHitboxes.localDelta]
  cases rayBox (entity.rotation.conjugate.mulVec3 (start - entity.origin)) (entity.rotation.conjugate.mulVec3 delta)
    volume.min volume.max <;> rfl

theorem foldl_strikeEntity (delta : Physics.Vec3 K) (entries : List (EntityHitboxes K)) (best : AttackTrace K) :
    entries.foldl (strikeEntity sqrt filter start delta) best =
      nearest AttackTrace.fraction (strike sqrt start delta) best ((HitboxIndex.mk entries).candidates filter) := by
  induction entries generalizing best with
  | nil => rfl
  | cons entity entries ih =>
    rw [List.foldl_cons, ih, strikeEntity]
    simp only [HitboxIndex.candidates, HitboxIndex.unignored, List.filter_cons]
    cases filter.ignores entity.id with
    | true => rfl
    | false =>
      simp only [Bool.false_eq_true, if_false, Bool.not_false, if_true, List.flatMap_cons, nearest_append]
      congr 1
      rw [nearest, List.foldl_map]
      exact List.foldl_ext _ _ _ fun best volume _ => strikeBox_eq sqrt start delta entity best volume

theorem trace_eq : traceAttackFilteredIgnoringBrush sqrt filter start finish world index =
    if filter.mask.entities then
      nearest AttackTrace.fraction (strike sqrt start (finish - start)) (strikeWorld filter start finish world)
        (index.candidates filter)
    else strikeWorld filter start finish world := by
  rw [traceAttackFilteredIgnoringBrush]
  cases filter.mask.entities with
  | true => exact foldl_strikeEntity sqrt filter start (finish - start) index.entries _
  | false => rfl

/-! ### One box -/

variable [IsStrictOrderedRing K] {sqrt : K → K} {filter : TraceFilter} {start finish : Physics.Vec3 K}
  {world : Physics.Trace K} {index : HitboxIndex K} {entity : EntityHitboxes K} {volume : HitboxVolume K}
  {candidate : EntityHitboxes K × HitboxVolume K} {hit : AttackTrace K} {t : K}

omit [IsStrictOrderedRing K] in
theorem FaceAt.dot_self {delta low high normal : Physics.Vec3 K} (h : FaceAt start delta low high t normal) :
    normal.dot normal = 1 := by
  cases h with
  | inside _ hNormal => simp [hNormal, onAxis, Physics.Vec3.dot]
  | face axis _ _ hNormal =>
    have hSign : entering delta low high axis * entering delta low high axis = 1 := by
      rw [entering]
      split <;> simp
    have hCoord : coord normal axis = entering delta low high axis := by
      rw [hNormal]
      fin_cases axis <;> rfl
    calc normal.dot normal
        = entering delta low high axis * coord normal axis := by nth_rewrite 1 [hNormal]; exact onAxis_dot _ _ _
      _ = 1 := by rw [hCoord, hSign]

theorem normalizeOrZero_of_unit {v : Physics.Vec3 K} (hSqrt : sqrt 1 = 1) (h : v.dot v = 1) :
    v.normalizeOrZero sqrt = v := by
  simp [Physics.Vec3.normalizeOrZero, h, hSqrt]

def EntityHitboxes.Turned (entity : EntityHitboxes K) (start finish : Physics.Vec3 K) (volume : HitboxVolume K) (t : K) :
    Prop :=
  FaceTurned (entity.localPoint start) (entity.localDelta (finish - start)) volume.min volume.max t

structure EndsAt (start finish : Physics.Vec3 K) (candidate : EntityHitboxes K × HitboxVolume K) (hit : AttackTrace K) :
    Prop where
  isLeast : IsLeast {t | candidate.1.Touches start finish candidate.2 t} hit.fraction
  endPos : hit.endPos = Physics.Vec3.along start finish hit.fraction
  entity : hit.entity = some candidate.1.id
  hitbox : hit.hitbox = some candidate.2.index
  hitgroup : hit.hitgroup = candidate.2.group
  turned : hit.surfaceNormal.dot (finish - start) ≤ 0 ↔ candidate.1.Turned start finish candidate.2 hit.fraction

theorem strike_none (hResolved : Resolved (candidate.1.localDelta (finish - start)))
    (h : strike sqrt start (finish - start) candidate = none) : ¬ candidate.1.Touches start finish candidate.2 t := by
  rw [EntityHitboxes.touches_iff_meets]
  exact rayBox_none hResolved candidate.2.ordered (Option.map_eq_none_iff.mp h) t

theorem strike_some (hSqrt : sqrt 1 = 1) (hResolved : Resolved (candidate.1.localDelta (finish - start)))
    (h : strike sqrt start (finish - start) candidate = some hit) : EndsAt start finish candidate hit := by
  obtain ⟨⟨fraction, localNormal⟩, hRay, rfl⟩ := Option.map_eq_some_iff.mp h
  obtain ⟨hLeast, hFace⟩ := rayBox_some hResolved candidate.2.ordered hRay
  have hNormal : (candidate.1.rotation.mulVec3 localNormal).normalizeOrZero sqrt =
      candidate.1.rotation.mulVec3 localNormal :=
    normalizeOrZero_of_unit hSqrt ((Quat.mulVec3_dot_self _ _).trans hFace.dot_self)
  refine ⟨?_, rfl, rfl, rfl, rfl, ?_⟩
  · simpa only [EntityHitboxes.touches_iff_meets] using hLeast
  · dsimp only
    rw [hNormal, Quat.mulVec3_dot]
    exact hFace.dot_nonpos_iff candidate.2.ordered

theorem forall_strike_iff (hSqrt : sqrt 1 = 1) (hResolved : Resolved (candidate.1.localDelta (finish - start)))
    (P : K → Prop) (hUp : ∀ a b, a ≤ b → P a → P b) :
    (∀ hit, strike sqrt start (finish - start) candidate = some hit → P hit.fraction) ↔
      ∀ s, candidate.1.Touches start finish candidate.2 s → P s := by
  cases hStrike : strike sqrt start (finish - start) candidate with
  | none => simp [strike_none hResolved hStrike]
  | some hit =>
    have hEnds := strike_some hSqrt hResolved hStrike
    constructor
    · exact fun h s hTouches => hUp _ _ (hEnds.isLeast.2 hTouches) (h hit rfl)
    · rintro h other hOther
      obtain rfl := Option.some.inj hOther
      exact h _ hEnds.isLeast.1

/-! ### The world -/

omit [IsStrictOrderedRing K] in
theorem strikeWorld_entity : (strikeWorld filter start finish world).entity = none := by
  simp only [strikeWorld]
  repeat' split
  all_goals rfl

theorem strikeWorld_fraction : (strikeWorld filter start finish world).fraction =
    if filter.mask.world then unitClamp world.fraction else 1 := by
  simp only [strikeWorld]
  split
  · by_cases hShort : clampFraction world.fraction < 1 ∨ world.startSolid ∨ world.allSolid
    · rw [if_pos hShort]
      rfl
    · rw [if_neg hShort]
      exact (le_antisymm (unitClamp_le_one _) (not_lt.mp (not_or.mp hShort).1)).symm
  · rfl

omit [IsStrictOrderedRing K] in
theorem strikeWorld_endPos : (strikeWorld filter start finish world).endPos =
    Physics.Vec3.along start finish (strikeWorld filter start finish world).fraction := by
  simp only [strikeWorld]
  repeat' split
  all_goals first | rfl | exact (Physics.Vec3.along_one _ _).symm

theorem lt_strikeWorld_iff (h : 0 ≤ t) : t < (strikeWorld filter start finish world).fraction ↔
    t < 1 ∧ (filter.mask.world → t < world.fraction) := by
  rw [strikeWorld_fraction]
  split <;> rename_i hMask
  · simp [unitClamp, hMask, not_lt.mpr h]
  · simp [hMask]

/-! ### The whole trace -/

/-- Where a trace may have to stop: at its end, at what the world's sweep reports, which is never before the start, or in
a box of an entity. -/
inductive StopsAt (filter : TraceFilter) (start finish : Physics.Vec3 K) (world : Physics.Trace K) (index : HitboxIndex K) :
    K → Prop
  | whole : StopsAt filter start finish world index 1
  | world : filter.mask.world → StopsAt filter start finish world index (max 0 world.fraction)
  | entity (entity : EntityHitboxes K) (volume : HitboxVolume K) (t : K) : filter.mask.entities →
    index.Offers filter entity → volume ∈ entity.boxes → entity.Touches start finish volume t →
    StopsAt filter start finish world index t

def Untied (filter : TraceFilter) (start finish : Physics.Vec3 K) (index : HitboxIndex K) (t : K) : Prop :=
  ∀ entity other, index.Offers filter entity → index.Offers filter other →
    (∃ volume ∈ entity.boxes, entity.Touches start finish volume t) →
    (∃ volume ∈ other.boxes, other.Touches start finish volume t) → entity = other

/-- The trace reports the nearest hit, whatever the order of the entities. -/
structure ReportsNearest (sqrt : K → K) (filter : TraceFilter) (start finish : Physics.Vec3 K) (world : Physics.Trace K)
    (index : HitboxIndex K) (trace : AttackTrace K) : Prop where
  fraction : IsLeast {t | StopsAt filter start finish world index t} trace.fraction
  endPos : trace.endPos = Physics.Vec3.along start finish trace.fraction
  owner : ∀ id, trace.entity = some id → ∃ entity, index.Offers filter entity ∧ entity.id = id ∧
    ∃ volume ∈ entity.boxes, trace.hitbox = some volume.index ∧ trace.hitgroup = volume.group ∧
      entity.Touches start finish volume trace.fraction
  unignored : traceAttackFilteredIgnoringBrush sqrt filter start finish world (index.unignored filter) = trace
  order : ∀ other : HitboxIndex K, index.entries.Perm other.entries →
    let reordered := traceAttackFilteredIgnoringBrush sqrt filter start finish world other
    reordered.fraction = trace.fraction ∧ reordered.endPos = trace.endPos ∧
      (Untied filter start finish index trace.fraction → reordered = trace)
  normal : trace.entity.isSome → trace.surfaceNormal.dot (finish - start) ≤ 0

/-- The box a trace has to end at: no box is touched before it, none that comes earlier is touched at the same
fraction, and neither the end nor the world stops the trace first. -/
inductive FirstStruck (filter : TraceFilter) (start finish : Physics.Vec3 K) (world : Physics.Trace K)
    (index : HitboxIndex K) (entity : EntityHitboxes K) (volume : HitboxVolume K) (t : K) : Prop
  | mk (before after : List (EntityHitboxes K × HitboxVolume K)) : filter.mask.entities →
    index.candidates filter = before ++ (entity, volume) :: after →
    IsLeast {s | entity.Touches start finish volume s} t → t < 1 → (filter.mask.world → t < world.fraction) →
    (∀ other ∈ before, ∀ s, other.1.Touches start finish other.2 s → t < s) →
    (∀ other ∈ after, ∀ s, other.1.Touches start finish other.2 s → t ≤ s) →
    FirstStruck filter start finish world index entity volume t

section

variable (hSqrt : sqrt 1 = 1)
  (hResolved : ∀ entity, index.Offers filter entity → Resolved (entity.localDelta (finish - start)))

include hSqrt hResolved

theorem allAbove_iff {candidates : List (EntityHitboxes K × HitboxVolume K)}
    (hMem : ∀ candidate ∈ candidates, candidate ∈ index.candidates filter) :
    AllAbove AttackTrace.fraction (strike sqrt start (finish - start)) candidates t ↔
      ∀ other ∈ candidates, ∀ s, other.1.Touches start finish other.2 s → t < s :=
  forall₂_congr fun other hOther =>
    forall_strike_iff hSqrt (hResolved _ (HitboxIndex.mem_candidates.mp (hMem other hOther)).1) (t < ·)
      fun _ _ hLe hLt => hLt.trans_le hLe

theorem noneBelow_iff {candidates : List (EntityHitboxes K × HitboxVolume K)}
    (hMem : ∀ candidate ∈ candidates, candidate ∈ index.candidates filter) :
    NoneBelow AttackTrace.fraction (strike sqrt start (finish - start)) candidates t ↔
      ∀ other ∈ candidates, ∀ s, other.1.Touches start finish other.2 s → t ≤ s :=
  forall₂_congr fun other hOther =>
    forall_strike_iff hSqrt (hResolved _ (HitboxIndex.mem_candidates.mp (hMem other hOther)).1) (t ≤ ·)
      fun _ _ hLe hLe' => hLe'.trans hLe

theorem FirstStruck.strike_eq (h : FirstStruck filter start finish world index entity volume t) :
    strike sqrt start (finish - start) (entity, volume) =
      some (traceAttackFilteredIgnoringBrush sqrt filter start finish world index) ∧
      (traceAttackFilteredIgnoringBrush sqrt filter start finish world index).fraction = t := by
  obtain ⟨before, after, hMask, hSplit, hLeast, hOne, hWorld, hBefore, hAfter⟩ := h
  have hMem : (entity, volume) ∈ index.candidates filter := by simp [hSplit]
  have hOffers : index.Offers filter entity := (HitboxIndex.mem_candidates.mp hMem).1
  rw [trace_eq, if_pos hMask, hSplit]
  cases hStrike : strike sqrt start (finish - start) (entity, volume) with
  | none => exact absurd hLeast.1 (strike_none (hResolved _ hOffers) hStrike)
  | some hit =>
    have hFraction : hit.fraction = t := (strike_some hSqrt (hResolved _ hOffers) hStrike).isLeast.unique hLeast
    have hNearest : nearest AttackTrace.fraction _ (strikeWorld filter start finish world) _ = hit := nearest_eq_hit hStrike
      (hFraction ▸ (lt_strikeWorld_iff hLeast.1.1).mpr ⟨hOne, hWorld⟩)
      (hFraction ▸ (allAbove_iff hSqrt hResolved fun other hOther => by simp [hSplit, hOther]).mpr hBefore)
      (hFraction ▸ (noneBelow_iff hSqrt hResolved fun other hOther => by simp [hSplit, hOther]).mpr hAfter)
    rw [hNearest]
    exact ⟨rfl, hFraction⟩

omit hSqrt hResolved [IsStrictOrderedRing K] in
theorem FirstStruck.offers (h : FirstStruck filter start finish world index entity volume t) :
    index.Offers filter entity ∧ volume ∈ entity.boxes ∧ entity.Touches start finish volume t := by
  obtain ⟨before, after, -, hSplit, hLeast, -⟩ := h
  have hMem : (entity, volume) ∈ index.candidates filter := by simp [hSplit]
  obtain ⟨hOffers, hBox⟩ := HitboxIndex.mem_candidates.mp hMem
  exact ⟨hOffers, hBox, hLeast.1⟩

theorem FirstStruck.endsAt (h : FirstStruck filter start finish world index entity volume t) :
    EndsAt start finish (entity, volume) (traceAttackFilteredIgnoringBrush sqrt filter start finish world index) :=
  strike_some hSqrt (hResolved _ h.offers.1) (h.strike_eq hSqrt hResolved).1

omit hSqrt hResolved in
theorem FirstStruck.lt_strikeWorld (h : FirstStruck filter start finish world index entity volume t) :
    t < (strikeWorld filter start finish world).fraction := by
  obtain ⟨before, after, -, -, hLeast, hOne, hWorld, -⟩ := h
  exact (lt_strikeWorld_iff hLeast.1.1).mpr ⟨hOne, hWorld⟩

omit hSqrt hResolved [IsStrictOrderedRing K] in
open Classical in
theorem FirstStruck.find (h : FirstStruck filter start finish world index entity volume t) :
    entity.boxes.find? (fun other => entity.Touches start finish other t) = some volume := by
  obtain ⟨before, after, -, hSplit, hLeast, -, -, hBefore, -⟩ := h
  have hFind : (index.candidates filter).find? (fun other => other.1.Touches start finish other.2 t) =
      some (entity, volume) := by
    refine List.find?_eq_some_iff_append.mpr ⟨decide_eq_true hLeast.1, before, after, hSplit, fun other hOther => ?_⟩
    simpa using fun hTouches => lt_irrefl t (hBefore other hOther t hTouches)
  rw [HitboxIndex.candidates, List.find?_flatMap] at hFind
  obtain ⟨owner, -, hOwner⟩ := List.exists_of_findSome?_eq_some hFind
  rw [List.find?_map] at hOwner
  obtain ⟨box, hBox, hPair⟩ := Option.map_eq_some_iff.mp hOwner
  obtain ⟨rfl, rfl⟩ := Prod.mk.inj hPair
  exact hBox

variable (world) in
theorem trace_cases :
    (traceAttackFilteredIgnoringBrush sqrt filter start finish world index = strikeWorld filter start finish world ∧
      ∀ candidate ∈ index.candidates filter, filter.mask.entities → ∀ s,
        candidate.1.Touches start finish candidate.2 s → (strikeWorld filter start finish world).fraction ≤ s) ∨
      ∃ entity volume t, FirstStruck filter start finish world index entity volume t := by
  cases hMask : filter.mask.entities with
  | false => exact .inl ⟨by simp [trace_eq, hMask], fun _ _ h => nomatch h⟩
  | true =>
    cases found AttackTrace.fraction (strike sqrt start (finish - start)) (strikeWorld filter start finish world)
      (index.candidates filter) with
    | kept hNone =>
      refine .inl ⟨by rw [trace_eq, if_pos hMask, nearest_eq_self hNone], fun candidate hMem _ s hTouches => ?_⟩
      exact (noneBelow_iff hSqrt hResolved fun _ h => h).mp hNone candidate hMem s hTouches
    | hit before after candidate hit hSplit hStrike hLt hBefore hAfter =>
      have hOffers : index.Offers filter candidate.1 := (HitboxIndex.mem_candidates.mp (by simp [hSplit])).1
      have hEnds := strike_some hSqrt (hResolved _ hOffers) hStrike
      obtain ⟨hOne, hWorld⟩ := (lt_strikeWorld_iff hEnds.isLeast.1.1).mp hLt
      exact .inr ⟨candidate.1, candidate.2, hit.fraction, .mk before after hMask hSplit hEnds.isLeast hOne hWorld
        ((allAbove_iff hSqrt hResolved fun other hOther => by simp [hSplit, hOther]).mp hBefore)
        ((noneBelow_iff hSqrt hResolved fun other hOther => by simp [hSplit, hOther]).mp hAfter)⟩

variable (world) in
theorem isLeast_fraction : IsLeast {t | StopsAt filter start finish world index t}
    (traceAttackFilteredIgnoringBrush sqrt filter start finish world index).fraction := by
  have hWorld (s : K) (hs : s ≤ (strikeWorld filter start finish world).fraction) (hNone : ∀ candidate ∈ index.candidates filter,
      filter.mask.entities → ∀ t, candidate.1.Touches start finish candidate.2 t → s ≤ t) :
      s ∈ lowerBounds {t | StopsAt filter start finish world index t} := by
    rw [strikeWorld_fraction] at hs
    rintro t (_ | hMask | ⟨entity, volume, _, hMask, hOffers, hMem, hTouches⟩)
    · refine hs.trans ?_
      split
      · exact unitClamp_le_one _
      · exact le_rfl
    · rw [if_pos hMask] at hs
      exact hs.trans (max_le_max le_rfl (min_le_right _ _))
    · exact hNone (_, _) (HitboxIndex.mem_candidates.mpr ⟨hOffers, hMem⟩) hMask _ hTouches
  rcases trace_cases world hSqrt hResolved with ⟨hTrace, hNone⟩ | ⟨entity, volume, t, hStruck⟩
  · rw [hTrace]
    refine ⟨?_, hWorld _ le_rfl hNone⟩
    rw [strikeWorld_fraction]
    split <;> rename_i hMask
    · rcases le_total 1 world.fraction with hFull | hShort
      · rw [unitClamp, min_eq_left hFull, max_eq_right zero_le_one]
        exact .whole
      · rw [unitClamp, min_eq_right hShort]
        exact .world hMask
    · exact .whole
  · obtain ⟨hOffers, hBox, hTouch⟩ := hStruck.offers
    have hLt := hStruck.lt_strikeWorld
    rw [(hStruck.strike_eq hSqrt hResolved).2]
    obtain ⟨before, after, hMask, hSplit, hLeast, -, -, hBefore, hAfter⟩ := hStruck
    refine ⟨.entity entity volume t hMask hOffers hBox hTouch, hWorld t hLt.le ?_⟩
    intro candidate hCandidate _ s hTouches
    rw [hSplit] at hCandidate
    rcases List.mem_append.mp hCandidate with hIn | hIn
    · exact (hBefore candidate hIn s hTouches).le
    · rcases List.mem_cons.mp hIn with rfl | hIn
      · exact hLeast.2 hTouches
      · exact hAfter candidate hIn s hTouches

theorem trace_endPos : (traceAttackFilteredIgnoringBrush sqrt filter start finish world index).endPos =
    Physics.Vec3.along start finish (traceAttackFilteredIgnoringBrush sqrt filter start finish world index).fraction := by
  rcases trace_cases world hSqrt hResolved with ⟨hTrace, -⟩ | ⟨entity, volume, t, hStruck⟩
  · rw [hTrace, strikeWorld_endPos]
  · exact (hStruck.endsAt hSqrt hResolved).endPos

theorem trace_owner (id : EntityId)
    (h : (traceAttackFilteredIgnoringBrush sqrt filter start finish world index).entity = some id) :
    ∃ entity, index.Offers filter entity ∧ entity.id = id ∧ ∃ volume ∈ entity.boxes,
      (traceAttackFilteredIgnoringBrush sqrt filter start finish world index).hitbox = some volume.index ∧
      (traceAttackFilteredIgnoringBrush sqrt filter start finish world index).hitgroup = volume.group ∧
      entity.Touches start finish volume
        (traceAttackFilteredIgnoringBrush sqrt filter start finish world index).fraction := by
  rcases trace_cases world hSqrt hResolved with ⟨hTrace, -⟩ | ⟨entity, volume, t, hStruck⟩
  · rw [hTrace, strikeWorld_entity] at h
    cases h
  · have hEnds := hStruck.endsAt hSqrt hResolved
    obtain ⟨hOffers, hBox, -⟩ := hStruck.offers
    exact ⟨entity, hOffers, Option.some.inj (hEnds.entity.symm.trans h), volume, hBox, hEnds.hitbox, hEnds.hitgroup,
      hEnds.isLeast.1⟩

omit hSqrt hResolved [IsStrictOrderedRing K] in
theorem HitboxIndex.offers_perm {other : HitboxIndex K} (h : index.entries.Perm other.entries) :
    other.Offers filter entity ↔ index.Offers filter entity := by
  rw [Offers, Offers, h.mem_iff]

omit hSqrt hResolved [IsStrictOrderedRing K] in
theorem stopsAt_perm {other : HitboxIndex K} (h : index.entries.Perm other.entries) :
    StopsAt filter start finish world index t → StopsAt filter start finish world other t
  | .whole => .whole
  | .world hMask => .world hMask
  | .entity entity volume t hMask hOffers hBox hTouches =>
    .entity entity volume t hMask ((HitboxIndex.offers_perm h).mpr hOffers) hBox hTouches

section

variable {other : HitboxIndex K} (hPerm : index.entries.Perm other.entries)

include hPerm

variable (world) in
theorem reordered_fraction : (traceAttackFilteredIgnoringBrush sqrt filter start finish world other).fraction =
    (traceAttackFilteredIgnoringBrush sqrt filter start finish world index).fraction := by
  have hResolved' (entity : EntityHitboxes K) (h : other.Offers filter entity) :=
    hResolved entity ((HitboxIndex.offers_perm hPerm).mp h)
  have hOther := isLeast_fraction world hSqrt hResolved'
  have hLeast := isLeast_fraction world hSqrt hResolved
  exact le_antisymm (hOther.2 (stopsAt_perm hPerm hLeast.1)) (hLeast.2 (stopsAt_perm hPerm.symm hOther.1))

theorem reordered_trace (hUntied : Untied filter start finish index
      (traceAttackFilteredIgnoringBrush sqrt filter start finish world index).fraction) :
    traceAttackFilteredIgnoringBrush sqrt filter start finish world other =
      traceAttackFilteredIgnoringBrush sqrt filter start finish world index := by
  have hResolved' (entity : EntityHitboxes K) (h : other.Offers filter entity) :=
    hResolved entity ((HitboxIndex.offers_perm hPerm).mp h)
  have hFraction := reordered_fraction world hSqrt hResolved hPerm
  rcases trace_cases world hSqrt hResolved with ⟨hTrace, -⟩ | ⟨entity, volume, t, hStruck⟩
  · rcases trace_cases world hSqrt hResolved' with ⟨hTrace', -⟩ | ⟨entity, volume, t, hStruck⟩
    · rw [hTrace, hTrace']
    · have hLt := hStruck.lt_strikeWorld
      rw [hTrace, (hStruck.strike_eq hSqrt hResolved').2] at hFraction
      exact absurd hFraction hLt.ne
  · obtain ⟨hStrike, hAt⟩ := hStruck.strike_eq hSqrt hResolved
    rcases trace_cases world hSqrt hResolved' with ⟨hTrace', -⟩ | ⟨entity', volume', t', hStruck'⟩
    · have hLt := hStruck.lt_strikeWorld
      rw [hTrace', hAt] at hFraction
      exact absurd hFraction hLt.ne'
    · obtain ⟨hStrike', hAt'⟩ := hStruck'.strike_eq hSqrt hResolved'
      obtain rfl : t' = t := hAt'.symm.trans (hFraction.trans hAt)
      rw [hAt] at hUntied
      have hEntity : entity = entity' := hUntied entity entity' hStruck.offers.1
        ((HitboxIndex.offers_perm hPerm).mp hStruck'.offers.1) ⟨volume, hStruck.offers.2⟩ ⟨volume', hStruck'.offers.2⟩
      subst hEntity
      have hVolume : volume = volume' := Option.some.inj (hStruck.find.symm.trans hStruck'.find)
      subst hVolume
      exact Option.some.inj (hStrike'.symm.trans hStrike)

end

end

/-- The nearest hit is reported, but for the normal when the trace begins inside the box or the box is flat. -/
theorem reportsNearest_iff (hSqrt : sqrt 1 = 1)
    (hResolved : ∀ entity, index.Offers filter entity → Resolved (entity.localDelta (finish - start))) :
    ReportsNearest sqrt filter start finish world index
      (traceAttackFilteredIgnoringBrush sqrt filter start finish world index) ↔
    ∀ entity volume t, FirstStruck filter start finish world index entity volume t →
      entity.Turned start finish volume t := by
  constructor
  · intro h entity volume t hStruck
    have hEnds := hStruck.endsAt hSqrt hResolved
    have hTurned := hEnds.turned.mp (h.normal (by rw [hEnds.entity]; rfl))
    rwa [(hStruck.strike_eq hSqrt hResolved).2] at hTurned
  · intro h
    refine ⟨isLeast_fraction world hSqrt hResolved, trace_endPos hSqrt hResolved, trace_owner hSqrt hResolved, ?_, ?_, ?_⟩
    · rw [trace_eq, trace_eq, HitboxIndex.candidates_unignored]
    · intro other hPerm
      have hResolved' (entity : EntityHitboxes K) (h : other.Offers filter entity) :=
        hResolved entity ((HitboxIndex.offers_perm hPerm).mp h)
      have hFraction := reordered_fraction world hSqrt hResolved hPerm
      refine ⟨hFraction, ?_, reordered_trace hSqrt hResolved hPerm⟩
      rw [trace_endPos hSqrt hResolved', trace_endPos hSqrt hResolved, hFraction]
    · intro hEntity
      rcases trace_cases world hSqrt hResolved with ⟨hTrace, -⟩ | ⟨entity, volume, t, hStruck⟩
      · rw [hTrace, strikeWorld_entity] at hEntity
        cases hEntity
      · refine (hStruck.endsAt hSqrt hResolved).turned.mpr ?_
        rw [(hStruck.strike_eq hSqrt hResolved).2]
        exact h entity volume t hStruck

/-! ### A guard of two units -/

def sampleGuard : EntityHitboxes ℚ :=
  (EntityHitboxes.bare 7 Physics.Vec3.zero).pushBox 0 ⟨-1, -1, -1⟩ ⟨1, 1, 1⟩ .chest

def sampleShot : TraceFilter := ⟨(none, none), ⟨true, true⟩⟩

def shotAtGuard (start finish : Physics.Vec3 ℚ) : AttackTrace ℚ :=
  traceAttackFilteredIgnoringBrush Rat.sqrt sampleShot start finish (Physics.Trace.miss finish) ⟨[sampleGuard]⟩

theorem sqrt_one : Rat.sqrt 1 = 1 := by simp

theorem resolved_guard {start finish : Physics.Vec3 ℚ} (h : Resolved (sampleGuard.localDelta (finish - start)))
    (entity : EntityHitboxes ℚ) (hOffers : (HitboxIndex.mk [sampleGuard]).Offers sampleShot entity) :
    Resolved (entity.localDelta (finish - start)) := by
  obtain rfl := List.mem_singleton.mp hOffers.1
  exact h

/-- From before the guard the shot is reported as it should be. -/
theorem reportsNearest_guard : ReportsNearest Rat.sqrt sampleShot ⟨-4, 0, 0⟩ ⟨4, 0, 0⟩ (Physics.Trace.miss ⟨4, 0, 0⟩)
    ⟨[sampleGuard]⟩ (shotAtGuard ⟨-4, 0, 0⟩ ⟨4, 0, 0⟩) := by
  have hResolved : Resolved (sampleGuard.localDelta (⟨4, 0, 0⟩ - ⟨-4, 0, 0⟩)) := by
    unfold Resolved
    decide +kernel
  refine (reportsNearest_iff sqrt_one (resolved_guard hResolved)).mpr fun entity volume t hStruck => ?_
  obtain ⟨hOffers, hBox, -⟩ := hStruck.offers
  obtain rfl := List.mem_singleton.mp hOffers.1
  obtain rfl := List.mem_singleton.mp hBox
  have hThick : ∀ axis, coord (Physics.Vec3.min ⟨-1, -1, -1⟩ ⟨1, 1, 1⟩ : Physics.Vec3 ℚ) axis ≠
      coord (Physics.Vec3.max ⟨-1, -1, -1⟩ ⟨1, 1, 1⟩) axis := by decide +kernel
  exact ⟨fun _ => by decide +kernel, fun _ axis _ hFlat => hThick axis hFlat.1⟩

/-- From inside it, going the other way, the normal points along the shot. -/
theorem not_reportsNearest_guard : Resolved (sampleGuard.localDelta (⟨-4, 0, 0⟩ - Physics.Vec3.zero)) ∧
    ¬ ReportsNearest Rat.sqrt sampleShot Physics.Vec3.zero ⟨-4, 0, 0⟩ (Physics.Trace.miss ⟨-4, 0, 0⟩) ⟨[sampleGuard]⟩
      (shotAtGuard Physics.Vec3.zero ⟨-4, 0, 0⟩) := by
  constructor
  · unfold Resolved
    decide +kernel
  · intro h
    exact absurd (h.normal (by decide +kernel)) (by decide +kernel)

end OpenHalfLife.Combat
