import OpenHalfLife.Engine.Keyvalues

/-! # The trail of a Gonarch

The nodes of a trail are walked one after the other. Numbers are exact, and
roots are taken by `sqrt`.
-/

namespace OpenHalfLife.Monsters

open Game Engine

set_option autoImplicit false

def nodeClassname : Name := "info_bigmomma".toUTF8.toList

def healthKey : Name := "health".toUTF8.toList
def reachdelayKey : Name := "reachdelay".toUTF8.toList
def reachtargetKey : Name := "reachtarget".toUTF8.toList
def killtargetKey : Name := "killtarget".toUTF8.toList
def reachsequenceKey : Name := "reachsequence".toUTF8.toList

def spawnflagNodeRun : Nat := 1

def spawnflagNodeWaitIndefinitely : Nat := 2

def maxTrailNodes : Nat := 64

structure TrailNode (K : Type) where
  name : Name
  position : Game.Vec3 K
  next : Option Name
  health : Option K
  wait : K
  fireOnReach : Option Name
  killOnReach : Option Name
  sequenceOnReach : Option Name
  run : Bool
  waitIndefinitely : Bool

variable {K : Type} [Field K] [LinearOrder K]

def trailArrivalRadius : K := ((48 : Nat) : K)

def trailStallSeconds : K := ((5 : Nat) : K)

def trailProgressStep : K := ((16 : Nat) : K)

def TrailNode.fromDef (reading : Engine.Reading K) (definition : EntityDef K) : Option (TrailNode K) :=
  if definition.classname ≠ nodeClassname then none
  else
    (definition.targetname.map trim).bind fun name =>
      if name.isEmpty then none
      else
        let text (key : Name) := ((EntityDef.text definition.keyvalues key).map trim).filter fun value => !value.isEmpty
        let number (key : Name) :=
          ((EntityDef.text definition.keyvalues key).bind fun value => reading.number (trim value)).filter isFinite
        some
          { name
            position := definition.origin
            next := text targetKey
            health := (number healthKey).filter fun health => decide (0 < health)
            wait := max ((number reachdelayKey).getD 0) 0
            fireOnReach := text reachtargetKey
            killOnReach := text killtargetKey
            sequenceOnReach := text reachsequenceKey
            run := definition.spawnflags &&& spawnflagNodeRun != 0
            waitIndefinitely := definition.spawnflags &&& spawnflagNodeWaitIndefinitely != 0 }

structure Trail (K : Type) where
  nodes : List (TrailNode K)
  length_le : nodes.length ≤ maxTrailNodes

namespace Trail

def new {K : Type} (nodes : List (TrailNode K)) : Trail K :=
  ⟨nodes.take maxTrailNodes, by rw [List.length_take]; exact min_le_left _ _⟩

/-- Follows the targets while the trail has room; every turn adds a node or is the last. -/
def follow (reading : Engine.Reading K) (definitions : List (EntityDef K)) : Nat → List (TrailNode K) → Name → List (TrailNode K)
  | 0, nodes, _ => nodes
  | room + 1, nodes, current =>
    if current.isEmpty then nodes
    else if nodes.any fun node => node.name = current then nodes
    else
      let found := (definitions.filter fun definition => definition.classname = nodeClassname).find?
        fun definition => definition.targetname.map trim = some current
      match found.bind (TrailNode.fromDef reading) with
      | none => nodes
      | some node =>
        match node.next with
        | none => nodes ++ [node]
        | some next => follow reading definitions room (nodes ++ [node]) next

theorem follow_length {reading : Engine.Reading K} {definitions : List (EntityDef K)} (room : Nat) (nodes : List (TrailNode K))
    (current : Name) (h : nodes.length + room = maxTrailNodes) :
    (follow reading definitions room nodes current).length ≤ maxTrailNodes := by
  induction room generalizing nodes current with
  | zero => exact h.le
  | succ room ih =>
    have hAdded (node : TrailNode K) : (nodes ++ [node]).length + room = maxTrailNodes := by
      rw [List.length_append, ← h]
      simp only [List.length_singleton]
      omega
    unfold follow
    dsimp only
    split_ifs
    · omega
    · omega
    split
    · omega
    · rename_i node _
      split
      · exact (Nat.le_add_right _ room).trans (hAdded node).le
      · exact ih _ _ (hAdded node)

def fromDefs (reading : Engine.Reading K) (definitions : List (EntityDef K)) (first : Name) : Option (Trail K) :=
  let nodes := follow reading definitions maxTrailNodes [] (trim first)
  if nodes.isEmpty then none else some ⟨nodes, follow_length _ _ _ (Nat.zero_add _)⟩

/-! ### The names on a trail -/

theorem fromDef_name {reading : Engine.Reading K} {definition : EntityDef K} {node : TrailNode K}
    (h : TrailNode.fromDef reading definition = some node) : definition.targetname.map trim = some node.name := by
  unfold TrailNode.fromDef at h
  split_ifs at h
  obtain ⟨name, hName, hNode⟩ := Option.bind_eq_some_iff.mp h
  split_ifs at hNode
  rw [hName, ← Option.some.inj hNode]

theorem follow_nodup {reading : Engine.Reading K} {definitions : List (EntityDef K)} (room : Nat) (nodes : List (TrailNode K))
    (current : Name) (h : (nodes.map TrailNode.name).Nodup) :
    ((follow reading definitions room nodes current).map TrailNode.name).Nodup := by
  induction room generalizing nodes current with
  | zero => exact h
  | succ room ih =>
    unfold follow
    dsimp only
    split_ifs with hEmpty hKnown
    · exact h
    · exact h
    split
    · exact h
    · rename_i node hFound
      obtain ⟨definition, hDefinition, hNode⟩ := Option.bind_eq_some_iff.mp hFound
      have hName : node.name = current := by
        have hCurrent := List.find?_some hDefinition
        rw [decide_eq_true_eq, fromDef_name hNode] at hCurrent
        exact Option.some.inj hCurrent
      have hAdded : ((nodes ++ [node]).map TrailNode.name).Nodup := by
        rw [List.map_append, List.map_singleton, List.nodup_append]
        refine ⟨h, List.nodup_singleton _, ?_⟩
        intro name hMem other hOther hSame
        obtain ⟨known, hKnownMem, rfl⟩ := List.mem_map.mp hMem
        rw [List.mem_singleton.mp hOther, hName] at hSame
        exact hKnown (List.any_eq_true.mpr ⟨known, hKnownMem, decide_eq_true hSame⟩)
      split
      · exact hAdded
      · exact ih _ _ hAdded

theorem fromDefs_nodup {reading : Engine.Reading K} {definitions : List (EntityDef K)} {first : Name} {trail : Trail K}
    (h : fromDefs reading definitions first = some trail) : (trail.nodes.map TrailNode.name).Nodup := by
  unfold fromDefs at h
  dsimp only at h
  split_ifs at h
  rw [← Option.some.inj h]
  exact follow_nodup _ _ _ List.nodup_nil

def isLast {K : Type} (trail : Trail K) (index : Nat) : Bool := decide (trail.nodes.length ≤ index + 1)

end Trail

inductive TrailPhase (K : Type)
  | traveling (node : Nat)
  | arriving (node : Nat) (waitLeft : K)
  | holding (node : Nat)
  | free

structure ArrivalEffects (K : Type) where
  setHealth : Option K
  fire : Option Name
  kill : Option Name
  sequence : Option Name

inductive DamageVerdict
  | shielded
  | applied
  | depleted (next : Nat)

structure GonarchTrail (K : Type) where
  trail : Trail K
  phase : TrailPhase K
  stall : Option (Nat × K × K)
  healthFactor : K
  baseHealth : K

def positiveOr (value : Stored K) : K := value.finiteOr 1 fun value => if 0 < value then value else 1

def positiveTime (dt : Stored K) : K := dt.finiteOr 0 fun dt => if 0 < dt then dt else 0

def planarDistance (sqrt : K → K) (start finish : Game.Vec3 K) : K :=
  sqrt ((finish.x - start.x) * (finish.x - start.x) + (finish.y - start.y) * (finish.y - start.y) + 0 * 0)

namespace GonarchTrail

def new (trail : Trail K) (healthFactor baseHealth : Stored K) : GonarchTrail K where
  trail
  phase := if trail.nodes.isEmpty then .free else .traveling 0
  stall := none
  healthFactor := positiveOr healthFactor
  baseHealth := positiveOr baseHealth

def node (gonarch : GonarchTrail K) (index : Nat) : Option (TrailNode K) := gonarch.trail.nodes[index]?

def destination (gonarch : GonarchTrail K) : Option (Game.Vec3 K) :=
  match gonarch.phase with
  | .traveling index => (gonarch.node index).map TrailNode.position
  | _ => none

def runsToDestination (gonarch : GonarchTrail K) : Bool :=
  match gonarch.phase with
  | .traveling index => (gonarch.node index).any TrailNode.run
  | _ => false

def hasReachedDestination (sqrt : K → K) (gonarch : GonarchTrail K) (position : Game.Vec3 K) : Bool :=
  gonarch.destination.any fun destination => decide (planarDistance sqrt position destination ≤ trailArrivalRadius)

def noteProgress (sqrt : K → K) (gonarch : GonarchTrail K) (position : Game.Vec3 K) (dt : Stored K) : Bool × GonarchTrail K :=
  match gonarch.phase, gonarch.destination with
  | .traveling index, some destination =>
    let distance := planarDistance sqrt position destination
    let measured : K × K :=
      match gonarch.stall with
      | some (leg, best, stalled) =>
        if leg = index then
          if distance ≤ best - trailProgressStep then (distance, 0) else (best, stalled + positiveTime dt)
        else (distance, 0)
      | none => (distance, 0)
    (decide (trailStallSeconds ≤ measured.2), { gonarch with stall := some (index, measured) })
  | _, _ => (false, { gonarch with stall := none })

def departIfPassable (gonarch : GonarchTrail K) (index : Nat) : Option Nat × GonarchTrail K :=
  match gonarch.node index with
  | none => (none, gonarch)
  | some node =>
    if node.health.isSome || node.waitIndefinitely || gonarch.trail.isLast index then (none, gonarch)
    else (some (index + 1), { gonarch with phase := .traveling (index + 1) })

def effects (healthFactor : K) (node : TrailNode K) : ArrivalEffects K where
  setHealth := node.health.map (· * healthFactor)
  fire := node.fireOnReach
  kill := node.killOnReach
  sequence := node.sequenceOnReach

def arrive (gonarch : GonarchTrail K) : Option (ArrivalEffects K) × GonarchTrail K :=
  match gonarch.phase with
  | .traveling index =>
    let gonarch := { gonarch with stall := none }
    match gonarch.node index with
    | none => (none, gonarch)
    | some node =>
      (some (effects gonarch.healthFactor node),
        if 0 < node.wait then { gonarch with phase := .arriving index node.wait }
        else ({ gonarch with phase := .holding index }.departIfPassable index).2)
  | _ => (none, gonarch)

def tick (gonarch : GonarchTrail K) (dt : Stored K) : Option Nat × GonarchTrail K :=
  match gonarch.phase with
  | .arriving index waitLeft =>
    let left := waitLeft - positiveTime dt
    if 0 < left then (none, { gonarch with phase := .arriving index left })
    else { gonarch with phase := .holding index }.departIfPassable index
  | _ => (none, gonarch)

def release (gonarch : GonarchTrail K) : Option Nat × GonarchTrail K :=
  match gonarch.phase with
  | .holding index =>
    match gonarch.node index with
    | none => (none, gonarch)
    | some node =>
      if node.health.isSome || gonarch.trail.isLast index then (none, gonarch)
      else (some (index + 1), { gonarch with phase := .traveling (index + 1) })
  | _ => (none, gonarch)

def absorbDamage (gonarch : GonarchTrail K) (healthBefore amount : K) : DamageVerdict × GonarchTrail K :=
  match gonarch.phase with
  | .free => (.applied, gonarch)
  | .traveling _ | .arriving _ _ => (.shielded, gonarch)
  | .holding index =>
    if gonarch.trail.isLast index then (.applied, gonarch)
    else
      match (gonarch.node index).bind TrailNode.health with
      | some _ =>
        if healthBefore - amount ≤ 0 then (.depleted (index + 1), { gonarch with phase := .traveling (index + 1) })
        else (.applied, gonarch)
      | none => (.shielded, gonarch)

end GonarchTrail

end OpenHalfLife.Monsters
