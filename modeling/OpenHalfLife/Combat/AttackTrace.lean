import OpenHalfLife.Combat.Deployables
import OpenHalfLife.Combat.RayBox
import OpenHalfLife.Physics.Moves
import OpenHalfLife.Physics.Trace

/-! # Attack traces

What a shot hits: the world as its own sweep reports it, or the nearest of the posed hitboxes. Coordinates
are exact, and an entity's rotation is one.
-/

namespace OpenHalfLife

set_option autoImplicit false

namespace Physics.Vec3

variable {K : Type} [Field K] [LinearOrder K]

def cross (v w : Physics.Vec3 K) : Physics.Vec3 K :=
  ⟨v.y * w.z - v.z * w.y, v.z * w.x - v.x * w.z, v.x * w.y - v.y * w.x⟩

def normalizeOrZero (sqrt : K → K) (v : Physics.Vec3 K) : Physics.Vec3 K :=
  let lengthRecip := 1 / sqrt (v.dot v)
  if 0 < lengthRecip then v.scale lengthRecip else Physics.Vec3.zero

omit [LinearOrder K] in
@[simp] theorem scale_one (v : Physics.Vec3 K) : v.scale 1 = v := by
  ext <;> simp

end Physics.Vec3

namespace Combat

inductive HitGroup
  | generic
  | head
  | chest
  | stomach
  | leftArm
  | rightArm
  | leftLeg
  | rightLeg
  deriving DecidableEq

structure TraceMask where
  world : Bool
  entities : Bool

structure TraceFilter where
  ignore : Option EntityId × Option EntityId
  mask : TraceMask

def TraceFilter.ignores (filter : TraceFilter) (id : EntityId) : Bool :=
  filter.ignore.1 = some id ∨ filter.ignore.2 = some id

variable {K : Type} [Field K] [LinearOrder K]

structure Quat (K : Type) [Field K] where
  x : K
  y : K
  z : K
  w : K
  unit : x * x + y * y + z * z + w * w = 1

namespace Quat

variable (q : Quat K)

def identity : Quat K := ⟨0, 0, 0, 1, by simp⟩

def conjugate : Quat K := ⟨-q.x, -q.y, -q.z, q.w, by simpa using q.unit⟩

def mulVec3 (v : Physics.Vec3 K) : Physics.Vec3 K :=
  let b : Physics.Vec3 K := ⟨q.x, q.y, q.z⟩
  v.scale (q.w * q.w - b.dot b) + b.scale (v.dot b * (2 : Nat)) + (b.cross v).scale (q.w * (2 : Nat))

end Quat

structure HitboxVolume (K : Type) [Field K] [LinearOrder K] where
  index : Nat
  min : Physics.Vec3 K
  max : Physics.Vec3 K
  group : HitGroup
  ordered : ∀ axis, coord min axis ≤ coord max axis

structure EntityHitboxes (K : Type) [Field K] [LinearOrder K] where
  id : EntityId
  origin : Physics.Vec3 K
  rotation : Quat K
  boxes : List (HitboxVolume K)

def HitboxVolume.between (index : Nat) (min max : Physics.Vec3 K) (group : HitGroup) : HitboxVolume K where
  index := index
  min := min.min max
  max := min.max max
  group := group
  ordered
    | 0 => min_le_max
    | 1 => min_le_max
    | 2 => min_le_max

namespace EntityHitboxes

variable (entity : EntityHitboxes K)

def bare (id : EntityId) (origin : Physics.Vec3 K) : EntityHitboxes K := ⟨id, origin, Quat.identity, []⟩

def pushBox (index : Nat) (min max : Physics.Vec3 K) (group : HitGroup) : EntityHitboxes K :=
  { entity with boxes := entity.boxes ++ [.between index min max group] }

end EntityHitboxes

structure HitboxIndex (K : Type) [Field K] [LinearOrder K] where
  entries : List (EntityHitboxes K)

@[ext]
structure AttackTrace (K : Type) where
  fraction : K
  endPos : Physics.Vec3 K
  entity : Option EntityId
  hitbox : Option Nat
  hitgroup : HitGroup
  surfaceNormal : Physics.Vec3 K

def AttackTrace.miss (finish : Physics.Vec3 K) : AttackTrace K := ⟨1, finish, none, none, .generic, Physics.Vec3.zero⟩

def clampFraction (fraction : K) : K := unitClamp fraction

section

variable (sqrt : K → K) (filter : TraceFilter) (start finish delta : Physics.Vec3 K)

def strikeBox (entity : EntityHitboxes K) (best : AttackTrace K) (volume : HitboxVolume K) : AttackTrace K :=
  let inverse := entity.rotation.conjugate
  let localStart := inverse.mulVec3 (start - entity.origin)
  let localDelta := inverse.mulVec3 delta
  match rayBox localStart localDelta volume.min volume.max with
  | none => best
  | some (fraction, localNormal) =>
    if fraction ≥ best.fraction then best
    else
      { fraction
        endPos := start + delta.scale fraction
        entity := some entity.id
        hitbox := some volume.index
        hitgroup := volume.group
        surfaceNormal := (entity.rotation.mulVec3 localNormal).normalizeOrZero sqrt }

def strikeEntity (best : AttackTrace K) (entity : EntityHitboxes K) : AttackTrace K :=
  if filter.ignores entity.id then best else entity.boxes.foldl (strikeBox sqrt start delta entity) best

def strikeWorld (world : Physics.Trace K) : AttackTrace K :=
  let best := AttackTrace.miss finish
  if filter.mask.world then
    let fraction := clampFraction world.fraction
    if fraction < 1 ∨ world.startSolid ∨ world.allSolid then
      { fraction
        endPos := start + (finish - start).scale fraction
        entity := none
        hitbox := none
        hitgroup := .generic
        surfaceNormal := world.planeNormal }
    else best
  else best

def traceAttackFilteredIgnoringBrush (world : Physics.Trace K) (entities : HitboxIndex K) : AttackTrace K :=
  let best := strikeWorld filter start finish world
  if !filter.mask.entities then best
  else entities.entries.foldl (strikeEntity sqrt filter start (finish - start)) best

end

end Combat

end OpenHalfLife
