import OpenHalfLife.Game.TrackTrain

/-! # Entity keyvalues

What an entity definition keeps of a map of keyvalues. A map is the list of its pairs in the order
of their keys. A vector written as text is kept as the vector: the text names it exactly and is never
cut short.
-/

namespace OpenHalfLife.Engine

open OpenHalfLife.Game

set_option autoImplicit false

section Pairs

variable {V : Type}

def Name.before : Name → Name → Bool
  | _, [] => false
  | [], _ :: _ => true
  | a :: as, b :: bs => if a.toNat < b.toNat then true else if a = b then Name.before as bs else false

def lookup (key : Name) (pairs : List (Name × V)) : Option V :=
  (pairs.find? fun pair => pair.1 = key).map Prod.snd

def insert (key : Name) (value : V) : List (Name × V) → List (Name × V)
  | [] => [(key, value)]
  | pair :: rest =>
    if pair.1 = key then (key, value) :: rest
    else if Name.before key pair.1 then (key, value) :: pair :: rest
    else pair :: insert key value rest

def remove (key : Name) (pairs : List (Name × V)) : List (Name × V) :=
  pairs.filter fun pair => pair.1 ≠ key

end Pairs

structure Limits where
  maxKeysPerEntity : Nat
  maxKeyBytes : Nat
  maxValueBytes : Nat

def Limits.default : Limits := ⟨64, 64, 512⟩

/-- A value as it stands in a definition's text: as the map has it, or a vector written out. -/
inductive Value (K : Type)
  | text (bytes : Name)
  | vector (value : Vec3 K)

def isCharBoundary (value : Name) (index : Nat) : Bool :=
  match value[index]? with
  | none => index = value.length
  | some byte => byte &&& 0xC0 ≠ 0x80

def truncateFrom (value : Name) : Nat → Name
  | 0 => []
  | stop + 1 => if isCharBoundary value (stop + 1) then value.take (stop + 1) else truncateFrom value stop

def truncateBounded (value : Name) (maxBytes : Nat) : Name :=
  if value.length ≤ maxBytes then value else truncateFrom value maxBytes

def whitespaces : List Name :=
  [[9], [10], [11], [12], [13], [32], [0xC2, 0x85], [0xC2, 0xA0], [0xE1, 0x9A, 0x80], [0xE2, 0x80, 0x80],
    [0xE2, 0x80, 0x81], [0xE2, 0x80, 0x82], [0xE2, 0x80, 0x83], [0xE2, 0x80, 0x84], [0xE2, 0x80, 0x85],
    [0xE2, 0x80, 0x86], [0xE2, 0x80, 0x87], [0xE2, 0x80, 0x88], [0xE2, 0x80, 0x89], [0xE2, 0x80, 0x8A],
    [0xE2, 0x80, 0xA8], [0xE2, 0x80, 0xA9], [0xE2, 0x80, 0xAF], [0xE2, 0x81, 0x9F], [0xE3, 0x80, 0x80]]

def trimStart (spaces : List Name) : Nat → Name → Name
  | 0, value => value
  | turns + 1, value =>
    match spaces.find? fun space => space.isPrefixOf value with
    | none => value
    | some space => trimStart spaces turns (value.drop space.length)

def trim (value : Name) : Name :=
  let front := trimStart whitespaces value.length value
  (trimStart (whitespaces.map List.reverse) front.length front.reverse).reverse

def digitsValue : Name → Option Nat
  | [] => none
  | digits =>
    digits.foldl (fun value digit => value.bind fun value =>
      if 48 ≤ digit.toNat ∧ digit.toNat ≤ 57 then some (10 * value + (digit.toNat - 48)) else none) (some 0)

def parseI64 (value : Name) : Option Int :=
  let signed : Option Int :=
    match value with
    | 45 :: digits => (digitsValue digits).map fun magnitude => -(magnitude : Int)
    | 43 :: digits => (digitsValue digits).map Int.ofNat
    | digits => (digitsValue digits).map Int.ofNat
  signed.filter fun number => -(2 ^ 63) ≤ number ∧ number < 2 ^ 63

def parseU32 (value : Name) : Option Nat :=
  (match value with
    | 43 :: digits => digitsValue digits
    | digits => digitsValue digits).filter fun number => number < 2 ^ 32

def parseSpawnflags (value : Name) : Nat :=
  let trimmed := trim value
  (((parseI64 trimmed).map fun signed => (signed % 2 ^ 32).toNat).or (parseU32 trimmed)).getD 0

def classnameKey : Name := "classname".toUTF8.toList
def originKey : Name := "origin".toUTF8.toList
def anglesKey : Name := "angles".toUTF8.toList
def angleKey : Name := "angle".toUTF8.toList
def targetnameKey : Name := "targetname".toUTF8.toList
def targetKey : Name := "target".toUTF8.toList
def globalnameKey : Name := "globalname".toUTF8.toList
def spawnflagsKey : Name := "spawnflags".toUTF8.toList
def modelKey : Name := "model".toUTF8.toList

section

variable {K : Type} [Field K] [LinearOrder K]

/-- The largest finite number of single precision is `(2 ^ 24 - 1) * 2 ^ 104`. -/
def isFinite (value : K) : Bool := |value| ≤ (2 ^ 24 - 1) * 2 ^ 104

def Value.bytes : Value K → Option Name
  | .text bytes => some bytes
  | .vector _ => none

def Value.truncated (maxBytes : Nat) : Value K → Value K
  | .text bytes => .text (truncateBounded bytes maxBytes)
  | .vector value => .vector value

structure Reading (K : Type) where
  vec3 : Name → Option (Vec3 K)
  number : Name → Option K

def parseVec3 (reading : Reading K) : Value K → Option (Vec3 K)
  | .text bytes => (reading.vec3 bytes).filter fun value => isFinite value.x && isFinite value.y && isFinite value.z
  | .vector value => if isFinite value.x && isFinite value.y && isFinite value.z then some value else none

end

structure EntityDef (K : Type) where
  classname : Name
  keyvalues : List (Name × Value K)
  origin : Vec3 K
  angles : Vec3 K
  targetname : Option Name
  target : Option Name
  spawnflags : Nat

namespace EntityDef

variable {K : Type}

def text (keyvalues : List (Name × Value K)) (key : Name) : Option Name :=
  match lookup key keyvalues with
  | some (.text bytes) => some bytes
  | _ => none

def name (keyvalues : List (Name × Value K)) (key : Name) : Option Name :=
  (text keyvalues key).filter fun bytes => !bytes.isEmpty

def globalname (definition : EntityDef K) : Option Name := name definition.keyvalues globalnameKey

end EntityDef

variable {K : Type} [Field K] [LinearOrder K]

def parseEntity (reading : Reading K) (entity : List (Name × Value K)) (limits : Limits) : EntityDef K :=
  let kept := (entity.take limits.maxKeysPerEntity).filter fun pair => !pair.1.isEmpty && pair.1.length ≤ limits.maxKeyBytes
  let keyvalues := kept.map fun pair => (pair.1, pair.2.truncated limits.maxValueBytes)
  let yaw := ((EntityDef.text keyvalues angleKey).bind fun bytes => (reading.number bytes).filter isFinite).getD 0
  { classname := (EntityDef.text keyvalues classnameKey).getD []
    keyvalues
    origin := ((lookup originKey keyvalues).bind (parseVec3 reading)).getD ⟨0, 0, 0⟩
    angles := ((lookup anglesKey keyvalues).bind (parseVec3 reading)).getD ⟨0, yaw, 0⟩
    targetname := EntityDef.name keyvalues targetnameKey
    target := EntityDef.name keyvalues targetKey
    spawnflags := ((EntityDef.text keyvalues spawnflagsKey).map parseSpawnflags).getD 0 }

end OpenHalfLife.Engine
