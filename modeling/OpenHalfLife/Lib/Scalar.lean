import Mathlib.Data.Int.Sqrt
import Mathlib.Algebra.Order.Field.Rat
import Mathlib.Data.Rat.Sqrt

/-! # Numbers of a machine format

The operations a program uses on its numbers, without any law: a format that
rounds, overflows or has values that are no numbers is an instance as well.
-/

namespace OpenHalfLife

set_option autoImplicit false

class Scalar (K : Type) extends Add K, Sub K, Mul K, Div K, Neg K, LT K, LE K, Zero K, One K,
    NatCast K where
  decidableLT : DecidableLT K
  decidableLE : DecidableLE K
  /-- The remainder of a division that rounds towards zero. -/
  rem : K → K → K
  sqrt : K → K
  abs : K → K
  signum : K → K
  /-- The greater of two numbers; a number if only one of them is. -/
  maximum : K → K → K
  infinity : K
  isFinite : K → Bool
  /-- A total order of all values, also of those that do not compare. -/
  totalLe : K → K → Bool

attribute [reducible, instance] Scalar.decidableLT Scalar.decidableLE

/-- Whole numbers, of which a large one stands for the infinite. -/
instance : Scalar Int where
  decidableLT := inferInstance
  decidableLE := inferInstance
  rem := Int.tmod
  sqrt := Int.sqrt
  abs value := value.natAbs
  signum := Int.sign
  maximum := max
  infinity := 2 ^ 24
  isFinite value := value.natAbs < 2 ^ 24
  totalLe a b := decide (a ≤ b)

/-- Rational numbers, of which a large one stands for the infinite. -/
instance : Scalar Rat where
  decidableLT := inferInstance
  decidableLE := inferInstance
  rem a b := a - b * (a / b).num.tdiv (a / b).den
  sqrt := Rat.sqrt
  abs value := max value (-value)
  signum value := value.num.sign
  maximum := max
  infinity := 2 ^ 128
  isFinite value := decide (-2 ^ 128 < value ∧ value < 2 ^ 128)
  totalLe a b := decide (a ≤ b)

/-- Numbers with the functions of the circle, of angles in radians. -/
class Circular (K : Type) extends Scalar K where
  epsilon : K
  toRadians : K → K
  toDegrees : K → K
  sin : K → K
  cos : K → K
  atan2 : K → K → K
  fracOneSqrt2 : K

structure Vec3 (K : Type) where
  x : K
  y : K
  z : K
  deriving DecidableEq

namespace Vec3

variable {K : Type} [Scalar K]

def zero : Vec3 K := ⟨0, 0, 0⟩

def add (a b : Vec3 K) : Vec3 K := ⟨a.x + b.x, a.y + b.y, a.z + b.z⟩

def sub (a b : Vec3 K) : Vec3 K := ⟨a.x - b.x, a.y - b.y, a.z - b.z⟩

def scale (a : Vec3 K) (factor : K) : Vec3 K := ⟨a.x * factor, a.y * factor, a.z * factor⟩

def divide (a : Vec3 K) (divisor : K) : Vec3 K := ⟨a.x / divisor, a.y / divisor, a.z / divisor⟩

def dot (a b : Vec3 K) : K := a.x * b.x + a.y * b.y + a.z * b.z

def length (a : Vec3 K) : K := Scalar.sqrt (a.x * a.x + a.y * a.y + a.z * a.z)

def normalize (a : Vec3 K) : Vec3 K := a.scale (1 / a.length)

def flat (a : Vec3 K) : Vec3 K := ⟨a.x, a.y, 0⟩

def isFinite (a : Vec3 K) : Bool := Scalar.isFinite a.x && Scalar.isFinite a.y && Scalar.isFinite a.z

def raise (a : Vec3 K) (height : K) : Vec3 K := a.add ⟨0, 0, height⟩

end Vec3

end OpenHalfLife
