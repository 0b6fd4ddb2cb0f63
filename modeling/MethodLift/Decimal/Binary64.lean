/-!
# Binary numbers of 64 bits

The numbers with a sign, a mantissa of at most 53 bits and a power of two, as far as settings need
them: the number that is nearest to a decimal one, and their order.  All of it is exact arithmetic
on natural numbers.
-/

namespace MethodLift

/-- The number `± coefficient · 10 ^ exponent`. -/
structure Decimal where
  isNegative : Bool
  coefficient : Nat
  exponent : Int
deriving DecidableEq, Repr, Inhabited

/-- A binary number: `± mantissa · 2 ^ exponent`, or what lies beyond all of them, or no number. -/
inductive Binary64
  | finite (isNegative : Bool) (mantissa : Nat) (exponent : Int)
  | infinity (isNegative : Bool)
  | nan
deriving DecidableEq, Repr, Inhabited

/-- A power of two. -/
def twoTo (n : Nat) : Nat := Nat.pow 2 n

/-- A power of ten. -/
def tenTo (n : Nat) : Nat := Nat.pow 10 n

namespace Binary64

/-- The least exponent of two. -/
def leastExponent : Int := -1074

/-- Mantissas are smaller than two to this power. -/
def mantissaBits : Nat := 53

/-- The quotient `num / den` divided by a power of two, as a quotient again. -/
def scaleDown (num den : Nat) (power : Int) : Nat × Nat :=
  if 0 ≤ power then (num, den * twoTo power.toNat) else (num * twoTo (-power).toNat, den)

/-- The nearest natural number to a quotient; halfway between two, the even one. -/
def roundHalfEven (num den : Nat) : Nat :=
  let low := num / den
  let rest := num % den
  if 2 * rest < den then low
  else if 2 * rest > den then low + 1
  else if low % 2 == 0 then low
  else low + 1

/-- The greatest power of two that is at most the quotient of two positive numbers. -/
def floorLog2 (num den : Nat) : Int :=
  let guess : Int := (num.log2 : Int) - (den.log2 : Int)
  let (n, d) := scaleDown num den guess
  if d ≤ n then guess else guess - 1

/-- The binary number that is nearest to the quotient of two positive numbers. -/
def ofQuotient (isNegative : Bool) (num den : Nat) : Binary64 :=
  let exponent := max (floorLog2 num den - (mantissaBits - 1 : Nat)) leastExponent
  let (n, d) := scaleDown num den exponent
  let mantissa := roundHalfEven n d
  let (mantissa, exponent) :=
    if mantissa == twoTo mantissaBits then (twoTo (mantissaBits - 1), exponent + 1)
    else (mantissa, exponent)
  if exponent > 971 then infinity isNegative else finite isNegative mantissa exponent

/-- The number of decimal digits. -/
def digitCount (n : Nat) : Nat := (Nat.toDigits 10 n).length

/-- The binary number that is nearest to a decimal one.  Numbers of more than 310 digits are beyond
all binary ones, and those with more than 330 zeros after the point are next to zero. -/
def ofDecimal (d : Decimal) : Binary64 :=
  let size : Int := (digitCount d.coefficient : Int) + d.exponent
  if d.coefficient == 0 || size < -330 then finite d.isNegative 0 leastExponent
  else if size > 310 then infinity d.isNegative
  else if 0 ≤ d.exponent then
    ofQuotient d.isNegative (d.coefficient * tenTo d.exponent.toNat) 1
  else ofQuotient d.isNegative d.coefficient (tenTo (-d.exponent).toNat)

/-- The magnitudes of two finite numbers in a common unit. -/
def commonUnit (m : Nat) (q : Int) (n : Nat) (r : Int) : Nat × Nat :=
  let least := min q r
  (m * twoTo (q - least).toNat, n * twoTo (r - least).toNat)

/-- A number with its sign, in units that depend on the other number. -/
def signed (isNegative : Bool) (magnitude : Nat) : Int :=
  if isNegative then -(magnitude : Int) else magnitude

/-- How numbers are ordered; what is no number is equal to everything. -/
def order : Binary64 → Binary64 → Ordering
  | finite s m q, finite t n r =>
    let (a, b) := commonUnit m q n r
    compare (signed s a) (signed t b)
  | infinity s, infinity t => compare (signed s 1) (signed t 1)
  | infinity s, finite .. => if s then .lt else .gt
  | finite .., infinity t => if t then .gt else .lt
  | nan, _ | _, nan => .eq

end Binary64

end MethodLift
