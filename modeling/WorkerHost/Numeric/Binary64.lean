/-!
Binary floating point with 64 bits, kept as its bit pattern so that equality of bits, equality of
numbers and the exact rational value can all be spoken of. `ofRatio` rounds a quotient of natural
numbers to the nearest float, a tie to the even one; products, quotients and conversions are
instances of it.
-/

namespace WorkerHost

/-! ## Powers

Powers of integers by natural numbers are those of the standard library, also where a library of
algebra offers powers of its own. -/

instance (priority := high) powNat : Pow Nat Nat := instPowNat

instance (priority := high) powInt : Pow Int Nat := instPowNat

attribute [default_instance 20000] powNat
attribute [default_instance 15000] powInt

/-! ## Floats -/

/-- A float, by its bits: sign, eleven bits of exponent, fifty-two bits of fraction. -/
structure Binary64 where
  bits : UInt64
  deriving DecidableEq, Inhabited

namespace Binary64

/-- The sign bit. -/
def isNegative (x : Binary64) : Bool :=
  x.bits >>> 63 == 1

/-- The exponent field. -/
def exponentField (x : Binary64) : Nat :=
  x.bits.toNat / 2 ^ 52 % 2 ^ 11

/-- The fraction field. -/
def fractionField (x : Binary64) : Nat :=
  x.bits.toNat % 2 ^ 52

def isFinite (x : Binary64) : Bool :=
  x.exponentField != 2047

def isNaN (x : Binary64) : Bool :=
  x.exponentField == 2047 && x.fractionField != 0

/-- The bits without the sign. -/
def magnitudeBits (x : Binary64) : Nat :=
  x.bits.toNat % 2 ^ 63

/-- Either zero. -/
def isZero (x : Binary64) : Bool :=
  x.magnitudeBits == 0

/-- A finite float is `± significand * 2 ^ exponent`. -/
def significand (x : Binary64) : Nat :=
  if x.exponentField = 0 then x.fractionField else x.fractionField + 2 ^ 52

/-- The power of two that goes with `significand`. -/
def exponent (x : Binary64) : Int :=
  (max x.exponentField 1 : Nat) - 1075

/-- The float with a sign and given remaining bits. -/
def ofMagnitude (negative : Bool) (magnitude : Nat) : Binary64 :=
  ⟨UInt64.ofNat (magnitude + if negative then 2 ^ 63 else 0)⟩

def infinity (negative : Bool) : Binary64 :=
  ofMagnitude negative (2047 * 2 ^ 52)

def zero (negative : Bool) : Binary64 :=
  ofMagnitude negative 0

/-- The quiet NaN. -/
def nan : Binary64 :=
  ofMagnitude false (2047 * 2 ^ 52 + 2 ^ 51)

def neg (x : Binary64) : Binary64 :=
  ⟨x.bits ^^^ ((1 : UInt64) <<< 63)⟩

/-- `num / den` to the nearest natural number, a tie to the even one. -/
def roundHalfEven (num den : Nat) : Nat :=
  let q := num / den
  let r := num % den
  if 2 * r < den then q
  else if den < 2 * r then q + 1
  else q + q % 2

/-- The exponent of the last bit that a float near `num / den` holds. -/
def lastPlace (num den : Nat) : Int :=
  let guess : Int := (Nat.log2 num : Int) - (Nat.log2 den : Int) - 52
  -- The quotient has 53 or 54 bits above the guess; one test finds which.
  let below := if guess ≥ 0 then den * 2 ^ guess.toNat * 2 ^ 52 else den * 2 ^ 52
  let above := if guess ≥ 0 then num else num * 2 ^ (-guess).toNat
  let exact := if above < below then guess - 1 else guess
  max exact (-1074)

/-- The float nearest to `± num / den`, a tie to the even one; too large a quotient gives an
infinity. The denominator is positive. -/
def ofRatio (negative : Bool) (num den : Nat) : Binary64 :=
  if num = 0 then zero negative
  else
    let e := lastPlace num den
    let q := if e ≥ 0 then roundHalfEven num (den * 2 ^ e.toNat)
      else roundHalfEven (num * 2 ^ (-e).toNat) den
    -- A full significand carries its leading one into the exponent field.
    let magnitude := (e + 1074).toNat * 2 ^ 52 + q
    if magnitude ≥ 2047 * 2 ^ 52 then infinity negative else ofMagnitude negative magnitude

/-- The numerator and denominator of a finite float's magnitude. -/
def ratio (x : Binary64) : Nat × Nat :=
  if x.exponent ≥ 0 then (x.significand * 2 ^ x.exponent.toNat, 1)
  else (x.significand, 2 ^ (-x.exponent).toNat)

/-- The product of two finite floats, rounded. -/
def mul (x y : Binary64) : Binary64 :=
  let (a, b) := x.ratio
  let (c, d) := y.ratio
  ofRatio (x.isNegative != y.isNegative) (a * c) (b * d)

/-- The quotient of two finite floats, rounded; the divisor is not zero. -/
def div (x y : Binary64) : Binary64 :=
  let (a, b) := x.ratio
  let (c, d) := y.ratio
  ofRatio (x.isNegative != y.isNegative) (a * d) (b * c)

def ofNat (n : Nat) : Binary64 :=
  ofRatio false n 1

def ofInt (n : Int) : Binary64 :=
  ofRatio (n < 0) n.natAbs 1

/-- The float nearest to `± digits * 10 ^ exponent`. -/
def ofDecimal (negative : Bool) (digits : Nat) (exponent : Int) : Binary64 :=
  if exponent ≥ 0 then ofRatio negative (digits * 10 ^ exponent.toNat) 1
  else ofRatio negative digits (10 ^ (-exponent).toNat)

/-- Equality of numbers: a NaN differs from itself and the two zeros are equal. -/
def numEq (x y : Binary64) : Bool :=
  !x.isNaN && !y.isNaN && (x.bits == y.bits || (x.isZero && y.isZero))

/-- A finite float without a fractional part. -/
def isWhole (x : Binary64) : Bool :=
  x.isFinite && x.ratio.1 % x.ratio.2 == 0

/-- The whole part of a finite float, toward zero. -/
def truncate (x : Binary64) : Int :=
  let q : Int := x.ratio.1 / x.ratio.2
  if x.isNegative then -q else q

end Binary64
end WorkerHost
