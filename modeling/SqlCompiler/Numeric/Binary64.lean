/-!
# Double-Precision Numbers

Floating-point numbers by their bit patterns, so that two numbers are equal exactly when they are
the same pattern, with rounding in exact natural-number arithmetic.

## Main definitions

- `Binary64`: the 64 bits of a double
- `Binary64.significand`, `Binary64.exponent`: a finite magnitude as `significand · 2 ^ exponent`
- `roundRatio`: a quotient rounded to a given number of binary digits, ties to even
- `Binary64.ofRatio`: the double nearest to a quotient
- `Binary64.mul`, `Binary64.div`: correctly rounded products and quotients of magnitudes
- `Binary64.ofSingleRatio`: a quotient rounded to single precision first
-/

namespace SqlCompiler

/-! ## §1 Bit patterns -/

/-- A double-precision floating-point number, given by its bits. -/
structure Binary64 where
  bits : UInt64
deriving DecidableEq, Repr, Inhabited

namespace Binary64

/-- The sign bit. -/
def isNegative (x : Binary64) : Bool :=
  x.bits.toNat / Nat.pow 2 63 == 1

/-- The eleven exponent bits. -/
def biasedExponent (x : Binary64) : Nat :=
  x.bits.toNat / Nat.pow 2 52 % Nat.pow 2 11

/-- The fifty-two fraction bits. -/
def fraction (x : Binary64) : Nat :=
  x.bits.toNat % Nat.pow 2 52

/-- Neither an infinity nor a NaN. -/
def isFinite (x : Binary64) : Bool :=
  x.biasedExponent != 2047

/-- Not a number. -/
def isNaN (x : Binary64) : Bool :=
  x.biasedExponent == 2047 && x.fraction != 0

/-- The integer significand of a finite number. -/
def significand (x : Binary64) : Nat :=
  if x.biasedExponent = 0 then x.fraction else x.fraction + Nat.pow 2 52

/-- The exponent of the last binary digit of a finite number. -/
def exponent (x : Binary64) : Int :=
  if x.biasedExponent = 0 then -1074 else (x.biasedExponent : Int) - 1075

/-- Either of the two zeros. -/
def isZero (x : Binary64) : Bool :=
  x.biasedExponent == 0 && x.fraction == 0

/-- The numerator of a finite magnitude. -/
def numerator (x : Binary64) : Nat :=
  x.significand * Nat.pow 2 x.exponent.toNat

/-- The denominator of a finite magnitude. -/
def denominator (x : Binary64) : Nat :=
  Nat.pow 2 (-x.exponent).toNat

end Binary64

/-! ## §2 Rounding -/

/-- `num / den` rounded to the nearest integer, a half to the even neighbour. -/
def roundQuotient (num den : Nat) : Nat :=
  let q := num / den
  let twice := 2 * (num % den)
  if twice < den then q
  else if den < twice then q + 1
  else if q % 2 = 0 then q else q + 1

/-- `num / den` in units of `2 ^ e`, rounded to the nearest integer, a half to the even one. -/
def roundScaled (num den : Nat) (e : Int) : Nat :=
  roundQuotient (num * Nat.pow 2 (-e).toNat) (den * Nat.pow 2 e.toNat)

/-- The exponent `e ≥ lowest` for which `num / den` has `precision` binary digits in front of the
point when counted in units of `2 ^ e`, or `lowest` where it has fewer. -/
def quantumExponent (precision : Nat) (lowest : Int) (num den : Nat) : Int :=
  let guess : Int := (Nat.log2 num : Int) - (Nat.log2 den : Int) - (precision : Int)
  let e := max guess lowest
  -- the guess is at most one too small
  let limit := Nat.pow 2 precision * (den * Nat.pow 2 e.toNat)
  if limit ≤ num * Nat.pow 2 (-e).toNat then e + 1 else e

/-- `num / den` rounded to `precision` binary digits with exponents from `lowest` on, as a
significand and an exponent. -/
def roundRatio (precision : Nat) (lowest : Int) (num den : Nat) : Nat × Int :=
  let e := quantumExponent precision lowest num den
  (roundScaled num den e, e)

namespace Binary64

/-- A sign bit in front of the bits of a magnitude. -/
def withSign (negative : Bool) (magnitude : Nat) : Binary64 :=
  ⟨UInt64.ofNat (if negative then Nat.pow 2 63 + magnitude else magnitude)⟩

/-- Positive or negative infinity. -/
def infinity (negative : Bool) : Binary64 :=
  withSign negative (2047 * Nat.pow 2 52)

/-- Positive or negative zero. -/
def zero (negative : Bool) : Binary64 :=
  withSign negative 0

/-- The double nearest to `± num / den`, a tie to the even significand; too large a quotient
becomes an infinity. -/
def ofRatio (negative : Bool) (num den : Nat) : Binary64 :=
  if num = 0 then zero negative
  else
    let (m, e) := roundRatio 53 (-1074) num den
    -- a significand that rounds up to the next power of two carries into the exponent bits
    let magnitude := (e + 1074).toNat * Nat.pow 2 52 + m
    if 2047 * Nat.pow 2 52 ≤ magnitude then infinity negative else withSign negative magnitude

/-- The double nearest to an integer. -/
def ofInt (n : Int) : Binary64 :=
  ofRatio (n < 0) n.natAbs 1

/-- The product of two finite magnitudes, rounded. -/
def mul (x y : Binary64) : Binary64 :=
  ofRatio (x.isNegative != y.isNegative) (x.numerator * y.numerator)
    (x.denominator * y.denominator)

/-- The quotient of two finite magnitudes, rounded. -/
def div (x y : Binary64) : Binary64 :=
  ofRatio (x.isNegative != y.isNegative) (x.numerator * y.denominator)
    (x.denominator * y.numerator)

/-- The number with the opposite sign. -/
def neg (x : Binary64) : Binary64 :=
  withSign (!x.isNegative) (x.bits.toNat % Nat.pow 2 63)

/-! ## §3 Single precision -/

/-- `± num / den` rounded to the nearest single-precision number; a magnitude of `2 ^ 128` or more
becomes an infinity. -/
def ofSingleRatio (negative : Bool) (num den : Nat) : Binary64 :=
  if num = 0 then zero negative
  else
    let (m, e) := roundRatio 24 (-149) num den
    if Nat.pow 2 128 ≤ m * Nat.pow 2 e.toNat then infinity negative
    else ofRatio negative (m * Nat.pow 2 e.toNat) (Nat.pow 2 (-e).toNat)

/-- A double rounded to single precision. -/
def toSingle (x : Binary64) : Binary64 :=
  if x.isFinite then ofSingleRatio x.isNegative x.numerator x.denominator else x

/-! ## §4 Order-free views -/

/-- The sixteen lowercase hexadecimal digits of the bits. -/
def hex (x : Binary64) : String :=
  let digits := Nat.toDigits 16 x.bits.toNat
  String.ofList (List.replicate (16 - digits.length) '0' ++ digits)

end Binary64

end SqlCompiler
