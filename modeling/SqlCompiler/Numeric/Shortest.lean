import SqlCompiler.Numeric.Binary64

/-!
# Shortest Decimals

The shortest decimal that reads back as a given double.

The reals that round to a double form an interval; its ends belong to it exactly when the
significand is even. On the grid of decimals with `n` digits only the two neighbours of the value
need looking at. The first `n` with a neighbour inside the interval gives the digits, and of two
such neighbours the nearer one is taken.

## Main definitions

- `TieRule`: which of two equally near neighbours is taken
- `Decimal`: digits and a scientific exponent
- `Binary64.shortest`: the shortest decimal of a finite double that is not zero
-/

namespace SqlCompiler

/-- Which of two equally near decimals is taken. -/
inductive TieRule where
  | even
  | up
deriving DecidableEq, Repr

/-- A positive decimal `d.ddd · 10 ^ exponent`. -/
structure Decimal where
  digits : List Char
  exponent : Int
deriving DecidableEq, Repr

/-! ## §1 Decimal magnitude -/

/-- The number of decimal digits of a natural number; zero has one. -/
def digitCount (n : Nat) : Nat :=
  (Nat.toDigits 10 n).length

/-- The exponent `e` with `10 ^ e ≤ num / den < 10 ^ (e + 1)`. -/
def decimalExponent (num den : Nat) : Int :=
  if den ≤ num then (digitCount (num / den) : Int) - 1
  else
    -- `10 ^ k ≤ ⌊den / num⌋`, so the exponent is `-k`, or `-(k + 1)` past that power of ten
    let k := digitCount (den / num) - 1
    if den ≤ num * Nat.pow 10 k then -(k : Int) else -(k : Int) - 1

namespace Binary64

/-! ## §2 The interval of a double -/

/-- Four times the value, in units of `2 ^ exponent`. -/
def quarters (x : Binary64) : Nat :=
  4 * x.significand

/-- Four times the lower end of the interval, in the same units. Below a power of two the
neighbouring doubles lie twice as close. -/
def lowerQuarters (x : Binary64) : Nat :=
  if x.fraction = 0 ∧ 1 < x.biasedExponent then x.quarters - 1 else x.quarters - 2

/-- Four times the upper end of the interval, in the same units. -/
def upperQuarters (x : Binary64) : Nat :=
  x.quarters + 2

/-- Whether the decimal `d · 10 ^ k` rounds to the double. -/
def readsBack (x : Binary64) (d : Nat) (k : Int) : Bool :=
  let scaled := 4 * d * Nat.pow 10 k.toNat * Nat.pow 2 (-x.exponent).toNat
  let unit := Nat.pow 10 (-k).toNat * Nat.pow 2 x.exponent.toNat
  let low := x.lowerQuarters * unit
  let high := x.upperQuarters * unit
  -- a tie is rounded to the even significand, so the ends belong to the interval of one
  if x.significand % 2 = 0 then low ≤ scaled && scaled ≤ high
  else low < scaled && scaled < high

/-! ## §3 The digits -/

/-- The decimal neighbour of a magnitude in units of `10 ^ k` that rounds to the double; the
nearer one if both do. -/
def neighbour? (tie : TieRule) (x : Binary64) (k : Int) : Option Nat :=
  let num := x.numerator * Nat.pow 10 (-k).toNat
  let den := x.denominator * Nat.pow 10 k.toNat
  let below := num / den
  let twice := 2 * (num % den)
  match x.readsBack below k, x.readsBack (below + 1) k with
  | false, false => none
  | true, false => some below
  | false, true => some (below + 1)
  | true, true =>
    if twice < den then some below
    else if den < twice then some (below + 1)
    else
      match tie with
      | .even => if below % 2 = 0 then some below else some (below + 1)
      | .up => some (below + 1)

/-- A number in units of `10 ^ k` as digits without trailing zeros. -/
def decimalOf (d : Nat) (k : Int) : Decimal :=
  let digits := Nat.toDigits 10 d
  ⟨(digits.reverse.dropWhile (· == '0')).reverse, k + digits.length - 1⟩

/-- The first grid, from `count` digits on, that has a neighbour reading back. -/
def shortestFrom (tie : TieRule) (x : Binary64) (top : Int) : Nat → Nat → Decimal
  | 0, count =>
    let k := top - count + 1
    decimalOf (x.numerator * Nat.pow 10 (-k).toNat / (x.denominator * Nat.pow 10 k.toNat)) k
  | fuel + 1, count =>
    let k := top - count + 1
    match x.neighbour? tie k with
    | some d => decimalOf d k
    | none => shortestFrom tie x top fuel (count + 1)

/-- The shortest decimal that reads back as a finite double other than zero. Seventeen digits
always suffice. -/
def shortest (tie : TieRule) (x : Binary64) : Decimal :=
  shortestFrom tie x (decimalExponent x.numerator x.denominator) 17 1

end Binary64

end SqlCompiler
