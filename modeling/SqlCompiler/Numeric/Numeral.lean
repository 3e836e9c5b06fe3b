import SqlCompiler.Numeric.Binary64

/-!
# Numerals

Decimal numerals of JSON documents and what they denote.

An integral numeral without point and exponent denotes an integer where it fits 64 bits; every
other numeral denotes a double. The significand of such a numeral is gathered in 64 bits: digits
that no longer fit count towards the exponent in front of the point and are dropped behind it. The
significand is then rounded and scaled by a power of ten, so that the result can differ from the
nearest double in its last place.

## Main definitions

- `Numeral`: a numeral in its parts
- `Numeral.ofChars?`: the parts of a text, where it is a numeral
- `Magnitude`: an integer or a double
- `Numeral.value?`: what a numeral denotes; nothing beyond the range of doubles
- `integerOfChars?`: a signed integer of 64 bits
-/

namespace SqlCompiler

/-! ## §1 Parts -/

/-- A decimal numeral: sign, digits on both sides of the point, and a signed exponent. -/
structure Numeral where
  negative : Bool
  whole : List Char
  fraction : List Char
  exponent : Option (Bool × List Char)
deriving DecidableEq, Repr

/-- An ASCII digit. -/
def isDigit (c : Char) : Bool :=
  '0' ≤ c && c ≤ '9'

/-- The value of a digit. -/
def digitValue (c : Char) : Nat :=
  c.toNat - 48

/-- The value of a run of digits. -/
def digitsValue (cs : List Char) : Nat :=
  cs.foldl (fun n c => 10 * n + digitValue c) 0

namespace Numeral

/-- The optional minus sign and what follows it. -/
def sign : List Char → Bool × List Char
  | '-' :: cs => (true, cs)
  | cs => (false, cs)

/-- The optional fraction and what follows it; a point needs a digit after it. -/
def fraction? : List Char → Option (List Char × List Char)
  | '.' :: cs =>
    match cs.takeWhile isDigit with
    | [] => none
    | digits => some (digits, cs.dropWhile isDigit)
  | cs => some ([], cs)

/-- The optional exponent at the end of a numeral. -/
def exponent? : List Char → Option (Option (Bool × List Char))
  | [] => some none
  | e :: cs =>
    if e = 'e' ∨ e = 'E' then
      let (negative, digits) :=
        match cs with
        | '-' :: ds => (true, ds)
        | '+' :: ds => (false, ds)
        | ds => (false, ds)
      if digits ≠ [] ∧ digits.all isDigit then some (some (negative, digits)) else none
    else none

/-- The parts of a numeral. The digits before the point start with a zero only if that is all. -/
def ofChars? (cs : List Char) : Option Numeral := do
  let (negative, cs) := sign cs
  let whole := cs.takeWhile isDigit
  guard (whole = ['0'] ∨ (whole ≠ [] ∧ whole.head? ≠ some '0'))
  let (fraction, cs) ← fraction? (cs.dropWhile isDigit)
  let exponent ← exponent? cs
  return ⟨negative, whole, fraction, exponent⟩

/-! ## §2 Values -/

/-- Appends digits to a significand as long as it fits 64 bits; also how many did not fit. -/
def gather (significand : Nat) : List Char → Nat × Nat
  | [] => (significand, 0)
  | c :: cs =>
    let next := 10 * significand + digitValue c
    -- the first digit that does not fit ends the gathering, even if a later one would fit
    if next < UInt64.size then gather next cs else (significand, cs.length + 1)

/-- The double nearest to a power of ten. -/
def powerOfTen (k : Nat) : Binary64 :=
  Binary64.ofRatio false (Nat.pow 10 k) 1

/-- A magnitude below `2 ^ 64` divided by `10 ^ k`, in steps of at most `10 ^ 308`. Two steps leave
nothing of any such magnitude. -/
def scaleDown (x : Binary64) (k : Nat) : Binary64 :=
  if k ≤ 308 then x.div (powerOfTen k)
  else if k ≤ 616 then (x.div (powerOfTen 308)).div (powerOfTen (k - 308))
  else Binary64.zero false

/-- A magnitude multiplied by `10 ^ k`; nothing if that leaves the range of doubles. -/
def scaleUp? (x : Binary64) (k : Nat) : Option Binary64 :=
  if x.isZero then some x
  else if 308 < k then none
  else
    let scaled := x.mul (powerOfTen k)
    if scaled.isFinite then some scaled else none

/-- A significand times a power of ten. -/
def scale? (negative : Bool) (significand : Nat) (e : Int) : Option Binary64 :=
  let x := Binary64.ofRatio false significand 1
  let magnitude? := if e < 0 then some (scaleDown x e.natAbs) else scaleUp? x e.toNat
  magnitude?.map fun magnitude => if negative then magnitude.neg else magnitude

end Numeral

/-- What a numeral denotes. -/
inductive Magnitude where
  | integer (n : Int)
  | double (x : Binary64)
deriving DecidableEq, Repr

namespace Numeral

/-- An integral numeral that fits 64 bits, signed or unsigned. Minus zero is a double. -/
def integer? (n : Numeral) : Option Magnitude :=
  if n.fraction = [] ∧ n.exponent = none then
    let magnitude := digitsValue n.whole
    if n.negative then
      if magnitude = 0 then some (.double (Binary64.zero true))
      else if Int64.minValue.toInt ≤ -magnitude then some (.integer (-magnitude))
      else none
    else if magnitude < UInt64.size then some (.integer magnitude)
    else none
  else none

/-- The double a numeral denotes, if it lies in range. An exponent beyond 32 bits leaves zero, or
nothing at all. -/
def double? (n : Numeral) : Option Binary64 :=
  let (head, dropped) := gather 0 n.whole
  let (significand, cut) := gather head n.fraction
  -- digits dropped in front of the point count as zeros, those gathered behind it as places
  let position : Int := (dropped : Int) - ((n.fraction.length - cut : Nat) : Int)
  match n.exponent with
  | none => scale? n.negative significand position
  | some (down, digits) =>
    let e := digitsValue digits
    if e ≤ Int32.maxValue.toInt then
      scale? n.negative significand (if down then position - e else position + e)
    else if significand ≠ 0 ∧ down = false then none
    else some (Binary64.zero n.negative)

/-- What a numeral denotes; nothing if it lies beyond the range of doubles. -/
def value? (n : Numeral) : Option Magnitude :=
  match n.integer? with
  | some m => some m
  | none => n.double?.map .double

end Numeral

/-! ## §3 Signed integers -/

/-- A signed integer of 64 bits in decimal: an optional sign and at least one ASCII digit, leading
zeros allowed. -/
def integerOfChars? (cs : List Char) : Option Int :=
  let (negative, digits) :=
    match cs with
    | '-' :: ds => (true, ds)
    | '+' :: ds => (false, ds)
    | ds => (false, ds)
  if digits ≠ [] ∧ digits.all isDigit then
    let n : Int := if negative then -(digitsValue digits) else digitsValue digits
    if Int64.minValue.toInt ≤ n ∧ n ≤ Int64.maxValue.toInt then some n else none
  else none

end SqlCompiler
