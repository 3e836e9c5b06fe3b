import SqlCompiler.Numeric.Shortest

/-!
# Number Formats

How a double is written: positionally or with an exponent, and with which decorations.

## Main definitions

- `NumberFormat`: the decisions of one way of writing doubles
- `Binary64.written`: the text of a finite double
- `NumberFormat.json`: the format of JSON documents
- `NumberFormat.inline`: the format of numbers inlined into SQL
-/

namespace SqlCompiler

/-- One way of writing doubles. -/
structure NumberFormat where
  /-- Exponents of numbers that are written positionally. -/
  positional : Int → Bool
  /-- Whether an integral number written positionally ends in `.0`. -/
  keepsPoint : Bool
  /-- Which of two equally short and near decimals is written. -/
  tie : TieRule

namespace NumberFormat

/-- JSON numbers are positional from `0.00001` up to below `10 ^ 16` and always show a point or an
exponent. -/
def json : NumberFormat where
  positional e := -5 ≤ e && e < 16
  keepsPoint := true
  tie := .even

/-- Numbers inlined into SQL never have an exponent, and integral ones have no point. -/
def inline : NumberFormat where
  positional _ := true
  keepsPoint := false
  tie := .up

end NumberFormat

/-- Digits with the decimal point after the first `whole` of them, filled up with zeros. -/
def positionalText (keepsPoint : Bool) (d : Decimal) : List Char :=
  if d.exponent < 0 then
    '0' :: '.' :: (List.replicate (-d.exponent - 1).toNat '0' ++ d.digits)
  else
    let whole := d.exponent.toNat + 1
    let front := d.digits.take whole ++ List.replicate (whole - d.digits.length) '0'
    match d.digits.drop whole with
    | [] => if keepsPoint then front ++ ['.', '0'] else front
    | back => front ++ '.' :: back

/-- One digit, the point and further digits if there are any, and a signed exponent. -/
def scientificText (d : Decimal) : List Char :=
  let mantissa :=
    match d.digits with
    | [] => ['0']
    | [c] => [c]
    | c :: cs => c :: '.' :: cs
  let sign := if d.exponent < 0 then '-' else '+'
  mantissa ++ 'e' :: sign :: Nat.toDigits 10 d.exponent.natAbs

/-- The text of a finite double. -/
def Binary64.written (x : Binary64) (how : NumberFormat) : String :=
  let sign := if x.isNegative then ['-'] else []
  let digits :=
    if x.isZero then positionalText how.keepsPoint ⟨['0'], 0⟩
    else
      let d := x.shortest how.tie
      if how.positional d.exponent then positionalText how.keepsPoint d else scientificText d
  String.ofList (sign ++ digits)

end SqlCompiler
