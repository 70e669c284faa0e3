import ConvexLang.Decimal.Shortest

/-!
# Layouts of a floating-point number

Two texts of a floating-point number are in use. The plain text (`plainText`)
is what a statement shows: never an exponent, and a whole number in all its
digits followed by `.0`, so that it does not read as an integer. The record text
(`recordText?`) is what a record holds: the shortest digits, positional between
`0.00001` and `10 ^ 16` and with an exponent outside, and nothing for a value
that is not finite.
-/

namespace ConvexLang.Decimal

/-- A minus sign if `negative`. -/
def signText (negative : Bool) : List Char :=
  if negative then ['-'] else []

/-- Whether the sign bit of `x` is set; a zero has one too. -/
def isNegative (x : Float) : Bool :=
  x.toBits ≥ 0x8000000000000000

/-- Digits with a point in front of the last `places` of them, with zeros put in
    front where there are too few. At least one digit stands before the point. -/
def withPoint (ds : List Char) (places : Nat) : List Char :=
  let filled := List.replicate (places + 1 - ds.length) '0' ++ ds
  filled.take (filled.length - places) ++ '.' :: filled.drop (filled.length - places)

/-- The positional text of a fraction, with at least one place behind the point. -/
def positional (d : Decimal) : List Char :=
  match d.exponent with
  | .ofNat e => digits d.coefficient ++ List.replicate e '0' ++ ['.', '0']
  | .negSucc e => withPoint (digits d.coefficient) (e + 1)

/-- The place of the first digit of a fraction. -/
def firstPlace (d : Decimal) : Int :=
  d.exponent + (digits d.coefficient).length - 1

/-- The text of a fraction with one digit before the point and an exponent that
    always shows its sign; no point stands behind a single digit. -/
def scientific (d : Decimal) : List Char :=
  let place := d.firstPlace
  let mantissa :=
    match digits d.coefficient with
    | [] => []
    | [c] => [c]
    | c :: cs => c :: '.' :: cs
  mantissa ++ 'e' :: (if place < 0 then '-' else '+') :: digits place.natAbs

/-- The plain text of `x`: all digits of a whole number with `.0` behind them,
    otherwise the shortest digits that read back, the greater ones of two equally
    near. -/
def plainText (x : Float) : List Char :=
  if x.isNaN then ['N', 'a', 'N']
  else
    let body :=
      if x.isInf then ['i', 'n', 'f']
      else
        let m := Magnitude.ofFloat x
        if m.isWhole then digits m.floor ++ ['.', '0']
        else positional (shortest .up x.abs)
    signText (isNegative x) ++ body

/-- The text of `x` in a record: the shortest digits that read back, the even
    ones of two equally near. -/
def recordText? (x : Float) : Option (List Char) :=
  if x.isFinite then
    let body :=
      if x == 0 then ['0', '.', '0']
      else
        let d := shortest .even x.abs
        if -5 ≤ d.firstPlace ∧ d.firstPlace ≤ 15 then positional d else scientific d
    some (signText (isNegative x) ++ body)
  else none

end ConvexLang.Decimal
