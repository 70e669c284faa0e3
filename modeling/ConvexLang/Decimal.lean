import ConvexLang.Text

/-!
# Decimal numerals

Digit texts and their values, decimal fractions, and the reading of a numeral as
the nearest floating-point number. A decimal fraction is a coefficient times a
power of ten (`Decimal`); `Decimal.toFloat` rounds it, and `Decimal.readFloat?`
reads a whole text as a number.

`value_digits` says that writing a natural number and reading it again gives the
number back.
-/

namespace ConvexLang

/-- The decimal fraction `coefficient * 10 ^ exponent`. -/
structure Decimal where
  /-- The digits, as a number. -/
  coefficient : Nat
  /-- The place of the last digit. -/
  exponent : Int
  deriving DecidableEq, Repr

namespace Decimal

/-! ## Digit texts -/

/-- The digits of `n`, without leading zeros. -/
def digits (n : Nat) : List Char :=
  Nat.toDigits 10 n

/-- The number a run of digits stands for. -/
def value (ds : List Char) : Nat :=
  Nat.ofDigitChars 10 ds 0

/-- Writing a number and reading it again gives the number back. -/
@[simp] theorem value_digits (n : Nat) : value (digits n) = n :=
  Nat.ofDigitChars_toDigits (by decide) (by decide)

theorem digits_ne_nil (n : Nat) : digits n ≠ [] :=
  Nat.toDigits_ne_nil

theorem isDigit_of_mem_digits {n : Nat} {c : Char} (h : c ∈ digits n) : c.isDigit = true :=
  Nat.isDigit_of_mem_toDigits (by decide) (by decide) h

/-- The text of a natural number. -/
def ofNat (n : Nat) : String :=
  String.ofList (digits n)

/-- The text of an integer: a minus sign in front of the negative ones. -/
def ofInt : Int → String
  | .ofNat n => ofNat n
  | .negSucc n => "-" ++ ofNat (n + 1)

/-- The number a text of digits stands for, if the text is one. -/
def readNat? (cs : List Char) : Option Nat :=
  if cs ≠ [] ∧ cs.all Char.isDigit then some (value cs) else none

/-! ## Rounding -/

/-- Positive infinity. -/
def infinity : Float :=
  Float.ofBits 0x7FF0000000000000

/-- The value that is not a number. -/
def notANumber : Float :=
  Float.ofBits 0x7FF8000000000000

/-- The nearest floating-point number, the even one of two equally near ones.

    The greatest finite number is below `10 ^ 309` and half the least positive
    one is above `10 ^ (-325)`, so a fraction beyond these bounds needs no
    arithmetic, however far its exponent lies out. -/
def toFloat (d : Decimal) : Float :=
  let top : Int := d.exponent + (digits d.coefficient).length
  if d.coefficient = 0 then 0
  else if top > 310 then infinity
  else if top < -330 then 0
  else
    match d.exponent with
    | .ofNat e => Float.ofScientific d.coefficient false e
    | .negSucc e => Float.ofScientific d.coefficient true (e + 1)

/-- The fraction written with the digits `whole` before the point and `fraction`
    behind it. -/
def ofParts (whole fraction : List Char) : Decimal where
  coefficient := value (whole ++ fraction)
  exponent := -fraction.length

/-! ## Reading a whole text -/

/-- The sign in front of a text, and the text behind it. -/
def splitSign : List Char → Bool × List Char
  | '-' :: cs => (true, cs)
  | '+' :: cs => (false, cs)
  | cs => (false, cs)

/-- An exponent: nothing, or `e` or `E` with an optional sign and digits. -/
def readExponent? : List Char → Option Int
  | [] => some 0
  | c :: cs =>
    if c = 'e' ∨ c = 'E' then
      let (negative, ds) := splitSign cs
      (readNat? ds).map fun n => if negative then -(n : Int) else n
    else none

/-- A numeral without a sign: digits with an optional point among or around
    them, and an optional exponent. At least one digit stands before the
    exponent. -/
def readNumeral? (cs : List Char) : Option Decimal :=
  let whole := cs.takeWhile Char.isDigit
  let afterWhole := cs.dropWhile Char.isDigit
  let (fraction, rest) :=
    match afterWhole with
    | '.' :: r => (r.takeWhile Char.isDigit, r.dropWhile Char.isDigit)
    | r => ([], r)
  if whole = [] ∧ fraction = [] then none
  else
    (readExponent? rest).map fun e =>
      let d := ofParts whole fraction
      { d with exponent := d.exponent + e }

/-- A magnitude: a numeral or, in any mix of cases, one of the words `inf`,
    `infinity` and `nan`. -/
def readMagnitude? (cs : List Char) : Option Float :=
  let folded := Text.lower (String.ofList cs)
  if folded = "inf" ∨ folded = "infinity" then some infinity
  else if folded = "nan" then some notANumber
  else (readNumeral? cs).map toFloat

/-- The floating-point number a whole text stands for, if it stands for one. No
    blank, no separator between digits and no other base is admitted. -/
def readFloat? (s : String) : Option Float :=
  let (negative, cs) := splitSign s.toList
  (readMagnitude? cs).map fun x => if negative then -x else x

end Decimal

end ConvexLang
