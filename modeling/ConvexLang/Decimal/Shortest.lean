import ConvexLang.Decimal

/-!
# Shortest decimal text of a floating-point number

A floating-point number is written with the fewest digits that read back as the
number itself. Among the fractions with `n` significant digits only the two
neighbours of the exact value can read back, so for `n = 1, 2, …` these two are
tried; the first `n` with a success wins, and of two successes the nearer one.
Where both are equally near the writer of the format decides (`Tie`).

The test is the reader itself, so what is written reads back by construction
(`toFloat_of_shortest?`).
-/

namespace ConvexLang

/-! ## The exact value -/

/-- The magnitude of a finite floating-point number, as the exact quotient
    `numerator / denominator`. -/
structure Magnitude where
  /-- The numerator. -/
  numerator : Nat
  /-- The denominator, a power of two. -/
  denominator : Nat

namespace Magnitude

/-- The magnitude of `x`, read off its 11 bits of exponent and 52 bits of
    fraction. It is meant for finite `x`. -/
def ofFloat (x : Float) : Magnitude :=
  let bits := x.toBits.toNat
  let unit : Nat := 1 <<< 52
  let fraction := bits % unit
  let biased := bits / unit % 2048
  if biased = 0 then ⟨fraction, 1 <<< 1074⟩
  else if 1075 ≤ biased then ⟨(fraction + unit) <<< (biased - 1075), 1⟩
  else ⟨fraction + unit, 1 <<< (1075 - biased)⟩

/-- Whether the magnitude is a whole number. -/
def isWhole (m : Magnitude) : Bool :=
  m.numerator % m.denominator = 0

/-- The whole part. -/
def floor (m : Magnitude) : Nat :=
  m.numerator / m.denominator

/-- The place of the first significant digit: the `k` with
    `10 ^ k ≤ m < 10 ^ (k + 1)`, for a positive magnitude of a floating-point
    number, none of which lies below `10 ^ (-400)`. -/
def leadingPlace (m : Magnitude) : Int :=
  (Decimal.digits (m.numerator * Nat.pow 10 400 / m.denominator)).length - 401

/-- The magnitude divided by `10 ^ place`. -/
def shift (m : Magnitude) (place : Int) : Magnitude :=
  match place with
  | .ofNat p => ⟨m.numerator, m.denominator * Nat.pow 10 p⟩
  | .negSucc p => ⟨m.numerator * Nat.pow 10 (p + 1), m.denominator⟩

end Magnitude

/-! ## The shortest fraction -/

/-- What a format does where two fractions are equally near. -/
inductive Tie where
  /-- Take the greater one. -/
  | up
  /-- Take the one with the even last digit. -/
  | even
  deriving DecidableEq, Repr

namespace Decimal

/-- Whether the upper neighbour is to be taken, where the exact value is
    `coefficient` units and `remainder / denominator` of a unit more. -/
def roundsUp (tie : Tie) (coefficient remainder denominator : Nat) : Bool :=
  if 2 * remainder = denominator then
    match tie with
    | .up => true
    | .even => coefficient % 2 = 1
  else 2 * remainder > denominator

/-- The same fraction without the zeros at the end of its coefficient. -/
def dropZeros (d : Decimal) : Decimal :=
  if d.coefficient ≠ 0 ∧ d.coefficient % 10 = 0 then
    dropZeros ⟨d.coefficient / 10, d.exponent + 1⟩
  else d
termination_by d.coefficient
decreasing_by omega

/-- The first of two fractions that reads back as `x`. -/
def firstReading? (x : Float) (d e : Decimal) : Option Decimal :=
  if d.toFloat = x then some d
  else if e.toFloat = x then some e
  else none

/-- The two neighbours of `m` among the multiples of `10 ^ place`, the preferred
    one first. -/
def neighbours (tie : Tie) (m : Magnitude) (place : Int) : Decimal × Decimal :=
  let scaled := m.shift place
  let below := dropZeros ⟨scaled.floor, place⟩
  let above := dropZeros ⟨scaled.floor + 1, place⟩
  if roundsUp tie scaled.floor (scaled.numerator % scaled.denominator) scaled.denominator then
    (above, below)
  else (below, above)

/-- The fraction with `n` significant digits that reads back as the positive
    number `x` and is nearest to it, if there is one. -/
def withDigits? (tie : Tie) (x : Float) (n : Nat) : Option Decimal :=
  let m := Magnitude.ofFloat x
  let pair := neighbours tie m (m.leadingPlace - (n - 1 : Nat))
  firstReading? x pair.1 pair.2

/-- The shortest fraction that reads back as the positive number `x`. Seventeen
    digits tell all floating-point numbers apart. -/
def shortest? (tie : Tie) (x : Float) : Option Decimal :=
  (List.range' 1 17).findSome? (withDigits? tie x)

/-- The exact value of a magnitude, whose denominator is a power of two. -/
def ofMagnitude (m : Magnitude) : Decimal :=
  let places := m.denominator.log2
  ⟨m.numerator * Nat.pow 5 places, -places⟩

/-- The shortest fraction that reads back as the positive number `x`; all digits
    of `x` where none is found. -/
def shortest (tie : Tie) (x : Float) : Decimal :=
  (shortest? tie x).getD (ofMagnitude (Magnitude.ofFloat x))

theorem toFloat_of_firstReading? {x : Float} {d e r : Decimal}
    (h : firstReading? x d e = some r) : r.toFloat = x := by
  unfold firstReading? at h
  split at h
  · cases h; assumption
  · split at h
    · cases h; assumption
    · cases h

/-- The shortest fraction reads back. -/
theorem toFloat_of_shortest? {tie : Tie} {x : Float} {d : Decimal}
    (h : shortest? tie x = some d) : d.toFloat = x := by
  obtain ⟨n, -, hn⟩ := List.exists_of_findSome?_eq_some h
  exact toFloat_of_firstReading? hn

end Decimal

end ConvexLang
