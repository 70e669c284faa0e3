import ConvexLang.Decimal.Layout
import ConvexLang.Sign

/-!
# Numbers

A numeric literal stays what it was written as: an integer or a floating-point
number. The two kinds never compare equal and never show the same text.
-/

namespace ConvexLang

/-- A numeric literal. -/
inductive Number where
  /-- An integer. -/
  | whole (n : Int)
  /-- A floating-point number. -/
  | real (x : Float)
  deriving DecidableEq, Repr

namespace Number

/-- The nearest floating-point number. -/
def toFloat : Number → Float
  | whole n => Float.ofInt n
  | real x => x

/-- The sign of the value. -/
def sign : Number → Sign
  | whole n => .ofInt n
  | real x => .ofFloat x

/-- The text shown in a statement. -/
def text : Number → String
  | whole n => Decimal.ofInt n
  | real x => String.ofList (Decimal.plainText x)

/-- Equality of values of one kind: zeros are equal whatever their sign bit, and
    the value that is not a number equals nothing. -/
def same : Number → Number → Bool
  | whole m, whole n => m = n
  | real x, real y => x == y
  | _, _ => false

end Number

end ConvexLang
