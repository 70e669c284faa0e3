/-!
# Signs

The sign of an expression classifies the values it can take. A declared symbol
carries the sign of its declaration, a literal that of its value and an atom
call that of the atom.
-/

namespace ConvexLang

/-- The sign of an expression. -/
inductive Sign where
  /-- Above zero. -/
  | positive
  /-- Below zero. -/
  | negative
  /-- Zero. -/
  | zero
  /-- Nothing is known. -/
  | unknown
  deriving DecidableEq, Repr

namespace Sign

/-- All signs. -/
def all : List Sign :=
  [positive, negative, zero, unknown]

/-- The word for a sign. -/
def label : Sign → String
  | positive => "positive"
  | negative => "negative"
  | zero => "zero"
  | unknown => "unknown"

/-- The sign a word names; capitals count. -/
def ofLabel? (word : String) : Option Sign :=
  all.find? fun s => s.label = word

/-- The sign of an integer. -/
def ofInt (n : Int) : Sign :=
  if 0 < n then positive else if n < 0 then negative else zero

/-- The sign of a floating-point number. One that is neither above nor below
    zero counts as zero, also the value that is not a number. -/
def ofFloat (x : Float) : Sign :=
  if 0 < x then positive else if x < 0 then negative else zero

theorem mem_all (s : Sign) : s ∈ all := by
  cases s <;> decide

end Sign

end ConvexLang
