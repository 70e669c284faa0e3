/-!
# Operators of the quiz

The table that questions are made from. An entry is a template: what opens it,
its operands with a separator between them, and what closes it; a terminal is
all opening. The shape of an entry tells what kind of expression it makes, and
each of its operand positions admits one or more shapes. With the operands of
admitted shapes, an entry keeps the composition rules of disciplined convex
programming.
-/

namespace ConvexLang.Quiz

/-! ## Shapes -/

/-- What is known about the sign and the curvature of an expression. -/
structure Shape where
  /-- Known not to be negative. -/
  positive : Bool := false
  /-- Known not to be positive. -/
  negative : Bool := false
  /-- Known to be convex. -/
  convex : Bool := false
  /-- Known to be concave. -/
  concave : Bool := false
  deriving DecidableEq, Repr

namespace Shape

/-- Whether something of shape `s` may stand where `wanted` is asked for: what is
    known of it does no harm, and what is asked for has to be known. -/
def satisfies (s wanted : Shape) : Bool :=
  (s.positive = wanted.positive || s.positive) && (s.negative = wanted.negative || s.negative)
    && (s.convex = wanted.convex || s.convex) && (s.concave = wanted.concave || s.concave)

/-- Convex. -/
def ofConvex : Shape := { convex := true }

/-- Concave. -/
def ofConcave : Shape := { concave := true }

/-- Convex and concave. -/
def ofAffine : Shape := { convex := true, concave := true }

/-- Convex and not negative. -/
def positiveConvex : Shape := { positive := true, convex := true }

/-- Concave and not negative. -/
def positiveConcave : Shape := { positive := true, concave := true }

/-- Concave and not positive. -/
def negativeConcave : Shape := { negative := true, concave := true }

end Shape

/-! ## Operators -/

/-- A shape that is admitted at an operand position. -/
structure Admitted where
  /-- The position, from zero. -/
  position : Nat
  /-- The shape. -/
  shape : Shape
  deriving DecidableEq, Repr

/-- An entry of the table. -/
structure Operator where
  /-- What stands before the operands. -/
  opening : String
  /-- What stands between them. -/
  separator : String
  /-- What stands behind them. -/
  closing : String
  /-- Whether the entry has no operands. -/
  terminal : Bool
  /-- The number of its operands. -/
  arity : Nat
  /-- How often it is drawn, compared with the others. -/
  weight : Float
  /-- The shape of what it makes. -/
  shape : Shape
  /-- The shapes admitted for its operands. -/
  admitted : List Admitted
  deriving DecidableEq, Repr

namespace Operator

/-- The shapes admitted at a position. -/
def shapesAt (op : Operator) (position : Nat) : List Shape :=
  (op.admitted.filter fun a => a.position = position).map Admitted.shape

/-- The shapes admitted at each position, for the positions that have any. -/
def operandShapes (op : Operator) : List (List Shape) :=
  ((List.range op.arity).map op.shapesAt).filter fun shapes => ¬ shapes.isEmpty

/-- An affine term that is written as it stands. -/
def term (text : String) (weight : Float) : Operator where
  opening := text
  separator := ""
  closing := ""
  terminal := true
  arity := 0
  weight
  shape := .ofAffine
  admitted := []

/-- A call of the atom `name`. -/
def call (name : String) (arity : Nat) (weight : Float) (shape : Shape)
    (admitted : List Admitted) : Operator where
  opening := name ++ "("
  separator := ", "
  closing := ")"
  terminal := false
  arity
  weight
  shape
  admitted

/-- An operator between two operands. -/
def between (sign : String) (weight : Float) (shape : Shape) (admitted : List Admitted) :
    Operator where
  opening := ""
  separator := sign
  closing := ""
  terminal := false
  arity := 2
  weight
  shape
  admitted

/-- The sign of a sum. -/
def plusSign : String := " + "

/-- The sign of a difference. -/
def minusSign : String := " - "

/-! ## Weights -/

/-- The weight of most calls. -/
def callWeight : Float := 1000

/-- The weight of a variable: together they weigh a tenth of a call. -/
def variableWeight : Float := 0.1 * callWeight / 6

/-- The weight of a compound term. -/
def termWeight : Float := 0.1 * callWeight / 3

/-- The weight of a sum or a difference. -/
def signWeight : Float := callWeight / 2

/-- The weight of a norm, of which there are three. -/
def normWeight : Float := 0.33 * callWeight

/-! ## Admitted operands -/

/-- One shape for each of the positions. -/
def each (shapes : List Shape) : List Admitted :=
  shapes.zipIdx.map fun (shape, position) => ⟨position, shape⟩

/-- At one position, what keeps an even atom such as the square convex: convex
    where the operand is not negative, concave where it is not positive, or
    affine. -/
def even (position : Nat) : List Admitted :=
  [⟨position, .positiveConvex⟩, ⟨position, .negativeConcave⟩, ⟨position, .ofAffine⟩]

/-! ## The table -/

/-- The names that questions are about. -/
def variableNames : List String :=
  ["x", "y", "z", "u", "v", "w"]

/-- The terminals. -/
def terminals : List Operator :=
  variableNames.map (fun name => term name variableWeight)
    ++ [term "x / 2" termWeight, term "y - 42" termWeight, term "364 * z" termWeight]

/-- The sums and differences. -/
def signs : List Operator :=
  [between plusSign signWeight .ofConvex (each [.ofConvex, .ofConvex]),
    between plusSign signWeight .ofConcave (each [.ofConcave, .ofConcave]),
    between minusSign signWeight .ofConvex (each [.ofConvex, .ofConcave]),
    between minusSign signWeight .ofConcave (each [.ofConcave, .ofConvex])]

/-- The calls. -/
def calls : List Operator :=
  [call "max" 2 callWeight .ofConvex (each [.ofConvex, .ofConvex]),
    call "min" 2 callWeight .ofConcave (each [.ofConcave, .ofConcave]),
    call "log" 1 callWeight .ofConcave (each [.ofConcave]),
    call "abs" 1 callWeight .positiveConvex (even 0),
    call "entr" 1 (0.5 * callWeight) .ofConcave (each [.ofAffine]),
    call "exp" 1 callWeight .positiveConvex (each [.ofConvex]),
    call "geo_mean" 2 callWeight .positiveConcave (each [.ofConcave, .ofConcave]),
    call "huber" 1 callWeight .positiveConvex (even 0),
    call "inv_pos" 1 callWeight .positiveConvex (each [.ofConcave]),
    call "kl_div" 2 (0.25 * callWeight) .positiveConvex (each [.ofAffine, .ofAffine]),
    call "log_sum_exp" 2 callWeight .ofConvex (each [.ofConvex, .ofConvex]),
    call "norm2" 2 normWeight .positiveConvex (even 0 ++ even 1),
    call "norm1" 2 normWeight .positiveConvex (even 0 ++ even 1),
    call "norm_inf" 2 normWeight .positiveConvex (even 0 ++ even 1),
    call "sqrt" 1 callWeight .positiveConcave (each [.ofConcave]),
    call "pos" 1 callWeight .positiveConvex (each [.ofConvex]),
    call "square" 1 callWeight .positiveConvex (even 0),
    call "quad_over_lin" 2 callWeight .positiveConvex (even 0 ++ [⟨1, .ofConcave⟩])]

/-- All operators. -/
def table : List Operator :=
  terminals ++ signs ++ calls

/-- The operators that make something of the wanted shape. -/
def makers (wanted : Shape) : List Operator :=
  table.filter fun op => op.shape.satisfies wanted

end Operator

end ConvexLang.Quiz
