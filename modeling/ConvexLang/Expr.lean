import ConvexLang.Curvature
import ConvexLang.Number

/-!
# Annotated expressions

Every node of an expression has a sign and a curvature. A leaf derives them: a
symbol from its declaration, a literal from its value. A compound carries them:
an arithmetic operator knows neither, and a call has those of its atom.

A node also remembers whether it was written in parentheses. That is a matter of
display only, and `Expr.same` does not see it.
-/

namespace ConvexLang

/-- What a symbol is declared as. -/
inductive Role where
  /-- A decision variable, which is affine. -/
  | decision
  /-- A parameter, which is constant. -/
  | parameter
  deriving DecidableEq, Repr

namespace Role

/-- The word that opens a declaration. -/
def keyword : Role → String
  | decision => "variable"
  | parameter => "parameter"

/-- The curvature of a symbol in this role. -/
def curvature : Role → Curvature
  | decision => .affine
  | parameter => .constant

end Role

mutual

/-- An annotated expression. The flag `parens` says that it was written in
    parentheses of its own. -/
inductive Expr where
  /-- A declared symbol. -/
  | symbol (role : Role) (name : String) (sign : Sign) (parens : Bool)
  /-- A numeric literal. -/
  | literal (value : Number) (parens : Bool)
  /-- An operator or an atom with its operands, or a leaf that is only a name. -/
  | compound (name : String) (sign : Sign) (curvature : Curvature) (operands : List Operand)
      (parens : Bool)

/-- What fills an operand slot. -/
inductive Operand where
  /-- An expression. -/
  | expr (e : Expr)
  /-- Nothing: the slot was left empty. -/
  | absent
  /-- A word taken as it stands. -/
  | word (text : String)

end

namespace Expr

/-! ## Construction -/

/-- A declared symbol. -/
def ofSymbol (role : Role) (name : String) (sign : Sign) : Expr :=
  symbol role name sign false

/-- A numeric literal. -/
def ofNumber (value : Number) : Expr :=
  literal value false

/-- An arithmetic operator with its operands. Sign and curvature are left
    unknown. -/
def operator (name : String) (args : List Expr) : Expr :=
  compound name .unknown .unknown (args.map .expr) false

/-- A leaf that is only a name, of which nothing is known. -/
def unclassified (name : String) : Expr :=
  compound name .unknown .unknown [] false

/-- The expression marked as written in parentheses. -/
def inParens : Expr → Expr
  | symbol role name sign _ => symbol role name sign true
  | literal value _ => literal value true
  | compound name sign curvature operands _ => compound name sign curvature operands true

/-! ## Attributes -/

/-- Whether the expression was written in parentheses. -/
def parens : Expr → Bool
  | symbol _ _ _ p | literal _ p | compound _ _ _ _ p => p

/-- The name of the node: a literal is named by its text. -/
def name : Expr → String
  | symbol _ n _ _ => n
  | literal v _ => v.text
  | compound n _ _ _ _ => n

/-- The sign. -/
def sign : Expr → Sign
  | symbol _ _ s _ => s
  | literal v _ => v.sign
  | compound _ s _ _ _ => s

/-- The curvature. -/
def curvature : Expr → Curvature
  | symbol r _ _ _ => r.curvature
  | literal _ _ => .constant
  | compound _ _ c _ _ => c

/-- The operands; a leaf has none. -/
def operands : Expr → List Operand
  | compound _ _ _ os _ => os
  | _ => []

/-- The value of a literal. -/
def value? : Expr → Option Number
  | literal v _ => some v
  | _ => none

/-! ## Whole trees -/

mutual

/-- The number of nodes; slots without an expression do not count. -/
def nodeCount : Expr → Nat
  | symbol .. | literal .. => 1
  | compound _ _ _ os _ => 1 + nodeCountOperands os

/-- The number of nodes in one slot. -/
def nodeCountOperand : Operand → Nat
  | .expr e => nodeCount e
  | .absent | .word _ => 0

/-- The number of nodes in all slots. -/
def nodeCountOperands : List Operand → Nat
  | [] => 0
  | o :: os => nodeCountOperand o + nodeCountOperands os

end

mutual

/-- Equality up to parentheses, at every depth. -/
def same : Expr → Expr → Bool
  | symbol r n s _, symbol r' n' s' _ => r = r' && n = n' && s = s'
  | literal v _, literal v' _ => v.same v'
  | compound n s c os _, compound n' s' c' os' _ =>
    n = n' && s = s' && c = c' && sameOperands os os'
  | _, _ => false

/-- Equality of two slots up to parentheses. -/
def sameOperand : Operand → Operand → Bool
  | .expr e, .expr e' => same e e'
  | .absent, .absent => true
  | .word t, .word t' => t = t'
  | _, _ => false

/-- Equality of two lists of slots up to parentheses. -/
def sameOperands : List Operand → List Operand → Bool
  | [], [] => true
  | o :: os, o' :: os' => sameOperand o o' && sameOperands os os'
  | _, _ => false

end

end Expr

end ConvexLang
