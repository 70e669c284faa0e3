import ConvexLang.Expr.Display
import ConvexLang.Expr.Record
import ConvexLang.Relation

/-!
# Statements

A line that declares nothing is a statement: an expression, or one constraint
between two expressions. Constraints do not nest.
-/

namespace ConvexLang

/-- A statement. -/
inductive Statement where
  /-- An expression. -/
  | expr (e : Expr)
  /-- A constraint. -/
  | constraint (relation : Relation) (left right : Expr)

namespace Statement

/-- The name: that of the expression, or the relation. -/
def name : Statement → String
  | expr e => e.name
  | constraint r _ _ => r.symbol

/-- The text, as the statement was written but for layout. -/
def text : Statement → String
  | expr e => e.text
  | constraint r a b => a.text ++ " " ++ r.symbol ++ " " ++ b.text

/-- The record. -/
def record : Statement → Json
  | expr e => e.record
  | constraint r a b =>
    .fields [("name", .text r.symbol), ("short_name", .text r.symbol), ("lhs", a.record),
      ("rhs", b.record)]

/-- Equality up to parentheses. -/
def same : Statement → Statement → Bool
  | expr e, expr e' => e.same e'
  | constraint r a b, constraint r' a' b' => r = r' && a.same a' && b.same b'
  | _, _ => false

/-- The curvature of the whole statement; that of a constraint is unknown. -/
def curvature : Statement → Curvature
  | expr e => e.curvature
  | constraint .. => .unknown

end Statement

end ConvexLang
