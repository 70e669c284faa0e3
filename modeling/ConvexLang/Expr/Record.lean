import ConvexLang.Expr
import ConvexLang.Json

/-!
# Record of an expression

What a front end receives: name, sign, curvature and the records of the
operands, and for a literal its value. An empty slot is an empty text and a word
its own text, so no slot is lost. Parentheses do not show.
-/

namespace ConvexLang.Expr

/-- The fields of a node's record; only a literal has a value. -/
def recordFields (name : String) (sign : Sign) (curvature : Curvature) (operands : List Json)
    (value : Option Number) : Json :=
  .fields ([("name", .text name), ("short_name", .text name), ("sign", .text sign.label),
    ("curvature", .text curvature.label), ("subexpressions", .list operands)]
      ++ (value.map fun v => ("value", .number v)).toList)

mutual

/-- The record of an expression. -/
def record : Expr → Json
  | symbol r n s _ => recordFields n s r.curvature [] none
  | literal v _ => recordFields v.text v.sign .constant [] (some v)
  | compound n s c os _ => recordFields n s c (recordOperands os) none

/-- The record of a slot. -/
def recordOperand : Operand → Json
  | .expr e => record e
  | .absent => .text ""
  | .word t => .text t

/-- The records of several slots. -/
def recordOperands : List Operand → List Json
  | [] => []
  | o :: os => recordOperand o :: recordOperands os

end

theorem recordOperands_eq_map (os : List Operand) : recordOperands os = os.map recordOperand := by
  induction os with
  | nil => rfl
  | cons o os ih => simp [recordOperands, ih]

end ConvexLang.Expr
