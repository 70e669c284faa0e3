/-!
# Relations

The relation of a constraint, `left relation right`.
-/

namespace ConvexLang

/-- The relation of a constraint. -/
inductive Relation where
  /-- Both sides are equal. -/
  | equal
  /-- The left side is at most the right one. -/
  | lessEqual
  /-- The left side is at least the right one. -/
  | greaterEqual
  deriving DecidableEq, Repr

/-- The text of a relation. -/
def Relation.symbol : Relation → String
  | equal => "=="
  | lessEqual => "<="
  | greaterEqual => ">="

end ConvexLang
