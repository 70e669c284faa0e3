import ConvexLang.Output
import ConvexLang.Registry
import ConvexLang.Statement
import ConvexLang.Text

/-!
# Outlines and tables

A statement is shown as an outline with a line for each node, indented by two
blanks a level. Atoms and symbols are shown as tables. The colour of a curvature
tells its class.
-/

namespace ConvexLang.Output

/-- The colour of a curvature. -/
def colourOf (c : Curvature) : Colour :=
  if c = .unknown then .red
  else if c.isConvex ∧ c.isConcave then .blue
  else if c.isConvex then .green
  else .yellow

/-- A curvature in its colour, filled up to a width. -/
def curvature (c : Curvature) (width : Nat) : Output :=
  styled { colour := some (colourOf c) } (Text.padEnd width c.label)

/-- A heading on a line of its own. -/
def heading (text : String) : Output :=
  styled { bold := true, colour := some .cyan } (text ++ "\n")

/-! ## Outlines -/

/-- The line of a node that stands `level` levels deep. -/
def nodeLine (level : Nat) (e : Expr) : Output :=
  plain (String.ofList (List.replicate (2 * level) ' ') ++ e.text ++ "  ")
    ++ (plain (e.sign.label ++ " ") ++ (curvature e.curvature 0 ++ plain "\n"))

mutual

/-- The lines of an expression; slots without an expression have none. -/
def outline (level : Nat) : Expr → Output
  | .compound n s c os p =>
    nodeLine level (.compound n s c os p) ++ outlineOperands (level + 1) os
  | e => nodeLine level e

/-- The lines of one slot. -/
def outlineOperand (level : Nat) : Operand → Output
  | .expr e => outline level e
  | .absent | .word _ => []

/-- The lines of several slots. -/
def outlineOperands (level : Nat) : List Operand → Output
  | [] => []
  | o :: os => outlineOperand level o ++ outlineOperands level os

end

/-- The lines of a statement. Those of the two sides of a constraint are indented
    under the constraint. -/
def statement : Statement → Output
  | .expr e => outline 0 e
  | .constraint r a b =>
    styled { bold := true } ((Statement.constraint r a b).text ++ "\n")
      ++ (outline 1 a ++ outline 1 b)

/-! ## Tables -/

/-- The width of the column of names. -/
def nameWidth : Nat := 14

/-- The width of the columns of curvatures and signs. -/
def labelWidth : Nat := 9

/-- The line of an atom. -/
def atomLine (a : Atom) : Output :=
  let arity := match a.arity with
    | some n => Decimal.ofNat n
    | none => "any"
  plain ("  " ++ Text.padEnd nameWidth a.name) ++ (curvature a.curvature labelWidth
    ++ plain (" " ++ Text.padEnd labelWidth a.sign.label ++ " " ++ arity ++ "\n"))

/-- The table of the atoms of a registry. -/
def atoms (r : Registry) : Output :=
  heading (Decimal.ofNat r.size ++ " atoms") ++ r.atoms.flatMap atomLine

/-- The table of declared symbols with their attributes. -/
def symbols : List (String × String) → Output
  | [] => line "  No symbols declared."
  | table => table.flatMap fun (name, attributes) =>
    line ("  " ++ Text.padEnd nameWidth name ++ " " ++ attributes)

end ConvexLang.Output
