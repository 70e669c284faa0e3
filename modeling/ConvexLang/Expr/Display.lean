import ConvexLang.Expr

/-!
# Text of an expression

An expression is shown as it was written, but for layout. No parentheses are put
in: those of the input are remembered in the tree, and they are the ones that
precedence needs. The four arithmetic operators stand in front of one operand or
between two; anything else with operands is a call.
-/

namespace ConvexLang.Expr

/-- The names that are written as arithmetic operators. -/
def arithmetic : List String :=
  ["+", "-", "*", "/"]

/-- The text wrapped in parentheses if `parens`. -/
def wrap (parens : Bool) (cs : List Char) : List Char :=
  if parens then '(' :: (cs ++ [')']) else cs

/-- Texts one after the other, parted by commas. -/
def commaSeparated : List (List Char) → List Char
  | [] => []
  | [t] => t
  | t :: u :: ts => t ++ ',' :: ' ' :: commaSeparated (u :: ts)

/-- A node with its operands' texts: the name alone, an operator in front of one
    operand or between two, or a call. -/
def assemble (name : String) (texts : List (List Char)) : List Char :=
  match texts with
  | [] => name.toList
  | [t] =>
    if arithmetic.contains name then name.toList ++ t
    else name.toList ++ '(' :: (t ++ [')'])
  | [t, u] =>
    if arithmetic.contains name then t ++ ' ' :: (name.toList ++ ' ' :: u)
    else name.toList ++ '(' :: (commaSeparated [t, u] ++ [')'])
  | ts => name.toList ++ '(' :: (commaSeparated ts ++ [')'])

mutual

/-- The text of an expression. -/
def textChars : Expr → List Char
  | symbol _ n _ p => wrap p n.toList
  | literal v p => wrap p v.text.toList
  | compound n _ _ os p => wrap p (assemble n (operandTexts os))

/-- The text of a slot: nothing for an empty one. -/
def operandText : Operand → List Char
  | .expr e => textChars e
  | .absent => []
  | .word t => t.toList

/-- The texts of several slots. -/
def operandTexts : List Operand → List (List Char)
  | [] => []
  | o :: os => operandText o :: operandTexts os

end

/-- The text of an expression. -/
def text (e : Expr) : String :=
  String.ofList e.textChars

end ConvexLang.Expr
