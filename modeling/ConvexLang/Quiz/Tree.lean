import ConvexLang.Quiz.Operator

/-!
# Trees of the quiz

A question is a tree of operators. Its text needs parentheses in one case only:
a sum or a difference that is taken away from something. Inner nodes are counted
in preorder, the root first.
-/

namespace ConvexLang.Quiz

/-- A tree of operators. -/
inductive Tree where
  /-- An operator with its operands. -/
  | node (operator : Operator) (children : List Tree)

namespace Tree

/-- The operator at the root. -/
def operator : Tree → Operator
  | node op _ => op

/-- The operands of the root. -/
def children : Tree → List Tree
  | node _ cs => cs

/-! ## Size -/

mutual

/-- The number of nodes with operands. -/
def innerCount : Tree → Nat
  | node _ [] => 0
  | node _ (c :: cs) => 1 + innerCountAll (c :: cs)

/-- The number of nodes with operands in several trees. -/
def innerCountAll : List Tree → Nat
  | [] => 0
  | t :: ts => innerCount t + innerCountAll ts

end

mutual

/-- The number of nodes on a longest path from the root. -/
def depth : Tree → Nat
  | node _ cs => 1 + depthAll cs

/-- The greatest depth of several trees. -/
def depthAll : List Tree → Nat
  | [] => 0
  | t :: ts => max (depth t) (depthAll ts)

end

mutual

/-- Whether two trees are the same. -/
def same : Tree → Tree → Bool
  | node op cs, node op' cs' => op = op' && sameAll cs cs'

/-- Whether two lists of trees are the same. -/
def sameAll : List Tree → List Tree → Bool
  | [], [] => true
  | t :: ts, t' :: ts' => same t t' && sameAll ts ts'
  | _, _ => false

end

/-! ## Text -/

/-- Whether an operand has to stand in parentheses: a sum or a difference behind a
    minus sign. -/
def isGrouped (separator : String) (position : Nat) (operand : Operator) : Bool :=
  separator = Operator.minusSign && position = 1
    && (operand.separator = Operator.minusSign || operand.separator = Operator.plusSign)

mutual

/-- The text of a tree. -/
def textChars : Tree → List Char
  | node op cs =>
    op.opening.toList
      ++ ((if op.separator = "" then [] else operandChars op.separator 0 cs) ++ op.closing.toList)

/-- The texts of operands from a position on, with the separator in front of each
    but the first one. -/
def operandChars (separator : String) (position : Nat) : List Tree → List Char
  | [] => []
  | t :: ts =>
    (if position = 0 then [] else separator.toList)
      ++ ((if isGrouped separator position t.operator then '(' :: (textChars t ++ [')'])
        else textChars t) ++ operandChars separator (position + 1) ts)

end

/-- The text of a tree. -/
def text (t : Tree) : String :=
  String.ofList t.textChars

end Tree

end ConvexLang.Quiz
