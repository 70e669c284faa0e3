import ConvexLang.Quiz.Draws
import ConvexLang.Quiz.Tree

/-!
# Random trees

A tree grows from the root down. At each node a draw decides whether it is a
terminal, the more likely the deeper it stands; then an operator is drawn among
those that make one of the wanted shapes, in proportion to their weights. From
the last level on every node is a terminal.

A question that is to break the composition rules is a tree in which one inner
node, never the root, has its operator replaced by one of the opposite
curvature (`Tree.breakRule`).
-/

namespace ConvexLang.Quiz

variable {ρ : Type} [RandomSource ρ]

/-! ## Drawing an operator -/

/-- The first operator at which the weights taken from `left` use it up, or else
    the last one. -/
def pick (left : Float) : List Operator → Option Operator
  | [] => none
  | [op] => some op
  | op :: ops => if left - op.weight ≤ 0 then some op else pick (left - op.weight) ops

/-- The sum of the weights. -/
def totalWeight (ops : List Operator) : Float :=
  ops.foldl (fun total op => total + op.weight) 0

/-- Draws an operator in proportion to the weights; a draw is made even where
    there is none to choose from. -/
def weightedChoice (ops : List Operator) : Draw ρ (Option Operator) := do
  return pick (totalWeight ops * (← Draw.fraction)) ops

/-! ## Growing a tree -/

/-- The operators, terminals or not, that make one of the wanted shapes, an
    operator once for each shape that it makes; all terminals if there are none. -/
def candidates (terminal : Bool) (wanted : List Shape) : List Operator :=
  let fitting := wanted.flatMap fun shape =>
    Operator.table.filter fun op => op.terminal = terminal && op.shape.satisfies shape
  if fitting.isEmpty then Operator.table.filter Operator.terminal else fitting

/-- The operator that stands in where none can be drawn. -/
def firstOperator : Operator :=
  .term "x" Operator.variableWeight

/-- Draws the operator of a node. -/
def drawOperator (terminal : Bool) (wanted : List Shape) : Draw ρ Operator := do
  return (← weightedChoice (candidates terminal wanted)).getD firstOperator

/-- Grows a tree below which `levels` more levels are left. A node is a terminal
    with the given likelihood, which is multiplied by `growth` from level to
    level. -/
def grow (growth : Float) (levels : Nat) (wanted : List Shape) (likelihood : Float) :
    Draw ρ Tree :=
  match levels with
  | 0 => do return .node (← drawOperator true wanted) []
  | levels + 1 => do
    let terminal := decide ((← Draw.fraction) < likelihood)
    let op ← drawOperator terminal wanted
    let children ← op.operandShapes.mapM fun shapes =>
      grow growth levels shapes (likelihood * growth)
    return .node op children

/-- The greatest depth of a tree. -/
def maxDepth : Nat := 16

/-- Draws a tree whose root makes one of the wanted shapes. -/
def drawTree (wanted : List Shape) (likelihood growth : Float) : Draw ρ Tree :=
  grow growth (maxDepth - 1) wanted likelihood

/-! ## Breaking a rule -/

/-- The operators of the same arity with convex and concave exchanged. -/
def opposites (op : Operator) : List Operator :=
  Operator.table.filter fun other =>
    other.arity = op.arity && other.shape.convex = op.shape.concave
      && other.shape.concave = op.shape.convex

/-- Draws an operator of the opposite curvature; an operator without one stays. -/
def drawOpposite (op : Operator) : Draw ρ Operator := do
  return (← weightedChoice (opposites op)).getD op

mutual

/-- Replaces the operator of the inner node whose number is `chosen`, where
    `seen` inner nodes were counted before the tree. Answers with the tree and
    the count behind it. -/
def Tree.replaceInner (chosen : Nat) : Tree → Nat → Draw ρ (Tree × Nat)
  | .node op [], seen => return (.node op [], seen)
  | .node op (c :: cs), seen => do
    let op' ← if seen + 1 = chosen then drawOpposite op else pure op
    let (children, seen') ← Tree.replaceInnerAll chosen (c :: cs) (seen + 1)
    return (.node op' children, seen')

/-- Does the same in several trees, one after the other. -/
def Tree.replaceInnerAll (chosen : Nat) : List Tree → Nat → Draw ρ (List Tree × Nat)
  | [], seen => return ([], seen)
  | t :: ts, seen => do
    let (t', seen') ← Tree.replaceInner chosen t seen
    let (ts', seen'') ← Tree.replaceInnerAll chosen ts seen'
    return (t' :: ts', seen'')

end

/-- Replaces the operator of one inner node below the root; a tree without one
    stays as it is. -/
def Tree.breakRule (t : Tree) : Draw ρ Tree :=
  if h : 1 < t.innerCount then do
    let i ← Draw.index (t.innerCount - 1) (by omega)
    return (← t.replaceInner (i + 2) 0).1
  else return t

/-- Draws the text of a tree that keeps the composition rules if `rules`. -/
def drawText (wanted : List Shape) (likelihood growth : Float) (rules : Bool) :
    Draw ρ String := do
  let t ← drawTree wanted likelihood growth
  if rules then return t.text else return (← t.breakRule).text

end ConvexLang.Quiz
