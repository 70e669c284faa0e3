import ConvexLang.Proofs.Annotation
import ConvexLang.Proofs.Spelling

/-!
# Heights of trees

The levels of nesting bound how deep operands stand in signs, parentheses and
calls. They do not bound the height of a tree: the operators between operands
are read in a loop, and each of them puts all that was read before it one node
deeper, on the same level.

* `readLine_height`: but for these operators a tree is as shallow as the levels
  say, and each operator adds at most one node to a path.
* `exists_readLine_height`: so a line of one level, if it is long enough, has a
  tree of any height.
-/

namespace ConvexLang

/-! ## Heights and joins -/

namespace Expr

mutual

/-- The number of nodes on the longest path from the root. -/
def height : Expr → Nat
  | symbol .. | literal .. => 1
  | compound _ _ _ os _ => 1 + heightOperands os

/-- The height of what stands in one slot. -/
def heightOperand : Operand → Nat
  | .expr e => height e
  | .absent | .word _ => 0

/-- The greatest height in several slots. -/
def heightOperands : List Operand → Nat
  | [] => 0
  | o :: os => max (heightOperand o) (heightOperands os)

end

/-- Whether the slots are two expressions. -/
def areTwo : List Operand → Bool
  | [.expr _, .expr _] => true
  | _ => false

/-- Whether the node is an arithmetic operator between two expressions. -/
def isJoin : Expr → Bool
  | compound name _ _ os _ => arithmetic.contains name && areTwo os
  | _ => false

/-- The number of operators between two expressions, in the whole tree. -/
def joins (e : Expr) : Nat :=
  e.nodes.countP isJoin

@[simp] theorem height_inParens (e : Expr) : e.inParens.height = e.height := by
  cases e <;> rfl

@[simp] theorem joins_inParens (e : Expr) : e.inParens.joins = e.joins := by
  cases e with
  | symbol | literal => rfl
  | compound =>
    simp only [inParens, joins, nodes, List.countP_cons]
    rfl

theorem height_operator (name : String) (a b : Expr) :
    (operator name [a, b]).height = 1 + max a.height b.height := by
  simp [operator, height, heightOperands, heightOperand]

theorem joins_operator {name : String} (h : name ∈ arithmetic) (a b : Expr) :
    (operator name [a, b]).joins = a.joins + b.joins + 1 := by
  simp [operator, joins, nodes, nodesOperands, nodesOperand, isJoin, areTwo, h]

theorem height_negation (a : Expr) : (operator "-" [a]).height = 1 + a.height := by
  simp [operator, height, heightOperands, heightOperand]

theorem joins_negation (a : Expr) : (operator "-" [a]).joins = a.joins := by
  simp [operator, joins, nodes, nodesOperands, nodesOperand, isJoin, areTwo]

/-- A compound joins at least what its slots join. -/
theorem countP_le_joins {name : String} {sign : Sign} {curvature : Curvature}
    {os : List Operand} {parens : Bool} :
    (nodesOperands os).countP isJoin ≤ (compound name sign curvature os parens).joins := by
  rw [joins, nodes, List.countP_cons]
  exact Nat.le_add_right _ _

end Expr

/-- The expressions of a statement. -/
def Statement.sides : Statement → List Expr
  | expr e => [e]
  | constraint _ a b => [a, b]

/-! ## Derivations -/

/-- Each symbol stands for a tree of at most `h + 1` nodes on a path. Where symbols
    stand for leaves, `h` is zero. -/
def Scope.IsLow (scope : Scope) (h : Nat) : Prop :=
  ∀ name e, scope.symbols.get? name = some e → e.height ≤ h + 1

namespace Grammar

variable {scope : Scope} {h : Nat}

theorem height_operator_le {name : String} (hname : name ∈ Expr.arithmetic) {n : Nat} {a b : Expr}
    (ha : a.height ≤ n + h + a.joins) (hb : b.height ≤ n + h + b.joins) :
    (Expr.operator name [a, b]).height ≤ n + h + (Expr.operator name [a, b]).joins := by
  rw [Expr.height_operator, Expr.joins_operator hname]
  omega

mutual

theorem IsSigned.height_le (hs : scope.IsLow h) {n : Nat} {ks : List TokenKind} {e : Expr} :
    IsSigned scope n ks e → e.height ≤ n + h + e.joins
  | .plus d => by
    have := d.height_le hs
    omega
  | .minus d => by
    have := d.height_le hs
    rw [Expr.height_negation, Expr.joins_negation]
    omega
  | .integer | .real => by
    rw [Expr.ofNumber, Expr.height]
    omega
  | .symbol he => by
    have := hs _ _ he
    omega
  | .call d _ _ => by
    have := d.height_le hs
    refine le_trans ?_ (Nat.add_le_add_left Expr.countP_le_joins _)
    rw [Expr.height]
    omega
  | .parens d => by
    have := d.height_le hs
    rw [Expr.height_inParens, Expr.joins_inParens]
    omega

theorem IsProduct.height_le (hs : scope.IsLow h) {n : Nat} {ks : List TokenKind} {e : Expr} :
    IsProduct scope n ks e → e.height ≤ n + h + e.joins
  | .signed d => d.height_le hs
  | .times d d' | .over d d' =>
    height_operator_le (by decide) (d.height_le hs) (d'.height_le hs)

/-- A sum is as shallow as its levels, its symbols and its operators say. -/
theorem IsSum.height_le (hs : scope.IsLow h) {n : Nat} {ks : List TokenKind} {e : Expr} :
    IsSum scope n ks e → e.height ≤ n + h + e.joins
  | .product d => d.height_le hs
  | .plus d d' | .minus d d' =>
    height_operator_le (by decide) (d.height_le hs) (d'.height_le hs)

theorem IsSlot.height_le (hs : scope.IsLow h) {n : Nat} {ks : List TokenKind} {o : Operand} :
    IsSlot scope n ks o →
      Expr.heightOperand o ≤ n + h + (Expr.nodesOperand o).countP Expr.isJoin
  | .absent | .infinity => Nat.zero_le _
  | .expr d => d.height_le hs

theorem IsSlots.height_le (hs : scope.IsLow h) {n : Nat} {ks : List TokenKind}
    {os : List Operand} :
    IsSlots scope n ks os →
      Expr.heightOperands os ≤ n + h + (Expr.nodesOperands os).countP Expr.isJoin
  | .last d => by
    have := d.height_le hs
    simp only [Expr.heightOperands, Expr.nodesOperands, List.append_nil]
    omega
  | .cons d d' => by
    have := d.height_le hs
    have := d'.height_le hs
    simp only [Expr.heightOperands, Expr.nodesOperands, List.countP_append]
    omega

end

theorem IsStatement.height_le (hs : scope.IsLow h) {ks : List TokenKind} {s : Statement}
    (d : IsStatement scope ks s) : ∀ e ∈ s.sides, e.height ≤ maxNesting + h + e.joins := by
  intro e he
  cases d with
  | expr d =>
    rw [List.mem_singleton.1 he]
    exact d.height_le hs
  | constraint d d' =>
    rcases List.mem_cons.1 he with rfl | he
    · exact d.height_le hs
    · rw [List.mem_singleton.1 he]
      exact d'.height_le hs

end Grammar

/-! ## Lines -/

/-- A path of a tree that is read from a line holds at most as many nodes as there
    are levels, but for the operators between two expressions: each of them may add
    one. -/
theorem readLine_height {scope : Scope} {h : Nat} (hs : scope.IsLow h) {text : String}
    {s : Statement} (hread : readLine scope text = .ok (.statement s)) :
    ∀ e ∈ s.sides, e.height ≤ Grammar.maxNesting + h + e.joins := by
  obtain ⟨ks, -, hline⟩ := readLine_eq_ok_iff_kinds.1 hread
  exact (Grammar.line_eq_ok_statement_iff.1 hline).height_le hs

/-- The symbols of a session are single nodes. -/
theorem Symbols.WellFormed.isLow {symbols : Symbols} (h : symbols.WellFormed) (atoms : Registry) :
    Scope.IsLow ⟨symbols, atoms⟩ 0 := by
  intro name e he
  obtain ⟨-, -, role, sign, rfl⟩ := h name e he
  exact le_rfl

/-- The sum of a declared symbol with itself. -/
theorem readLine_height_sum :
    let scope := (Session.run { atoms := .standard } [.line "variable x"]).scope
    let x := Expr.ofSymbol .decision "x" .unknown
    scope.IsLow 0 ∧ readLine scope "x+x" = .ok (.statement (.expr (.operator "+" [x, x]))) ∧
      ∀ e ∈ (Statement.expr (.operator "+" [x, x])).sides,
        e.height ≤ Grammar.maxNesting + 0 + e.joins := by
  intro scope x
  have hs : scope.IsLow 0 := ((Session.wellAnnotated_of_atoms _).run _).symbols.isLow _
  have hread : readLine scope "x+x" = .ok (.statement (.expr (.operator "+" [x, x]))) := by cbv
  exact ⟨hs, hread, readLine_height hs hread⟩

/-! ## Tall trees -/

/-- A sum of `n + 1` ones. -/
def sumOfOnes : Nat → List Char
  | 0 => ['1']
  | n + 1 => sumOfOnes n ++ ['+', '1']

open Grammar in
/-- The sum stands for a tree with one node for each of its operators on a path. -/
theorem sumOfOnes_isSum (scope : Scope) (n : Nat) :
    ∃ ks e, Spells (sumOfOnes n) ks ∧ IsSum scope maxNesting ks e ∧ e.height = n + 1 := by
  have hone : Spells (Decimal.digits 1) [.integer 1] := spells_digits (by decide)
  induction n with
  | zero => exact ⟨_, _, hone, .product (.signed .integer), rfl⟩
  | succ n ih =>
    obtain ⟨ks, e, hks, he, hheight⟩ := ih
    refine ⟨_, _, hks.append (IsSign.plus.apart _) (hone.sign .plus),
      .plus he (.signed .integer), ?_⟩
    rw [Expr.height_operator, hheight, Expr.ofNumber, Expr.height]
    omega

/-- Trees of any height are read from lines that nest on one level only. -/
theorem exists_readLine_height (scope : Scope) (n : Nat) :
    ∃ e, readLine scope (String.ofList (sumOfOnes n)) = .ok (.statement (.expr e)) ∧
      e.height = n + 1 := by
  obtain ⟨ks, e, hks, he, hheight⟩ := sumOfOnes_isSum scope n
  refine ⟨e, readLine_eq_ok_iff_kinds.2 ⟨ks, ?_, ?_⟩, hheight⟩
  · rw [String.toList_ofList]
    exact hks.kinds?
  · exact Grammar.line_eq_ok_statement_iff.2 (.expr he)

/-- A line with more operators than there are levels has a tree that is taller than
    the levels. -/
theorem exists_height_gt_maxNesting :
    ∃ e, readLine ⟨.empty, .standard⟩ (String.ofList (sumOfOnes 128)) =
        .ok (.statement (.expr e)) ∧
      Grammar.maxNesting < e.height := by
  obtain ⟨e, hread, hheight⟩ := exists_readLine_height ⟨.empty, .standard⟩ 128
  refine ⟨e, hread, ?_⟩
  rw [hheight]
  decide

end ConvexLang
