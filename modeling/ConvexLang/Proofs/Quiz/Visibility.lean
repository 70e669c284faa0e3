import ConvexLang.Proofs.Quiz.Composition
import ConvexLang.Proofs.Quiz.Meaning

/-!
# Broken rules that show

A player sees the text of a tree and not its operators. To break a rule, one operator takes
the place of another of the opposite curvature; whether that shows depends on how the two are
written.

The text around a node stays as it is, except that an operand behind a minus sign may need
parentheses before and none after, or the other way round. The node itself is written anew:
two calls differ in their names, a call is longer than a sum or a difference of the same
operands, and a sum differs from a difference in its sign. But sums are in the table twice,
convex and concave, and so are differences. Where a sum takes the place of a sum, or a
difference that of a difference (`Operator.SameSign`), nothing shows.

* `Operator.IsOpposite.looksLike_iff`: the operators of opposite curvature that are written
  alike.
* `Tree.Replaced.operandText_eq_iff`: from one node up to the whole tree.
* `breakRule_shows`: what holds of every tree that is drawn.
* `breakRule_unseen`: a tree that is drawn, and broken without a trace in its text.
-/

namespace ConvexLang.Quiz

open Draw

variable {op op' : Operator}

/-! ## How operators are written -/

namespace Operator

/-- The operators are written in the same way. -/
structure LooksLike (op op' : Operator) : Prop where
  /-- The same stands before the operands. -/
  opening : op'.opening = op.opening
  /-- The same stands between them. -/
  separator : op'.separator = op.separator
  /-- The same stands behind them. -/
  closing : op'.closing = op.closing

/-- Both operators are sums, or both are differences. -/
structure SameSign (op op' : Operator) : Prop where
  /-- The first one is a sum or a difference. -/
  sign : op.separator = plusSign ∨ op.separator = minusSign
  /-- The second one has the same sign. -/
  separator : op'.separator = op.separator

theorem separator_ne_empty (hop : op ∈ table) (h : 0 < op.arity) : op.separator ≠ "" :=
  (by decide +kernel : ∀ op ∈ table, 0 < op.arity → op.separator ≠ "") op hop h

/-- What is no call and has operands is a sum or a difference, and all sign. -/
theorem call_or_sign (hop : op ∈ table) (h : 0 < op.arity) : op.separator = ", " ∨
    (op.separator = plusSign ∨ op.separator = minusSign) ∧ op.opening = "" ∧ op.closing = "" ∧
      op.arity = 2 :=
  (by decide +kernel : ∀ op ∈ table, 0 < op.arity → op.separator = ", " ∨
    (op.separator = plusSign ∨ op.separator = minusSign) ∧ op.opening = "" ∧ op.closing = "" ∧
      op.arity = 2) op hop h

/-- A call begins with a name of three letters or more. -/
theorem opening_of_call (hop : op ∈ table) (h : op.separator = ", ") :
    4 ≤ op.opening.toList.length ∧ op.opening.toList.head? ≠ some '(' ∧ op.closing = ")" :=
  (by decide +kernel : ∀ op ∈ table, op.separator = ", " →
    4 ≤ op.opening.toList.length ∧ op.opening.toList.head? ≠ some '(' ∧ op.closing = ")") op hop h

/-- No call begins like a call of another atom. -/
theorem opening_eq_of_isPrefix (hop : op ∈ table) (h : op.separator = ", ") (hop' : op' ∈ table)
    (h' : op'.separator = ", ") (hfront : op.opening.toList <+: op'.opening.toList) :
    op'.opening = op.opening :=
  (by decide +kernel : ∀ op ∈ table, op.separator = ", " → ∀ op' ∈ table, op'.separator = ", " →
    op.opening.toList <+: op'.opening.toList → op'.opening = op.opening) op hop h op' hop' h' hfront

/-- No atom is in the table with both curvatures, but each sign is. -/
theorem IsOpposite.looksLike_iff (h : op.IsOpposite op') (hop : op ∈ table) (harity : 0 < op.arity) :
    op.LooksLike op' ↔ op.SameSign op' := by
  constructor
  · rintro ⟨hopening, hseparator, -⟩
    refine ⟨?_, hseparator⟩
    exact (by decide +kernel : ∀ op ∈ table, 0 < op.arity → ∀ op' ∈ table,
      op'.shape.convex = op.shape.concave → op'.opening = op.opening →
        op.separator = plusSign ∨ op.separator = minusSign)
      op hop harity op' h.mem h.convex hopening
  · rintro ⟨hsign, hseparator⟩
    have hbare : ∀ op ∈ table, op.separator = plusSign ∨ op.separator = minusSign →
        op.opening = "" ∧ op.closing = "" := by
      decide +kernel
    obtain ⟨hopening, hclosing⟩ := hbare op hop hsign
    obtain ⟨hopening', hclosing'⟩ := hbare op' h.mem (hseparator ▸ hsign)
    exact ⟨hopening'.trans hopening.symm, hseparator, hclosing'.trans hclosing.symm⟩

end Operator

/-! ## How operands are written -/

namespace Tree

open Operator

variable {n position : Nat} {separator : String} {t t' : Tree} {cs : List Tree}

/-- The text of an operand at a position, with the parentheses that it needs there. -/
def operandText (separator : String) (position : Nat) (t : Tree) : List Char :=
  if isGrouped separator position t.operator then '(' :: (t.textChars ++ [')']) else t.textChars

theorem operandText_eq_iff_textChars_eq {ds : List Tree}
    (h : isGrouped separator position op' = isGrouped separator position op) :
    operandText separator position (node op' ds) = operandText separator position (node op cs) ↔
      (node op' ds).textChars = (node op cs).textChars := by
  rw [operandText, operandText, operator, operator, h]
  split <;> simp

/-- The text of one operand between those of the others. -/
theorem operandChars_append_cons (before after : List Tree) :
    operandChars separator position (before ++ t :: after) =
      operandChars separator position before ++
        ((if position + before.length = 0 then [] else separator.toList) ++
          (operandText separator (position + before.length) t ++
            operandChars separator (position + before.length + 1) after)) := by
  induction before generalizing position with
  | nil => simp [operandChars, operandText]
  | cons c before ih =>
    rw [List.cons_append, operandChars, ih, operandChars]
    simp only [List.append_assoc, List.length_cons, Nat.add_assoc, Nat.add_comm 1]

/-- Operators that are written alike make the same text of the same operands. -/
theorem textChars_of_looksLike (h : op.LooksLike op') :
    (node op' cs).textChars = (node op cs).textChars := by
  rw [textChars, textChars, h.opening, h.separator, h.closing]

theorem operandText_of_call (h : op.separator = ", ") :
    operandText separator position (node op cs) = (node op cs).textChars := by
  have hgrouped : isGrouped separator position op = false := by
    simp [isGrouped, h, minusSign, plusSign]
  rw [operandText, operator, hgrouped]
  rfl

/-- Two calls are written in different ways, whatever their operands are. -/
theorem textChars_call_ne {ds : List Tree} (hop : op ∈ table) (h : op.separator = ", ")
    (hop' : op' ∈ table) (h' : op'.separator = ", ") (hne : op'.opening ≠ op.opening) :
    (node op' ds).textChars ≠ (node op cs).textChars := by
  intro heq
  rw [textChars, textChars] at heq
  have hleft : op'.opening.toList <+: (node op cs).textChars := by
    rw [textChars, ← heq]
    exact List.prefix_append _ _
  have hright : op.opening.toList <+: (node op cs).textChars := by
    rw [textChars]
    exact List.prefix_append _ _
  rcases List.prefix_or_prefix_of_prefix hleft hright with hfront | hfront
  · exact hne (opening_eq_of_isPrefix hop' h' hop h hfront).symm
  · exact hne (opening_eq_of_isPrefix hop h hop' h' hfront)

section Pair

variable {a b : Tree}

theorem textChars_sign (h : op.separator = plusSign ∨ op.separator = minusSign)
    (hopening : op.opening = "") (hclosing : op.closing = "") : (node op [a, b]).textChars =
      a.textChars ++ (op.separator.toList ++ operandText op.separator 1 b) := by
  refine textChars_between hopening ?_ hclosing
  rcases h with h | h <;> rw [h] <;> decide

/-- A call of two operands is longer than they are with a sign between them. -/
theorem operandText_call_ne_sign (hop : op ∈ table) (h : op.separator = ", ")
    (h' : op'.separator = plusSign ∨ op'.separator = minusSign) (hopening' : op'.opening = "")
    (hclosing' : op'.closing = "") :
    operandText separator position (node op' [a, b]) ≠
      operandText separator position (node op [a, b]) := by
  obtain ⟨hlength, hhead, hclosing⟩ := opening_of_call hop h
  rw [operandText_of_call h, operandText]
  intro heq
  split at heq
  · -- only the sign stands in parentheses
    have hne : op.opening.toList ≠ [] := List.length_pos_iff.1 (by omega)
    have hfirst : (node op [a, b]).textChars.head? = op.opening.toList.head? := by
      rw [textChars, List.head?_append_of_ne_nil _ hne]
    rw [← heq] at hfirst
    exact hhead hfirst.symm
  · have hsign : op'.separator.toList.length = 3 := by
      rcases h' with h' | h' <;> rw [h'] <;> rfl
    have hb : (operandText op'.separator 1 b).length ≤ b.textChars.length + 2 := by
      rw [operandText]
      split <;> simp
    have hcount := congrArg List.length heq
    rw [textChars_sign h' hopening' hclosing'] at hcount
    simp [textChars, operandChars, h, hclosing, isGrouped_zero, isGrouped_comma] at hcount
    omega

/-- A sum differs from a difference of the same operands. -/
theorem operandText_sign_ne (h : op.separator = plusSign ∨ op.separator = minusSign)
    (hopening : op.opening = "") (hclosing : op.closing = "")
    (h' : op'.separator = plusSign ∨ op'.separator = minusSign) (hopening' : op'.opening = "")
    (hclosing' : op'.closing = "") (hne : op'.separator ≠ op.separator) :
    operandText separator position (node op' [a, b]) ≠
      operandText separator position (node op [a, b]) := by
  have hgrouped : isGrouped separator position op' = isGrouped separator position op := by
    rcases h with h | h <;> rcases h' with h' | h' <;> simp [isGrouped, h, h']
  rw [ne_eq, operandText_eq_iff_textChars_eq hgrouped, textChars_sign h hopening hclosing,
    textChars_sign h' hopening' hclosing', List.append_cancel_left_eq]
  intro heq
  have hlength : op'.separator.toList.length = op.separator.toList.length := by
    rcases h with h | h <;> rcases h' with h' | h' <;> rw [h, h'] <;> rfl
  exact hne (String.toList_injective (List.append_inj_left heq hlength))

end Pair

/-- Another operator shows where it stands, with the parentheses around it or without, unless
    both are the same sign. -/
theorem operandText_node_eq_iff (hop : op ∈ table) (hlength : cs.length = op.arity)
    (harity : 0 < op.arity) (h : op.IsOpposite op') :
    operandText separator position (node op' cs) = operandText separator position (node op cs) ↔
      op.SameSign op' := by
  constructor
  · intro heq
    by_contra hsame
    have hsame' := hsame
    rw [← h.looksLike_iff hop harity] at hsame'
    have harity' : 0 < op'.arity := h.arity ▸ harity
    rcases call_or_sign hop harity with hcall | ⟨hsign, hopening, hclosing, htwo⟩ <;>
      rcases call_or_sign h.mem harity' with hcall' | ⟨hsign', hopening', hclosing', htwo'⟩
    · rw [operandText_of_call hcall, operandText_of_call hcall'] at heq
      refine textChars_call_ne hop hcall h.mem hcall' (fun hopening => hsame' ?_) heq
      obtain ⟨-, -, hclosing⟩ := opening_of_call hop hcall
      obtain ⟨-, -, hclosing'⟩ := opening_of_call h.mem hcall'
      exact ⟨hopening, hcall'.trans hcall.symm, hclosing'.trans hclosing.symm⟩
    · obtain ⟨a, b, rfl⟩ := List.length_eq_two.1 (hlength.trans (h.arity.symm.trans htwo'))
      exact operandText_call_ne_sign hop hcall hsign' hopening' hclosing' heq
    · obtain ⟨a, b, rfl⟩ := List.length_eq_two.1 (hlength.trans htwo)
      exact operandText_call_ne_sign h.mem hcall' hsign hopening hclosing heq.symm
    · obtain ⟨a, b, rfl⟩ := List.length_eq_two.1 (hlength.trans htwo)
      refine operandText_sign_ne hsign hopening hclosing hsign' hopening' hclosing'
        (fun hseparator => hsame' ?_) heq
      exact ⟨hopening'.trans hopening.symm, hseparator, hclosing'.trans hclosing.symm⟩
  · intro hsame
    have hlooks := (h.looksLike_iff hop harity).2 hsame
    refine (operandText_eq_iff_textChars_eq ?_).2 (textChars_of_looksLike hlooks)
    rw [isGrouped, isGrouped, hlooks.separator]

/-! ## How trees are written -/

/-- What shows at one operand shows in the text of the node above it. -/
theorem textChars_append_cons_eq_iff {before after : List Tree} (h : op.separator ≠ "") :
    (node op (before ++ t' :: after)).textChars = (node op (before ++ t :: after)).textChars ↔
      operandText op.separator before.length t' = operandText op.separator before.length t := by
  simp only [textChars, h, if_false, operandChars_append_cons, List.append_cancel_left_eq,
    List.append_cancel_right_eq, Nat.zero_add]

/-- What takes the place of the operator of an inner node is of the opposite curvature. -/
theorem Replaced.isOpposite {address : List Nat} (h : Replaced op op' address t t')
    (hreplace : op.MayReplace op') (ht : t.Fits n) : op.IsOpposite op' := by
  induction h generalizing n with
  | here =>
    cases ht with
    | node hop hlength =>
      refine hreplace.isOpposite hop ?_
      rw [← Bool.not_eq_true, ← arity_eq_zero_iff hop, ← hlength]
      exact Nat.succ_ne_zero _
  | inside _ ih =>
    cases ht with
    | node _ _ hcs => exact ih (hcs _ (List.mem_append_right _ List.mem_cons_self))

/-- In a tree with another operator at one node, that shows unless both operators are the same
    sign: the induction is along the way up from the node. -/
theorem Replaced.operandText_eq_iff {address : List Nat} (h : Replaced op op' address t t')
    (hopposite : op.IsOpposite op') (ht : t.Fits n) :
    operandText separator position t' = operandText separator position t ↔ op.SameSign op' := by
  induction h generalizing n separator position with
  | here =>
    cases ht with
    | node hop hlength =>
      exact operandText_node_eq_iff hop hlength (hlength ▸ Nat.succ_pos _) hopposite
  | @inside _ before after c _ _ _ ih =>
    cases ht with
    | node hparent hlength hcs =>
      have hmem : c ∈ before ++ c :: after := List.mem_append_right _ List.mem_cons_self
      have hpos := hlength ▸ List.length_pos_of_mem hmem
      rw [operandText_eq_iff_textChars_eq rfl,
        textChars_append_cons_eq_iff (separator_ne_empty hparent hpos)]
      exact ih (hcs _ hmem)

end Tree

/-! ## Trees that are drawn -/

section Drawn

variable {ρ σ : Type} [RandomSource ρ] [RandomSource σ]

/-- In a tree that was drawn with an inner node below the root, an operator of the opposite
    curvature is put in the place of that of one such node, and the text changes unless a sum
    takes the place of a sum, or a difference that of a difference. -/
theorem breakRule_shows (wanted : List Shape) (likelihood growth : Float) :
    Always (drawTree wanted likelihood growth : Draw ρ _) fun t =>
      Always (t.breakRule : Draw σ _) fun t' => 1 < t.innerCount →
        ∃ i address op op', t.DiffersAt t' (i :: address) op op' ∧ op.IsOpposite op' ∧
          (t'.text = t.text ↔ op.SameSign op') := by
  intro source source'
  have hfits := drawTree_fits (ρ := ρ) wanted likelihood growth source
  obtain ⟨-, hbroken⟩ := Tree.always_breakRule (ρ := σ)
    ((drawTree wanted likelihood growth).run source).1 source'
  intro hcount
  obtain ⟨i, address, op, op', hreplace, hreplaced⟩ := hbroken hcount
  have hopposite := hreplaced.isOpposite hreplace hfits
  refine ⟨i, address, op, op', hreplaced.differsAt, hopposite, ?_⟩
  -- the text of a tree is that of an operand which never needs parentheses
  have htext : ∀ t : Tree, t.text = String.ofList (t.operandText "" 0) := fun _ => rfl
  rw [htext, htext, String.ofList_inj]
  exact hreplaced.operandText_eq_iff hopposite hfits

/-- A difference takes the place of the greatest value behind a minus sign, and needs
    parentheses there. -/
theorem breakRule_shows_difference :
    let drawn := (drawTree [.ofConcave] 0.1 2 : Draw Xoshiro Tree).run (.ofSeed 140)
    let t' := (drawn.1.breakRule.run drawn.2).1
    drawn.1.text = "z - max(z, 364 * z)" ∧ t'.text = "z - (z - 364 * z)" ∧
      1 < drawn.1.innerCount ∧
        ∃ i address op op', drawn.1.DiffersAt t' (i :: address) op op' ∧ op.IsOpposite op' ∧
          (t'.text = drawn.1.text ↔ op.SameSign op') := by
  intro drawn t'
  have hcount : 1 < drawn.1.innerCount := by decide +kernel
  exact ⟨by decide +kernel, by decide +kernel, hcount,
    breakRule_shows [.ofConcave] 0.1 2 (Xoshiro.ofSeed 140) drawn.2 hcount⟩

/-- In the tree that is drawn, a concave difference takes the place of a convex one. The
    operators are not the same, but the texts are. -/
theorem breakRule_unseen :
    let drawn := (drawTree [{}] 0.01 10 : Draw Xoshiro Tree).run (.ofSeed 10)
    let t' := (drawn.1.breakRule.run drawn.2).1
    1 < drawn.1.innerCount ∧ drawn.1.text = "exp(z - y)" ∧ t'.text = "exp(z - y)" ∧
      t'.same drawn.1 = false := by
  intro drawn t'
  exact ⟨by decide +kernel, by decide +kernel, by decide +kernel, by decide +kernel⟩

end Drawn

end ConvexLang.Quiz
