import ConvexLang.Proofs.Annotation
import ConvexLang.Proofs.Spelling

/-!
# Rendering and reading again

The text of a statement is read as the statement itself, in every node, slot,
literal and flag. The text has the parentheses of the tree and no others, so the
point is that the grammar puts a node where its flag says: the text of a sum is
a sum again, that of a product a product, that of a signed operand a signed
operand, within as many levels of nesting as before.

Two things are lost between a text and its tree. A sign `+` in front of an
operand leaves no trace, so that the operand may stand a level higher
afterwards. And of several pairs of parentheses around one another only a flag
remains. So the induction says of every expression both how its text is read and
how its text without the parentheses of its own is read (`Rendered`).

* `IsSum.rendered`: the text of a sum spells a sum.
* `Session.readLine_text`: what a session reads as a statement, it reads again
  from the text of the statement.
-/

namespace ConvexLang

/-! ## Parentheses -/

namespace Expr

/-- The expression without parentheses of its own. -/
def bare : Expr → Expr
  | symbol role name sign _ => symbol role name sign false
  | literal value _ => literal value false
  | compound name sign curvature operands _ => compound name sign curvature operands false

theorem bare_inParens (e : Expr) : e.inParens.bare = e.bare := by
  cases e <;> rfl

theorem inParens_bare (e : Expr) : e.bare.inParens = e.inParens := by
  cases e <;> rfl

theorem textChars_inParens (e : Expr) :
    e.inParens.textChars = '(' :: (e.bare.textChars ++ [')']) := by
  cases e <;> simp [inParens, bare, textChars, wrap]

theorem textChars_whole (n : Nat) : (ofNumber (.whole n)).textChars = Decimal.digits n :=
  String.toList_ofList

theorem textChars_real (x : Float) : (ofNumber (.real x)).textChars = Decimal.plainText x :=
  String.toList_ofList

/-- No literal of the expression is infinite. -/
def IsFinite (e : Expr) : Prop :=
  ∀ x parens, .literal (.real x) parens ∈ e.nodes → x.isInf = false

theorem IsFinite.of_inParens {e : Expr} (h : e.inParens.IsFinite) : e.IsFinite := by
  intro x parens hx
  cases e with
  | symbol role name sign p => cases List.mem_singleton.1 hx
  | literal v p =>
    cases List.mem_singleton.1 hx
    exact h x true List.mem_cons_self
  | compound name sign curvature operands p =>
    rcases List.mem_cons.1 hx with hx | hx
    · cases hx
    · exact h x parens (List.mem_cons_of_mem _ hx)

theorem mem_nodesOperands {e a : Expr} {os : List Operand} (he : .expr e ∈ os)
    (ha : a ∈ e.nodes) : a ∈ nodesOperands os := by
  induction os with
  | nil => cases he
  | cons o os ih =>
    rw [nodesOperands, List.mem_append]
    rcases List.mem_cons.1 he with rfl | he
    · exact .inl ha
    · exact .inr (ih he)

theorem IsFinite.of_operand {name : String} {sign : Sign} {curvature : Curvature}
    {operands : List Operand} {parens : Bool}
    (h : (compound name sign curvature operands parens).IsFinite) {e : Expr}
    (he : .expr e ∈ operands) : e.IsFinite :=
  fun x p hx => h x p (List.mem_cons_of_mem _ (mem_nodesOperands he hx))

theorem IsFinite.left {name : String} {a b : Expr} (h : (operator name [a, b]).IsFinite) :
    a.IsFinite :=
  h.of_operand List.mem_cons_self

theorem IsFinite.right {name : String} {a b : Expr} (h : (operator name [a, b]).IsFinite) :
    b.IsFinite :=
  h.of_operand (List.mem_cons_of_mem _ List.mem_cons_self)

/-! ## Texts of compounds -/

theorem not_mem_arithmetic {name : String} (h : isIdentifier name = true) :
    name ∉ arithmetic := by
  intro hname
  simp only [arithmetic, List.mem_cons, List.not_mem_nil, or_false] at hname
  rcases hname with rfl | rfl | rfl | rfl <;> exact absurd h (by decide)

theorem textChars_call {name : String} (h : isIdentifier name = true) (sign : Sign)
    (curvature : Curvature) {os : List Operand} (hos : os ≠ []) :
    (compound name sign curvature os false).textChars =
      name.toList ++ '(' :: (commaSeparated (operandTexts os) ++ [')']) := by
  obtain ⟨o, os, rfl⟩ := List.exists_cons_of_ne_nil hos
  have hname := not_mem_arithmetic h
  simp only [textChars, wrap, Bool.false_eq_true, if_false, operandTexts, assemble]
  cases os with
  | nil => simp [operandTexts, hname, commaSeparated]
  | cons o' os =>
    cases os with
    | nil => simp [operandTexts, hname]
    | cons o'' os => simp [operandTexts]

theorem commaSeparated_cons (t : List Char) {os : List Operand} (hos : os ≠ []) :
    commaSeparated (t :: operandTexts os) =
      t ++ ',' :: ' ' :: commaSeparated (operandTexts os) := by
  obtain ⟨o, os, rfl⟩ := List.exists_cons_of_ne_nil hos
  rfl

end Expr

/-! ## Spelled expressions -/

namespace Grammar

variable {scope : Scope}

/-- The text of the expression spells kinds of the category that stand for it, and
    the text without its own parentheses spells a sum that stands for the
    expression without them. -/
def Rendered (scope : Scope) (C : List TokenKind → Expr → Prop) (n : Nat) (e : Expr) : Prop :=
  (∃ ks, Spells e.textChars ks ∧ C ks e) ∧
    ∃ ks, Spells e.bare.textChars ks ∧ IsSum scope n ks e.bare

theorem Rendered.mono {m n : Nat} (hmn : m ≤ n) {C D : List TokenKind → Expr → Prop} {e : Expr}
    (hCD : ∀ {ks}, C ks e → D ks e) (h : Rendered scope C m e) : Rendered scope D n e := by
  obtain ⟨⟨ks, hks, hC⟩, ls, hls, hsum⟩ := h
  exact ⟨⟨ks, hks, hCD hC⟩, ls, hls, hsum.mono hmn⟩

/-- An expression without parentheses of its own is its own bare form. -/
theorem rendered_of_bare {C : List TokenKind → Expr → Prop} {n : Nat} {e : Expr}
    {ks : List TokenKind} (he : e.bare = e) (hCsum : C ks e → IsSum scope n ks e)
    (hks : Spells e.textChars ks) (hC : C ks e) : Rendered scope C n e :=
  ⟨⟨ks, hks, hC⟩, ks, he.symm ▸ hks, he.symm ▸ hCsum hC⟩

/-- An operator stands between the texts of its operands, if these are of the
    categories that it joins. -/
theorem rendered_operator {C D E : List TokenKind → Expr → Prop} {n : Nat} {a b : Expr}
    {c : Char} {k : TokenKind} {name : String} (hc : IsSign c k)
    (htext : (Expr.operator name [a, b]).textChars =
      a.textChars ++ ' ' :: c :: ' ' :: b.textChars)
    (hjoin : ∀ {ks ls}, C ks a → D ls b → E (ks ++ k :: ls) (.operator name [a, b]))
    (hsum : ∀ {ks e}, E ks e → IsSum scope n ks e) (ha : Rendered scope C n a)
    (hb : Rendered scope D n b) : Rendered scope E n (.operator name [a, b]) := by
  obtain ⟨⟨ks, hks, ha⟩, -⟩ := ha
  obtain ⟨⟨ls, hls, hb⟩, -⟩ := hb
  exact rendered_of_bare rfl hsum (htext ▸ spells_binary hc hks hls) (hjoin ha hb)

mutual

theorem IsSigned.rendered (hs : scope.symbols.WellFormed) {n : Nat} {ks : List TokenKind}
    {e : Expr} (hks : ∀ k ∈ ks, k.IsWritten) (hfin : e.IsFinite) :
    IsSigned scope n ks e → Rendered scope (IsSigned scope n) n e
  -- the sign leaves no trace, so the text nests one level less than the kinds did
  | .plus d => (d.rendered hs (fun k hk => hks k (List.mem_cons_of_mem _ hk)) hfin).mono
      (Nat.le_succ _) fun h => h.mono (Nat.le_succ _)
  | .minus d => by
    obtain ⟨⟨ls, hls, hd⟩, -⟩ := d.rendered hs (fun k hk => hks k (List.mem_cons_of_mem _ hk))
      (hfin.of_operand List.mem_cons_self)
    exact rendered_of_bare rfl (fun h => .product (.signed h)) (hls.sign .minus) (.minus hd)
  | .integer => rendered_of_bare rfl (fun h => .product (.signed h))
      (Expr.textChars_whole _ ▸ spells_digits (hks _ List.mem_cons_self)) .integer
  | .real => rendered_of_bare rfl (fun h => .product (.signed h))
      (Expr.textChars_real _ ▸
        spells_plainText (hks _ List.mem_cons_self) (hfin _ _ List.mem_cons_self)) .real
  | .symbol he => by
    obtain ⟨hid, hkey, role, sign, rfl⟩ := hs _ _ he
    exact rendered_of_bare rfl (fun h => .product (.signed h)) (spells_identifier ⟨hid, hkey⟩)
      (.symbol he)
  | .call d hp hacc => by
    have hname : (TokenKind.identifier _).IsWritten := hks _ List.mem_cons_self
    obtain ⟨ls, hls, hslots⟩ := d.rendered hs (fun k hk => hks k (by simp [hk]))
      fun e he => hfin.of_operand he
    have hspells := (spells_identifier hname).append (IsSign.leftParen.apart _) (spells_parens hls)
    rw [← Expr.textChars_call hname.1 _ _ d.ne_nil] at hspells
    exact rendered_of_bare rfl (fun h => .product (.signed h)) hspells (.call hslots hp hacc)
  | .parens d => by
    -- the text has one pair of parentheses, also where what stands inside had some of
    -- its own, so it is the bare text inside that counts
    obtain ⟨-, ls, hls, hsum⟩ := d.rendered hs (fun k hk => hks k (by simp [hk])) hfin.of_inParens
    refine ⟨⟨.leftParen :: (ls ++ [.rightParen]), ?_, ?_⟩, ls, ?_, ?_⟩
    · rw [Expr.textChars_inParens]
      exact spells_parens hls
    · rw [← Expr.inParens_bare]
      exact .parens hsum
    · rwa [Expr.bare_inParens]
    · rw [Expr.bare_inParens]
      exact hsum.mono (Nat.le_succ _)

theorem IsProduct.rendered (hs : scope.symbols.WellFormed) {n : Nat} {ks : List TokenKind}
    {e : Expr} (hks : ∀ k ∈ ks, k.IsWritten) (hfin : e.IsFinite) :
    IsProduct scope n ks e → Rendered scope (IsProduct scope n) n e
  | .signed d => (d.rendered hs hks hfin).mono le_rfl .signed
  | .times d d' =>
    rendered_operator .star rfl .times .product
      (d.rendered hs (fun k hk => hks k (by simp [hk])) hfin.left)
      (d'.rendered hs (fun k hk => hks k (by simp [hk])) hfin.right)
  | .over d d' =>
    rendered_operator .slash rfl .over .product
      (d.rendered hs (fun k hk => hks k (by simp [hk])) hfin.left)
      (d'.rendered hs (fun k hk => hks k (by simp [hk])) hfin.right)

/-- The text of a sum spells a sum that stands for the same expression. -/
theorem IsSum.rendered (hs : scope.symbols.WellFormed) {n : Nat} {ks : List TokenKind}
    {e : Expr} (hks : ∀ k ∈ ks, k.IsWritten) (hfin : e.IsFinite) :
    IsSum scope n ks e → Rendered scope (IsSum scope n) n e
  | .product d => (d.rendered hs hks hfin).mono le_rfl .product
  | .plus d d' =>
    rendered_operator .plus rfl .plus id
      (d.rendered hs (fun k hk => hks k (by simp [hk])) hfin.left)
      (d'.rendered hs (fun k hk => hks k (by simp [hk])) hfin.right)
  | .minus d d' =>
    rendered_operator .minus rfl .minus id
      (d.rendered hs (fun k hk => hks k (by simp [hk])) hfin.left)
      (d'.rendered hs (fun k hk => hks k (by simp [hk])) hfin.right)

theorem IsSlot.rendered (hs : scope.symbols.WellFormed) {n : Nat} {ks : List TokenKind}
    {o : Operand} (hks : ∀ k ∈ ks, k.IsWritten) (hfin : ∀ e, o = .expr e → e.IsFinite) :
    IsSlot scope n ks o → ∃ ls, Spells (Expr.operandText o) ls ∧ IsSlot scope n ls o
  | .absent => ⟨[], spells_nil, .absent⟩
  | .infinity => ⟨[.infinity], spells_word (by decide), .infinity⟩
  | .expr d => by
    obtain ⟨⟨ls, hls, hsum⟩, -⟩ := d.rendered hs hks (hfin _ rfl)
    exact ⟨ls, hls, .expr hsum⟩

theorem IsSlots.rendered (hs : scope.symbols.WellFormed) {n : Nat} {ks : List TokenKind}
    {os : List Operand} (hks : ∀ k ∈ ks, k.IsWritten) (hfin : ∀ e, .expr e ∈ os → e.IsFinite) :
    IsSlots scope n ks os → ∃ ls, Spells (Expr.commaSeparated (Expr.operandTexts os)) ls ∧
      IsSlots scope n ls os
  | .last d => by
    obtain ⟨ls, hls, hslot⟩ := d.rendered hs hks fun e he => hfin e (he ▸ List.mem_cons_self)
    exact ⟨ls, hls, .last hslot⟩
  | .cons d d' => by
    obtain ⟨ls, hls, hslot⟩ := d.rendered hs (fun k hk => hks k (by simp [hk]))
      fun e he => hfin e (he ▸ List.mem_cons_self)
    obtain ⟨ms, hms, hslots⟩ := d'.rendered hs (fun k hk => hks k (by simp [hk]))
      fun e he => hfin e (List.mem_cons_of_mem _ he)
    refine ⟨ls ++ .comma :: ms, ?_, .cons hslot hslots⟩
    rw [Expr.operandTexts, Expr.commaSeparated_cons _ d'.ne_nil]
    exact hls.append (IsSign.comma.apart _) ((hms.gap rfl).sign .comma)

end

/-- The text of a statement spells kinds that are the statement. -/
theorem IsStatement.rendered (hs : scope.symbols.WellFormed) {ks : List TokenKind}
    {s : Statement} (hks : ∀ k ∈ ks, k.IsWritten)
    (hfin : ∀ x parens, .literal (.real x) parens ∈ s.nodes → x.isInf = false) :
    IsStatement scope ks s → ∃ ls, Spells s.text.toList ls ∧ IsStatement scope ls s
  | .expr d => by
    obtain ⟨⟨ls, hls, hsum⟩, -⟩ := d.rendered hs hks hfin
    refine ⟨ls, ?_, .expr hsum⟩
    rwa [Statement.text, Expr.text, String.toList_ofList]
  | .constraint (r := r) d d' => by
    obtain ⟨⟨ls, hls, ha⟩, -⟩ := d.rendered hs (fun k hk => hks k (by simp [hk]))
      fun x p hx => hfin x p (List.mem_append_left _ hx)
    obtain ⟨⟨ms, hms, hb⟩, -⟩ := d'.rendered hs (fun k hk => hks k (by simp [hk]))
      fun x p hx => hfin x p (List.mem_append_right _ hx)
    refine ⟨ls ++ .relation r :: ms, ?_, .constraint ha hb⟩
    have hright : Spells (' ' :: (r.symbol.toList ++ ' ' :: _)) (.relation r :: ms) :=
      ((spells_relation r).append (apart_cons (by decide) _) (hms.gap rfl)).gap rfl
    have hspells := hls.append (apart_cons (by decide) _) hright
    simpa [Statement.text, Expr.text] using hspells

end Grammar

/-! ## Sessions -/

namespace Session

theorem readLine_of_ok {s : Session} {line : String} {l : Line}
    (h : ConvexLang.readLine s.scope line = .ok l) : s.readLine line = (s.apply l, .ok l) := by
  rw [Session.readLine, h]

theorem WellAnnotated.readLine_text {s s' : Session} (hs : s.WellAnnotated) {line : String}
    {t : Statement} (h : s.readLine line = (s', .ok (.statement t)))
    (hfin : ∀ x parens, .literal (.real x) parens ∈ t.nodes → x.isInf = false) :
    (s'.readLine t.text).2 = .ok (.statement t) := by
  rw [Session.readLine] at h
  split at h
  · cases h
  · rename_i l hl
    cases h
    obtain ⟨ks, hks, hline⟩ := readLine_eq_ok_iff_kinds.1 hl
    -- a statement declares nothing, so its text is read over the symbols it was read over
    have ht := Grammar.line_eq_ok_statement_iff.1 hline
    obtain ⟨ls, hls, ht⟩ := ht.rendered hs.symbols (isWritten_of_kinds? hks) hfin
    have hagain : ConvexLang.readLine (s.apply (.statement t)).scope t.text =
        .ok (.statement t) :=
      readLine_eq_ok_iff_kinds.2 ⟨ls, hls.kinds?, Grammar.line_eq_ok_statement_iff.2 ht⟩
    rw [readLine_of_ok hagain]

/-- Whatever a new session was asked to do before: a statement it reads, in which
    no literal is infinite, is read again as the same statement from its text. -/
theorem readLine_text_run {atoms : Registry} {calls : List Call} {line : String} {s : Session}
    {t : Statement} (h : (Session.run { atoms } calls).readLine line = (s, .ok (.statement t)))
    (hfin : ∀ x parens, .literal (.real x) parens ∈ t.nodes → x.isInf = false) :
    (s.readLine t.text).2 = .ok (.statement t) :=
  ((wellAnnotated_of_atoms atoms).run calls).readLine_text h hfin

open Grammar in
/-- A product of a declared symbol with a fraction. -/
theorem readLine_text_run_product :
    ∃ s t, (Session.run { atoms := .standard } [.line "variable x"]).readLine "x*0.5" =
        (s, .ok (.statement t)) ∧
      (∀ x parens, .literal (.real x) parens ∈ t.nodes → x.isInf = false) ∧
      (s.readLine t.text).2 = .ok (.statement t) := by
  have hname : Spells "x".toList [.identifier "x"] := spells_identifier ⟨by decide, by decide⟩
  have hnumber : Spells "0.5".toList [.real (Decimal.ofParts ['0'] ['5']).toFloat] :=
    spells_shows ⟨['0'], ['5'], by decide, by decide, by decide, by simp, rfl⟩
  have hline : ConvexLang.readLine (Session.run { atoms := .standard } [.line "variable x"]).scope
      "x*0.5" = .ok (.statement (.expr (.operator "*" [.ofSymbol .decision "x" .unknown,
        .ofNumber (.real (Decimal.ofParts ['0'] ['5']).toFloat)]))) :=
    readLine_eq_ok_iff_kinds.2
      ⟨_, (hname.append (IsSign.star.apart _) (hnumber.sign .star)).kinds?,
        line_eq_ok_statement_iff.2 (.expr (.product (.times (.signed (.symbol (by cbv))) .real)))⟩
  refine ⟨_, _, readLine_of_ok hline, ?_, readLine_text_run (readLine_of_ok hline) ?_⟩ <;>
  · intro x parens hx
    simp only [Statement.nodes, Expr.operator, List.map_cons, List.map_nil, Expr.nodes,
      Expr.nodesOperands, Expr.nodesOperand, Expr.ofSymbol, Expr.ofNumber, List.append_nil,
      List.cons_append, List.nil_append, List.mem_cons, List.not_mem_nil, or_false, reduceCtorEq,
      false_or, Expr.literal.injEq, Number.real.injEq] at hx
    rw [hx.1]
    rfl

end Session

end ConvexLang
