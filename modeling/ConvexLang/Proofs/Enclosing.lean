import ConvexLang.Proofs.Nesting
import ConvexLang.Proofs.Occurrence
import ConvexLang.Proofs.Spacing

/-!
# Redundant parentheses

Parentheses around what is an expression anyway change nothing but the flag of this
expression. In the derivation of a line they fit in wherever an expression was read: a sum in
parentheses is a signed operand, a signed operand is a product and a product is a sum, and
what stands before it and behind it is derived as it was. An operator that joined the
expression to what is around it still does.

What changes is how deep the line nests. The expression is one level deeper now, so the
derivation takes a level more than a line may have (`SumAt.isSum_enclosed`). It may turn out
to need less than that, if the line is deepest elsewhere, and this is seen by counting
(`nesting`).

* `Expr.inParensAt`, `Statement.inParensAt`: the flag of what stands at an address, set. The
  record and the equality of statements do not see it.
* `StatementAt.isStatement_enclosed`: the enclosed line, as far as it does not nest too deep.
* `readLine_enclosed`: how it is read.
-/

namespace ConvexLang

/-! ## One more pair of parentheses in a tree -/

/-- The operand with its expression, if it is one, put through a function. -/
def Operand.mapExpr (f : Expr → Expr) : Operand → Operand
  | .expr e => .expr (f e)
  | o => o

namespace Expr

/-- The expression, with what stands at an address marked as written in parentheses. -/
def inParensAt : List Nat → Expr → Expr
  | [], e => e.inParens
  | i :: address, compound name sign curvature operands parens =>
    compound name sign curvature (operands.modify i (.mapExpr (inParensAt address))) parens
  | _ :: _, e => e

section Operator

variable {name : String} {a b : Expr} {address : List Nat}

theorem inParensAt_left :
    (operator name [a, b]).inParensAt (0 :: address) = operator name [a.inParensAt address, b] :=
  rfl

theorem inParensAt_right :
    (operator name [a, b]).inParensAt (1 :: address) = operator name [a, b.inParensAt address] :=
  rfl

end Operator

theorem inParensAt_inParens (address : List Nat) (e : Expr) :
    e.inParens.inParensAt address = (e.inParensAt address).inParens := by
  cases address <;> cases e <;> rfl

theorem record_inParens (e : Expr) : e.inParens.record = e.record := by
  cases e <;> rfl

theorem same_inParens (e e' : Expr) : e.same e'.inParens = e.same e' := by
  cases e <;> cases e' <;> rfl

theorem sameOperands_modify {f : Operand → Operand}
    (hf : ∀ o o', sameOperand o (f o') = sameOperand o o') (i : Nat) (os os' : List Operand) :
    sameOperands os (os'.modify i f) = sameOperands os os' := by
  induction os' generalizing i os with
  | nil => cases i <;> rfl
  | cons o' os' ih =>
    cases os with
    | nil => cases i <;> rfl
    | cons o os =>
      cases i with
      | zero => simp only [List.modify_zero_cons, sameOperands, hf]
      | succ i => simp only [List.modify_succ_cons, sameOperands, ih]

theorem recordOperands_modify {f : Operand → Operand}
    (hf : ∀ o, recordOperand (f o) = recordOperand o) (i : Nat) (os : List Operand) :
    recordOperands (os.modify i f) = recordOperands os := by
  induction os generalizing i with
  | nil => cases i <;> rfl
  | cons o os ih =>
    cases i with
    | zero => simp only [List.modify_zero_cons, recordOperands, hf]
    | succ i => simp only [List.modify_succ_cons, recordOperands, ih]

theorem record_inParensAt (address : List Nat) (e : Expr) :
    (e.inParensAt address).record = e.record := by
  induction address generalizing e with
  | nil => exact record_inParens e
  | cons i address ih =>
    cases e with
    | symbol | literal => rfl
    | compound name sign curvature os parens =>
      rw [inParensAt, record, record, recordOperands_modify]
      rintro (a | _ | _)
      · exact ih a
      · rfl
      · rfl

theorem same_inParensAt (address : List Nat) (e e' : Expr) :
    e.same (e'.inParensAt address) = e.same e' := by
  induction address generalizing e e' with
  | nil => exact same_inParens e e'
  | cons i address ih =>
    cases e' with
    | symbol | literal => rfl
    | compound name sign curvature os parens =>
      cases e with
      | symbol | literal => rfl
      | compound =>
        rw [inParensAt, same, same, sameOperands_modify]
        rintro (a | _ | _) (a' | _ | _) <;> first | exact ih a a' | rfl

end Expr

namespace Statement

/-- The statement, with the expression at an address marked as written in parentheses. -/
def inParensAt : List Nat → Statement → Statement
  | address, expr e => .expr (e.inParensAt address)
  | 0 :: address, constraint r a b => .constraint r (a.inParensAt address) b
  | 1 :: address, constraint r a b => .constraint r a (b.inParensAt address)
  | _, s => s

theorem record_inParensAt (address : List Nat) (s : Statement) :
    (s.inParensAt address).record = s.record := by
  match address, s with
  | address, expr e => exact e.record_inParensAt address
  | [], constraint .. => rfl
  | 0 :: address, constraint r a b => rw [inParensAt, record, record, a.record_inParensAt]
  | 1 :: address, constraint r a b => rw [inParensAt, record, record, b.record_inParensAt]
  | (_ + 2) :: _, constraint .. => rfl

theorem same_inParensAt (address : List Nat) (s s' : Statement) :
    s.same (s'.inParensAt address) = s.same s' := by
  match address, s, s' with
  | address, expr e, expr e' => exact e.same_inParensAt address e'
  | _, constraint .., expr _ => rfl
  | [], _, constraint .. => rfl
  | 0 :: address, expr _, constraint .. => rfl
  | 0 :: address, constraint r a b, constraint .. =>
    rw [inParensAt, same, same, a.same_inParensAt]
  | 1 :: address, expr _, constraint .. => rfl
  | 1 :: address, constraint r a b, constraint .. =>
    rw [inParensAt, same, same, b.same_inParensAt]
  | (_ + 2) :: _, _, constraint .. => rfl

end Statement

namespace Grammar

variable {scope : Scope}

/-- The kinds with parentheses around a part of them. -/
def enclosed (before inner after : List TokenKind) : List TokenKind :=
  before ++ .leftParen :: (inner ++ .rightParen :: after)

theorem enclosed_cons (k : TokenKind) (before inner after : List TokenKind) :
    enclosed (k :: before) inner after = k :: enclosed before inner after := rfl

theorem enclosed_append_before (ks before inner after : List TokenKind) :
    enclosed (ks ++ before) inner after = ks ++ enclosed before inner after :=
  List.append_assoc ..

theorem enclosed_append_after (before inner after ls : List TokenKind) :
    enclosed before inner (after ++ ls) = enclosed before inner after ++ ls := by
  simp [enclosed]

/-! ## Parentheses around it -/

theorem mem_enclosed_iff {k : TokenKind} {before inner after : List TokenKind} :
    k ∈ enclosed before inner after ↔
      k ∈ before ++ (inner ++ after) ∨ k = .leftParen ∨ k = .rightParen := by
  simp only [enclosed, List.mem_append, List.mem_cons]
  tauto

mutual

theorem SignedAt.isSigned_enclosed {n : Nat} {e : Expr} {address : List Nat}
    {before inner after : List TokenKind} :
    SignedAt scope n e address before inner after →
      IsSigned scope (n + 1) (enclosed before inner after) (e.inParensAt address)
  | .here d => .parens (.product (.signed d))
  | .plus d => .plus d.isSigned_enclosed
  | .minus d => .minus d.isSigned_enclosed
  | .call d hp ha => by
    rw [enclosed_cons, enclosed_cons, enclosed_append_after, Expr.inParensAt]
    exact .call d.isSlots_enclosed hp (by rwa [List.length_modify])
  | .parens d => by
    rw [enclosed_cons, enclosed_append_after, Expr.inParensAt_inParens]
    exact .parens d.isSum_enclosed

theorem ProductAt.isProduct_enclosed {n : Nat} {e : Expr} {address : List Nat}
    {before inner after : List TokenKind} :
    ProductAt scope n e address before inner after →
      IsProduct scope (n + 1) (enclosed before inner after) (e.inParensAt address)
  | .here d => .signed (.parens (.product d))
  | .signed d => .signed d.isSigned_enclosed
  | .left d hk d' => by
    rw [enclosed_append_after, Expr.inParensAt_left]
    exact d.isProduct_enclosed.multiplicative hk (d'.mono (Nat.le_succ _))
  | .right d hk d' => by
    rw [enclosed_append_before, enclosed_cons, Expr.inParensAt_right]
    exact (d.mono (Nat.le_succ _)).multiplicative hk d'.isSigned_enclosed

theorem SumAt.isSum_enclosed {n : Nat} {e : Expr} {address : List Nat}
    {before inner after : List TokenKind} :
    SumAt scope n e address before inner after →
      IsSum scope (n + 1) (enclosed before inner after) (e.inParensAt address)
  | .here d => .product (.signed (.parens d))
  | .product d => .product d.isProduct_enclosed
  | .left d hk d' => by
    rw [enclosed_append_after, Expr.inParensAt_left]
    exact d.isSum_enclosed.additive hk (d'.mono (Nat.le_succ _))
  | .right d hk d' => by
    rw [enclosed_append_before, enclosed_cons, Expr.inParensAt_right]
    exact (d.mono (Nat.le_succ _)).additive hk d'.isProduct_enclosed

theorem SlotsAt.isSlots_enclosed {n i : Nat} {os : List Operand} {address : List Nat}
    {before inner after : List TokenKind} :
    SlotsAt scope n os i address before inner after →
      IsSlots scope (n + 1) (enclosed before inner after)
        (os.modify i (.mapExpr (.inParensAt address)))
  | .last d => .last (.expr d.isSum_enclosed)
  | .first d d' => by
    rw [enclosed_append_after]
    exact .cons (.expr d.isSum_enclosed) (d'.mono (Nat.le_succ _))
  | .next d d' => by
    rw [enclosed_append_before, enclosed_cons]
    exact .cons (d.mono (Nat.le_succ _)) d'.isSlots_enclosed

end

/-- Parentheses around what an expression was read from leave the line the same statement, in
    which this expression has the flag, if the line does not nest too deep. -/
theorem StatementAt.isStatement_enclosed {s : Statement} {address : List Nat}
    {before inner after : List TokenKind}
    (hks : nesting (enclosed before inner after) ≤ maxNesting) :
    StatementAt scope s address before inner after →
      IsStatement scope (enclosed before inner after) (s.inParensAt address)
  | .expr d => .expr (d.isSum_enclosed.of_nesting hks)
  | .left d d' => by
    rw [enclosed_append_after] at hks ⊢
    exact d.isSum_enclosed.isStatement_relation_of_nesting (d'.mono (Nat.le_succ _)) hks
  | .right d d' => by
    rw [enclosed_append_before, enclosed_cons] at hks ⊢
    exact (d.mono (Nat.le_succ _)).isStatement_relation_of_nesting d'.isSum_enclosed hks

theorem IsDeclaration.leftParen_not_mem {ks : List TokenKind} {d : Declared}
    {names : List String} (h : IsDeclaration ks d names) : .leftParen ∉ ks := by
  cases h <;> simp

/-- A line with a parenthesis is a statement, if it is anything, and so keeps within the levels
    that a line may nest. -/
theorem nesting_le_of_line {ks : List TokenKind} {l : Line} (h : line scope ks = .ok l)
    (hks : .leftParen ∈ ks) : nesting ks ≤ maxNesting := by
  cases l with
  | empty =>
    obtain rfl := line_eq_ok_empty_iff.1 h
    exact absurd hks List.not_mem_nil
  | declaration d names =>
    exact absurd hks (line_eq_ok_declaration_iff.1 h).leftParen_not_mem
  | statement s => exact (line_eq_ok_statement_iff.1 h).nesting_le

end Grammar

open Grammar

/-- A line with parentheses around a part of it can be written. -/
theorem exists_kinds?_enclosed {line : String} {before inner after : List TokenKind}
    (h : kinds? line.toList = some (before ++ (inner ++ after))) :
    ∃ line' : String, kinds? line'.toList = some (enclosed before inner after) := by
  refine exists_kinds?_of_denotes fun k hk => ?_
  rcases mem_enclosed_iff.1 hk with hk | rfl | rfl
  · exact exists_denotes_of_kinds? h k hk
  · exact ⟨_, .sign .leftParen⟩
  · exact ⟨_, .sign .rightParen⟩

/-- How such a line is read. -/
theorem Grammar.StatementAt.readLine_eq {scope : Scope} {s : Statement} {address : List Nat}
    {before inner after : List TokenKind} (hat : StatementAt scope s address before inner after)
    {line' : String} (h : kinds? line'.toList = some (enclosed before inner after)) :
    if nesting (enclosed before inner after) ≤ maxNesting then
      readLine scope line' = .ok (.statement (s.inParensAt address))
    else ∃ d, readLine scope line' = .error d := by
  split_ifs with hnesting
  · exact readLine_eq_ok_iff_kinds.2
      ⟨_, h, line_eq_ok_statement_iff.2 (hat.isStatement_enclosed hnesting)⟩
  · cases hread : readLine scope line' with
    | error d => exact ⟨d, rfl⟩
    | ok l =>
      obtain ⟨ks, hks, hl⟩ := readLine_eq_ok_iff_kinds.1 hread
      obtain rfl := Option.some.inj (h.symm.trans hks)
      exact absurd (nesting_le_of_line hl (mem_enclosed_iff.2 (.inr (.inl rfl)))) hnesting

/-- Take a line that is read as a statement. Whatever expression stands at an address of the
    statement, there is a part of the line that it was read from, all symbols being leaves.
    Wherever an expression was read from, this part by itself stands for it, and there are lines
    with parentheses around just this part. They are refused if they nest too deep, and else they
    are read as the same statement, in which no more than the flag of this expression is set. It
    has the same record, and it is equal to the statement that there was, as far as that is equal
    to itself; over well-formed symbols, which all sessions have, it is. -/
theorem readLine_enclosed {scope : Scope} {line : String} {s : Statement}
    (h : readLine scope line = .ok (.statement s)) :
    (scope.symbols.WellFormed → ∀ address e, s.at? address = some e →
      ∃ before inner after, kinds? line.toList = some (before ++ (inner ++ after)) ∧
        StatementAt scope s address before inner after) ∧
    ∀ address before inner after, kinds? line.toList = some (before ++ (inner ++ after)) →
      StatementAt scope s address before inner after →
      let ks := enclosed before inner after
      let t := s.inParensAt address
      IsReadAs scope maxNesting inner (s.at? address) ∧
        (∃ line' : String, kinds? line'.toList = some ks) ∧
        (∀ line' : String, kinds? line'.toList = some ks →
          if nesting ks ≤ maxNesting then readLine scope line' = .ok (.statement t)
          else ∃ d, readLine scope line' = .error d) ∧
        t.record = s.record ∧ s.same t = s.same s ∧
        (scope.symbols.WellFormed → s.same t = true) := by
  obtain ⟨ks, hks, hline⟩ := readLine_eq_ok_iff_kinds.1 h
  have hstatement := line_eq_ok_statement_iff.1 hline
  refine ⟨fun hs address e he => ?_, fun address before inner after hkinds hat => ?_⟩
  · obtain ⟨before, inner, after, rfl, hat⟩ := hstatement.hasPart hs he
    exact ⟨before, inner, after, hks, hat⟩
  · refine ⟨hat.isReadAs, exists_kinds?_enclosed hkinds, fun line' => hat.readLine_eq,
      s.record_inParensAt address, s.same_inParensAt address s, fun hs => ?_⟩
    -- a statement has the record that it has, so it is equal to itself
    have hnodes := hstatement.nodes (holdsOfNodes_isRecorded hs) (isWritten_of_kinds? hks)
    rw [s.same_inParensAt address s]
    exact (Statement.compact_record_eq_iff hnodes hnodes).1 rfl

/-- In `1-2-3` the first difference is redundantly enclosed. -/
theorem readLine_enclosed_difference :
    let scope := Session.standard.scope
    let number (n : Nat) := Expr.ofNumber (.whole n)
    let first := Expr.operator "-" [number 1, number 2]
    readLine scope "1-2-3" = .ok (.statement (.expr (.operator "-" [first, number 3]))) ∧
      readLine scope "(1-2)-3" =
        .ok (.statement (.expr (.operator "-" [first.inParens, number 3]))) := by
  intro scope number first
  have hread : readLine scope "1-2-3" =
      .ok (.statement (.expr (.operator "-" [first, number 3]))) := by cbv
  refine ⟨hread, ?_⟩
  have hkinds : kinds? "1-2-3".toList =
      some ([] ++ ([.integer 1, .minus, .integer 2] ++ [.minus, .integer 3])) := by cbv
  have hkinds' : kinds? "(1-2)-3".toList =
      some (enclosed [] [.integer 1, .minus, .integer 2] [.minus, .integer 3]) := by cbv
  have hone {n m : Nat} : IsProduct scope (n + 1) [.integer m] (number m) := .signed .integer
  have hfirst : IsSum scope maxNesting [.integer 1, .minus, .integer 2] first :=
    .minus (.product hone) hone
  have hat : StatementAt scope (.expr (.operator "-" [first, number 3])) [0]
      [] [.integer 1, .minus, .integer 2] [.minus, .integer 3] :=
    .expr (.left (.here hfirst) rfl hone)
  obtain ⟨-, -, hread', -⟩ := (readLine_enclosed hread).2 _ _ _ _ hkinds hat
  exact hread' _ hkinds'

end ConvexLang
