import ConvexLang.Proofs.Recognition

/-!
# Nesting

How deep the operands of a line nest can be counted on its kinds, without a tree. Each sign
in front of an operand and each parenthesis goes one level deeper and each call two; a name
or a literal takes one more level where it stands. An operator, a comma and a relation go
back to the level of the innermost parentheses that are open.

The derivations of the grammar have a budget of levels instead. What they need of it is what
is counted.

* `nesting`: the count, from left to right.
* `IsSum.exists_levels`: the least budget of a derivation, and how it shows in the count.
* `IsSum.nesting_le`, `IsSum.of_nesting`: a sum can be derived with as many levels as are
  counted, and not with fewer.
* `IsStatement.nesting_le`: so a statement keeps within the levels that a line may nest.
-/

namespace ConvexLang.Grammar

/-! ## Counting -/

/-- The deepest level that the kinds come to. The levels inside of the parentheses that are
    open are in `opened`, the innermost first. Behind what was counted before, either an
    operand is due at a level or (`none`) one has ended. -/
def nestingFrom : List Nat → Option Nat → List TokenKind → Nat
  | _, due, [] => due.getD 0
  | opened, none, .rightParen :: ks => nestingFrom opened.tail none ks
  -- an operator, a comma or a relation
  | opened, none, _ :: ks => nestingFrom opened (some (opened.headD 0)) ks
  | opened, some level, .plus :: ks => nestingFrom opened (some (level + 1)) ks
  | opened, some level, .minus :: ks => nestingFrom opened (some (level + 1)) ks
  | opened, some level, .leftParen :: ks =>
    nestingFrom ((level + 1) :: opened) (some (level + 1)) ks
  | opened, some level, .identifier _ :: .leftParen :: ks =>
    nestingFrom ((level + 2) :: opened) (some (level + 2)) ks
  -- a slot that is empty, or the last one
  | opened, some level, .comma :: ks =>
    max level (nestingFrom opened (some (opened.headD 0)) ks)
  | opened, some level, .rightParen :: ks => max level (nestingFrom opened.tail none ks)
  | opened, some level, .infinity :: ks => max level (nestingFrom opened none ks)
  -- a name or a literal
  | opened, some level, _ :: ks => max (level + 1) (nestingFrom opened none ks)

/-- How many levels deep the operands of a line nest that has these kinds. -/
def nesting (ks : List TokenKind) : Nat :=
  nestingFrom [] (some 0) ks

example : nesting [.minus, .leftParen, .identifier "f", .leftParen, .rightParen, .rightParen,
    .plus, .integer 1] = 4 := by
  decide

variable {scope : Scope}

theorem nestingFrom_name {opened : List Nat} {level : Nat} {name : String}
    {rest : List TokenKind} (h : EndsName rest) :
    nestingFrom opened (some level) (.identifier name :: rest) =
      max (level + 1) (nestingFrom opened none rest) := by
  cases rest with
  | nil => rfl
  | cons k ks =>
    have hk := endsName_cons.1 h
    cases k <;> first | exact absurd rfl hk | rfl

/-! ## Levels of derivations -/

/-- The kinds go `m` levels deep, from whatever level they are due at. -/
def GoesDeep (ks : List TokenKind) (m : Nat) : Prop :=
  ∀ opened level rest, EndsName rest →
    nestingFrom opened (some level) (ks ++ rest) = max (level + m) (nestingFrom opened none rest)

/-- The kinds go `m` levels deep from the level of the innermost parentheses, if what is
    behind them `Ends` them. -/
def GoesDeepInside (Ends : List TokenKind → Prop) (ks : List TokenKind) (m : Nat) : Prop :=
  ∀ opened rest, Ends rest →
    nestingFrom opened (some (opened.headD 0)) (ks ++ rest) =
      max (opened.headD 0 + m) (nestingFrom opened none rest)

/-- What has been counted on either side of an operator or a comma. -/
theorem GoesDeepInside.operator {Front Ends : List TokenKind → Prop} {ks ls : List TokenKind}
    {k : TokenKind} {m m' : Nat} (h : GoesDeepInside Front ks m)
    (hfront : ∀ rest, Front (k :: rest)) (hk : k ≠ .rightParen)
    (h' : GoesDeepInside Ends ls m') : GoesDeepInside Ends (ks ++ k :: ls) (max m m') := by
  intro opened rest hrest
  have hnone : nestingFrom opened none (k :: (ls ++ rest)) =
      nestingFrom opened (some (opened.headD 0)) (ls ++ rest) := by
    cases k <;> first | exact absurd rfl hk | rfl
  rw [append_cons_append, h _ _ (hfront _), hnone, h' _ _ hrest]
  omega

/-- What fills a slot ends at a comma or at the closing parenthesis. -/
def EndsSlot (rest : List TokenKind) : Prop :=
  ∃ k ks, rest = k :: ks ∧ (k = .comma ∨ k = .rightParen)

theorem EndsSlot.endsName {rest : List TokenKind} (h : EndsSlot rest) : EndsName rest := by
  obtain ⟨k, ks, rfl, rfl | rfl⟩ := h <;> simp

/-- The slots of a call end at the parenthesis that closes it. -/
def EndsSlots (rest : List TokenKind) : Prop :=
  ∃ ks, rest = .rightParen :: ks

theorem GoesDeepInside.mono {P Q : List TokenKind → Prop} (hQ : ∀ rest, Q rest → P rest)
    {ks : List TokenKind} {m : Nat} (h : GoesDeepInside P ks m) : GoesDeepInside Q ks m :=
  fun opened rest hrest => h opened rest (hQ rest hrest)

mutual

theorem IsSigned.exists_levels {n : Nat} {ks : List TokenKind} {e : Expr} :
    IsSigned scope n ks e → ∃ m ≤ n, IsSigned scope m ks e ∧ GoesDeep ks m
  | .plus d => by
    obtain ⟨m, hm, d, h⟩ := d.exists_levels
    refine ⟨m + 1, Nat.succ_le_succ hm, .plus d, fun opened level rest hrest => ?_⟩
    rw [List.cons_append, nestingFrom, h _ _ _ hrest, Nat.add_right_comm, Nat.add_assoc]
  | .minus d => by
    obtain ⟨m, hm, d, h⟩ := d.exists_levels
    refine ⟨m + 1, Nat.succ_le_succ hm, .minus d, fun opened level rest hrest => ?_⟩
    rw [List.cons_append, nestingFrom, h _ _ _ hrest, Nat.add_right_comm, Nat.add_assoc]
  | .integer => ⟨1, Nat.le_add_left 1 _, .integer, fun _ _ _ _ => rfl⟩
  | .real => ⟨1, Nat.le_add_left 1 _, .real, fun _ _ _ _ => rfl⟩
  | .symbol he => ⟨1, Nat.le_add_left 1 _, .symbol he, fun _ _ _ hrest => nestingFrom_name hrest⟩
  | .call d hp ha => by
    obtain ⟨m, hm, d, h⟩ := d.exists_levels
    refine ⟨m + 2, Nat.add_le_add_right hm 2, .call d hp ha, fun opened level rest hrest => ?_⟩
    rw [List.cons_append, List.cons_append, nestingFrom, List.append_assoc]
    refine (h (_ :: opened) _ ⟨rest, rfl⟩).trans ?_
    rw [List.headD_cons, Nat.add_right_comm, Nat.add_assoc]
    rfl
  | .parens d => by
    obtain ⟨m, hm, d, h⟩ := d.exists_levels
    refine ⟨m + 1, Nat.succ_le_succ hm, .parens d, fun opened level rest hrest => ?_⟩
    rw [List.cons_append, nestingFrom, List.append_assoc]
    refine (h (_ :: opened) _ (by simp)).trans ?_
    rw [List.headD_cons, Nat.add_right_comm, Nat.add_assoc]
    rfl

theorem IsProduct.exists_levels {n : Nat} {ks : List TokenKind} {e : Expr} :
    IsProduct scope n ks e → ∃ m ≤ n, IsProduct scope m ks e ∧ GoesDeepInside EndsName ks m
  | .signed d => by
    obtain ⟨m, hm, d, h⟩ := d.exists_levels
    exact ⟨m, hm, .signed d, fun opened rest hrest => h opened _ rest hrest⟩
  | .times d d' => by
    obtain ⟨m, hm, d, h⟩ := d.exists_levels
    obtain ⟨m', hm', d', h'⟩ := d'.exists_levels
    refine ⟨max m m', Nat.max_le.2 ⟨hm, hm'⟩, ?_, ?_⟩
    · exact .times (d.mono (Nat.le_max_left m m')) (d'.mono (Nat.le_max_right m m'))
    · exact h.operator (by simp) (by simp) fun opened rest hrest => h' opened _ rest hrest
  | .over d d' => by
    obtain ⟨m, hm, d, h⟩ := d.exists_levels
    obtain ⟨m', hm', d', h'⟩ := d'.exists_levels
    refine ⟨max m m', Nat.max_le.2 ⟨hm, hm'⟩, ?_, ?_⟩
    · exact .over (d.mono (Nat.le_max_left m m')) (d'.mono (Nat.le_max_right m m'))
    · exact h.operator (by simp) (by simp) fun opened rest hrest => h' opened _ rest hrest

/-- A sum has a least budget of levels, and goes that deep. -/
theorem IsSum.exists_levels {n : Nat} {ks : List TokenKind} {e : Expr} :
    IsSum scope n ks e → ∃ m ≤ n, IsSum scope m ks e ∧ GoesDeepInside EndsName ks m
  | .product d => by
    obtain ⟨m, hm, d, h⟩ := d.exists_levels
    exact ⟨m, hm, .product d, h⟩
  | .plus d d' => by
    obtain ⟨m, hm, d, h⟩ := d.exists_levels
    obtain ⟨m', hm', d', h'⟩ := d'.exists_levels
    refine ⟨max m m', Nat.max_le.2 ⟨hm, hm'⟩, ?_, h.operator (by simp) (by simp) h'⟩
    exact .plus (d.mono (Nat.le_max_left m m')) (d'.mono (Nat.le_max_right m m'))
  | .minus d d' => by
    obtain ⟨m, hm, d, h⟩ := d.exists_levels
    obtain ⟨m', hm', d', h'⟩ := d'.exists_levels
    refine ⟨max m m', Nat.max_le.2 ⟨hm, hm'⟩, ?_, h.operator (by simp) (by simp) h'⟩
    exact .minus (d.mono (Nat.le_max_left m m')) (d'.mono (Nat.le_max_right m m'))

theorem IsSlot.exists_levels {n : Nat} {ks : List TokenKind} {o : Operand} :
    IsSlot scope n ks o → ∃ m ≤ n, IsSlot scope m ks o ∧ GoesDeepInside EndsSlot ks m
  | .absent => by
    refine ⟨0, Nat.zero_le n, .absent, ?_⟩
    rintro opened _ ⟨k, rest, rfl, rfl | rfl⟩ <;> rfl
  | .infinity => ⟨0, Nat.zero_le n, .infinity, fun _ _ _ => rfl⟩
  | .expr d => by
    obtain ⟨m, hm, d, h⟩ := d.exists_levels
    exact ⟨m, hm, .expr d, h.mono fun _ => EndsSlot.endsName⟩

theorem IsSlots.exists_levels {n : Nat} {ks : List TokenKind} {os : List Operand} :
    IsSlots scope n ks os → ∃ m ≤ n, IsSlots scope m ks os ∧ GoesDeepInside EndsSlots ks m
  | .last d => by
    obtain ⟨m, hm, d, h⟩ := d.exists_levels
    exact ⟨m, hm, .last d, h.mono fun _ ⟨ks, hks⟩ => ⟨_, ks, hks, .inr rfl⟩⟩
  | .cons d d' => by
    obtain ⟨m, hm, d, h⟩ := d.exists_levels
    obtain ⟨m', hm', d', h'⟩ := d'.exists_levels
    refine ⟨max m m', Nat.max_le.2 ⟨hm, hm'⟩, ?_, ?_⟩
    · exact .cons (d.mono (Nat.le_max_left m m')) (d'.mono (Nat.le_max_right m m'))
    · exact h.operator (fun rest => ⟨_, rest, rfl, .inl rfl⟩) (by simp) h'

end

/-! ## Sums and statements -/

section Sums

variable {n : Nat} {ks ls : List TokenKind} {a b e : Expr} {r : Relation}

theorem endsName_nil : EndsName [] := nofun

/-- What goes so deep inside of no parentheses nests so deep. -/
theorem GoesDeepInside.nesting_eq {m : Nat} (h : GoesDeepInside EndsName ks m) :
    nesting ks = m := by
  have hcount := h [] [] endsName_nil
  rw [List.append_nil] at hcount
  refine hcount.trans ?_
  simp [nestingFrom]

/-- A sum nests within its budget. -/
theorem IsSum.nesting_le (d : IsSum scope n ks e) : nesting ks ≤ n := by
  obtain ⟨m, hm, -, h⟩ := d.exists_levels
  exact h.nesting_eq ▸ hm

/-- The levels that a sum nests are a budget that is enough for it. -/
theorem IsSum.of_nesting (d : IsSum scope n ks e) {m : Nat} (hm : nesting ks ≤ m) :
    IsSum scope m ks e := by
  obtain ⟨m', -, d', h⟩ := d.exists_levels
  exact d'.mono (h.nesting_eq ▸ hm)

theorem IsSum.nesting_relation (d : IsSum scope n ks a) (d' : IsSum scope n ls b) :
    nesting (ks ++ .relation r :: ls) = max (nesting ks) (nesting ls) := by
  obtain ⟨m, -, -, h⟩ := d.exists_levels
  obtain ⟨m', -, -, h'⟩ := d'.exists_levels
  rw [(h.operator (by simp) (by simp) h' : GoesDeepInside EndsName _ _).nesting_eq, h.nesting_eq,
    h'.nesting_eq]

/-- Sums may have been derived within more levels than a line may nest. They make a statement if
    they do not need them, as can be counted. -/
theorem IsSum.isStatement_relation_of_nesting (d : IsSum scope n ks a) (d' : IsSum scope n ls b)
    (h : nesting (ks ++ .relation r :: ls) ≤ maxNesting) :
    IsStatement scope (ks ++ .relation r :: ls) (.constraint r a b) := by
  rw [d.nesting_relation d', Nat.max_le] at h
  exact .constraint (d.of_nesting h.1) (d'.of_nesting h.2)

/-- A statement nests no deeper than a line may. -/
theorem IsStatement.nesting_le {s : Statement} : IsStatement scope ks s → nesting ks ≤ maxNesting
  | .expr d => IsSum.nesting_le d
  | .constraint d d' => by
    rw [d.nesting_relation d']
    exact Nat.max_le.2 ⟨d.nesting_le, d'.nesting_le⟩

end Sums

end ConvexLang.Grammar
