import ConvexLang.Proofs.Derivation

/-!
# Positions in a line

Where a reading from left to right may have come to. Behind the kinds read so far
an operand is due, with some levels of nesting left for it (`DueInSigned`,
`DueInProduct`, `DueInSum`, `DueInSlots`, `DueInStatement`); what was read is kept as
derivations, so nothing here depends on how it was read.

Parentheses are matched by counting (`depthBehind?`). What the grammar derives is
balanced (`IsSum.isBalanced`, `IsSlots.isBalanced`), so the parenthesis behind the
slots of a call is the one that closes the call.
-/

namespace ConvexLang.Grammar

variable {scope : Scope}

/-! ## Where an operand is due -/

mutual

/-- Behind the kinds, which begin a signed operand of `n` levels, an operand of `m`
    levels is due. -/
inductive DueInSigned (scope : Scope) : Nat → List TokenKind → Nat → Prop
  | here {n : Nat} : DueInSigned scope n [] n
  | plus {n m : Nat} {ks : List TokenKind} :
    DueInSigned scope n ks m → DueInSigned scope (n + 1) (.plus :: ks) m
  | minus {n m : Nat} {ks : List TokenKind} :
    DueInSigned scope n ks m → DueInSigned scope (n + 1) (.minus :: ks) m
  | call {n m : Nat} {ks : List TokenKind} {name : String} :
    DueInSlots scope n ks m → DueInSigned scope (n + 2) (.identifier name :: .leftParen :: ks) m
  | parens {n m : Nat} {ks : List TokenKind} :
    DueInSum scope n ks m → DueInSigned scope (n + 1) (.leftParen :: ks) m

/-- Behind the kinds, which begin a product of `n` levels, an operand of `m` levels
    is due. -/
inductive DueInProduct (scope : Scope) : Nat → List TokenKind → Nat → Prop
  | first {n m : Nat} {ks : List TokenKind} :
    DueInSigned scope n ks m → DueInProduct scope n ks m
  | next {n m : Nat} {ks ls : List TokenKind} {a : Expr} {k : TokenKind} {name : String} :
    IsProduct scope n ks a → multiplicative? k = some name → DueInSigned scope n ls m →
      DueInProduct scope n (ks ++ k :: ls) m

/-- Behind the kinds, which begin a sum of `n` levels, an operand of `m` levels is
    due. -/
inductive DueInSum (scope : Scope) : Nat → List TokenKind → Nat → Prop
  | first {n m : Nat} {ks : List TokenKind} :
    DueInProduct scope n ks m → DueInSum scope n ks m
  | next {n m : Nat} {ks ls : List TokenKind} {a : Expr} {k : TokenKind} {name : String} :
    IsSum scope n ks a → additive? k = some name → DueInProduct scope n ls m →
      DueInSum scope n (ks ++ k :: ls) m

/-- Behind the kinds, which begin the slots of a call, an operand of `m` levels is
    due. -/
inductive DueInSlots (scope : Scope) : Nat → List TokenKind → Nat → Prop
  | first {n m : Nat} {ks : List TokenKind} :
    DueInSum scope n ks m → DueInSlots scope n ks m
  | next {n m : Nat} {ks ls : List TokenKind} {o : Operand} :
    IsSlot scope n ks o → DueInSlots scope n ls m → DueInSlots scope n (ks ++ .comma :: ls) m

end

/-- Behind the kinds, which begin a statement, an operand of `m` levels is due. -/
inductive DueInStatement (scope : Scope) : List TokenKind → Nat → Prop
  | left {m : Nat} {ks : List TokenKind} :
    DueInSum scope maxNesting ks m → DueInStatement scope ks m
  | right {m : Nat} {ks ls : List TokenKind} {a : Expr} {r : Relation} :
    IsSum scope maxNesting ks a → DueInSum scope maxNesting ls m →
      DueInStatement scope (ks ++ .relation r :: ls) m

/-! ## Parentheses -/

/-- How many parentheses are open behind the kinds, if so many are open in front of
    them; nothing if one is closed that is not open. -/
def depthBehind? : Nat → List TokenKind → Option Nat
  | depth, [] => some depth
  | depth, .leftParen :: ks => depthBehind? (depth + 1) ks
  | 0, .rightParen :: _ => none
  | depth + 1, .rightParen :: ks => depthBehind? depth ks
  | depth, _ :: ks => depthBehind? depth ks

/-- The parentheses of the kinds match each other, however many are open. -/
def IsBalanced (ks : List TokenKind) : Prop :=
  ∀ depth, depthBehind? depth ks = some depth

theorem depthBehind?_append (depth : Nat) (ks ls : List TokenKind) :
    depthBehind? depth (ks ++ ls) =
      (depthBehind? depth ks).bind fun depth' => depthBehind? depth' ls := by
  induction ks generalizing depth with
  | nil => rfl
  | cons k ks ih =>
    cases k with
    | rightParen =>
      cases depth with
      | zero => rfl
      | succ depth => exact ih depth
    | _ => exact ih _

theorem isBalanced_nil : IsBalanced [] :=
  fun _ => rfl

theorem IsBalanced.append {ks ls : List TokenKind} (h : IsBalanced ks) (h' : IsBalanced ls) :
    IsBalanced (ks ++ ls) := by
  intro depth
  rw [depthBehind?_append, h, Option.bind_some, h']

theorem isBalanced_singleton {k : TokenKind} (hl : k ≠ .leftParen) (hr : k ≠ .rightParen) :
    IsBalanced [k] := by
  intro depth
  cases k <;> first | contradiction | rfl

theorem IsBalanced.cons {k : TokenKind} {ks : List TokenKind} (h : IsBalanced ks)
    (hl : k ≠ .leftParen) (hr : k ≠ .rightParen) : IsBalanced (k :: ks) :=
  (isBalanced_singleton hl hr).append h

theorem IsBalanced.parens {ks : List TokenKind} (h : IsBalanced ks) :
    IsBalanced (.leftParen :: (ks ++ [.rightParen])) := by
  intro depth
  rw [depthBehind?, depthBehind?_append, h]
  rfl

/-- Kinds on either side of a third. -/
theorem IsBalanced.between {k : TokenKind} {ks ls : List TokenKind} (h : IsBalanced ks)
    (h' : IsBalanced ls) (hl : k ≠ .leftParen) (hr : k ≠ .rightParen) :
    IsBalanced (ks ++ k :: ls) :=
  h.append (h'.cons hl hr)

mutual

theorem IsSigned.isBalanced {n : Nat} {ks : List TokenKind} {e : Expr} :
    IsSigned scope n ks e → IsBalanced ks
  | .plus d | .minus d => d.isBalanced.cons (by decide) (by decide)
  | .integer | .real | .symbol _ => isBalanced_singleton nofun nofun
  | .call d _ _ => d.isBalanced.parens.cons nofun nofun
  | .parens d => d.isBalanced.parens

theorem IsProduct.isBalanced {n : Nat} {ks : List TokenKind} {e : Expr} :
    IsProduct scope n ks e → IsBalanced ks
  | .signed d => d.isBalanced
  | .times d d' | .over d d' => d.isBalanced.between d'.isBalanced (by decide) (by decide)

theorem IsSum.isBalanced {n : Nat} {ks : List TokenKind} {e : Expr} :
    IsSum scope n ks e → IsBalanced ks
  | .product d => d.isBalanced
  | .plus d d' | .minus d d' => d.isBalanced.between d'.isBalanced (by decide) (by decide)

theorem IsSlot.isBalanced {n : Nat} {ks : List TokenKind} {o : Operand} :
    IsSlot scope n ks o → IsBalanced ks
  | .absent => isBalanced_nil
  | .infinity => isBalanced_singleton nofun nofun
  | .expr d => d.isBalanced

/-- The slots of a call are balanced, so the parenthesis behind them closes the call. -/
theorem IsSlots.isBalanced {n : Nat} {ks : List TokenKind} {os : List Operand} :
    IsSlots scope n ks os → IsBalanced ks
  | .last d => d.isBalanced
  | .cons d d' => d.isBalanced.between d'.isBalanced (by decide) (by decide)

end

end ConvexLang.Grammar
