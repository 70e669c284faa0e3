import ConvexLang.Proofs.Record
import Mathlib

/-!
# Where expressions are read from

An expression in a statement is told by its address, the operand positions on the way down to
it, and was read from some of the kinds of the line. Which kinds these are is told by the
derivation of the statement. The way down the derivation is the way down the tree, with detours:
a sign `+` leaves no trace in the tree, nor do parentheses but for a flag, and it is the
leftmost operators of a chain that are deepest in the tree. So one expression may have been
read from more kinds or fewer, with or without such signs and parentheses around it.

* `Expr.at?`, `Statement.at?`: what stands at an address.
* `SumAt`, `StatementAt`: derivations with a way down to some of the kinds.
* `StatementAt.isReadAs`: these kinds stand for what is at the address.
* `IsStatement.hasPart`: whatever is at an address was read from some of the kinds.
-/

namespace ConvexLang

/-! ## Operands by their addresses -/

namespace Expr

/-- What stands at an address: the operand positions on the way down to it. -/
def at? : List Nat → Expr → Option Expr
  | [], e => some e
  | i :: address, e => e.operands[i]?.bind fun
    | .expr a => a.at? address
    | _ => none

theorem operands_inParens (e : Expr) : e.inParens.operands = e.operands := by
  cases e <;> rfl

theorem inParens_inParens (e : Expr) : e.inParens.inParens = e.inParens := by
  cases e <;> rfl

theorem at?_inParens_cons (i : Nat) (address : List Nat) (e : Expr) :
    e.inParens.at? (i :: address) = e.at? (i :: address) := by
  rw [at?, at?, operands_inParens]

end Expr

namespace Statement

/-- The expression at an address. A constraint has its two sides at the positions 0 and 1. -/
def at? : List Nat → Statement → Option Expr
  | address, expr e => e.at? address
  | 0 :: address, constraint _ a _ => a.at? address
  | 1 :: address, constraint _ _ b => b.at? address
  | _, constraint .. => none

end Statement

/-! ## What an expression was read from -/

namespace Grammar

variable {scope : Scope}

mutual

/-- The kinds `before`, `inner` and `after` are a signed operand of `n` levels that stands for
    the expression, and of these `inner` is what stands at the address. -/
inductive SignedAt (scope : Scope) :
    Nat → Expr → List Nat → List TokenKind → List TokenKind → List TokenKind → Prop
  | here {n : Nat} {ks : List TokenKind} {e : Expr} :
    IsSigned scope n ks e → SignedAt scope n e [] [] ks []
  | plus {n : Nat} {e : Expr} {address : List Nat} {before inner after : List TokenKind} :
    SignedAt scope n e address before inner after →
      SignedAt scope (n + 1) e address (.plus :: before) inner after
  | minus {n : Nat} {e : Expr} {address : List Nat} {before inner after : List TokenKind} :
    SignedAt scope n e address before inner after →
      SignedAt scope (n + 1) (.operator "-" [e]) (0 :: address) (.minus :: before) inner after
  | call {n i : Nat} {os : List Operand} {address : List Nat}
    {before inner after : List TokenKind} {name : String} {p : Profile} :
    SlotsAt scope n os i address before inner after → scope.atoms.get? name = some p →
      p.accepts os.length = true →
      SignedAt scope (n + 2) (.compound name p.sign p.curvature os false) (i :: address)
        (.identifier name :: .leftParen :: before) inner (after ++ [.rightParen])
  | parens {n : Nat} {e : Expr} {address : List Nat} {before inner after : List TokenKind} :
    SumAt scope n e address before inner after →
      SignedAt scope (n + 1) e.inParens address (.leftParen :: before) inner
        (after ++ [.rightParen])

/-- The same of a product. -/
inductive ProductAt (scope : Scope) :
    Nat → Expr → List Nat → List TokenKind → List TokenKind → List TokenKind → Prop
  | here {n : Nat} {ks : List TokenKind} {e : Expr} :
    IsProduct scope n ks e → ProductAt scope n e [] [] ks []
  | signed {n : Nat} {e : Expr} {address : List Nat} {before inner after : List TokenKind} :
    SignedAt scope n e address before inner after → ProductAt scope n e address before inner after
  | left {n : Nat} {a b : Expr} {address : List Nat} {before inner after ls : List TokenKind}
    {k : TokenKind} {name : String} :
    ProductAt scope n a address before inner after → multiplicative? k = some name →
      IsSigned scope n ls b →
      ProductAt scope n (.operator name [a, b]) (0 :: address) before inner (after ++ k :: ls)
  | right {n : Nat} {a b : Expr} {address : List Nat} {ks before inner after : List TokenKind}
    {k : TokenKind} {name : String} :
    IsProduct scope n ks a → multiplicative? k = some name →
      SignedAt scope n b address before inner after →
      ProductAt scope n (.operator name [a, b]) (1 :: address) (ks ++ k :: before) inner after

/-- The same of a sum. -/
inductive SumAt (scope : Scope) :
    Nat → Expr → List Nat → List TokenKind → List TokenKind → List TokenKind → Prop
  | here {n : Nat} {ks : List TokenKind} {e : Expr} :
    IsSum scope n ks e → SumAt scope n e [] [] ks []
  | product {n : Nat} {e : Expr} {address : List Nat} {before inner after : List TokenKind} :
    ProductAt scope n e address before inner after → SumAt scope n e address before inner after
  | left {n : Nat} {a b : Expr} {address : List Nat} {before inner after ls : List TokenKind}
    {k : TokenKind} {name : String} :
    SumAt scope n a address before inner after → additive? k = some name →
      IsProduct scope n ls b →
      SumAt scope n (.operator name [a, b]) (0 :: address) before inner (after ++ k :: ls)
  | right {n : Nat} {a b : Expr} {address : List Nat} {ks before inner after : List TokenKind}
    {k : TokenKind} {name : String} :
    IsSum scope n ks a → additive? k = some name →
      ProductAt scope n b address before inner after →
      SumAt scope n (.operator name [a, b]) (1 :: address) (ks ++ k :: before) inner after

/-- The same of the slots of a call, with the address in one of them. -/
inductive SlotsAt (scope : Scope) :
    Nat → List Operand → Nat → List Nat → List TokenKind → List TokenKind → List TokenKind → Prop
  | last {n : Nat} {e : Expr} {address : List Nat} {before inner after : List TokenKind} :
    SumAt scope n e address before inner after →
      SlotsAt scope n [.expr e] 0 address before inner after
  | first {n : Nat} {e : Expr} {os : List Operand} {address : List Nat}
    {before inner after ls : List TokenKind} :
    SumAt scope n e address before inner after → IsSlots scope n ls os →
      SlotsAt scope n (.expr e :: os) 0 address before inner (after ++ .comma :: ls)
  | next {n i : Nat} {o : Operand} {os : List Operand} {address : List Nat}
    {ks before inner after : List TokenKind} :
    IsSlot scope n ks o → SlotsAt scope n os i address before inner after →
      SlotsAt scope n (o :: os) (i + 1) address (ks ++ .comma :: before) inner after

end

/-- The kinds `before`, `inner` and `after` are a statement, and of these `inner` is what the
    expression at the address was read from. -/
inductive StatementAt (scope : Scope) :
    Statement → List Nat → List TokenKind → List TokenKind → List TokenKind → Prop
  | expr {e : Expr} {address : List Nat} {before inner after : List TokenKind} :
    SumAt scope maxNesting e address before inner after →
      StatementAt scope (.expr e) address before inner after
  | left {a b : Expr} {r : Relation} {address : List Nat}
    {before inner after ls : List TokenKind} :
    SumAt scope maxNesting a address before inner after → IsSum scope maxNesting ls b →
      StatementAt scope (.constraint r a b) (0 :: address) before inner
        (after ++ .relation r :: ls)
  | right {a b : Expr} {r : Relation} {address : List Nat}
    {ks before inner after : List TokenKind} :
    IsSum scope maxNesting ks a → SumAt scope maxNesting b address before inner after →
      StatementAt scope (.constraint r a b) (1 :: address) (ks ++ .relation r :: before) inner
        after

/-! ## Every expression is read from somewhere -/

/-- The kinds can be cut into a part, those before it and those behind it, such that this
    holds of the three. -/
def HasPart (ks : List TokenKind)
    (P : List TokenKind → List TokenKind → List TokenKind → Prop) : Prop :=
  ∃ before inner after, ks = before ++ (inner ++ after) ∧ P before inner after

section HasPart

variable {ks : List TokenKind} {P Q : List TokenKind → List TokenKind → List TokenKind → Prop}

/-- All of the kinds are a part of them. -/
theorem hasPart_whole (h : P [] ks []) : HasPart ks P :=
  ⟨[], ks, [], by simp, h⟩

theorem HasPart.imp (h : HasPart ks P) (hPQ : ∀ {before inner after},
    P before inner after → Q before inner after) : HasPart ks Q := by
  obtain ⟨before, inner, after, rfl, h⟩ := h
  exact ⟨before, inner, after, rfl, hPQ h⟩

/-- A part with more kinds in front of it. -/
theorem HasPart.behind (ls : List TokenKind) (h : HasPart ks P) (hPQ : ∀ {before inner after},
    P before inner after → Q (ls ++ before) inner after) : HasPart (ls ++ ks) Q := by
  obtain ⟨before, inner, after, rfl, h⟩ := h
  exact ⟨ls ++ before, inner, after, (List.append_assoc ..).symm, hPQ h⟩

/-- A part with more kinds behind it. -/
theorem HasPart.before (ls : List TokenKind) (h : HasPart ks P) (hPQ : ∀ {before inner after},
    P before inner after → Q before inner (after ++ ls)) : HasPart (ks ++ ls) Q := by
  obtain ⟨before, inner, after, rfl, h⟩ := h
  exact ⟨before, inner, after ++ ls, by simp, hPQ h⟩

/-- A part of what stands behind an operator or a comma. -/
theorem HasPart.right (ls : List TokenKind) (k : TokenKind) (h : HasPart ks P)
    (hPQ : ∀ {before inner after}, P before inner after → Q (ls ++ k :: before) inner after) :
    HasPart (ls ++ k :: ks) Q := by
  obtain ⟨before, inner, after, rfl, h⟩ := h
  exact ⟨ls ++ k :: before, inner, after, by simp, hPQ h⟩

end HasPart

mutual

theorem IsSigned.hasPart (hs : scope.symbols.WellFormed) {n : Nat} {ks : List TokenKind}
    {e sub : Expr} {address : List Nat} (d : IsSigned scope n ks e)
    (h : e.at? address = some sub) : HasPart ks (SignedAt scope n e address) := by
  match address, d with
  | [], d => exact hasPart_whole (.here d)
  | _ :: _, .plus d => exact (d.hasPart hs h).behind [.plus] .plus
  | 0 :: _, .minus d => exact (d.hasPart hs h).behind [.minus] .minus
  | _ :: _, .call d hp ha =>
    refine ((d.hasPart hs h).before [.rightParen] ?_).behind [.identifier _, .leftParen] id
    exact fun hat => .call hat hp ha
  | i :: address, .parens d =>
    rw [Expr.at?_inParens_cons] at h
    exact ((d.hasPart hs h).before [.rightParen] .parens).behind [.leftParen] id
  | _ :: _, .symbol he =>
    -- a symbol has no operands
    obtain ⟨-, -, role, sign, rfl⟩ := hs _ _ he
    cases h
  | (_ + 1) :: _, .minus _ | _ :: _, .integer | _ :: _, .real => cases h

theorem IsProduct.hasPart (hs : scope.symbols.WellFormed) {n : Nat} {ks : List TokenKind}
    {e sub : Expr} {address : List Nat} (d : IsProduct scope n ks e)
    (h : e.at? address = some sub) : HasPart ks (ProductAt scope n e address) := by
  match address, d with
  | [], d => exact hasPart_whole (.here d)
  | _ :: _, .signed d => exact (d.hasPart hs h).imp .signed
  | 0 :: _, .times d d' => exact (d.hasPart hs h).before _ fun hat => .left hat rfl d'
  | 1 :: _, .times d d' => exact (d'.hasPart hs h).right _ _ (.right d rfl)
  | 0 :: _, .over d d' => exact (d.hasPart hs h).before _ fun hat => .left hat rfl d'
  | 1 :: _, .over d d' => exact (d'.hasPart hs h).right _ _ (.right d rfl)
  | (_ + 2) :: _, .times _ _ | (_ + 2) :: _, .over _ _ => cases h

/-- What stands at an address of a tree was read from a part of the kinds, if symbols are
    leaves. -/
theorem IsSum.hasPart (hs : scope.symbols.WellFormed) {n : Nat} {ks : List TokenKind}
    {e sub : Expr} {address : List Nat} (d : IsSum scope n ks e)
    (h : e.at? address = some sub) : HasPart ks (SumAt scope n e address) := by
  match address, d with
  | [], d => exact hasPart_whole (.here d)
  | _ :: _, .product d => exact (d.hasPart hs h).imp .product
  | 0 :: _, .plus d d' => exact (d.hasPart hs h).before _ fun hat => .left hat rfl d'
  | 1 :: _, .plus d d' => exact (d'.hasPart hs h).right _ _ (.right d rfl)
  | 0 :: _, .minus d d' => exact (d.hasPart hs h).before _ fun hat => .left hat rfl d'
  | 1 :: _, .minus d d' => exact (d'.hasPart hs h).right _ _ (.right d rfl)
  | (_ + 2) :: _, .plus _ _ | (_ + 2) :: _, .minus _ _ => cases h

theorem IsSlots.hasPart (hs : scope.symbols.WellFormed) {n i : Nat} {ks : List TokenKind}
    {os : List Operand} {sub : Expr} {address : List Nat} (d : IsSlots scope n ks os)
    (h : (os[i]?.bind fun | .expr a => a.at? address | _ => none) = some sub) :
    HasPart ks (SlotsAt scope n os i address) := by
  match i, d with
  | 0, .last (.expr d) => exact (d.hasPart hs h).imp .last
  | 0, .cons (.expr d) d' => exact (d.hasPart hs h).before _ fun hat => .first hat d'
  | _ + 1, .cons d d' => exact (d'.hasPart hs h).right _ _ (.next d)

end

theorem IsStatement.hasPart (hs : scope.symbols.WellFormed) {ks : List TokenKind} {s : Statement}
    {sub : Expr} {address : List Nat} (d : IsStatement scope ks s)
    (h : s.at? address = some sub) : HasPart ks (StatementAt scope s address) := by
  match address, d with
  | _, .expr d => exact (d.hasPart hs h).imp .expr
  | 0 :: _, .constraint d d' => exact (d.hasPart hs h).before _ fun hat => .left hat d'
  | 1 :: _, .constraint d d' => exact (d'.hasPart hs h).right _ _ (.right d)
  | [], .constraint _ _ | (_ + 2) :: _, .constraint _ _ => cases h

/-! ## What is enclosed -/

/-- The kinds are a sum that stands for the expression, whether or not this is marked as
    written in parentheses. -/
def IsReadAs (scope : Scope) (n : Nat) (ks : List TokenKind) (e? : Option Expr) : Prop :=
  ∃ a, IsSum scope n ks a ∧ (e? = some a ∨ e? = some a.inParens)

theorem IsReadAs.mono {m n : Nat} (hmn : m ≤ n) {ks : List TokenKind} {e? : Option Expr}
    (h : IsReadAs scope m ks e?) : IsReadAs scope n ks e? := by
  obtain ⟨a, d, ha⟩ := h
  exact ⟨a, d.mono hmn, ha⟩

theorem isReadAs_self {n : Nat} {ks : List TokenKind} {e : Expr} (d : IsSum scope n ks e) :
    IsReadAs scope n ks (e.at? []) :=
  ⟨e, d, .inl rfl⟩

theorem IsReadAs.inParens {n : Nat} {ks : List TokenKind} {e : Expr} {address : List Nat}
    (h : IsReadAs scope n ks (e.at? address)) : IsReadAs scope n ks (e.inParens.at? address) := by
  cases address with
  | cons i address => rwa [Expr.at?_inParens_cons]
  | nil =>
    obtain ⟨a, d, ha | ha⟩ := h <;> obtain rfl := Option.some.inj ha
    · exact ⟨_, d, .inr rfl⟩
    · exact ⟨a, d, .inr (congrArg some a.inParens_inParens)⟩

mutual

theorem SignedAt.isReadAs {n : Nat} {e : Expr} {address : List Nat}
    {before inner after : List TokenKind} :
    SignedAt scope n e address before inner after → IsReadAs scope n inner (e.at? address)
  | .here d => isReadAs_self (.product (.signed d))
  | .plus d => d.isReadAs.mono (Nat.le_succ _)
  | .minus d => d.isReadAs.mono (Nat.le_succ _)
  | .call d _ _ => d.isReadAs.mono (Nat.le_add_right _ 2)
  | .parens d => (d.isReadAs.mono (Nat.le_succ _)).inParens

theorem ProductAt.isReadAs {n : Nat} {e : Expr} {address : List Nat}
    {before inner after : List TokenKind} :
    ProductAt scope n e address before inner after → IsReadAs scope n inner (e.at? address)
  | .here d => isReadAs_self (.product d)
  | .signed d => d.isReadAs
  | .left d _ _ => d.isReadAs
  | .right _ _ d => d.isReadAs

theorem SumAt.isReadAs {n : Nat} {e : Expr} {address : List Nat}
    {before inner after : List TokenKind} :
    SumAt scope n e address before inner after → IsReadAs scope n inner (e.at? address)
  | .here d => isReadAs_self d
  | .product d => d.isReadAs
  | .left d _ _ => d.isReadAs
  | .right _ _ d => d.isReadAs

theorem SlotsAt.isReadAs {n i : Nat} {os : List Operand} {address : List Nat}
    {before inner after : List TokenKind} :
    SlotsAt scope n os i address before inner after →
      IsReadAs scope n inner (os[i]?.bind fun | .expr a => a.at? address | _ => none)
  | .last d => d.isReadAs
  | .first d _ => d.isReadAs
  | .next _ d => d.isReadAs

end

theorem StatementAt.isReadAs {s : Statement} {address : List Nat}
    {before inner after : List TokenKind} :
    StatementAt scope s address before inner after →
      IsReadAs scope maxNesting inner (s.at? address)
  | .expr d => d.isReadAs
  | .left d _ => d.isReadAs
  | .right _ d => d.isReadAs

end Grammar

end ConvexLang
