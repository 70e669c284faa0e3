import ConvexLang.Line

/-!
# Derivations

The grammar of statements as it is meant: which lists of kinds are a sum, a
product, a signed operand or the slots of a call, and which tree each of them
stands for. Sums and products recur on the left, so that operators of one rank
are grouped from the left. Nothing here knows of an input that is read from one
end to the other, or of a place where the reading stops.

* `IsSigned`, `IsProduct`, `IsSum`: operands, within `n` levels of nesting. Each
  sign and each pair of parentheses takes one level, each call two, and what
  stands at the bottom one more.
* `IsSlot`, `IsSlots`: what fills one slot of a call, and all of them.
* `IsStatement`, `IsDeclaration`: a whole line.

More levels admit all that fewer admit (`IsSum.mono`). Every operand begins with
a kind that begins nothing else (`IsSum.begins`).
-/

namespace ConvexLang.Grammar

variable {scope : Scope}

/-! ## Operands -/

mutual

/-- The kinds are a signed operand, which stands for the expression. A sign `+`
    leaves no trace, and parentheses only set the flag. -/
inductive IsSigned (scope : Scope) : Nat → List TokenKind → Expr → Prop
  | plus {n : Nat} {ks : List TokenKind} {e : Expr} :
    IsSigned scope n ks e → IsSigned scope (n + 1) (.plus :: ks) e
  | minus {n : Nat} {ks : List TokenKind} {e : Expr} :
    IsSigned scope n ks e → IsSigned scope (n + 1) (.minus :: ks) (.operator "-" [e])
  | integer {n m : Nat} : IsSigned scope (n + 1) [.integer m] (.ofNumber (.whole m))
  | real {n : Nat} {x : Float} : IsSigned scope (n + 1) [.real x] (.ofNumber (.real x))
  | symbol {n : Nat} {name : String} {e : Expr} :
    scope.symbols.get? name = some e → IsSigned scope (n + 1) [.identifier name] e
  | call {n : Nat} {ks : List TokenKind} {name : String} {p : Profile} {os : List Operand} :
    IsSlots scope n ks os → scope.atoms.get? name = some p → p.accepts os.length = true →
      IsSigned scope (n + 2) (.identifier name :: .leftParen :: (ks ++ [.rightParen]))
        (.compound name p.sign p.curvature os false)
  | parens {n : Nat} {ks : List TokenKind} {e : Expr} :
    IsSum scope n ks e → IsSigned scope (n + 1) (.leftParen :: (ks ++ [.rightParen])) e.inParens

/-- The kinds are a product of signed operands, which stands for the expression. -/
inductive IsProduct (scope : Scope) : Nat → List TokenKind → Expr → Prop
  | signed {n : Nat} {ks : List TokenKind} {e : Expr} :
    IsSigned scope n ks e → IsProduct scope n ks e
  | times {n : Nat} {ks ls : List TokenKind} {a b : Expr} :
    IsProduct scope n ks a → IsSigned scope n ls b →
      IsProduct scope n (ks ++ .star :: ls) (.operator "*" [a, b])
  | over {n : Nat} {ks ls : List TokenKind} {a b : Expr} :
    IsProduct scope n ks a → IsSigned scope n ls b →
      IsProduct scope n (ks ++ .slash :: ls) (.operator "/" [a, b])

/-- The kinds are a sum of products, which stands for the expression. -/
inductive IsSum (scope : Scope) : Nat → List TokenKind → Expr → Prop
  | product {n : Nat} {ks : List TokenKind} {e : Expr} :
    IsProduct scope n ks e → IsSum scope n ks e
  | plus {n : Nat} {ks ls : List TokenKind} {a b : Expr} :
    IsSum scope n ks a → IsProduct scope n ls b →
      IsSum scope n (ks ++ .plus :: ls) (.operator "+" [a, b])
  | minus {n : Nat} {ks ls : List TokenKind} {a b : Expr} :
    IsSum scope n ks a → IsProduct scope n ls b →
      IsSum scope n (ks ++ .minus :: ls) (.operator "-" [a, b])

/-- The kinds fill an argument slot with the operand. -/
inductive IsSlot (scope : Scope) : Nat → List TokenKind → Operand → Prop
  | absent {n : Nat} : IsSlot scope n [] .absent
  | infinity {n : Nat} : IsSlot scope n [.infinity] (.word "Inf")
  | expr {n : Nat} {ks : List TokenKind} {e : Expr} :
    IsSum scope n ks e → IsSlot scope n ks (.expr e)

/-- The kinds are argument slots parted by commas, one or more of them. -/
inductive IsSlots (scope : Scope) : Nat → List TokenKind → List Operand → Prop
  | last {n : Nat} {ks : List TokenKind} {o : Operand} :
    IsSlot scope n ks o → IsSlots scope n ks [o]
  | cons {n : Nat} {ks ls : List TokenKind} {o : Operand} {os : List Operand} :
    IsSlot scope n ks o → IsSlots scope n ls os →
      IsSlots scope n (ks ++ .comma :: ls) (o :: os)

end

section Operators

variable {n : Nat} {ks ls : List TokenKind} {a b : Expr} {k : TokenKind} {name : String}

theorem IsProduct.multiplicative (ha : IsProduct scope n ks a) (hk : multiplicative? k = some name)
    (hb : IsSigned scope n ls b) : IsProduct scope n (ks ++ k :: ls) (.operator name [a, b]) := by
  cases k <;> cases hk
  · exact .times ha hb
  · exact .over ha hb

theorem IsSum.additive (ha : IsSum scope n ks a) (hk : additive? k = some name)
    (hb : IsProduct scope n ls b) : IsSum scope n (ks ++ k :: ls) (.operator name [a, b]) := by
  cases k <;> cases hk
  · exact .plus ha hb
  · exact .minus ha hb

/-- Where a sum follows behind a sign, the last operator of the line is at the root: the
    sign, or one of the sum, whose operands are grouped anew from the left. -/
theorem IsSum.exists_operator (ha : IsSum scope n ks a) (hk : additive? k = some name) :
    ∀ {ls b}, IsSum scope n ls b →
      ∃ root args, IsSum scope n (ks ++ k :: ls) (.operator root args)
  | _, _, .product d => ⟨name, _, ha.additive hk d⟩
  | _, _, .plus d d' => by
    obtain ⟨_, _, he⟩ := ha.exists_operator hk d
    exact ⟨"+", _, by simpa only [List.append_assoc, List.cons_append] using he.plus d'⟩
  | _, _, .minus d d' => by
    obtain ⟨_, _, he⟩ := ha.exists_operator hk d
    exact ⟨"-", _, by simpa only [List.append_assoc, List.cons_append] using he.minus d'⟩

end Operators

/-! ## Lines -/

/-- The kinds are a statement: one sum, or two with a relation between them. -/
inductive IsStatement (scope : Scope) : List TokenKind → Statement → Prop
  | expr {ks : List TokenKind} {e : Expr} :
    IsSum scope maxNesting ks e → IsStatement scope ks (.expr e)
  | constraint {ks ls : List TokenKind} {r : Relation} {a b : Expr} :
    IsSum scope maxNesting ks a → IsSum scope maxNesting ls b →
      IsStatement scope (ks ++ .relation r :: ls) (.constraint r a b)

/-- The kinds declare names: the word for it, perhaps a sign, and at least one
    name. -/
inductive IsDeclaration : List TokenKind → Declared → List String → Prop
  | signed {role : Role} {s : Sign} {names : List String} : names ≠ [] →
    IsDeclaration (.declare role :: .sign s :: names.map .identifier) ⟨role, s⟩ names
  | unsigned {role : Role} {names : List String} : names ≠ [] →
    IsDeclaration (.declare role :: names.map .identifier) ⟨role, .unknown⟩ names

/-! ## More levels -/

mutual

theorem IsSigned.mono {m n : Nat} {ks : List TokenKind} {e : Expr} (h : m ≤ n) :
    IsSigned scope m ks e → IsSigned scope n ks e := by
  intro d
  match n, h, d with
  | 0, h, d =>
    obtain rfl := Nat.le_zero.1 h
    nomatch d
  | n + 1, h, .plus d => exact .plus (d.mono (Nat.le_of_succ_le_succ h))
  | n + 1, h, .minus d => exact .minus (d.mono (Nat.le_of_succ_le_succ h))
  | n + 1, _, .integer => exact .integer
  | n + 1, _, .real => exact .real
  | n + 1, _, .symbol he => exact .symbol he
  | 1, h, .call d hp ha => exact absurd h (by omega)
  | n + 2, h, .call d hp ha => exact .call (d.mono (Nat.le_of_add_le_add_right h)) hp ha
  | n + 1, h, .parens d => exact .parens (d.mono (Nat.le_of_succ_le_succ h))

theorem IsProduct.mono {m n : Nat} (h : m ≤ n) {ks : List TokenKind} {e : Expr} :
    IsProduct scope m ks e → IsProduct scope n ks e
  | .signed d => .signed (d.mono h)
  | .times d d' => .times (d.mono h) (d'.mono h)
  | .over d d' => .over (d.mono h) (d'.mono h)

/-- What nests within some levels nests within more. -/
theorem IsSum.mono {m n : Nat} (h : m ≤ n) {ks : List TokenKind} {e : Expr} :
    IsSum scope m ks e → IsSum scope n ks e
  | .product d => .product (d.mono h)
  | .plus d d' => .plus (d.mono h) (d'.mono h)
  | .minus d d' => .minus (d.mono h) (d'.mono h)

theorem IsSlot.mono {m n : Nat} (h : m ≤ n) {ks : List TokenKind} {o : Operand} :
    IsSlot scope m ks o → IsSlot scope n ks o
  | .absent => .absent
  | .infinity => .infinity
  | .expr d => .expr (d.mono h)

theorem IsSlots.mono {m n : Nat} (h : m ≤ n) {ks : List TokenKind} {os : List Operand} :
    IsSlots scope m ks os → IsSlots scope n ks os
  | .last d => .last (d.mono h)
  | .cons d d' => .cons (d.mono h) (d'.mono h)

end

/-! ## What an operand begins with -/

/-- Whether an operand may begin with a kind. -/
def beginsOperand : TokenKind → Bool
  | .plus | .minus | .integer _ | .real _ | .identifier _ | .leftParen => true
  | _ => false

/-- The kinds begin with one that may begin an operand. -/
def Begins (ks : List TokenKind) : Prop :=
  ∃ k rest, ks = k :: rest ∧ beginsOperand k = true

theorem Begins.append {ks : List TokenKind} (h : Begins ks) (ls : List TokenKind) :
    Begins (ks ++ ls) := by
  obtain ⟨k, rest, rfl, hk⟩ := h
  exact ⟨k, rest ++ ls, rfl, hk⟩

theorem IsSigned.begins {n : Nat} {ks : List TokenKind} {e : Expr} (d : IsSigned scope n ks e) :
    Begins ks := by
  cases d <;> exact ⟨_, _, rfl, rfl⟩

theorem IsProduct.begins {n : Nat} {ks : List TokenKind} {e : Expr} :
    IsProduct scope n ks e → Begins ks
  | .signed d => d.begins
  | .times d _ => d.begins.append _
  | .over d _ => d.begins.append _

/-- A sum begins with a kind that begins an operand; so it is not empty and
    begins with no comma, closing parenthesis, relation or keyword. -/
theorem IsSum.begins {n : Nat} {ks : List TokenKind} {e : Expr} :
    IsSum scope n ks e → Begins ks
  | .product d => d.begins
  | .plus d _ => d.begins.append _
  | .minus d _ => d.begins.append _

end ConvexLang.Grammar
