import ConvexLang.Proofs.Derivation
import ConvexLang.Token.Lexer
import Mathlib.Data.Rat.Defs
import Mathlib.Tactic.Ring

/-!
# What expressions mean

An expression has a rational value once its symbols have one and its atoms are
functions. Arithmetic is exact: nothing is rounded, and what has no rational value
(an empty slot, a floating-point literal, a quotient by zero) has none.

Parentheses do not change a value (`Expr.meaning?_inParens`). A sum may be added as it
stands: its operands are grouped anew from the left, which does not change the value
either (`Grammar.IsSum.plus_sum`). A sum that is taken away may not.
-/

namespace ConvexLang

/-- A value for each symbol, and for each atom a function of its arguments. -/
structure Interpretation where
  /-- The values of symbols. -/
  symbol : String → ℚ
  /-- The functions that atoms are. -/
  atom : String → List ℚ → ℚ

/-- What an operator or an atom makes of the values of its operands. -/
def Interpretation.combine? (m : Interpretation) : String → List ℚ → Option ℚ
  | "+", [v, w] => some (v + w)
  | "-", [v, w] => some (v - w)
  | "-", [v] => some (-v)
  | "*", [v, w] => some (v * w)
  | "/", [v, w] => if w = 0 then none else some (v / w)
  | name, vs => some (m.atom name vs)

/-- What has a name is an atom. -/
theorem Interpretation.combine?_atom (m : Interpretation) {name : String}
    (h : isIdentifier name = true) (vs : List ℚ) : m.combine? name vs = some (m.atom name vs) := by
  unfold combine?
  split <;> first | rfl | exact absurd h (by decide)

namespace Expr

variable (m : Interpretation)

mutual

/-- The value of an expression, if it has one. -/
def meaning? : Expr → Option ℚ
  | symbol _ name _ _ => some (m.symbol name)
  | literal (.whole n) _ => some n
  | literal (.real _) _ => none
  | compound name _ _ os _ => (meanings? os).bind (m.combine? name)

/-- The values of operands, if all of them have one. -/
def meanings? : List Operand → Option (List ℚ)
  | [] => some []
  | .expr e :: os => Option.map₂ List.cons (meaning? e) (meanings? os)
  | .absent :: _ | .word _ :: _ => none

end

variable {m}

@[simp] theorem meaning?_ofSymbol (role : Role) (name : String) (sign : Sign) :
    (ofSymbol role name sign).meaning? m = some (m.symbol name) := by
  rw [ofSymbol, meaning?]

@[simp] theorem meaning?_ofNumber (n : Int) :
    (ofNumber (.whole n)).meaning? m = some (n : ℚ) := by
  rw [ofNumber, meaning?]

@[simp] theorem meaning?_inParens (e : Expr) : e.inParens.meaning? m = e.meaning? m := by
  match e with
  | symbol .. => rw [inParens, meaning?, meaning?]
  | literal (.whole _) _ => rw [inParens, meaning?, meaning?]
  | literal (.real _) _ => rw [inParens, meaning?, meaning?]
  | compound .. => rw [inParens, meaning?, meaning?]

theorem meaning?_operator (name : String) (a b : Expr) :
    (operator name [a, b]).meaning? m =
      (a.meaning? m).bind fun v => (b.meaning? m).bind fun w => m.combine? name [v, w] := by
  simp only [operator, List.map_cons, List.map_nil, meaning?, meanings?]
  cases a.meaning? m <;> cases b.meaning? m <;> rfl

@[simp] theorem meaning?_plus (a b : Expr) : (operator "+" [a, b]).meaning? m =
    Option.map₂ (· + ·) (a.meaning? m) (b.meaning? m) := by
  rw [meaning?_operator]
  cases a.meaning? m <;> cases b.meaning? m <;> rfl

@[simp] theorem meaning?_minus (a b : Expr) : (operator "-" [a, b]).meaning? m =
    Option.map₂ (· - ·) (a.meaning? m) (b.meaning? m) := by
  rw [meaning?_operator]
  cases a.meaning? m <;> cases b.meaning? m <;> rfl

end Expr

namespace Grammar

variable {scope : Scope} {n : Nat} {ks : List TokenKind} {a : Expr}

/-- A sum may be added as it stands; its operands are then grouped anew from the
    left. -/
theorem IsSum.plus_sum (ha : IsSum scope n ks a) : ∀ {ls b}, IsSum scope n ls b →
    ∃ e, IsSum scope n (ks ++ .plus :: ls) e ∧ ∀ m, e.meaning? m =
      Option.map₂ (· + ·) (a.meaning? m) (b.meaning? m)
  | _, _, .product d => ⟨_, ha.plus d, fun _ => Expr.meaning?_plus _ _⟩
  | _, _, .plus d d' => by
    obtain ⟨e, he, hvalue⟩ := ha.plus_sum d
    refine ⟨_, by simpa only [List.append_assoc, List.cons_append] using he.plus d', fun m => ?_⟩
    simp only [Expr.meaning?_plus, hvalue]
    exact Option.map₂_assoc add_assoc
  | _, _, .minus d d' => by
    obtain ⟨e, he, hvalue⟩ := ha.plus_sum d
    refine ⟨_, by simpa only [List.append_assoc, List.cons_append] using he.minus d', fun m => ?_⟩
    simp only [Expr.meaning?_minus, hvalue]
    exact Option.map₂_assoc add_sub_assoc

end Grammar

end ConvexLang
