import ConvexLang.Proofs.Leftmost
import ConvexLang.Proofs.Munching
import ConvexLang.Proofs.Scoping
import Mathlib

/-!
# Statements that are taken for declarations

The grammar knows a declaration by the first token of a line, the scanner by the characters with
which the line begins. In front of the first token there are only blanks, since a comment would
hide all of the line; so both look at the same place. But what stands there for the scanner is a
word, and for the grammar it may be the beginning of a longer one, such as `variables`, and a
longer one is a name. A statement that begins with such a name is swallowed: the scanner keeps no
expression, and takes each further word of the line for a symbol, be it a sign or a number. This
is the only way in which the two disagree on what is a declaration.

No standard atom has such a name. It takes a session that declares one, or an atom that was added.

* `declares_iff_beginsLikeDeclaration`: the statements that are taken for declarations.
* `Grammar.IsStatement.knowsFirst`: a name in front of a statement is a symbol or an atom.
* `Scanner.scan_of_statement`: what the scanner does with any line that the grammar reads as a
  statement.
* `Scanner.scan_swallows`: a line that is swallowed.
-/

namespace ConvexLang

/-- The first token of the line is a name, and that begins with a word for a declaration. -/
def BeginsLikeDeclaration (line : String) : Prop :=
  ∃ name rest, kinds? line.toList = some (.identifier name :: rest) ∧
    ∃ role : Role, role.keyword.toList <+: name.toList

/-! ## The front of a line -/

/-- A trimmed text does not begin with a blank. -/
theorem isBlank_of_head?_trimChars {cs : List Char} {c : Char}
    (h : (Text.trimChars cs).head? = some c) : Text.isBlank c = false := by
  have hfront : Text.trimChars cs <+: Text.trimStart cs := by
    rw [Text.trimChars, Text.trimEnd, ← List.reverse_suffix, List.reverse_reverse]
    exact List.dropWhile_suffix _
  have hstart : (Text.trimStart cs).head? = some c := by
    obtain ⟨ds, hds⟩ := List.head?_eq_some_iff.1 h
    obtain ⟨rest, hrest⟩ := hfront
    rw [← hrest, hds]
    rfl
  have hnot := List.head?_dropWhile_not Text.isBlank cs
  rw [← Text.trimStart, hstart] at hnot
  exact hnot

theorem newline_not_mem_trimChars {cs : List Char} (h : '\n' ∉ cs) : '\n' ∉ Text.trimChars cs := by
  obtain ⟨as, bs, heq, -, -⟩ := exists_blanks_trim cs
  exact fun hmem => h (heq ▸ List.mem_append_right _ (List.mem_append_left _ hmem))

/-- A line that begins with a word, and in which an operand comes first, begins with a name that
    begins with the word. -/
theorem exists_name_of_isPrefix {word cs : List Char} {k : TokenKind} {ks : List TokenKind}
    (hword : isWord word = true) (hfront : word <+: cs) (h : kinds? cs = some (k :: ks))
    (hk : Grammar.beginsOperand k = true) :
    ∃ name, k = .identifier name ∧ word <+: name.toList := by
  obtain ⟨c, cs, rfl, hstart⟩ : ∃ c cs', cs = c :: cs' ∧ isWordStart c = true := by
    obtain ⟨rest, rfl⟩ := hfront
    cases word with
    | nil => cases hword
    | cons c word =>
      rw [isWord, Bool.and_eq_true] at hword
      exact ⟨c, word ++ rest, rfl, hword.1⟩
  obtain ⟨hgap, hcomment⟩ := isWordStart_facts hstart
  obtain ⟨l, hread, htext, -⟩ := Lexeme.exists_read_word hword hfront
  rw [kinds?_lexeme hgap hcomment hread, Option.map_eq_some_iff] at h
  obtain ⟨ls, -, hcons⟩ := h
  obtain ⟨rfl, -⟩ := List.cons.inj hcons
  -- what is read is all of the word that stands there, and no operand begins with a keyword
  rw [Lexeme.read_of_isWordStart hstart, Except.ok.injEq] at hread
  subst hread
  have hname : (Lexeme.word c cs).kind =
      .identifier (String.ofList (Lexeme.word c cs).text) := by
    refine TokenKind.ofWord_cases (P := fun k => Grammar.beginsOperand k = true →
      k = .identifier (String.ofList (Lexeme.word c cs).text)) (fun _ _ => rfl) ?_ hk
    simp [keywords, Sign.all, Grammar.beginsOperand]
  refine ⟨_, hname, ?_⟩
  rwa [String.toList_ofList]

/-- A line whose first token is a name begins with it, but for blanks. -/
theorem isPrefix_trim_of_kinds? {line : String} {name : String} {ks : List TokenKind}
    (hline : '\n' ∉ line.toList) (h : kinds? line.toList = some (.identifier name :: ks)) :
    name.toList <+: (Text.trim line).toList := by
  have htrim := newline_not_mem_trimChars hline
  obtain ⟨gaps, text, rest, hcs, hgaps, htext, -⟩ := exists_lexeme htrim (kinds?_trim htrim h)
  obtain rfl := htext.eq_of_identifier
  rw [Text.trim, String.toList_ofList, hcs]
  cases gaps with
  | nil => exact List.prefix_append _ _
  | cons c gaps =>
    have hblank := isBlank_of_head?_trimChars (by rw [hcs]; rfl : _ = some c)
    rw [isBlank_of_isGap (hgaps c List.mem_cons_self)] at hblank
    cases hblank

theorem isWord_keyword (role : Role) : isWord role.keyword.toList = true := by
  cases role <;> decide

/-- The scanner takes a line for a declaration just if its trimmed text begins with the word for
    one. -/
theorem Scanner.declares_iff {line : String} :
    Declares line ↔ ∃ role : Role, role.keyword.toList <+: (Text.trim line).toList := by
  constructor
  · rintro (h | h)
    · exact ⟨.decision, h⟩
    · exact ⟨.parameter, h⟩
  · rintro ⟨_ | _, h⟩
    · exact .inl h
    · exact .inr h

/-- The statements that the scanner takes for declarations are those that begin with a name that
    begins like one. -/
theorem declares_iff_beginsLikeDeclaration {scope : Scope} {line : String} {t : Statement}
    (hline : '\n' ∉ line.toList) (h : readLine scope line = .ok (.statement t)) :
    Scanner.Declares line ↔ BeginsLikeDeclaration line := by
  rw [Scanner.declares_iff]
  constructor
  · rintro ⟨role, hrole⟩
    obtain ⟨ks, hks, hread⟩ := readLine_eq_ok_iff_kinds.1 h
    obtain ⟨k, rest, rfl, hk⟩ := (Grammar.line_eq_ok_statement_iff.1 hread).begins
    have htrim := kinds?_trim (newline_not_mem_trimChars hline) hks
    rw [Text.trim, String.toList_ofList] at hrole
    obtain ⟨name, rfl, hname⟩ := exists_name_of_isPrefix (isWord_keyword role) hrole htrim hk
    exact ⟨name, rest, hks, role, hname⟩
  · rintro ⟨name, rest, hks, role, hrole⟩
    exact ⟨role, hrole.trans (isPrefix_trim_of_kinds? hline hks)⟩

/-! ## The name in front of a statement -/

namespace Grammar

/-- If a name comes first among the kinds, it is that of a symbol or of an atom. -/
def KnowsFirst (scope : Scope) (ks : List TokenKind) : Prop :=
  ∀ name, ks.head? = some (.identifier name) →
    scope.symbols.get? name ≠ none ∨ scope.atoms.get? name ≠ none

variable {scope : Scope} {n : Nat} {ks : List TokenKind} {e : Expr} {s : Statement}

theorem KnowsFirst.append (h : KnowsFirst scope ks) (hks : Begins ks) (ls : List TokenKind) :
    KnowsFirst scope (ks ++ ls) := by
  obtain ⟨k, rest, rfl, -⟩ := hks
  exact h

theorem IsSigned.knowsFirst (d : IsSigned scope n ks e) : KnowsFirst scope ks := by
  intro name hname
  cases d with
  | symbol he =>
    cases hname
    exact .inl (he ▸ Option.some_ne_none _)
  | call _ hp _ =>
    cases hname
    exact .inr (hp ▸ Option.some_ne_none _)
  | _ => cases hname

theorem IsProduct.knowsFirst (d : IsProduct scope n ks e) : KnowsFirst scope ks := by
  -- the left side of an operator is shorter than the product
  induction hlength : ks.length using Nat.strongRecOn generalizing ks e with
  | ind m ih =>
    subst hlength
    cases d with
    | signed d => exact d.knowsFirst
    | times d _ => exact (ih _ (by simp) d rfl).append d.begins _
    | «over» d _ => exact (ih _ (by simp) d rfl).append d.begins _

theorem IsSum.knowsFirst (d : IsSum scope n ks e) : KnowsFirst scope ks := by
  induction hlength : ks.length using Nat.strongRecOn generalizing ks e with
  | ind m ih =>
    subst hlength
    cases d with
    | product d => exact d.knowsFirst
    | plus d _ => exact (ih _ (by simp) d rfl).append d.begins _
    | minus d _ => exact (ih _ (by simp) d rfl).append d.begins _

theorem IsStatement.knowsFirst (d : IsStatement scope ks s) : KnowsFirst scope ks := by
  cases d with
  | expr d => exact d.knowsFirst
  | constraint d _ => exact d.knowsFirst.append d.begins _

end Grammar

/-- No standard atom has a name that begins like a declaration. -/
theorem Registry.not_isPrefix_of_mem_standard (role : Role) :
    ∀ e ∈ standard.entries, ¬ role.keyword.toList <+: e.1.toList := by
  cases role <;> decide +kernel

namespace Scanner

/-! ## Scanning statements -/

/-- A text that declares something leaves the statements as they are. -/
theorem read_of_declares (s : Scanner) {text : String} (h : Declares text) :
    ∃ declared names, declaration? (Text.trim text) = some (declared, names) ∧
      (s.scan text).1 = { s with symbols := s.symbols.declare declared names } := by
  cases hd : declaration? (Text.trim text) with
  | none => exact absurd h (declaration?_eq_none_iff.1 hd)
  | some d => exact ⟨d.1, d.2, rfl, by simp only [scan, read, hd]⟩

/-- What a scanner does with a line that a session reads as a statement, over a registry that
    extends the standard one, and whatever it read before. It keeps one expression more, answers
    with it and declares nothing, unless the first token is a name that begins like a declaration.
    Then it keeps nothing, and declares what it takes for names. Such a name is declared in the
    session, or is that of an added atom. -/
theorem scan_of_statement {extra : List Atom} {atoms : Registry}
    (hatoms : Registry.standard.extend extra = .ok atoms) (calls : List Session.Call)
    {line : String} {t : Statement} (hline : '\n' ∉ line.toList)
    (hread : readLine (Session.run { atoms } calls).scope line = .ok (.statement t))
    (s : Scanner) :
    ((∃ e, s.scan line = ({ s with statements := s.statements ++ [.expr e] }, .ok (.expr e))) ↔
      ¬ BeginsLikeDeclaration line) ∧
    (BeginsLikeDeclaration line → ∃ declared names,
      declaration? (Text.trim line) = some (declared, names) ∧
        (s.scan line).1 = { s with symbols := s.symbols.declare declared names }) ∧
    ∀ name rest, kinds? line.toList = some (.identifier name :: rest) →
      (∃ role : Role, role.keyword.toList <+: name.toList) →
        (Session.run { atoms } calls).symbols.node? name ≠ none ∨ ∃ a ∈ extra, a.name = name := by
  have hdeclares := declares_iff_beginsLikeDeclaration hline hread
  refine ⟨⟨fun ⟨e, he⟩ hbegins => ?_, fun hnot => ?_⟩, fun hbegins => ?_, ?_⟩
  · obtain ⟨declared, names, -, hscan⟩ := s.read_of_declares (hdeclares.2 hbegins)
    rw [he] at hscan
    have hlength := congrArg (fun s : Scanner => s.statements.length) hscan
    simp at hlength
  · exact ⟨_, scan_of_not_declares s fun h => hnot (hdeclares.1 h)⟩
  · exact s.read_of_declares (hdeclares.2 hbegins)
  · rintro name rest hks ⟨role, hrole⟩
    obtain ⟨ks, hks', hstatement⟩ := readLine_eq_ok_iff_kinds.1 hread
    obtain rfl := Option.some.inj (hks.symm.trans hks')
    rcases (Grammar.line_eq_ok_statement_iff.1 hstatement).knowsFirst name rfl with h | h
    · exact .inl h
    · obtain ⟨p, hp⟩ := Option.ne_none_iff_exists'.1 h
      have hrun : (Session.run { atoms } calls).atoms = atoms :=
        (Session.logs_run atoms calls).atoms_eq
      rw [Session.scope, hrun] at hp
      rcases Registry.get?_or_mem_of_extend hatoms hp with hold | ⟨a, ha, hname, -⟩
      · exact absurd hrole
          (Registry.not_isPrefix_of_mem_standard role _ (Table.mem_entries_iff.2 hold))
      · exact .inr ⟨a, ha, hname⟩

/-- A name that begins like a declaration does no harm behind a parenthesis. -/
theorem scan_of_statement_parens :
    let calls : List Session.Call := [.line "variable variables"]
    let line := "\t(variables) + 1"
    let s : Scanner := { atoms := .standard, statements := [.expr placeholder] }
    Registry.standard.extend [] = .ok .standard ∧ '\n' ∉ line.toList ∧
      (∃ t, readLine (Session.run { atoms := .standard } calls).scope line = .ok (.statement t)) ∧
      ∃ e, s.scan line = ({ s with statements := s.statements ++ [.expr e] }, .ok (.expr e)) := by
  intro calls line s
  have hatoms : Registry.standard.extend [] = .ok .standard := rfl
  have hline : '\n' ∉ line.toList := by decide
  have hread : ∃ t, readLine (Session.run { atoms := .standard } calls).scope line =
      .ok (.statement t) := ⟨_, by cbv⟩
  obtain ⟨t, ht⟩ := hread
  have hbegins : ¬ BeginsLikeDeclaration line := by
    rw [← declares_iff_beginsLikeDeclaration hline ht]
    decide +kernel
  exact ⟨hatoms, hline, ⟨t, ht⟩, (scan_of_statement hatoms calls hline ht s).1.2 hbegins⟩

/-- A session that declares `variables` reads a sum. The scanner takes the sign and the number
    in it for variables, and keeps nothing. -/
theorem scan_swallows :
    let calls : List Session.Call := [.line "variable variables"]
    let line := "variables + 1"
    let s : Scanner := { atoms := .standard }
    (∃ t, readLine (Session.run { atoms := .standard } calls).scope line = .ok (.statement t)) ∧
      (s.scan line).1.statements = [] ∧ (s.scan line).1.symbols.names = ["+", "1"] := by
  intro calls line s
  have hread : ∃ t, readLine (Session.run { atoms := .standard } calls).scope line =
      .ok (.statement t) := ⟨_, by cbv⟩
  exact ⟨hread, by decide +kernel, by decide +kernel⟩

end Scanner

end ConvexLang
