import ConvexLang.Proofs.Admission
import ConvexLang.Proofs.Scanning
import ConvexLang.Proofs.Spacing
import Mathlib

/-!
# Names

Whether a text is a name is asked twice. A registry looks at the text of an atom's name: it has
to be a word, and not one that is reserved. The lexer looks at a whole line, of which names are
what is left when blanks, comments, numbers, signs and keywords are cut off. Both have the same
texts in mind. A name that passes the registry is one token by itself, which covers all of its
bytes, and any name in any line would pass.

So a registry turns no atom away for a name that could stand in front of a parenthesis, and
takes none that could not. The number of arguments is another matter: an atom that takes none
has a name like any other, but no call of it is read.

* `tokenize_word`: a word is one token.
* `IsCalledIn`: the name is written in the line as that of a function.
* `readsCall_emptyCall`: a call with nothing but commas between its parentheses.
* `isName_iff`: the names that pass and the names that are read.
-/

namespace ConvexLang

/-! ## A name by itself -/

/-- A word by itself is one token. -/
theorem tokenize_word {word : String} (h : isIdentifier word = true) :
    tokenize word = .ok [⟨.ofWord word, ⟨0, word.utf8ByteSize⟩⟩] := by
  rw [tokenize, ← byteSize_toList]
  rw [isIdentifier, isWord.eq_def] at h
  split at h
  · cases h
  · rename_i c cs hword
    rw [Bool.and_eq_true] at h
    obtain ⟨hgap, hcomment⟩ := isWordStart_facts h.1
    obtain ⟨htake, hdrop⟩ : cs.takeWhile isWordChar = cs ∧ cs.dropWhile isWordChar = [] := by
      rw [List.takeWhile_eq_self_iff, List.dropWhile_eq_nil_iff]
      exact ⟨List.all_eq_true.1 h.2, List.all_eq_true.1 h.2⟩
    rw [hword, tokensFrom_lexeme hgap hcomment (Lexeme.read_of_isWordStart h.1)]
    simp only [Lexeme.word, htake, hdrop, ← hword, String.ofList_toList, tokensFrom, Nat.zero_add]
    rfl

/-- Every name in a line has the form that is asked of the names of atoms. -/
theorem isWritten_of_tokenize {line name : String} {ts : List Token} {t : Token}
    (h : tokenize line = .ok ts) (ht : t ∈ ts) (hname : t.kind = .identifier name) :
    (TokenKind.identifier name).IsWritten := by
  have hkinds : kinds? line.toList = some (ts.map Token.kind) := by
    rw [kinds?, kindsFrom?, ← tokenize, h]
    rfl
  exact hname ▸ isWritten_of_kinds? hkinds _ (List.mem_map_of_mem ht)

/-- The names of which nothing is cut off. -/
theorem isWritten_iff_tokenize {name : String} :
    (TokenKind.identifier name).IsWritten ↔
      ∃ span, tokenize name = .ok [⟨.identifier name, span⟩] := by
  constructor
  · rintro ⟨hid, hkey⟩
    have hword := tokenize_word hid
    rw [TokenKind.ofWord, hkey, Option.getD_none] at hword
    exact ⟨_, hword⟩
  · rintro ⟨span, h⟩
    exact isWritten_of_tokenize h List.mem_cons_self rfl

theorem span_of_tokenize {name : String} {span : Span}
    (h : tokenize name = .ok [⟨.identifier name, span⟩]) : span = ⟨0, name.utf8ByteSize⟩ := by
  have hword := tokenize_word (isWritten_of_tokenize h List.mem_cons_self rfl).1
  rw [h, Except.ok.injEq, List.cons.injEq, Token.mk.injEq] at hword
  exact hword.1.2

/-! ## A name in front of a parenthesis -/

/-- The name is written in the line as that of a function: it is a token, and the next one opens
    a parenthesis. -/
def IsCalledIn (name line : String) : Prop :=
  ∃ front t u behind, tokenize line = .ok (front ++ t :: u :: behind) ∧
    slice? t.span.first t.span.past line.toList = some name.toList ∧
    t.kind = .identifier name ∧ u.kind = .leftParen

theorem Denotes.eq_of_identifier {text : List Char} {name : String}
    (h : Denotes text (.identifier name)) : text = name.toList := by
  cases h with
  | name => exact String.toList_ofList.symm
  | keyword _ hk =>
    obtain ⟨before, after, hsplit, -⟩ := List.lookup_eq_some_iff.1 hk
    have hmem := hsplit ▸ List.mem_append_right before List.mem_cons_self
    simp [keywords, Sign.all] at hmem
  | sign hsign => cases hsign

/-- The kinds tell where names are written. -/
theorem isCalledIn_of_kinds? {name line : String} {front behind : List TokenKind}
    (h : kinds? line.toList = some (front ++ .identifier name :: .leftParen :: behind)) :
    IsCalledIn name line := by
  obtain ⟨ts, hts, hkinds⟩ := exists_tokenize_of_kinds? h
  obtain ⟨front, rest, rfl, -, hrest⟩ := List.map_eq_append_iff.1 hkinds
  obtain ⟨t, rest, rfl, ht, hrest⟩ := List.map_eq_cons_iff.1 hrest
  obtain ⟨u, behind, rfl, hu, -⟩ := List.map_eq_cons_iff.1 hrest
  obtain ⟨text, htext, hdenotes⟩ :=
    exists_slice? hts (List.mem_append_right front (List.mem_cons_self (a := t)))
  rw [ht] at hdenotes
  exact ⟨front, t, u, behind, hts, hdenotes.eq_of_identifier ▸ htext, ht, hu⟩

theorem IsCalledIn.isWritten {name line : String} (h : IsCalledIn name line) :
    (TokenKind.identifier name).IsWritten := by
  obtain ⟨front, t, u, behind, htokens, -, ht, -⟩ := h
  exact isWritten_of_tokenize htokens (List.mem_append_right front List.mem_cons_self) ht

/-- A call is read with the name that is written. -/
theorem ReadsCall.isCalledIn {scope : Scope} {line : String} {e : Expr}
    (h : ReadsCall scope line e) : IsCalledIn e.name line := by
  obtain ⟨ks, hks, hcall⟩ := h.call
  obtain ⟨lead, name, p, rest, os, parens, rfl, -, -, rfl⟩ := hcall.front
  exact isCalledIn_of_kinds? hks

/-- A call of the name with nothing but commas between its parentheses. -/
def emptyCall (name : String) (commas : Nat) : String :=
  String.ofList (name.toList ++ '(' :: (List.replicate commas ',' ++ [')']))

theorem spells_commas (commas : Nat) :
    Spells (List.replicate commas ',') (List.replicate commas .comma) := by
  induction commas with
  | zero => exact spells_nil
  | succ commas ih => exact ih.sign .comma

theorem kinds?_emptyCall {name : String} (h : (TokenKind.identifier name).IsWritten)
    (commas : Nat) : kinds? (emptyCall name commas).toList =
      some (.identifier name :: .leftParen :: (List.replicate commas .comma ++ [.rightParen])) := by
  have hspells := (spells_identifier h).append (IsSign.leftParen.apart _)
    (spells_parens (spells_commas commas))
  rw [emptyCall, String.toList_ofList]
  exact hspells.kinds?

/-- The names that can be written as those of functions. -/
theorem isWritten_iff_isCalledIn {name : String} :
    (TokenKind.identifier name).IsWritten ↔ ∃ line, IsCalledIn name line := by
  constructor
  · intro h
    have hkinds := kinds?_emptyCall h 0
    rw [← List.nil_append (_ :: _)] at hkinds
    exact ⟨_, isCalledIn_of_kinds? hkinds⟩
  · rintro ⟨line, h⟩
    exact h.isWritten

/-- There is one slot more than there are commas, and all of them are empty. -/
theorem Grammar.isSlots_absent {scope : Scope} {n : Nat} (commas : Nat) :
    IsSlots scope n (List.replicate commas .comma) (List.replicate (commas + 1) .absent) := by
  induction commas with
  | zero => exact .last .absent
  | succ commas ih => exact .cons .absent ih

/-- Empty slots are arguments, if the atom takes so many. -/
theorem readsCall_emptyCall {scope : Scope} {name : String} {p : Profile} {commas : Nat}
    (hname : (TokenKind.identifier name).IsWritten) (hp : scope.atoms.get? name = some p)
    (haccepts : p.accepts (commas + 1) = true) :
    ReadsCall scope (emptyCall name commas)
      (.compound name p.sign p.curvature (List.replicate (commas + 1) .absent) false) := by
  have hkinds := kinds?_emptyCall hname commas
  have hslots : Grammar.IsSlots scope (Grammar.maxNesting - 2) _ _ := Grammar.isSlots_absent commas
  have hlength : p.accepts (List.replicate (commas + 1) Operand.absent).length = true := by
    rwa [List.length_replicate]
  refine ⟨readLine_eq_ok_iff_kinds.2 ⟨_, hkinds, ?_⟩, _, hkinds, .call hslots hp⟩
  exact Grammar.line_eq_ok_statement_iff.2
    (.expr (.product (.signed (.call hslots hp hlength))))

/-- Slots can be as many as an atom takes, unless it takes none. -/
theorem Profile.exists_accepts {p : Profile} (h : p.arity ≠ some 0) :
    ∃ commas, p.accepts (commas + 1) = true := by
  cases harity : p.arity with
  | none => exact ⟨0, by simp [Profile.accepts, harity]⟩
  | some n =>
    cases n with
    | zero => exact absurd harity h
    | succ n => exact ⟨n, by simp [Profile.accepts, harity]⟩

/-! ## Names of atoms -/

namespace Registry

variable {r : Registry} {front behind : List Atom} {a : Atom}

theorem KeepsOut.isIdentifier_eq_false {name : String}
    (h : r.KeepsOut front a (.invalidName name)) : isIdentifier name = false := by
  cases h with
  | invalid hid => exact hid

theorem KeepsOut.keyword?_ne_none {name : String}
    (h : r.KeepsOut front a (.reservedName name)) : keyword? name ≠ none := by
  cases h with
  | reserved _ hkey => exact hkey

/-- The names with which no atom is turned away, unless they are taken. -/
theorem extend_ne_error_iff (h : r.Admits front) :
    (r.extend (front ++ a :: behind) ≠ .error (.invalidName a.name) ∧
      r.extend (front ++ a :: behind) ≠ .error (.reservedName a.name)) ↔
        (TokenKind.identifier a.name).IsWritten := by
  constructor
  · rintro ⟨hinvalid, hreserved⟩
    have hid : isIdentifier a.name = true := by
      by_contra hid
      exact hinvalid (extend_eq_error_iff.2
        ⟨front, a, behind, rfl, h, .invalid (Bool.eq_false_iff.2 hid)⟩)
    refine ⟨hid, ?_⟩
    by_contra hkey
    exact hreserved (extend_eq_error_iff.2 ⟨front, a, behind, rfl, h, .reserved hid hkey⟩)
  · rintro ⟨hid, hkey⟩
    constructor
    · intro herror
      obtain ⟨_, _, _, -, -, hkeeps⟩ := extend_eq_error_iff.1 herror
      exact absurd hid (Bool.eq_false_iff.1 hkeeps.isIdentifier_eq_false)
    · intro herror
      obtain ⟨_, _, _, -, -, hkeeps⟩ := extend_eq_error_iff.1 herror
      exact hkeeps.keyword?_ne_none hkey

end Registry

/-- A text has the form of a name and is no keyword just if it is, as a line, one token, which is
    a name and that text; then the token covers all of its bytes. These are the texts that can be
    written in a line as the name of a function. They are the names for which a registry turns no
    atom away, whatever was added before and whatever is to come, unless they are taken; and where
    there is an atom that takes arguments, those with which it can be called. -/
theorem isName_iff (name : String) :
    ((isIdentifier name = true ∧ keyword? name = none) ↔
      ∃ span, tokenize name = .ok [⟨.identifier name, span⟩]) ∧
    (∀ span, tokenize name = .ok [⟨.identifier name, span⟩] → span = ⟨0, name.utf8ByteSize⟩) ∧
    (∀ (r : Registry) (front : List Atom) (a : Atom) (behind : List Atom),
      r.Admits front → a.name = name →
        ((r.extend (front ++ a :: behind) ≠ .error (.invalidName name) ∧
          r.extend (front ++ a :: behind) ≠ .error (.reservedName name)) ↔
            ∃ line, IsCalledIn name line)) ∧
    ∀ (scope : Scope) (p : Profile), scope.atoms.get? name = some p → p.arity ≠ some 0 →
      ((∃ line, IsCalledIn name line) ↔ ∃ line e, ReadsCall scope line e ∧ e.name = name) := by
  refine ⟨isWritten_iff_tokenize, fun span => span_of_tokenize, ?_, ?_⟩
  · rintro r front a behind hadmits rfl
    rw [Registry.extend_ne_error_iff hadmits, isWritten_iff_isCalledIn]
  · intro scope p hp harity
    rw [← isWritten_iff_isCalledIn]
    constructor
    · intro h
      obtain ⟨commas, haccepts⟩ := Profile.exists_accepts harity
      exact ⟨_, _, readsCall_emptyCall h hp haccepts, rfl⟩
    · rintro ⟨line, e, hread, rfl⟩
      exact hread.isCalledIn.isWritten

end ConvexLang
