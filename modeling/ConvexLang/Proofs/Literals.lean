import ConvexLang.Proofs.Binary64.RecordText
import ConvexLang.Proofs.Effect
import ConvexLang.Proofs.Record
import ConvexLang.Proofs.Spacing

/-!
# Literals in a record

What a front end receives of the literals of a line. In the record of a statement a constant
has a value, which is a text of its own notation, and a name, which the lexer reads. The
constants of the record are the literals of the line, one for one and in the order in which
they were written.

* `Expr.constants_record`: what has a value in a record are the literals of the tree.
* `IsSum.literals`: the literals of a tree are the numbers among the kinds it was read from.
* `Records`: what becomes of a literal. Digits that fit into 63 bits are kept exactly, any
  other literal is kept as the nearest finite number, and its name is read as the same kind
  again. A literal beyond the greatest finite number (`Binary64.overflow`) is lost: its value
  is `null`, and its name is read as that of a symbol (`not_isNumber_power`).
* `Session.records_run`: so it is for every statement of every session.
-/

namespace ConvexLang

/-! ## Constants of a record -/

namespace Json

mutual

/-- What has a value in a record, from left to right: its name and its value. -/
def constants : Json → List (String × Json)
  | number _ | text _ => []
  | list items => constantsOfItems items
  | fields entries =>
    match entries.lookup "name", entries.lookup "value" with
    | some (text name), some value => (name, value) :: constantsOfEntries entries
    | _, _ => constantsOfEntries entries

/-- What has a value in the items of a list. -/
def constantsOfItems : List Json → List (String × Json)
  | [] => []
  | v :: vs => constants v ++ constantsOfItems vs

/-- What has a value in the fields of a record. -/
def constantsOfEntries : List (String × Json) → List (String × Json)
  | [] => []
  | (_, v) :: es => constants v ++ constantsOfEntries es

end

end Json

/-- The number a token stands for, if it is a literal. -/
def TokenKind.number? : TokenKind → Option Number
  | .integer n => some (.whole n)
  | .real x => some (.real x)
  | _ => none

namespace Expr

mutual

/-- The literals of an expression, from left to right. -/
def literals : Expr → List Number
  | symbol .. => []
  | literal v _ => [v]
  | compound _ _ _ os _ => literalsOfOperands os

/-- The literals in a slot. -/
def literalsOfOperand : Operand → List Number
  | .expr e => literals e
  | .absent | .word _ => []

/-- The literals in several slots. -/
def literalsOfOperands : List Operand → List Number
  | [] => []
  | o :: os => literalsOfOperand o ++ literalsOfOperands os

end

@[simp] theorem literals_inParens (e : Expr) : e.inParens.literals = e.literals := by
  cases e <;> rfl

@[simp] theorem literals_binary (name : String) (a b : Expr) :
    (operator name [a, b]).literals = a.literals ++ b.literals := by
  simp [operator, literals, literalsOfOperands, literalsOfOperand]

@[simp] theorem literals_negation (name : String) (a : Expr) :
    (operator name [a]).literals = a.literals := by
  simp [operator, literals, literalsOfOperands, literalsOfOperand]

/-- The name and the value that the record of a literal has. -/
def constant (v : Number) : String × Json :=
  (v.text, .number v)

mutual

/-- What has a value in the record of an expression are its literals. -/
theorem constants_record : ∀ e : Expr, e.record.constants = e.literals.map constant
  | symbol r n s p => rfl
  | literal v p => rfl
  | compound n s c os p => by
    have h := constantsOfItems_recordOperands os
    simp [record, recordFields, Json.constants, Json.constantsOfEntries, List.lookup, literals, h]

theorem constants_recordOperand : ∀ o : Operand,
    (recordOperand o).constants = (literalsOfOperand o).map constant
  | .expr e => constants_record e
  | .absent => rfl
  | .word _ => rfl

theorem constantsOfItems_recordOperands : ∀ os : List Operand,
    Json.constantsOfItems (recordOperands os) = (literalsOfOperands os).map constant
  | [] => rfl
  | o :: os => by
    rw [recordOperands, Json.constantsOfItems, constants_recordOperand,
      constantsOfItems_recordOperands, literalsOfOperands, List.map_append]

end

end Expr

/-- The literals of a statement, from left to right. -/
def Statement.literals : Statement → List Number
  | expr e => e.literals
  | constraint _ a b => a.literals ++ b.literals

theorem Statement.constants_record (s : Statement) :
    s.record.constants = s.literals.map Expr.constant := by
  cases s with
  | expr e => exact Expr.constants_record e
  | constraint r a b =>
    simp [record, Json.constants, Json.constantsOfEntries, List.lookup, literals,
      Expr.constants_record]

/-! ## Literals of a derivation -/

namespace Grammar

variable {scope : Scope}

/-- The numbers among the kinds. -/
def numbers (ks : List TokenKind) : List Number :=
  ks.filterMap TokenKind.number?

theorem numbers_append (ks ls : List TokenKind) : numbers (ks ++ ls) = numbers ks ++ numbers ls :=
  List.filterMap_append

theorem numbers_cons {k : TokenKind} (hk : k.number? = none) (ks : List TokenKind) :
    numbers (k :: ks) = numbers ks :=
  List.filterMap_cons_none hk

/-- A kind that is no literal, between two lists of kinds. -/
theorem numbers_between {k : TokenKind} (hk : k.number? = none) (ks ls : List TokenKind) :
    numbers (ks ++ k :: ls) = numbers ks ++ numbers ls := by
  rw [numbers_append, numbers_cons hk]

theorem numbers_parens (ks : List TokenKind) :
    numbers (.leftParen :: (ks ++ [.rightParen])) = numbers ks := by
  rw [numbers_cons rfl, numbers_between rfl]
  exact List.append_nil _

mutual

theorem IsSigned.literals (hs : scope.symbols.WellFormed) {n : Nat} {ks : List TokenKind} {e : Expr} :
    IsSigned scope n ks e → e.literals = numbers ks
  | .plus d => d.literals hs
  | .minus d => by
    rw [Expr.literals_negation, d.literals hs]
    rfl
  | .integer | .real => rfl
  | .symbol h => by
    obtain ⟨-, -, role, sign, rfl⟩ := hs _ _ h
    rfl
  | .call d _ _ => by
    rw [Expr.literals, d.literals hs, numbers_cons rfl, numbers_parens]
  | .parens d => by rw [Expr.literals_inParens, d.literals hs, numbers_parens]

theorem IsProduct.literals (hs : scope.symbols.WellFormed) {n : Nat} {ks : List TokenKind} {e : Expr} :
    IsProduct scope n ks e → e.literals = numbers ks
  | .signed d => d.literals hs
  | .times d d' | .over d d' => by
    rw [Expr.literals_binary, d.literals hs, d'.literals hs, numbers_between rfl]

/-- The literals of a sum are the numbers of its kinds. -/
theorem IsSum.literals (hs : scope.symbols.WellFormed) {n : Nat} {ks : List TokenKind} {e : Expr} :
    IsSum scope n ks e → e.literals = numbers ks
  | .product d => d.literals hs
  | .plus d d' | .minus d d' => by
    rw [Expr.literals_binary, d.literals hs, d'.literals hs, numbers_between rfl]

theorem IsSlot.literals (hs : scope.symbols.WellFormed) {n : Nat} {ks : List TokenKind} {o : Operand} :
    IsSlot scope n ks o → Expr.literalsOfOperand o = numbers ks
  | .absent | .infinity => rfl
  | .expr d => d.literals hs

theorem IsSlots.literals (hs : scope.symbols.WellFormed) {n : Nat} {ks : List TokenKind}
    {os : List Operand} :
    IsSlots scope n ks os → Expr.literalsOfOperands os = numbers ks
  | .last d => by
    rw [Expr.literalsOfOperands, d.literals hs]
    exact List.append_nil _
  | .cons d d' => by
    rw [Expr.literalsOfOperands, d.literals hs, d'.literals hs, numbers_between rfl]

end

theorem IsStatement.literals (hs : scope.symbols.WellFormed) {ks : List TokenKind} {s : Statement} :
    IsStatement scope ks s → s.literals = numbers ks
  | .expr d => d.literals hs
  | .constraint d d' => by
    rw [Statement.literals, d.literals hs, d'.literals hs, numbers_between rfl]

end Grammar

/-! ## What a record holds of a literal -/

/-- The text is one of digits, and the digits fit into 63 bits. -/
def IsExact (cs : List Char) : Prop :=
  Json.IsDigits cs ∧ Decimal.value cs ≤ 2 ^ 63 - 1

/-- For a literal, which has this text and stands for this kind of token, a record has a
    constant with this name and this value. -/
inductive Records : List Char → TokenKind → String × Json → Prop
  /-- The value is the number that is written, and the name is read as this number. -/
  | exact {ds : List Char} {c : String × Json} : IsExact ds →
    Json.IsNumber c.2.compact.toList → Decimal.readNat? c.2.compact.toList = some (Decimal.value ds) →
    kinds? c.1.toList = some [.integer (Decimal.value ds)] →
    Records ds (.integer (Decimal.value ds)) c
  /-- The value is read as the finite number that is nearest to what is written, and so is the
      name. -/
  | nearest {cs : List Char} {d : Decimal} {x : Float} {c : String × Json} : ¬IsExact cs →
    Decimal.readNumeral? cs = some d → d.toRat < Binary64.overflow → x.isFinite = true →
    (∀ y : Float, y.isFinite = true →
      |Binary64.value x - d.toRat| ≤ |Binary64.value y - d.toRat|) →
    Json.IsNumber c.2.compact.toList → Decimal.readFloat? c.2.compact = some x →
    kinds? c.1.toList = some [.real x] → Records cs (.real x) c
  /-- What is written is too great for a finite number, and neither the value nor the name is
      a number. -/
  | infinite {cs : List Char} {d : Decimal} {c : String × Json} : ¬IsExact cs →
    Decimal.readNumeral? cs = some d → Binary64.overflow ≤ d.toRat →
    c.2.compact = "null" → kinds? c.1.toList = some [.identifier "inf"] →
    Records cs (.real Decimal.infinity) c

theorem compact_number (v : Number) :
    (Json.number v).compact.toList = Json.numberText v := by
  rw [Json.compact, Json.writeCompact, List.append_nil, String.toList_ofList]

theorem records_exact {ds : List Char} (h : IsExact ds) :
    Records ds (.integer (Decimal.value ds)) (Expr.constant (.whole (Decimal.value ds))) := by
  have htext : (Json.number (.whole (Decimal.value ds))).compact.toList =
      Decimal.digits (Decimal.value ds) := by
    rw [compact_number]
    exact String.toList_ofList
  refine .exact h ?_ ?_ (Number.kinds?_text ⟨_, rfl, h.2⟩)
  · exact htext ▸ (Json.isWholePart_digits _).isNumber
  · exact htext ▸ Decimal.readNat?_digits _

theorem compact_infinity : (Json.number (.real Decimal.infinity)).compact = "null" := by
  have hfin : Decimal.infinity.isFinite = false := by rfl
  rw [Json.compact, Json.writeCompact, Json.numberText, Decimal.recordText?, hfin]
  rfl

theorem kinds?_text_infinity :
    kinds? (Number.real Decimal.infinity).text.toList = some [.identifier "inf"] := by
  have hname : (TokenKind.identifier "inf").IsWritten := ⟨by decide, by decide⟩
  exact (spells_identifier hname).kinds?

theorem toFloat_of_overflow {d : Decimal} (h : Binary64.overflow ≤ d.toRat) :
    d.toFloat = Decimal.infinity :=
  Binary64.eq_infinity_of_isFinite (Binary64.unsigned_toFloat d)
    (Bool.eq_false_iff.2 fun hfin => absurd ((Binary64.isFinite_toFloat_iff d).1 hfin) (not_lt.2 h))

theorem records_real {cs : List Char} {d : Decimal} (hcs : ¬IsExact cs)
    (hd : Decimal.readNumeral? cs = some d) :
    Records cs (.real d.toFloat) (Expr.constant (.real d.toFloat)) := by
  rcases lt_or_ge d.toRat Binary64.overflow with hlt | hge
  · have hfin := (Binary64.isFinite_toFloat_iff d).2 hlt
    obtain ⟨text, htext, hnumber, hread⟩ :=
      Binary64.recordText?_reads (Binary64.unsigned_toFloat d) hfin
    have hcompact : (Json.number (.real d.toFloat)).compact = String.ofList text := by
      rw [Json.compact, Json.writeCompact, Json.numberText, htext, Option.getD_some,
        List.append_nil]
    refine .nearest hcs hd hlt hfin (fun y _ => Binary64.abs_value_toFloat_sub_le hfin y) ?_ ?_ ?_
    · rw [Expr.constant, hcompact, String.toList_ofList]
      exact hnumber
    · rw [Expr.constant, hcompact]
      exact hread
    · rw [Expr.constant, Number.text, String.toList_ofList]
      exact (spells_plainText ⟨d, rfl⟩ (Binary64.isInf_of_isFinite hfin)).kinds?
  · rw [toFloat_of_overflow hge]
    exact .infinite hcs hd hge compact_infinity kinds?_text_infinity

theorem number?_of_keyword? {word : String} {k : TokenKind} (h : keyword? word = some k) :
    k.number? = none := by
  have hall : ∀ e ∈ keywords, e.2.number? = none := by decide
  obtain ⟨before, after, hsplit, -⟩ := List.lookup_eq_some_iff.1 h
  exact hall (word, k) (hsplit ▸ List.mem_append_right _ List.mem_cons_self)

/-- What a lexeme that stands for a number has in a record. -/
theorem records_of_denotes {cs : List Char} {k : TokenKind} (h : Denotes cs k) {v : Number}
    (hv : k.number? = some v) : Records cs k (Expr.constant v) := by
  cases h with
  | keyword _ hk =>
    rw [number?_of_keyword? hk] at hv
    cases hv
  | name => cases hv
  | integer hne hds hle =>
    cases hv
    exact records_exact ⟨⟨hne, hds⟩, hle⟩
  | wide hne hds hlt hread =>
    cases hv
    rw [Decimal.readFloat?_digits hne hds, Option.some.injEq] at hread
    subst hread
    exact records_real (fun h => absurd h.2 (not_le.2 hlt)) (Decimal.readNumeral?_digits hne hds)
  | fraction hds hne hfs hread =>
    cases hv
    rw [Decimal.readFloat?_fraction hds hne hfs, Option.some.injEq] at hread
    subst hread
    -- a text with a point is not one of digits
    refine records_real (fun h => ?_) (Decimal.readNumeral?_fraction hds hne hfs)
    exact absurd (h.1.2 '.' (by simp)) (by decide)
  | relation => cases hv
  | sign hc => cases hc <;> cases hv

/-- Digits that do not fit into 63 bits. -/
theorem spells_wide {ds : List Char} (hds : Json.IsDigits ds)
    (h : Lexeme.maxInteger < Decimal.value ds) :
    Spells ds [.real (Decimal.ofParts ds []).toFloat] := by
  have hspells := spells_numberKind hds.1 hds.2
  rwa [Lexeme.numberKind, if_neg (not_le.2 h)] at hspells

/-! ## Lines -/

/-- The token is a literal. -/
def Token.isLiteral (t : Token) : Bool :=
  t.kind.number?.isSome

theorem forall₂_literals {R : Token → String × Json → Prop} {ts : List Token}
    (h : ∀ t ∈ ts, ∀ v, t.kind.number? = some v → R t (Expr.constant v)) :
    List.Forall₂ R (ts.filter Token.isLiteral)
      ((Grammar.numbers (ts.map Token.kind)).map Expr.constant) := by
  induction ts with
  | nil => exact .nil
  | cons t ts ih =>
    have ih := ih fun u hu => h u (List.mem_cons_of_mem _ hu)
    rw [List.map_cons]
    cases hv : t.kind.number? with
    | none =>
      rw [List.filter_cons_of_neg (by simp [Token.isLiteral, hv]), Grammar.numbers_cons hv]
      exact ih
    | some v =>
      rw [List.filter_cons_of_pos (by simp [Token.isLiteral, hv]), Grammar.numbers,
        List.filterMap_cons_some hv, List.map_cons]
      exact .cons (h t List.mem_cons_self v hv) ih

namespace Session

/-- Whatever a new session was asked to do, and whatever line it then accepts as a statement:
    the literals of the line and the constants of the record correspond to each other, from
    left to right. -/
theorem records_run {atoms : Registry} {calls : List Call} {line : String} {s : Session}
    {t : Statement} (h : (Session.run { atoms } calls).readLine line = (s, .ok (.statement t))) :
    ∃ ts, tokenize line = .ok ts ∧
      List.Forall₂ (fun t c => ∃ cs, slice? t.span.first t.span.past line.toList = some cs ∧
        Records cs t.kind c) (ts.filter Token.isLiteral) t.record.constants := by
  obtain ⟨hline, -⟩ := readLine_eq_ok_iff.1 h
  obtain ⟨ts, hts, hgrammar⟩ := ConvexLang.readLine_eq_ok_iff.1 hline
  have hsymbols := (wellAnnotated_run atoms calls).symbols
  refine ⟨ts, hts, ?_⟩
  rw [Statement.constants_record,
    (Grammar.line_eq_ok_statement_iff.1 hgrammar).literals hsymbols]
  refine forall₂_literals fun u hu v hv => ?_
  obtain ⟨text, htext, hdenotes⟩ := exists_slice? hts hu
  exact ⟨text, htext, records_of_denotes hdenotes hv⟩

open Grammar in
/-- The greatest number that is kept exactly, and the next one. -/
theorem records_run_boundary :
    ∃ s t, (Session.run { atoms := .standard } []).readLine
        "9223372036854775807+9223372036854775808" = (s, .ok (.statement t)) ∧
      ∃ ts, tokenize "9223372036854775807+9223372036854775808" = .ok ts ∧
        List.Forall₂ (fun t c => ∃ cs, slice? t.span.first t.span.past
          "9223372036854775807+9223372036854775808".toList = some cs ∧
            Records cs t.kind c) (ts.filter Token.isLiteral) t.record.constants := by
  have htext : "9223372036854775807+9223372036854775808".toList =
      Decimal.digits 9223372036854775807 ++ '+' :: Decimal.digits 9223372036854775808 := by
    rfl
  have hleft := spells_digits (le_refl Lexeme.maxInteger)
  have hright := spells_wide (Json.isDigits_digits 9223372036854775808)
    (by rw [Decimal.value_digits]; decide)
  have hline : ConvexLang.readLine (Session.run { atoms := .standard } []).scope
      "9223372036854775807+9223372036854775808" = .ok (.statement (.expr (.operator "+"
        [.ofNumber (.whole 9223372036854775807), .ofNumber (.real _)]))) :=
    readLine_eq_ok_iff_kinds.2
      ⟨_, htext ▸ (hleft.append (IsSign.plus.apart _) (hright.sign .plus)).kinds?,
        line_eq_ok_statement_iff.2 (.expr (.plus (.product (.signed .integer)) (.signed .real)))⟩
  have h := readLine_eq_ok_iff.2 ⟨hline, rfl⟩
  exact ⟨_, _, h, records_run h⟩

open Grammar in
/-- The least power of ten that is too great. -/
theorem not_isNumber_power :
    ∃ s t c, Session.standard.readLine (String.ofList ('1' :: List.replicate 309 '0')) =
        (s, .ok (.statement t)) ∧ t.record.constants = [c] ∧
      ¬Json.IsNumber c.2.compact.toList ∧ kinds? c.1.toList = some [.identifier "inf"] := by
  have hvalue : Decimal.value (['1'] ++ List.replicate 309 '0') = 10 ^ 309 := by
    rw [Decimal.value_append_replicate, show Decimal.value ['1'] = 1 from rfl, Nat.one_mul]
  have hdigits : Json.IsDigits (['1'] ++ List.replicate 309 '0') := by
    refine ⟨List.cons_ne_nil _ _, fun c hc => ?_⟩
    rcases List.mem_append.1 hc with hc | hc
    · rw [List.mem_singleton.1 hc]
      decide
    · rw [List.eq_of_mem_replicate hc]
      decide
  have hinf : (Decimal.ofParts (['1'] ++ List.replicate 309 '0') []).toFloat = Decimal.infinity := by
    refine toFloat_of_overflow ?_
    have hten : (2 : ℚ) ^ (1024 : Int) ≤ 10 ^ 309 := by
      exact_mod_cast (by decide +kernel : 2 ^ 1024 ≤ 10 ^ 309)
    rw [Decimal.ofParts, List.append_nil, hvalue, Decimal.toRat]
    refine Binary64.overflow_lt.le.trans (hten.trans_eq ?_)
    simp only [List.length_nil, Nat.cast_zero, neg_zero, zpow_zero, mul_one, Nat.cast_pow,
      Nat.cast_ofNat]
  have hspells := spells_wide hdigits (by rw [hvalue]; decide +kernel)
  rw [hinf] at hspells
  have hline : ConvexLang.readLine Session.standard.scope
      (String.ofList ('1' :: List.replicate 309 '0')) =
        .ok (.statement (.expr (.ofNumber (.real Decimal.infinity)))) :=
    readLine_eq_ok_iff_kinds.2 ⟨_, by rw [String.toList_ofList]; exact hspells.kinds?,
      line_eq_ok_statement_iff.2 (.expr (.product (.signed .real)))⟩
  refine ⟨_, _, Expr.constant (.real Decimal.infinity), readLine_eq_ok_iff.2 ⟨hline, rfl⟩,
    Statement.constants_record _, ?_, kinds?_text_infinity⟩
  rw [Expr.constant, compact_infinity]
  intro h
  obtain ⟨c, cs, hc, htext⟩ := h.exists_cons
  obtain rfl : 'n' = c := (List.cons.inj htext).1
  exact absurd hc (by decide)

end Session

end ConvexLang
