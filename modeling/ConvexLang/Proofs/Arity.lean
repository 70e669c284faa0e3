import ConvexLang.Proofs.Admission
import ConvexLang.Proofs.Blame
import ConvexLang.Proofs.Nesting
import ConvexLang.Proofs.Rendering
import ConvexLang.Proofs.Spacing

/-!
# Numbers of arguments

An atom may fix the number of its arguments. It is admitted with any number, its calls are
compared with that number, and the number of slots in a call is counted by the grammar; so
what is written with the right number of expressions has to be read as a call of them.

A call takes two levels of nesting, and the text of an expression nests no deeper than the
line that the expression was read from. So the texts of expressions with two levels to spare,
parted by commas, are the slots of a call. With any other number of slots the atom is blamed,
whatever fills them and whatever is behind the call.

One number cannot be written. Nothing between the parentheses is an empty slot, so a call has
at least one slot, and an atom that takes no arguments cannot be called
(`Session.nullary_rejected`).

* `Grammar.isSlots_texts`: texts of expressions as the slots of a call.
* `Grammar.line_arityMismatch`: a call with another number of slots.
* `Session.readLine_call_run`: both, in every session.
-/

namespace ConvexLang

/-! ## Names of atoms -/

/-- Every atom of an extended registry has a name that may be written in a line. -/
theorem Registry.isWritten_of_extend {atoms : Registry} {extra : List Atom}
    (h : Registry.standard.extend extra = .ok atoms) {name : String} {p : Profile}
    (hp : atoms.get? name = some p) : (TokenKind.identifier name).IsWritten := by
  rcases Registry.get?_or_mem_of_extend h hp with hknown | ⟨a, ha, rfl, -⟩
  · have hstandard : ∀ e ∈ Registry.standard.entries,
        isIdentifier e.1 = true ∧ keyword? e.1 = none := by
      decide +kernel
    exact hstandard _ (Table.mem_of_lookup hknown)
  · obtain ⟨hadmits, -⟩ := Registry.extend_eq_ok_iff.1 h
    exact ⟨hadmits.isIdentifier a ha, hadmits.notKeyword a ha⟩

/-! ## Texts of calls -/

/-- A call of the atom with the texts of the expressions between its parentheses. -/
def callText (name : String) (es : List Expr) : String :=
  name ++ "(" ++ ", ".intercalate (es.map Expr.text) ++ ")"

theorem commaSeparated_operandTexts (es : List Expr) :
    Expr.commaSeparated (Expr.operandTexts (es.map .expr)) =
      (", ".intercalate (es.map Expr.text)).toList := by
  induction es with
  | nil => rfl
  | cons e es ih =>
    cases es with
    | nil => simp [Expr.operandTexts, Expr.operandText, Expr.commaSeparated, Expr.text]
    | cons e' es =>
      rw [List.map_cons, Expr.operandTexts, Expr.commaSeparated_cons _ (by simp), ih]
      simp [Expr.operandText, Expr.text]

theorem toList_callText (name : String) (es : List Expr) : (callText name es).toList =
    name.toList ++ '(' :: (Expr.commaSeparated (Expr.operandTexts (es.map .expr)) ++ [')']) := by
  rw [commaSeparated_operandTexts]
  simp [callText]

namespace Grammar

variable {scope : Scope} {n : Nat}

/-- One text more in front of the slots of a call. -/
theorem isSlots_texts {es : List Expr} (hne : es ≠ [])
    (h : ∀ e ∈ es, ∃ ks, Spells e.textChars ks ∧ IsSum scope n ks e) :
    ∃ ks, Spells (Expr.commaSeparated (Expr.operandTexts (es.map .expr))) ks ∧
      IsSlots scope n ks (es.map .expr) := by
  induction es with
  | nil => exact absurd rfl hne
  | cons e es ih =>
    obtain ⟨ks, hks, d⟩ := h e List.mem_cons_self
    rcases es with _ | ⟨e', es⟩
    · exact ⟨ks, hks, .last (.expr d)⟩
    · obtain ⟨ls, hls, d'⟩ := ih (List.cons_ne_nil _ _) fun a ha =>
        h a (List.mem_cons_of_mem _ ha)
      refine ⟨ks ++ .comma :: ls, ?_, .cons (.expr d) d'⟩
      rw [List.map_cons, Expr.operandTexts, Expr.commaSeparated_cons _ d'.ne_nil]
      exact hks.append (IsSign.comma.apart _) ((hls.gap rfl).sign .comma)

/-- A call with a number of slots that the atom does not take is refused, whatever stands
    behind it. -/
theorem line_arityMismatch {name : String} {p : Profile} {expected : Nat}
    {ks : List TokenKind} {os : List Operand} (hp : scope.atoms.get? name = some p)
    (harity : p.arity = some expected) (hslots : IsSlots scope (maxNesting - 2) ks os)
    (hne : os.length ≠ expected) (rest : List TokenKind) :
    line scope (.identifier name :: .leftParen :: (ks ++ .rightParen :: rest)) =
      .error (.settled (.semantic (.arityMismatch name expected os.length))
        ⟨(.identifier name :: .leftParen :: (ks ++ .rightParen :: rest)).length, rest.length⟩) := by
  -- the slots are compared with the atom before anything behind the call is read
  obtain ⟨hlt, hread⟩ : Reads (slots (sum (signed scope (maxNesting - 2))))
    (ks ++ .rightParen :: rest) os rest := hslots.reads rfl
  have haccepts : p.accepts os.length = false := by
    rw [Profile.accepts, harity]
    exact decide_eq_false hne.symm
  have happly : apply scope name ((ks ++ .rightParen :: rest).length + 2) rest.length os =
      .error (.settled (.semantic (.arityMismatch name expected os.length))
        ⟨(ks ++ .rightParen :: rest).length + 2, rest.length⟩) := by
    rw [apply, hp]
    simp only [haccepts, harity, Bool.false_eq_true, if_false, Option.getD_some]
  have hcall : signed scope maxNesting
      (.identifier name :: .leftParen :: (ks ++ .rightParen :: rest)) =
        .error (.settled (.semantic (.arityMismatch name expected os.length))
          ⟨(ks ++ .rightParen :: rest).length + 2, rest.length⟩) := by
    rw [show maxNesting = (maxNesting - 2) + 2 from rfl, signed]
    simp only [signedBy, call, hread, happly]
  rw [line]
  · simp only [statement, sum, product, hcall]
    rfl
  · rintro ⟨⟩
  · rintro _ _ ⟨⟩

end Grammar

/-! ## Sessions -/

namespace Session

open Grammar

/-- The session reads the expression from a line that nests so many levels deep, and no
    literal of the expression is infinite. -/
structure ReadsWithin (s : Session) (levels : Nat) (e : Expr) : Prop where
  /-- There is such a line. -/
  line : ∃ line ks, (s.readLine line).2 = .ok (.statement (.expr e)) ∧
    kinds? line.toList = some ks ∧ nesting ks ≤ levels
  /-- Its literals are finite. -/
  finite : e.IsFinite

/-- The text of an expression spells a sum that nests no deeper than the line it was read
    from. -/
theorem ReadsWithin.spells {s : Session} (hs : s.symbols.WellFormed) {levels : Nat} {e : Expr}
    (h : s.ReadsWithin levels e) :
    ∃ ks, Spells e.textChars ks ∧ IsSum s.scope levels ks e := by
  obtain ⟨line, ks, hread, hks, hnesting⟩ := h.line
  rw [Session.readLine] at hread
  split at hread
  · cases hread
  · rename_i l hl
    cases hread
    obtain ⟨ks', hks', hline⟩ := readLine_eq_ok_iff_kinds.1 hl
    obtain rfl : ks = ks' := Option.some.inj (hks.symm.trans hks')
    cases line_eq_ok_statement_iff.1 hline with
    | expr d =>
      -- a derivation fits into as many levels as its kinds nest
      obtain ⟨hspells, -⟩ :=
        (d.of_nesting hnesting).rendered hs (isWritten_of_kinds? hks) h.finite
      exact hspells

section Call

variable {s : Session} {name : String} {p : Profile} {arity : Nat}

/-- As many expressions as the atom takes are its arguments. -/
theorem readLine_callText (hs : s.symbols.WellFormed) (hname : (TokenKind.identifier name).IsWritten)
    (hp : s.atoms.get? name = some p) (harity : p.arity = some arity) {es : List Expr}
    (hlength : es.length = arity) (hpos : 0 < arity)
    (hes : ∀ e ∈ es, s.ReadsWithin (maxNesting - 2) e) :
    ConvexLang.readLine s.scope (callText name es) =
      .ok (.statement (.expr (.compound name p.sign p.curvature (es.map .expr) false))) := by
  have hne : es ≠ [] := List.length_pos_iff.1 (hlength ▸ hpos)
  have haccepts : p.accepts (es.map Operand.expr).length = true := by
    rw [Profile.accepts, harity, List.length_map, hlength]
    exact decide_eq_true rfl
  obtain ⟨ks, hks, hslots⟩ := isSlots_texts hne fun e he => (hes e he).spells hs
  have hspells := (spells_identifier hname).append (IsSign.leftParen.apart _) (spells_parens hks)
  rw [← toList_callText] at hspells
  exact readLine_eq_ok_iff_kinds.2 ⟨_, hspells.kinds?, line_eq_ok_statement_iff.2
    (.expr (.product (.signed (.call hslots hp haccepts))))⟩

/-- Slots that are not as many as the atom takes are counted, and the diagnostic points at the
    call. -/
theorem readLine_arityMismatch (hp : s.atoms.get? name = some p) (harity : p.arity = some arity)
    {line : String} {call rest : List Token} {ks : List TokenKind} {os : List Operand}
    (htokens : tokenize line = .ok (call ++ rest))
    (hcall : call.map Token.kind = .identifier name :: .leftParen :: (ks ++ [.rightParen]))
    (hslots : IsSlots s.scope (maxNesting - 2) ks os) (hne : os.length ≠ arity) :
    ConvexLang.readLine s.scope line =
      .error (.atSpan (.semantic (.arityMismatch name arity os.length))
        (spanOfRun call line.utf8ByteSize)) := by
  have hkinds : (call ++ rest).map Token.kind =
      .identifier name :: .leftParen :: (ks ++ .rightParen :: rest.map Token.kind) := by
    rw [List.map_append, hcall]
    simp
  have hrun : call ≠ [] := fun hnil => by
    rw [hnil] at hcall
    cases hcall
  have hread := line_arityMismatch hp harity hslots hne (rest.map Token.kind)
  rw [← hkinds, List.length_map, List.length_map] at hread
  refine (ConvexLang.readLine_eq_error_iff htokens).2 ⟨_, hread, ?_⟩
  have hspan := (tokenize_placed htokens).span_site hrun (List.nil_append _).symm line.utf8ByteSize
  rw [Stop.toDiagnostic, hspan]

end Call

/-- Over a registry that extends the standard one, an atom that fixes the number of its
    arguments can be called with so many expressions, if it takes any at all: whatever a new
    session was asked to do before, the call is read, with these expressions as its operands.
    A call of the atom with any other number of slots, empty ones included, is refused for it,
    and leaves the session as it is. -/
theorem readLine_call_run {atoms : Registry} {extra : List Atom}
    (h : Registry.standard.extend extra = .ok atoms) {name : String} {p : Profile} {arity : Nat}
    (hp : atoms.get? name = some p) (harity : p.arity = some arity) (calls : List Call) :
    let s := Session.run { atoms } calls
    (∀ es : List Expr, es.length = arity → 0 < arity →
      (∀ e ∈ es, s.ReadsWithin (maxNesting - 2) e) →
        let t : Statement := .expr (.compound name p.sign p.curvature (es.map .expr) false)
        s.readLine (callText name es) =
          ({ s with statements := s.statements ++ [t] }, .ok (.statement t))) ∧
    ∀ (line : String) (call rest : List Token) (ks : List TokenKind) (os : List Operand),
      tokenize line = .ok (call ++ rest) →
      call.map Token.kind = .identifier name :: .leftParen :: (ks ++ [.rightParen]) →
      IsSlots s.scope (maxNesting - 2) ks os → os.length ≠ arity →
        s.readLine line = (s, .error (.atSpan (.semantic (.arityMismatch name arity os.length))
          (spanOfRun call line.utf8ByteSize))) := by
  intro s
  have hs : s.WellAnnotated := (wellAnnotated_of_atoms atoms).run calls
  have hatoms : s.atoms = atoms :=
    (run_induction (P := fun _ => True) trivial (fun _ _ _ => trivial) rfl trivial calls).1
  have hp' : s.atoms.get? name = some p := hatoms ▸ hp
  refine ⟨fun es hlength hpos hes => ?_, fun line call rest ks os htokens hcall hslots hne => ?_⟩
  · exact readLine_of_ok (readLine_callText hs.symbols (Registry.isWritten_of_extend h hp) hp'
      harity hlength hpos hes)
  · rw [Session.readLine, readLine_arityMismatch hp' harity htokens hcall hslots hne]

/-- A cube of an expression with a sign, and of two slots, one of which is empty. -/
theorem readLine_call_run_cube :
    let cube : Atom := { curvature := .convex, sign := .positive, arity := some 1, name := "cube" }
    let atoms := Registry.standard.insert cube.name cube.toProfile
    let s := Session.run { atoms } [.line "variable x"]
    let e : Expr := .operator "-" [.ofSymbol .decision "x" .unknown]
    let t : Statement := .expr (.compound "cube" .positive .convex [.expr e] false)
    Registry.standard.extend [cube] = .ok atoms ∧ s.ReadsWithin (maxNesting - 2) e ∧
      callText "cube" [e] = "cube(-x)" ∧
      s.readLine "cube(-x)" =
        ({ s with statements := s.statements ++ [t] }, .ok (.statement t)) ∧
      s.readLine "cube(1,)" =
        (s, .error (.atSpan (.semantic (.arityMismatch "cube" 1 2)) ⟨0, 8⟩)) := by
  intro cube atoms s e t
  have hcube : Registry.standard.extend [cube] = .ok atoms :=
    Registry.extend_singleton (by decide) (by decide) (by decide +kernel)
  have hp : atoms.get? cube.name = some cube.toProfile := by
    rw [Table.get?_insert, if_pos rfl]
  have hreads : s.ReadsWithin (maxNesting - 2) e := by
    refine ⟨⟨"-x", [.minus, .identifier "x"], ?_, by cbv, by decide⟩, fun x parens hx => ?_⟩
    · simp only [s, atoms, cube, e]
      cbv
    · simp [e, Expr.operator, Expr.nodes, Expr.nodesOperands, Expr.nodesOperand, Expr.ofSymbol] at hx
  have htext : callText "cube" [e] = "cube(-x)" := by cbv
  obtain ⟨hcalled, hrefused⟩ := readLine_call_run hcube hp rfl [.line "variable x"]
  refine ⟨hcube, hreads, htext, ?_, ?_⟩
  · exact htext ▸ hcalled [e] rfl Nat.one_pos (by simpa using hreads)
  · have htokens : tokenize "cube(1,)" = .ok ([⟨.identifier "cube", ⟨0, 4⟩⟩,
        ⟨.leftParen, ⟨4, 5⟩⟩, ⟨.integer 1, ⟨5, 6⟩⟩, ⟨.comma, ⟨6, 7⟩⟩, ⟨.rightParen, ⟨7, 8⟩⟩] ++ []) := by
      cbv
    exact hrefused _ _ _ [.integer 1, .comma] [.expr (.ofNumber (.whole 1)), .absent] htokens rfl
      (show IsSlots _ _ ([.integer 1] ++ [.comma]) _ from
        .cons (.expr (.product (.signed .integer))) (.last .absent)) (by decide)

/-- An atom without arguments is admitted, but its call has one slot, an empty one. -/
theorem nullary_rejected :
    let pi : Atom := { curvature := .constant, sign := .positive, arity := some 0, name := "pi" }
    let atoms := Registry.standard.insert pi.name pi.toProfile
    Registry.standard.extend [pi] = .ok atoms ∧ atoms.get? "pi" = some pi.toProfile ∧
      callText "pi" [] = "pi()" ∧
      Session.readLine { atoms } "pi()" =
        ({ atoms }, .error (.atSpan (.semantic (.arityMismatch "pi" 0 1)) ⟨0, 4⟩)) := by
  intro pi atoms
  refine ⟨Registry.extend_singleton (by decide) (by decide) (by decide +kernel), ?_, by cbv,
    by cbv⟩
  rw [Table.get?_insert, if_pos rfl]

end Session

end ConvexLang
