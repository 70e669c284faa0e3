import ConvexLang.Proofs.Blame
import ConvexLang.Proofs.Checked.Agreement

/-!
# No access out of place

A line is read by positions like it is read as a list, and no check fails on the way
(`readLine_checked`). The places that a diagnostic tells are places in the line as well: its
span begins and ends with whole characters, and it covers some of them unless it stands at
the end of the line.
-/

namespace ConvexLang.Checked

open Grammar

/-! ## Statements and declarations -/

/-- The second result is the first one by positions, where nothing is left to be read. -/
inductive Concludes {α : Type} (tokens : List Token) (size : Nat) :
    Except Stop α → Option (Except Failure α × Cursor) → Prop
  | value {a : α} {c : Cursor} : Concludes tokens size (.ok a) (some (.ok a, c))
  | failure {stop : Stop} {failure : Failure} {c : Cursor} : FailsAs tokens size stop failure →
    Concludes tokens size (.error stop) (some (.error failure, c))

section Line

variable {tokens : List Token} {size depth pos : Nat}

theorem complete_concludes {s : Statement} {rest : List TokenKind} (hle : pos ≤ tokens.length)
    (hrest : rest = kindsFrom tokens pos) :
    Concludes tokens size (Grammar.complete s rest) ((complete tokens s).run ⟨pos, depth⟩) := by
  have hlength : rest.length = tokens.length - pos := by rw [hrest, length_kindsFrom]
  rw [complete, run_bind_ok run_state]
  cases rest with
  | nil =>
    rw [if_neg (by rw [List.length_nil] at hlength; dsimp only; omega)]
    exact .value
  | cons k ks =>
    rw [List.length_cons] at hlength
    have hlt : pos < tokens.length := by omega
    have hlast : tokens.length - 1 < tokens.length := by omega
    rw [if_pos hlt, run_bind_ok (run_tokenAt (List.getElem?_eq_getElem hlt)),
      run_bind_ok (run_tokenAt (List.getElem?_eq_getElem hlast))]
    refine .failure (failsAs_of_tokens (List.getElem?_eq_getElem hlt)
      (List.getElem?_eq_getElem hlast) ?_ rfl)
    rw [List.length_cons]
    omega

/-- A rule that goes on to the end with what another one answers. -/
theorem Answers.conclude {α β : Type} {bound : Nat} {read : Except Stop (Parsed α bound)}
    {result : Except Stop β} {rule : Parsing α} {f : α → Parsing β} {c : Cursor}
    (h : Answers tokens size depth read (rule.run c))
    (herror : ∀ stop, read = .error stop → result = .error stop)
    (hok : ∀ p pos, read = .ok p → pos ≤ tokens.length → p.rest = kindsFrom tokens pos →
      Concludes tokens size result ((f p.value).run ⟨pos, depth⟩)) :
    Concludes tokens size result ((rule >>= f).run c) := by
  cases read with
  | error stop =>
    obtain ⟨failure, pos, hfails, hrun⟩ := h.of_error
    rw [run_bind_error hrun, herror stop rfl]
    exact .failure hfails
  | ok p =>
    obtain ⟨pos, hle, hrest, hrun⟩ := h.of_ok
    rw [run_bind_ok hrun]
    exact hok p pos rfl hle hrest

theorem Concludes.bind {α β : Type} {result : Except Stop α} {result' : Except Stop β}
    {rule : Parsing α} {f : α → Parsing β} {c : Cursor}
    (h : Concludes tokens size result (rule.run c))
    (herror : ∀ stop, result = .error stop → result' = .error stop)
    (hok : ∀ a c', result = .ok a → Concludes tokens size result' ((f a).run c')) :
    Concludes tokens size result' ((rule >>= f).run c) := by
  generalize hrun : rule.run c = answer at h
  cases h with
  | value =>
    rw [run_bind_ok hrun]
    exact hok _ _ rfl
  | failure hfails =>
    rw [run_bind_error hrun, herror _ rfl]
    exact .failure hfails

theorem relation?_head? {ks : List TokenKind} (h : ∀ r rest, ks ≠ .relation r :: rest) :
    ks.head?.bind relation? = none := by
  match ks with
  | [] => rfl
  | k :: ks =>
    cases k with
    | relation r => exact absurd rfl (h r ks)
    | _ => rfl

theorem statement_concludes {operand : Parsing Expr} {read : Reader Expr}
    (h : Agrees tokens size depth operand read) {input : List TokenKind}
    (hle : pos ≤ tokens.length) (hinput : input = kindsFrom tokens pos) :
    Concludes tokens size (Grammar.statement read input)
      ((statement tokens operand).run ⟨pos, depth⟩) := by
  rw [Grammar.statement]
  refine (additive_agrees h hle hinput).conclude (fun stop hread => by simp only [hread]) ?_
  intro left pos₁ hread hle₁ hrest₁
  simp only [hread]
  rw [run_bind_ok run_peekKind, ← hrest₁]
  split
  · -- a constraint, if nothing is behind its second side
    rename_i r rest hcons
    rw [hcons] at hrest₁ ⊢
    obtain ⟨t, -, -, hbehind, hle₂, hbump⟩ := run_bump depth hrest₁
    dsimp only [List.head?_cons, Option.bind_some, relation?]
    rw [run_bind_ok hbump]
    refine (additive_agrees h hle₂ hbehind).conclude (fun stop hread => by simp only [hread]) ?_
    intro right pos₃ hread hle₃ hrest₃
    simp only [hread]
    rw [run_bind_ok run_peekKind, ← hrest₃]
    split
    · -- a second relation, which is refused itself
      rename_i r' after hcons'
      rw [hcons'] at hrest₃ ⊢
      obtain ⟨u, hu, -, hbehind', hle₄, -⟩ := run_bump depth hrest₃
      have hlength : after.length = tokens.length - (pos₃ + 1) := by
        rw [hbehind', length_kindsFrom]
      dsimp only [List.head?_cons, Option.bind_some, relation?]
      rw [run_bind_ok run_state, run_bind_ok (run_tokenAt hu)]
      exact .failure (failsAs_of_token hu (by omega) (by omega))
    · rename_i hno
      rw [relation?_head? hno]
      exact complete_concludes hle₃ hrest₃
  · rename_i hno
    rw [relation?_head? hno]
    exact complete_concludes hle₁ hrest₁

theorem names_refused {k : TokenKind} {ks : List TokenKind} (h : ∀ name, k ≠ .identifier name) :
    Grammar.names (k :: ks) = .error (.unexpected (k :: ks)) := by
  cases k with
  | identifier name => exact absurd rfl (h name)
  | _ => rfl

/-- `front` are the tokens in front of the names, and `before` the names that were read. -/
theorem names_conclude {front rest ts : List Token} (before : List Token) {c : Cursor}
    (htokens : tokens = front ++ rest) (hrest : rest = before ++ ts) :
    Concludes tokens size (Grammar.names (ts.map Token.kind))
      ((names tokens rest before.length ts).run c) := by
  induction ts generalizing before with
  | nil => exact .value
  | cons t ts ih =>
    rw [names, List.map_cons]
    split
    · rename_i name hname
      have hmore := ih (before ++ [t]) (by rw [hrest, List.append_cons])
      rw [List.length_append] at hmore
      rw [hname, Grammar.names]
      exact hmore.bind (fun stop hread => by rw [hread]) fun ns c' hread => hread ▸ .value
    · -- the names end the line, so where they end tells how many tokens are in front of them
      rename_i hno
      have hskipped : minus? tokens.length rest.length = some front.length := by
        rw [minus?, htokens, List.length_append, if_pos (Nat.le_add_left _ _),
          Nat.add_sub_cancel]
      rw [names_refused hno, hskipped, run_bind_ok run_check]
      refine .failure (.unexpected ?_ ?_)
      · rw [htokens, hrest, List.length_append, List.length_append]
        omega
      · rw [htokens, hrest, kindsFrom, ← List.append_assoc, ← List.length_append, List.drop_left]
        rfl

theorem declaredSign_of_no_sign {ks : List TokenKind} (h : ∀ s rest, ks ≠ .sign s :: rest) :
    Grammar.declaredSign ks = (.unknown, ks) := by
  rw [Grammar.declaredSign.eq_def]
  split
  · exact absurd rfl (h _ _)
  · rfl

/-- The sign in front of the names is the same, and the names are what is behind it. -/
theorem run_declaredSign (rest : List Token) (c : Cursor) :
    ∃ front sign names, rest = front ++ names ∧
      Grammar.declaredSign (rest.map Token.kind) = (sign, names.map Token.kind) ∧
      (declaredSign rest).run c = some (.ok (sign, names), c) := by
  rw [declaredSign]
  split
  · rename_i s hsign
    obtain ⟨t, ht, hs⟩ := Option.map_eq_some_iff.1 hsign
    obtain ⟨names, rfl⟩ := List.head?_eq_some_iff.1 ht
    refine ⟨[t], s, names, rfl, by rw [List.map_cons, hs, Grammar.declaredSign], ?_⟩
    rw [drop?, if_pos (by simp)]
    exact run_bind_ok run_check
  · rename_i hno
    refine ⟨[], .unknown, rest, rfl, declaredSign_of_no_sign fun s ks hks => hno s ?_, rfl⟩
    rw [← List.head?_map, hks, List.head?_cons]

/-- Behind its first word, which is `t`, a declaration is read the same. -/
theorem declaration_concludes {role : Role} {t : Token} {rest : List Token} {c : Cursor}
    (htokens : tokens = t :: rest) :
    Concludes tokens size (Grammar.declaration role (rest.map Token.kind))
      ((declaration tokens role).run c) := by
  have hdrop : drop? 1 tokens = some rest := by
    rw [htokens, drop?, if_pos (by simp)]
    rfl
  obtain ⟨front, sign, names, hfront, hsign, hrun⟩ := run_declaredSign rest c
  rw [declaration, hdrop, run_bind_ok run_check, run_bind_ok hrun, Grammar.declaration, hsign]
  have hbehind : tokens = (t :: front) ++ names := by rw [htokens, hfront, List.cons_append]
  refine (names_conclude [] hbehind (List.nil_append names).symm).bind
    (fun stop hread => by simp only [hread]) fun ns c' hread => ?_
  simp only [hread]
  cases ns with
  | nil =>
    refine .failure (.unexpected le_rfl ?_)
    rw [kindsFrom, List.drop_length]
    rfl
  | cons n ns => exact .value

theorem line_of_no_declaration {scope : Scope} {k : TokenKind} {ks : List TokenKind}
    (h : ∀ role, k ≠ .declare role) :
    Grammar.line scope (k :: ks) =
      match Grammar.statement (signed scope maxNesting) (k :: ks) with
      | .error stop => .error stop
      | .ok s => .ok (.statement s) := by
  cases k with
  | declare role => exact absurd rfl (h role)
  | _ => rfl

theorem line_concludes {scope : Scope} :
    Concludes tokens size (Grammar.line scope (tokens.map Token.kind))
      ((line tokens scope).run ⟨0, 0⟩) := by
  cases htokens : tokens with
  | nil => exact .value
  | cons t rest =>
    rw [line, List.head?_cons, Option.map_some, List.map_cons]
    split
    · contradiction
    · rename_i role hrole
      rw [Option.some.injEq] at hrole
      rw [hrole, Grammar.line]
      refine (declaration_concludes rfl).bind (fun stop hread => by simp only [hread]) ?_
      intro declared c' hread
      simp only [hread]
      exact .value
    · rename_i hno heq
      rw [Option.some.injEq] at heq
      subst heq
      have hunary : Agrees (t :: rest) size 0 (unary (t :: rest) scope (maxNesting + 1))
          (signed scope maxNesting) := unary_agrees _ rfl (Nat.lt_succ_self _)
      have hstatement : Concludes (t :: rest) size
          (Grammar.statement (signed scope maxNesting) (t.kind :: rest.map Token.kind))
          ((statement (t :: rest) (unary (t :: rest) scope (maxNesting + 1))).run ⟨0, 0⟩) :=
        statement_concludes hunary (Nat.zero_le _) rfl
      rw [line_of_no_declaration hno]
      refine hstatement.bind (fun stop hread => by simp only [hread]) fun s c' hread => ?_
      simp only [hread]
      exact .value

/-- A reading by positions fails with the diagnostic of the other one. -/
theorem FailsAs.toDiagnostic_eq {text : String} {stop : Stop} {failure : Failure}
    (h : FailsAs tokens text.utf8ByteSize stop failure) :
    failure.toDiagnostic text tokens = stop.toDiagnostic text tokens := by
  cases h with
  | @unexpected rest pos hle hrest =>
    have hlength : rest.length = tokens.length - pos := by rw [hrest, length_kindsFrom]
    rw [Failure.toDiagnostic, Stop.toDiagnostic, spanAt]
    congr 1
    rw [Site.span]
    by_cases hlt : pos < tokens.length
    · rw [show tokens.length - rest.length = pos by omega,
        show tokens.length - 1 - (rest.length - 1) = pos by omega, List.getElem?_eq_getElem hlt]
      exact (cover_self _).symm
    · rw [List.getElem?_eq_none (Nat.not_lt.1 hlt),
        List.getElem?_eq_none (show tokens.length ≤ tokens.length - rest.length by omega)]
      rfl
  | settled _ _ _ hspan =>
    rw [Failure.toDiagnostic, Stop.toDiagnostic, hspan]

end Line

/-- Reading a line by positions, no check fails, and it is read the same. -/
theorem readLine_eq (scope : Scope) (text : String) :
    readLine scope text = some (ConvexLang.readLine scope text) := by
  rw [readLine, tokenize_eq, ConvexLang.readLine]
  cases ConvexLang.tokenize text with
  | error e => rfl
  | ok tokens =>
    have hline : Concludes tokens text.utf8ByteSize (Grammar.line scope (tokens.map Token.kind))
        ((line tokens scope).run ⟨0, 0⟩) := line_concludes
    dsimp only
    generalize (line tokens scope).run ⟨0, 0⟩ = answer at hline
    generalize Grammar.line scope (tokens.map Token.kind) = result at hline
    cases hline with
    | value => rfl
    | failure hfails =>
      exact congrArg (fun d => some (Except.error d : Except Diagnostic Line))
        hfails.toDiagnostic_eq

/-! ## Spans -/

/-- The span begins and ends with whole characters of the text, and covers some of them unless
    it stands at the end. -/
structure IsPlace (text : String) (s : Span) : Prop where
  /-- It is not reversed. -/
  first_le_past : s.first ≤ s.past
  /-- It ends in the text. -/
  past_le : s.past ≤ text.utf8ByteSize
  /-- It begins with a character, or at the end. -/
  first_isValid : String.Pos.Raw.IsValid text ⟨s.first⟩
  /-- It ends with a character, or is empty. -/
  past_isValid : String.Pos.Raw.IsValid text ⟨s.past⟩
  /-- It is empty only at the end of the text. -/
  nonempty : s.first < s.past ∨ s = ⟨text.utf8ByteSize, text.utf8ByteSize⟩

/-- The end of a text is a place in it. -/
theorem isPlace_end (text : String) : IsPlace text ⟨text.utf8ByteSize, text.utf8ByteSize⟩ := by
  have hend : String.Pos.Raw.IsValid text ⟨text.utf8ByteSize⟩ :=
    isValid_iff.2 ⟨text.toList, [], (List.append_nil _).symm, (byteSize_toList text).symm⟩
  exact ⟨le_rfl, le_rfl, hend, hend, .inr rfl⟩

/-- So are the bytes of a part of it that is not empty. -/
theorem isPlace_of_append {text : String} {before part after : List Char}
    (htext : text.toList = before ++ (part ++ after)) (hne : part ≠ []) :
    IsPlace text ⟨Text.byteSize before, Text.byteSize (before ++ part)⟩ := by
  have hpos := byteSize_pos hne
  have hsize := congrArg Text.byteSize htext
  simp only [byteSize_toList, Text.byteSize_append] at hsize ⊢
  refine ⟨by dsimp only; omega, by dsimp only; omega, ?_, ?_, .inl (by dsimp only; omega)⟩
  · exact isValid_iff.2 ⟨before, part ++ after, htext, rfl⟩
  · exact isValid_iff.2 ⟨before ++ part, after, by rw [htext, List.append_assoc],
      (Text.byteSize_append ..).symm⟩

/-- The bytes from one place in a text to another are a place as well, if there are any. -/
theorem IsPlace.cover {text : String} {s t : Span} (hs : IsPlace text s) (ht : IsPlace text t)
    (hne : s.first < s.past) : IsPlace text (s.cover t) := by
  have hlt : min s.first t.first < max s.past t.past :=
    (min_le_left _ _).trans_lt (hne.trans_le (le_max_left _ _))
  refine ⟨hlt.le, max_le hs.past_le ht.past_le, ?_, ?_, .inl hlt⟩
  · change String.Pos.Raw.IsValid text ⟨min s.first t.first⟩
    rcases min_choice s.first t.first with h | h <;> rw [h]
    · exact hs.first_isValid
    · exact ht.first_isValid
  · change String.Pos.Raw.IsValid text ⟨max s.past t.past⟩
    rcases max_choice s.past t.past with h | h <;> rw [h]
    · exact hs.past_isValid
    · exact ht.past_isValid

/-- The bytes of a token are a place in the line. -/
theorem isPlace_of_mem {text : String} {tokens : List Token} {t : Token}
    (htokens : ConvexLang.tokenize text = .ok tokens) (ht : t ∈ tokens) :
    IsPlace text t.span := by
  obtain ⟨before, part, after, htext, hdenotes, hspan⟩ :=
    (tokensFrom_eq_ok_iff.1 htokens).exists_text ht
  obtain ⟨c, cs, rfl, -⟩ := Lexeme.exists_cons_of_denotes hdenotes
  rw [Nat.zero_add, Nat.zero_add] at hspan
  exact hspan ▸ isPlace_of_append htext (List.cons_ne_nil c cs)

/-- The first character that cannot be read is a place in the line. -/
theorem isPlace_of_lexicalError {text : String} {e : LexicalError}
    (h : ConvexLang.tokenize text = .error e) : IsPlace text e.span := by
  obtain ⟨ts, n, c, after, hcut, -, rfl⟩ := tokensFrom_eq_error_iff.1 h
  obtain ⟨front, htext, rfl, -⟩ := hcut.exists_front
  have hplace : IsPlace text ⟨Text.byteSize front, Text.byteSize (front ++ [c])⟩ :=
    isPlace_of_append htext (List.cons_ne_nil c [])
  rw [Nat.zero_add]
  rwa [Text.byteSize_append] at hplace

/-- A reading by positions points at a place in the line where it fails. -/
theorem FailsAs.isPlace {text : String} {tokens : List Token} {stop : Stop} {failure : Failure}
    (htokens : ConvexLang.tokenize text = .ok tokens)
    (h : FailsAs tokens text.utf8ByteSize stop failure) :
    ∃ s, (failure.toDiagnostic text tokens).span = some s ∧ IsPlace text s := by
  cases h with
  | @unexpected _ pos _ _ =>
    refine ⟨_, rfl, ?_⟩
    rw [spanAt]
    cases ht : tokens[pos]? with
    | none => exact isPlace_end text
    | some t => exact isPlace_of_mem htokens (List.mem_of_getElem? ht)
  | settled ha hb hcover _ =>
    refine ⟨_, rfl, ?_⟩
    rw [hcover]
    exact (isPlace_of_mem htokens ha).cover (isPlace_of_mem htokens hb)
      ((tokenize_placed htokens).within _ ha).2.1

/-- The diagnostic of a line points at a place in it. -/
theorem isPlace_of_readLine {scope : Scope} {text : String} {d : Diagnostic}
    (h : ConvexLang.readLine scope text = .error d) : ∃ s, d.span = some s ∧ IsPlace text s := by
  cases htokens : ConvexLang.tokenize text with
  | error e =>
    rw [ConvexLang.readLine, htokens] at h
    cases h
    exact ⟨e.span, rfl, isPlace_of_lexicalError htokens⟩
  | ok tokens =>
    obtain ⟨stop, hstop, rfl⟩ := (readLine_eq_error_iff htokens).1 h
    have hline : Concludes tokens text.utf8ByteSize (Grammar.line scope (tokens.map Token.kind))
        ((line tokens scope).run ⟨0, 0⟩) := line_concludes
    rw [hstop] at hline
    generalize (line tokens scope).run ⟨0, 0⟩ = answer at hline
    cases hline with
    | failure hfails => exact hfails.toDiagnostic_eq ▸ hfails.isPlace htokens

/-- A line is read by positions without a check that fails, and read the same. Wherever in the
    line a signed operand is read on its own, it leaves the reading as deep as it was, whether
    it is there or not. And a diagnostic points at a place in the line. -/
theorem readLine_checked (scope : Scope) (text : String) :
    readLine scope text = some (ConvexLang.readLine scope text) ∧
    (∀ tokens pos depth, pos ≤ tokens.length → depth ≤ maxNesting →
      ∃ answer pos', (unary tokens scope (maxNesting + 1)).run ⟨pos, depth⟩ =
        some (answer, ⟨pos', depth⟩)) ∧
    ∀ d, ConvexLang.readLine scope text = .error d → ∃ s, d.span = some s ∧
      s.first ≤ s.past ∧ s.past ≤ text.utf8ByteSize ∧
      String.Pos.Raw.IsValid text ⟨s.first⟩ ∧ String.Pos.Raw.IsValid text ⟨s.past⟩ ∧
      (s.first < s.past ∨ s = ⟨text.utf8ByteSize, text.utf8ByteSize⟩) := by
  refine ⟨readLine_eq scope text, fun tokens pos depth hle hdepth => ?_, fun d hd => ?_⟩
  · have hagrees : Agrees tokens 0 depth (unary tokens scope (maxNesting + 1))
        (signed scope (maxNesting - depth)) :=
      unary_agrees _ (Nat.sub_add_cancel hdepth) (by omega)
    exact (hagrees hle rfl).exists_run
  · obtain ⟨s, hs, hplace⟩ := isPlace_of_readLine hd
    exact ⟨s, hs, hplace.first_le_past, hplace.past_le, hplace.first_isValid,
      hplace.past_isValid, hplace.nonempty⟩

end ConvexLang.Checked
