import ConvexLang.Proofs.Failure

/-!
# Which call is blamed

Where the reading of a line fails, the innermost open call takes the blame if a parenthesis
is closed somewhere in the rest of the line, and otherwise the line does.

* `HasClosing`: by counting, the kinds hold the parenthesis that closes what was opened in
  front of them.
* `AreOpen`: where a reading fails, the open calls stand within each other, and none of them
  was closed by what was read of its slots.
* `readLine_blames`: what is reported. A call whose own closing parenthesis exists is blamed
  if it is the innermost open call. So is one without, if a parenthesis is closed behind the
  failure that was opened within the call (`readLine_blames_unclosed`).
-/

namespace ConvexLang

namespace Grammar

variable {scope : Scope}

/-! ## The parenthesis that closes a call -/

section Counting

variable {ks ls rest : List TokenKind} {m n : Nat}

/-- The kinds hold the parenthesis that closes what was opened in front of them: between
    the two, as many parentheses are opened as are closed. -/
def HasClosing (ks : List TokenKind) : Prop :=
  ∃ inside after, ks = inside ++ .rightParen :: after ∧ depthBehind? 0 inside = some 0

theorem exists_closing (h : depthBehind? m ks = none) :
    ∃ inside after, ks = inside ++ .rightParen :: after ∧ depthBehind? m inside = some 0 := by
  induction ks generalizing m with
  | nil => cases h
  | cons k ks ih =>
    have hbehind : ∀ {n}, depthBehind? m (k :: ks) = depthBehind? n ks →
        (∀ inside, depthBehind? m (k :: inside) = depthBehind? n inside) →
          ∃ inside after, k :: ks = inside ++ .rightParen :: after ∧
            depthBehind? m inside = some 0 := by
      intro n hn hk
      obtain ⟨inside, after, rfl, hinside⟩ := ih (hn ▸ h)
      exact ⟨k :: inside, after, rfl, (hk inside).trans hinside⟩
    cases k with
    | rightParen =>
      cases m with
      | zero => exact ⟨[], ks, rfl, rfl⟩
      | succ m => exact hbehind rfl fun _ => rfl
    | _ => exact hbehind rfl fun _ => rfl

/-- Counting fails exactly at the parenthesis that closes what was opened in front. -/
theorem hasClosing_iff : HasClosing ks ↔ depthBehind? 0 ks = none := by
  refine ⟨fun ⟨inside, after, hks, hinside⟩ => ?_, exists_closing⟩
  rw [hks, depthBehind?_append, hinside]
  rfl

/-- What is counted from some depth is counted alike from further down. -/
theorem depthBehind?_add (h : depthBehind? m ks = some n) (d : Nat) :
    depthBehind? (m + d) ks = some (n + d) := by
  induction ks generalizing m with
  | nil =>
    cases h
    rfl
  | cons k ks ih =>
    cases k with
    | leftParen =>
      have := ih (m := m + 1) h
      rwa [Nat.add_right_comm] at this
    | rightParen =>
      cases m with
      | zero => cases h
      | succ m =>
        rw [Nat.add_right_comm]
        exact ih h
    | _ => exact ih h

theorem not_hasClosing_iff : ¬HasClosing ks ↔ ∃ n, depthBehind? 0 ks = some n := by
  rw [hasClosing_iff, ← ne_eq, Option.ne_none_iff_exists']

theorem HasClosing.append (h : HasClosing ks) (ls : List TokenKind) : HasClosing (ks ++ ls) := by
  obtain ⟨inside, after, rfl, hinside⟩ := h
  exact ⟨inside, after ++ ls, by simp, hinside⟩

/-- What closes nothing behind what closes nothing closes nothing. -/
theorem HasClosing.of_append (h : HasClosing (ks ++ ls)) (hks : ¬HasClosing ks) :
    HasClosing ls := by
  by_contra hls
  obtain ⟨m, hm⟩ := not_hasClosing_iff.1 hks
  obtain ⟨n, hn⟩ := not_hasClosing_iff.1 hls
  rw [hasClosing_iff, depthBehind?_append, hm, Option.bind_some] at h
  have hadd := depthBehind?_add hn m
  rw [Nat.zero_add, h] at hadd
  cases hadd

/-- What is open behind some kinds is closed only by a parenthesis that follows. -/
theorem HasClosing.mem (h : HasClosing (ks ++ rest)) (hks : ¬HasClosing ks) :
    .rightParen ∈ rest := by
  obtain ⟨inside, after, hrest, -⟩ := h.of_append hks
  rw [hrest]
  exact List.mem_append_right _ List.mem_cons_self

theorem IsBalanced.not_hasClosing (h : IsBalanced ks) : ¬HasClosing ks :=
  not_hasClosing_iff.2 ⟨0, h 0⟩

theorem not_hasClosing_append (hks : ¬HasClosing ks) (hls : ¬HasClosing ls) :
    ¬HasClosing (ks ++ ls) :=
  fun h => hls (h.of_append hks)

end Counting

/-! ## Open calls -/

/-- The call was opened among the kinds, and they end with what was read of its slots. -/
def OpenCall.IsIn (c : OpenCall) (ks : List TokenKind) : Prop :=
  ∃ before, ks = before ++ .identifier c.name :: .leftParen :: c.inside

/-- By counting, the parenthesis that closes the call is there, whose slots were read up to
    the rest. -/
def OpenCall.IsClosedIn (c : OpenCall) (rest : List TokenKind) : Prop :=
  HasClosing (c.inside ++ rest)

/-- Behind the kinds, which close nothing that was opened in front of them, the calls are
    open, each within the next. -/
structure AreOpen (ks : List TokenKind) (calls : List OpenCall) : Prop where
  /-- What was opened in front of the kinds is still open. -/
  noClosing : ¬HasClosing ks
  /-- The calls were opened. -/
  isIn : ∀ c ∈ calls, c.IsIn ks
  /-- What was read of their slots does not close them. -/
  noClosingInside : ∀ c ∈ calls, ¬HasClosing c.inside
  /-- Each of them stands in the slots of those that follow. -/
  nested : calls.Pairwise fun c c' => c.IsIn c'.inside

theorem OpenCall.IsIn.behind {c : OpenCall} {ks : List TokenKind} (h : c.IsIn ks)
    (front : List TokenKind) : c.IsIn (front ++ ks) := by
  obtain ⟨before, rfl⟩ := h
  exact ⟨front ++ before, (List.append_assoc ..).symm⟩

theorem areOpen_nil {ks : List TokenKind} (h : ¬HasClosing ks) : AreOpen ks [] :=
  ⟨h, nofun, nofun, .nil⟩

theorem AreOpen.behind {ks : List TokenKind} {calls : List OpenCall} (h : AreOpen ks calls)
    {front : List TokenKind} (hfront : ¬HasClosing front) : AreOpen (front ++ ks) calls :=
  ⟨not_hasClosing_append hfront h.noClosing, fun c hc => (h.isIn c hc).behind front,
    h.noClosingInside, h.nested⟩

/-- A parenthesis, or anything else that closes none, in front of the kinds. -/
theorem AreOpen.cons {ks : List TokenKind} {calls : List OpenCall} (h : AreOpen ks calls)
    {k : TokenKind} (hk : k ≠ .rightParen) : AreOpen (k :: ks) calls := by
  have hfront : ¬HasClosing [k] := by
    refine not_hasClosing_iff.2 ?_
    cases k <;> first | contradiction | exact ⟨_, rfl⟩
  exact h.behind hfront

theorem AreOpen.between {ks ls : List TokenKind} {calls : List OpenCall} (h : AreOpen ls calls)
    (hks : IsBalanced ks) {k : TokenKind} (hk : k ≠ .rightParen) :
    AreOpen (ks ++ k :: ls) calls :=
  (h.cons hk).behind hks.not_hasClosing

/-- One more call around those that are open. -/
theorem AreOpen.call {ks : List TokenKind} {calls : List OpenCall} (h : AreOpen ks calls)
    (name : String) :
    AreOpen (.identifier name :: .leftParen :: ks) (calls ++ [⟨name, ks⟩]) := by
  have hks : AreOpen (.identifier name :: .leftParen :: ks) calls := (h.cons (by simp)).cons (by simp)
  refine ⟨hks.noClosing, fun c hc => ?_, fun c hc => ?_, ?_⟩
  · rcases List.mem_append.1 hc with hc | hc
    · exact hks.isIn c hc
    · rw [List.mem_singleton.1 hc]
      exact ⟨[], rfl⟩
  · rcases List.mem_append.1 hc with hc | hc
    · exact h.noClosingInside c hc
    · rw [List.mem_singleton.1 hc]
      exact h.noClosing
  · refine List.pairwise_append.2 ⟨h.nested, List.pairwise_singleton _ _, fun c hc c' hc' => ?_⟩
    rw [List.mem_singleton.1 hc']
    exact h.isIn c hc

mutual

theorem FailsInSigned.areOpen {n : Nat} {ks rest : List TokenKind} {calls : List OpenCall} :
    FailsInSigned scope n ks rest calls → AreOpen ks calls
  | .here _ => areOpen_nil isBalanced_nil.not_hasClosing
  | .plus d | .minus d => d.areOpen.cons nofun
  | .call d => d.areOpen.call _
  | .parens d => d.areOpen.cons nofun
  | .unclosed d _ _ => (areOpen_nil d.isBalanced.not_hasClosing).cons nofun

theorem FailsInProduct.areOpen {n : Nat} {ks rest : List TokenKind} {calls : List OpenCall} :
    FailsInProduct scope n ks rest calls → AreOpen ks calls
  | .first d => d.areOpen
  | .next d hk d' => d'.areOpen.between d.isBalanced (by rintro rfl; cases hk)

theorem FailsInSum.areOpen {n : Nat} {ks rest : List TokenKind} {calls : List OpenCall} :
    FailsInSum scope n ks rest calls → AreOpen ks calls
  | .first d => d.areOpen
  | .next d hk d' => d'.areOpen.between d.isBalanced (by rintro rfl; cases hk)

/-- Where the reading of the slots of a call fails, the calls are open. -/
theorem FailsInSlots.areOpen {n : Nat} {ks rest : List TokenKind} {calls : List OpenCall} :
    FailsInSlots scope n ks rest calls → AreOpen ks calls
  | .first d _ => d.areOpen
  | .next d d' => d'.areOpen.between d.isBalanced nofun
  | .word _ => areOpen_nil (isBalanced_singleton (by simp) (by simp)).not_hasClosing
  | .expr d _ _ => areOpen_nil d.isBalanced.not_hasClosing

end

theorem FailsInStatement.areOpen {ks rest : List TokenKind} {calls : List OpenCall} :
    FailsInStatement scope ks rest calls → AreOpen ks calls
  | .left d => d.areOpen
  | .right d d' => d'.areOpen.between d.isBalanced nofun

/-! ## Who is blamed -/

/-- The innermost open call takes the blame if a parenthesis is closed in the rest. -/
theorem Stop.blaming_of_mem {rest : List TokenKind} (h : .rightParen ∈ rest) (c : OpenCall)
    (calls : List OpenCall) :
    blaming rest (c :: calls) = .settled (.grammatical (.malformedCall c.name))
      ⟨(c.inside ++ rest).length + 2, 0⟩ := by
  have hcontains : rest.contains .rightParen = true := List.contains_iff_mem.2 h
  induction calls using List.reverseRecOn with
  | nil =>
    rw [← List.nil_append [c], blaming_concat, blaming_nil, inCall, if_pos hcontains]
  | append_singleton calls c' ih =>
    rw [← List.cons_append, blaming_concat, ih, inCall]
    rintro _ ⟨⟩

/-- If no parenthesis is closed in the rest, no call takes the blame. -/
theorem Stop.blaming_of_not_mem {rest : List TokenKind} (h : .rightParen ∉ rest)
    (calls : List OpenCall) : blaming rest calls = .unexpected rest := by
  have hcontains : ¬rest.contains .rightParen = true := fun hmem => h (List.contains_iff_mem.1 hmem)
  induction calls using List.reverseRecOn with
  | nil => rfl
  | append_singleton calls c ih => rw [blaming_concat, ih, inCall, if_neg hcontains]

/-- A line that fails within a call is refused as the call is blamed. -/
theorem FailsInStatement.line_eq_error {ks rest : List TokenKind} {c : OpenCall}
    {calls : List OpenCall} (h : FailsInStatement scope ks rest (c :: calls)) :
    line scope (ks ++ rest) = .error (.blaming rest (c :: calls)) := by
  refine (Grammar.line_eq_error_iff (Begins.append ?_ rest)).2 h.eq_error
  refine h.nil_or_begins.resolve_left ?_
  rintro rfl
  obtain ⟨before, hbefore⟩ := h.areOpen.isIn c List.mem_cons_self
  simp at hbefore

/-- A call is closed if one is that stands around it. -/
theorem AreOpen.isClosedIn {ks rest : List TokenKind} {c : OpenCall} {calls : List OpenCall}
    (h : AreOpen ks (c :: calls)) {c' : OpenCall} (hc' : c' ∈ calls)
    (hclosed : c'.IsClosedIn rest) : c.IsClosedIn rest := by
  obtain ⟨before, hinside⟩ := (List.pairwise_cons.1 h.nested).1 c' hc'
  have hopen := h.noClosingInside c' (List.mem_cons_of_mem _ hc')
  rw [List.append_cons, List.append_cons] at hinside
  rw [hinside] at hopen
  rw [OpenCall.IsClosedIn, hinside, List.append_assoc] at hclosed
  exact hclosed.of_append fun hfront => hopen (hfront.append _)

/-- Why a line may be refused: a declaration for an unexpected kind, anything else as a
    statement is. -/
theorem line_refuses {ks : List TokenKind} {stop : Stop} (h : line scope ks = .error stop) :
    (∃ role rest, ks.head? = some (.declare role) ∧ stop = .unexpected rest) ∨
      IsRefused (FailsInStatement scope) ks stop ∨
        (∃ site, stop = .settled (.grammatical .chainedConstraint) site) ∨
          ∃ text site, stop = .settled (.grammatical (.trailingInput text)) site := by
  rw [line.eq_def] at h
  split at h
  · cases h
  · split at h
    · rename_i hread
      cases h
      obtain ⟨-, rest, -, rfl⟩ := declaration_eq_error hread
      exact .inl ⟨_, rest, rfl, rfl⟩
    · cases h
  · split at h
    · cases h
      exact .inr (statement_refuses ‹_›)
    · cases h

/-! ## Lines -/

/-- The reading of a line fails between its tokens, with the calls open. -/
def FailsAt (scope : Scope) (front behind : List Token) (calls : List OpenCall) : Prop :=
  FailsInStatement scope (front.map Token.kind) (behind.map Token.kind) calls

end Grammar

open Grammar

section Readings

variable {scope : Scope} {text : String} {tokens front behind : List Token} {c : OpenCall}
  {calls : List OpenCall}

/-- A line that fails in front of a token is refused at that token, and otherwise at its
    end. -/
theorem toDiagnostic_unexpected (htokens : tokenize text = .ok tokens)
    (hbehind : tokens = front ++ behind) :
    Stop.toDiagnostic text tokens (.unexpected (behind.map Token.kind)) =
      .atSpan (.grammatical (.invalidExpression text))
        (spanOfRun (behind.take 1) text.utf8ByteSize) := by
  cases behind with
  | nil => simp [Stop.toDiagnostic, Site.span, hbehind, spanOfRun]
  | cons t after =>
    have hspan := (tokenize_placed htokens).span_site (List.cons_ne_nil t []) hbehind
      text.utf8ByteSize
    rw [List.take_succ_cons, List.take_zero, ← hspan]
    simp [Stop.toDiagnostic]

theorem readLine_malformedCall (htokens : tokenize text = .ok tokens)
    (hbehind : tokens = front ++ behind) (h : FailsAt scope front behind (c :: calls))
    (hmem : .rightParen ∈ behind.map Token.kind) :
    ∃ before run, tokens = before ++ run ∧
      run.map Token.kind =
        .identifier c.name :: .leftParen :: (c.inside ++ behind.map Token.kind) ∧
      readLine scope text = .error (.atSpan (.grammatical (.malformedCall c.name))
        (spanOfRun run text.utf8ByteSize)) := by
  obtain ⟨before, hfront⟩ := h.areOpen.isIn c List.mem_cons_self
  obtain ⟨before, opened, rfl, rfl, hopened⟩ := List.map_eq_append_iff.1 hfront
  have hkinds : (opened ++ behind).map Token.kind =
      .identifier c.name :: .leftParen :: (c.inside ++ behind.map Token.kind) := by
    rw [List.map_append, hopened, List.cons_append, List.cons_append]
  rw [List.append_assoc] at hbehind
  refine ⟨before, opened ++ behind, hbehind, hkinds, ?_⟩
  have hrun : opened ++ behind ≠ [] := fun hnil => by
    rw [hnil] at hkinds
    cases hkinds
  have hline := h.line_eq_error
  rw [Stop.blaming_of_mem hmem, ← List.map_append, List.append_assoc, ← hbehind] at hline
  refine (readLine_eq_error_iff htokens).2 ⟨_, hline, ?_⟩
  -- the site of the call runs to the end of the line
  have hlength : (c.inside ++ behind.map Token.kind).length + 2 = (opened ++ behind).length := by
    rw [← List.length_map Token.kind, hkinds]
    rfl
  rw [← List.append_nil (opened ++ behind)] at hbehind
  rw [Stop.toDiagnostic, hlength, ← (tokenize_placed htokens).span_site hrun hbehind,
    List.append_nil, List.length_nil]

/-- A line is refused as unexpected or for a malformed call only where its reading fails, or
    as a declaration. -/
theorem exists_failsAt (htokens : tokenize text = .ok tokens) {d : Diagnostic}
    (h : readLine scope text = .error d)
    (hd : d.problem = .grammatical (.invalidExpression text) ∨
      ∃ name, d.problem = .grammatical (.malformedCall name)) :
    (∃ role rest, (tokens.map Token.kind).head? = some (.declare role) ∧
      d = Stop.toDiagnostic text tokens (.unexpected rest)) ∨
    ∃ front behind calls, tokens = front ++ behind ∧ FailsAt scope front behind calls ∧
      d = (Stop.blaming (behind.map Token.kind) calls).toDiagnostic text tokens := by
  obtain ⟨stop, hstop, rfl⟩ := (readLine_eq_error_iff htokens).1 h
  rcases line_refuses hstop with ⟨role, rest, hrole, rfl⟩ | hrefused | ⟨site, rfl⟩ | ⟨s, site, rfl⟩
  · exact .inl ⟨role, rest, hrole, rfl⟩
  · cases hrefused with
    | failure hinput hf =>
      obtain ⟨front, behind, rfl, rfl, rfl⟩ := List.map_eq_append_iff.1 hinput
      exact .inr ⟨front, behind, _, rfl, hf, rfl⟩
    | semantic => simp [Stop.toDiagnostic, Diagnostic.atSpan] at hd
  · simp [Stop.toDiagnostic, Diagnostic.atSpan] at hd
  · simp [Stop.toDiagnostic, Diagnostic.atSpan] at hd

/-- Where the reading of a line fails within a call, the innermost open call is blamed
    exactly if a parenthesis is closed in the rest of the line; otherwise the line is, and no
    open call is closed in it. The call is blamed if its own closing parenthesis is there,
    which is so if that of a call around it is. Nothing else blames a call, and nothing but
    such a failure blames a line that is no declaration. -/
theorem readLine_blames (htokens : tokenize text = .ok tokens) :
    (∀ front behind c calls, tokens = front ++ behind → FailsAt scope front behind (c :: calls) →
      let rest := behind.map Token.kind
      (c.IsClosedIn rest → .rightParen ∈ rest) ∧
      (∀ c' ∈ calls, c'.IsClosedIn rest → c.IsClosedIn rest) ∧
      (.rightParen ∈ rest → ∃ before run, tokens = before ++ run ∧
        run.map Token.kind = .identifier c.name :: .leftParen :: (c.inside ++ rest) ∧
        readLine scope text = .error (.atSpan (.grammatical (.malformedCall c.name))
          (spanOfRun run text.utf8ByteSize))) ∧
      (.rightParen ∉ rest →
        readLine scope text = .error (.atSpan (.grammatical (.invalidExpression text))
          (spanOfRun (behind.take 1) text.utf8ByteSize)))) ∧
    (∀ name span,
      readLine scope text = .error (.atSpan (.grammatical (.malformedCall name)) span) →
        ∃ front behind c calls, tokens = front ++ behind ∧
          FailsAt scope front behind (c :: calls) ∧ c.name = name ∧
          .rightParen ∈ behind.map Token.kind) ∧
    (∀ span, readLine scope text = .error (.atSpan (.grammatical (.invalidExpression text)) span) →
      (∃ role, (tokens.map Token.kind).head? = some (.declare role)) ∨
        ∃ front behind calls, tokens = front ++ behind ∧ FailsAt scope front behind calls ∧
          (.rightParen ∈ behind.map Token.kind → calls = [])) := by
  refine ⟨fun front behind c calls hbehind h => ⟨fun hclosed => ?_, fun c' hc' => ?_, ?_, ?_⟩,
    fun name span h => ?_, fun span h => ?_⟩
  · exact hclosed.mem (h.areOpen.noClosingInside c List.mem_cons_self)
  · exact h.areOpen.isClosedIn hc'
  · exact readLine_malformedCall htokens hbehind h
  · intro hnot
    have hline := h.line_eq_error
    rw [Stop.blaming_of_not_mem hnot, ← List.map_append, ← hbehind] at hline
    exact (readLine_eq_error_iff htokens).2 ⟨_, hline, (toDiagnostic_unexpected htokens hbehind).symm⟩
  · obtain ⟨-, rest, -, hd⟩ | ⟨front, behind, calls, hbehind, hf, hd⟩ :=
      exists_failsAt htokens h (.inr ⟨name, rfl⟩)
    · cases hd
    · cases calls with
      | nil => cases hd
      | cons c calls =>
        by_cases hmem : .rightParen ∈ behind.map Token.kind
        · rw [Stop.blaming_of_mem hmem] at hd
          cases hd
          exact ⟨front, behind, c, calls, hbehind, hf, rfl, hmem⟩
        · rw [Stop.blaming_of_not_mem hmem] at hd
          cases hd
  · obtain ⟨role, -, hrole, -⟩ | ⟨front, behind, calls, hbehind, hf, hd⟩ :=
      exists_failsAt htokens h (.inl rfl)
    · exact .inl ⟨role, hrole⟩
    · refine .inr ⟨front, behind, calls, hbehind, hf, fun hmem => ?_⟩
      cases calls with
      | nil => rfl
      | cons c calls =>
        rw [Stop.blaming_of_mem hmem] at hd
        cases hd

end Readings

/-- Within two calls that are both closed behind the failure, the inner one is blamed. -/
theorem readLine_blames_innermost :
    let scope : Scope := ⟨.empty, .standard⟩
    let front : List Token := [⟨.identifier "max", ⟨0, 3⟩⟩, ⟨.leftParen, ⟨3, 4⟩⟩,
      ⟨.identifier "abs", ⟨4, 7⟩⟩, ⟨.leftParen, ⟨7, 8⟩⟩, ⟨.integer 1, ⟨8, 9⟩⟩, ⟨.plus, ⟨9, 10⟩⟩]
    let behind : List Token := [⟨.rightParen, ⟨10, 11⟩⟩, ⟨.comma, ⟨11, 12⟩⟩,
      ⟨.integer 2, ⟨12, 13⟩⟩, ⟨.rightParen, ⟨13, 14⟩⟩]
    let abs : OpenCall := ⟨"abs", [.integer 1, .plus]⟩
    let max : OpenCall := ⟨"max", [.identifier "abs", .leftParen, .integer 1, .plus]⟩
    tokenize "max(abs(1+),2)" = .ok (front ++ behind) ∧ FailsAt scope front behind [abs, max] ∧
      max.IsClosedIn (behind.map Token.kind) ∧
      ∃ before run, front ++ behind = before ++ run ∧
        run.map Token.kind =
          .identifier "abs" :: .leftParen :: (abs.inside ++ behind.map Token.kind) ∧
        readLine scope "max(abs(1+),2)" = .error (.atSpan (.grammatical (.malformedCall "abs"))
          (spanOfRun run ("max(abs(1+),2)" : String).utf8ByteSize)) := by
  intro scope front behind abs max
  have htokens : tokenize "max(abs(1+),2)" = .ok (front ++ behind) := by cbv
  have hsum : FailsInSum scope 124 [.integer 1, .plus] (behind.map Token.kind) [] :=
    .next (.product (.signed .integer)) rfl (.first (.here rfl))
  have habs : FailsInSum scope 126 max.inside (behind.map Token.kind) [abs] :=
    .first (.first (.call (.first hsum (by simp))))
  have hfails : FailsAt scope front behind [abs, max] :=
    .left (.first (.first (.call (.first habs (by simp [max])))))
  have hclosed : max.IsClosedIn (behind.map Token.kind) :=
    ⟨[.identifier "abs", .leftParen, .integer 1, .plus, .rightParen, .comma, .integer 2], [],
      rfl, rfl⟩
  obtain ⟨hmem, haround, hblamed, -⟩ :=
    (readLine_blames htokens).1 front behind abs [max] rfl hfails
  exact ⟨htokens, hfails, hclosed, hblamed (hmem (haround max List.mem_cons_self hclosed))⟩

/-- A call is blamed though nothing closes it: the parenthesis that is closed behind the
    failure was opened there. -/
theorem readLine_blames_unclosed :
    let scope : Scope := ⟨.empty, .standard⟩
    let front : List Token :=
      [⟨.identifier "max", ⟨0, 3⟩⟩, ⟨.leftParen, ⟨3, 4⟩⟩, ⟨.integer 1, ⟨4, 5⟩⟩]
    let behind : List Token :=
      [⟨.leftParen, ⟨6, 7⟩⟩, ⟨.integer 2, ⟨7, 8⟩⟩, ⟨.rightParen, ⟨8, 9⟩⟩]
    let max : OpenCall := ⟨"max", [.integer 1]⟩
    tokenize "max(1 (2)" = .ok (front ++ behind) ∧ FailsAt scope front behind [max] ∧
      ¬max.IsClosedIn (behind.map Token.kind) ∧
      readLine scope "max(1 (2)" =
        .error (.atSpan (.grammatical (.malformedCall "max")) ⟨0, 9⟩) := by
  intro scope front behind max
  have hslots : FailsInSlots scope 126 [.integer 1] (behind.map Token.kind) [] :=
    .expr (.product (.signed .integer)) (by simp [behind, StopsSum, multiplicative?, additive?])
      (by simp [behind])
  refine ⟨by cbv, .left (.first (.first (.call hslots))), ?_, by cbv⟩
  exact not_hasClosing_iff.2 ⟨0, rfl⟩

end ConvexLang
