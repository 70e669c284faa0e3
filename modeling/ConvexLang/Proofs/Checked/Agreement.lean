import ConvexLang.Proofs.Checked.Grammar
import ConvexLang.Proofs.Recognition

/-!
# The grammar by positions agrees with the grammar

A reader by positions and one that takes the tokens apart as a list, side by side. Where one
stands at a position, the other has the kinds behind it (`kindsFrom`). They `Agree` on a level
of nesting if they answer the same from every position in the line, and the reader by
positions stands in the line again, on the level on which it began. So no check of it fails.

Each rule of the grammar agrees if those agree that it goes through (`joined_agrees`,
`arguments_answer`, `call_answers`, `prefixed_agrees`), and all levels agree by induction
(`unary_agrees`).
-/

namespace ConvexLang.Checked

open Grammar

/-- The kinds of the tokens from a position on. -/
def kindsFrom (tokens : List Token) (pos : Nat) : List TokenKind :=
  (tokens.drop pos).map Token.kind

/-- The reader by positions fails for why the other one stops. It tells a span by tokens of
    the line, and the other one a site from the end of the line, which is `size` bytes long. -/
inductive FailsAs (tokens : List Token) (size : Nat) : Stop → Failure → Prop
  | unexpected {rest : List TokenKind} {pos : Nat} : pos ≤ tokens.length →
    rest = kindsFrom tokens pos → FailsAs tokens size (.unexpected rest) (.grammar pos)
  | settled {problem : Problem} {site : Site} {span : Span} {a b : Token} : a ∈ tokens →
    b ∈ tokens → span = a.span.cover b.span → span = site.span tokens size →
      FailsAs tokens size (.settled problem site) (.fatal problem span)

/-- The second result is the first one by positions, on a level of nesting. -/
inductive Answers {α : Type} {bound : Nat} (tokens : List Token) (size depth : Nat) :
    Except Stop (Parsed α bound) → Option (Except Failure α × Cursor) → Prop
  | value {p : Parsed α bound} {pos : Nat} : pos ≤ tokens.length →
    p.rest = kindsFrom tokens pos →
      Answers tokens size depth (.ok p) (some (.ok p.value, ⟨pos, depth⟩))
  | failure {stop : Stop} {failure : Failure} {pos : Nat} : FailsAs tokens size stop failure →
    Answers tokens size depth (.error stop) (some (.error failure, ⟨pos, depth⟩))

/-- The readers agree on a level of nesting. -/
def Agrees {α : Type} (tokens : List Token) (size depth : Nat) (rule : Parsing α)
    (read : Reader α) : Prop :=
  ∀ {pos : Nat} {input : List TokenKind}, pos ≤ tokens.length → input = kindsFrom tokens pos →
    Answers tokens size depth (read input) (rule.run ⟨pos, depth⟩)

section Sites

variable {tokens : List Token} {size opening closing : Nat} {problem : Problem}

/-- A site is that of the tokens at its ends. -/
theorem failsAs_of_tokens {first last : Nat} {a b : Token} (ha : tokens[first]? = some a)
    (hb : tokens[last]? = some b) (hopening : tokens.length - opening = first)
    (hclosing : tokens.length - 1 - closing = last) :
    FailsAs tokens size (.settled problem ⟨opening, closing⟩)
      (.fatal problem (a.span.cover b.span)) := by
  refine .settled (List.mem_of_getElem? ha) (List.mem_of_getElem? hb) rfl ?_
  simp only [Site.span, hopening, hclosing, ha, hb]

theorem cover_self (s : Span) : s.cover s = s := by
  rw [Span.cover, Nat.min_self, Nat.max_self]

/-- A site of one token is that token's. -/
theorem failsAs_of_token {pos : Nat} {t : Token} (ht : tokens[pos]? = some t)
    (hopening : tokens.length - opening = pos) (hclosing : tokens.length - 1 - closing = pos) :
    FailsAs tokens size (.settled problem ⟨opening, closing⟩) (.fatal problem t.span) := by
  refine .settled (List.mem_of_getElem? ht) (List.mem_of_getElem? ht) (cover_self _).symm ?_
  simp only [Site.span, hopening, hclosing, ht, cover_self]

end Sites

section Steps

variable {α β : Type} {tokens : List Token} {size depth pos : Nat}

theorem length_kindsFrom : (kindsFrom tokens pos).length = tokens.length - pos := by
  rw [kindsFrom, List.length_map, List.length_drop]

theorem getElem?_kindsFrom (offset : Nat) :
    (kindsFrom tokens pos)[offset]? = tokens[pos + offset]?.map Token.kind := by
  rw [kindsFrom, List.getElem?_map, List.getElem?_drop]

theorem run_peekAt (offset : Nat) :
    (peekAt tokens offset).run ⟨pos, depth⟩ =
      some (.ok (kindsFrom tokens pos)[offset]?, ⟨pos, depth⟩) := by
  rw [peekAt, run_bind_ok run_state, getElem?_kindsFrom]
  rfl

theorem run_peekKind :
    (peekKind tokens).run ⟨pos, depth⟩ = some (.ok (kindsFrom tokens pos).head?, ⟨pos, depth⟩) := by
  rw [peekKind, run_peekAt, List.head?_eq_getElem?]

theorem run_tokenAt {t : Token} {c : Cursor} (ht : tokens[pos]? = some t) :
    (tokenAt tokens pos).run c = some (.ok t, c) := by
  rw [tokenAt, ht, run_check]

theorem run_spanFrom {start : Nat} {a b : Token} (ha : tokens[start]? = some a)
    (hb : tokens[max (pos - 1) start]? = some b) :
    (spanFrom tokens start).run ⟨pos, depth⟩ =
      some (.ok (a.span.cover b.span), ⟨pos, depth⟩) := by
  rw [spanFrom, run_bind_ok run_state, run_bind_ok (run_tokenAt ha), run_bind_ok (run_tokenAt hb),
    run_pure]

theorem run_refuse : (refuse : Parsing α).run ⟨pos, depth⟩ =
    some (.error (.grammar pos), ⟨pos, depth⟩) :=
  rfl

/-- Where kinds are left there is a token, and going past it leaves the others. -/
theorem run_bump (depth : Nat) {k : TokenKind} {ks : List TokenKind}
    (h : k :: ks = kindsFrom tokens pos) :
    ∃ t, tokens[pos]? = some t ∧ t.kind = k ∧ ks = kindsFrom tokens (pos + 1) ∧
      pos + 1 ≤ tokens.length ∧
      (bump tokens).run ⟨pos, depth⟩ = some (.ok t, ⟨pos + 1, depth⟩) := by
  rw [kindsFrom, eq_comm, List.map_eq_cons_iff] at h
  obtain ⟨t, ts, hdrop, rfl, rfl⟩ := h
  have ht : tokens[pos]? = some t := by
    rw [← Nat.add_zero pos, ← List.getElem?_drop, hdrop, List.getElem?_cons_zero]
  refine ⟨t, ht, rfl, ?_, (List.getElem?_eq_some_iff.1 ht).1, ?_⟩
  · rw [kindsFrom, ← List.drop_drop, hdrop]
    rfl
  · rw [bump, run_bind_ok run_state, run_bind_ok (run_tokenAt ht)]
    rfl

/-- A run that goes further leaves fewer tokens. -/
theorem tokensLeft_lt {pos' depth' : Nat} (hlt : pos < pos') (hle : pos' ≤ tokens.length) :
    tokensLeft tokens ⟨pos', depth'⟩ < tokensLeft tokens ⟨pos, depth⟩ := by
  simp only [tokensLeft]
  omega

variable {bound : Nat}

theorem Answers.of_ok {p : Parsed α bound} {result : Option (Except Failure α × Cursor)}
    (h : Answers tokens size depth (.ok p) result) :
    ∃ pos, pos ≤ tokens.length ∧ p.rest = kindsFrom tokens pos ∧
      result = some (.ok p.value, ⟨pos, depth⟩) := by
  cases h with
  | value hle hrest => exact ⟨_, hle, hrest, rfl⟩

theorem Answers.of_error {stop : Stop} {result : Option (Except Failure α × Cursor)}
    (h : Answers tokens size depth (.error stop : Except Stop (Parsed α bound)) result) :
    ∃ failure pos, FailsAs tokens size stop failure ∧
      result = some (.error failure, ⟨pos, depth⟩) := by
  cases h with
  | failure hfails => exact ⟨_, _, hfails, rfl⟩

/-- A rule comes out on the level on which it went in, whether it answers or fails. -/
theorem Answers.exists_run {read : Except Stop (Parsed α bound)}
    {result : Option (Except Failure α × Cursor)} (h : Answers tokens size depth read result) :
    ∃ answer pos, result = some (answer, ⟨pos, depth⟩) := by
  cases h with
  | value => exact ⟨_, _, rfl⟩
  | failure => exact ⟨_, _, rfl⟩

/-- The same next to a reader that answers with the same value and leaves the same. -/
theorem Answers.map {bound' : Nat} {read : Except Stop (Parsed α bound)}
    {read' : Except Stop (Parsed α bound')} {result : Option (Except Failure α × Cursor)}
    (h : Answers tokens size depth read result)
    (herror : ∀ stop, read = .error stop → read' = .error stop)
    (hok : ∀ p, read = .ok p → ∃ p', read' = .ok p' ∧ p'.value = p.value ∧ p'.rest = p.rest) :
    Answers tokens size depth read' result := by
  cases h with
  | value hle hrest =>
    obtain ⟨p', rfl, hvalue, hrest'⟩ := hok _ rfl
    exact hvalue ▸ .value hle (hrest'.trans hrest)
  | failure hfails =>
    rw [herror _ rfl]
    exact .failure hfails

/-- A rule that goes on with what another one answers, next to a reader that hands on why it
    stops. -/
theorem Answers.bind {bound' : Nat} {read : Except Stop (Parsed α bound)}
    {read' : Except Stop (Parsed β bound')} {rule : Parsing α} {f : α → Parsing β} {c : Cursor}
    (h : Answers tokens size depth read (rule.run c))
    (herror : ∀ stop, read = .error stop → read' = .error stop)
    (hok : ∀ p pos, read = .ok p → pos ≤ tokens.length → p.rest = kindsFrom tokens pos →
      Answers tokens size depth read' ((f p.value).run ⟨pos, depth⟩)) :
    Answers tokens size depth read' ((rule >>= f).run c) := by
  cases read with
  | error stop =>
    obtain ⟨failure, pos, hfails, hrun⟩ := h.of_error
    rw [run_bind_error hrun, herror stop rfl]
    exact .failure hfails
  | ok p =>
    obtain ⟨pos, hle, hrest, hrun⟩ := h.of_ok
    rw [run_bind_ok hrun]
    exact hok p pos rfl hle hrest

theorem run_expect {k : TokenKind} {ks : List TokenKind} {t : Token} {c : Cursor}
    (hk : k :: ks = kindsFrom tokens pos)
    (hbump : (bump tokens).run ⟨pos, depth⟩ = some (.ok t, c)) :
    (expect tokens k).run ⟨pos, depth⟩ = some (.ok t, c) := by
  rw [expect, run_bind_ok run_peekKind, ← hk, List.head?_cons, if_pos rfl, hbump]

theorem run_expect_refused {k : TokenKind} (hk : (kindsFrom tokens pos).head? ≠ some k) :
    (expect tokens k).run ⟨pos, depth⟩ = some (.error (.grammar pos), ⟨pos, depth⟩) := by
  rw [expect, run_bind_ok run_peekKind, if_neg hk, run_refuse]

theorem head?_ne_some {k : TokenKind} {ks : List TokenKind} (h : ∀ rest, ks ≠ k :: rest) :
    ks.head? ≠ some k := by
  intro hk
  obtain ⟨rest, hrest⟩ := List.head?_eq_some_iff.1 hk
  exact h rest hrest

theorem run_recover_ok {rule : Parsing α} {handler : Nat → Parsing α} {a : α} {c c' : Cursor}
    (h : rule.run c = some (.ok a, c')) : (recover rule handler).run c = some (.ok a, c') := by
  simp only [recover, h]

theorem run_recover_fatal {rule : Parsing α} {handler : Nat → Parsing α} {problem : Problem}
    {span : Span} {c c' : Cursor} (h : rule.run c = some (.error (.fatal problem span), c')) :
    (recover rule handler).run c = some (.error (.fatal problem span), c') := by
  simp only [recover, h]

theorem run_recover_grammar {rule : Parsing α} {handler : Nat → Parsing α} {c c' : Cursor}
    (h : rule.run c = some (.error (.grammar pos), c')) :
    (recover rule handler).run c = (handler pos).run c' := by
  simp only [recover, h]

/-- What was read takes a reader further. -/
theorem lt_of_rest {pos' : Nat} {p : Parsed α bound} (hbound : bound ≤ tokens.length - pos)
    (hrest : p.rest = kindsFrom tokens pos') : pos < pos' := by
  have hshorter := p.shorter
  rw [hrest, length_kindsFrom] at hshorter
  omega

end Steps

/-! ## Sums and products -/

section Rounds

variable {tokens : List Token} {depth pos : Nat} {operator? : TokenKind → Option String}
  {operand : Parsing Expr} {left right : Expr} {k : TokenKind} {ks : List TokenKind}
  {name : String}

theorem run_joinOne_done (hno : (kindsFrom tokens pos).head?.bind operator? = none) :
    (joinOne tokens operator? operand left).run ⟨pos, depth⟩ =
      some (.ok (.done left), ⟨pos, depth⟩) := by
  rw [joinOne, run_bind_ok run_peekKind, hno]
  rfl

theorem run_joinOne_error {failure : Failure} {c : Cursor} (hk : k :: ks = kindsFrom tokens pos)
    (hname : operator? k = some name)
    (h : operand.run ⟨pos + 1, depth⟩ = some (.error failure, c)) :
    (joinOne tokens operator? operand left).run ⟨pos, depth⟩ = some (.error failure, c) := by
  obtain ⟨t, -, -, -, -, hbump⟩ := run_bump depth hk
  rw [joinOne, run_bind_ok run_peekKind, ← hk, List.head?_cons, Option.bind_some, hname]
  exact (run_bind_ok hbump).trans (run_bind_error h)

theorem run_joinOne_yield {c : Cursor} (hk : k :: ks = kindsFrom tokens pos)
    (hname : operator? k = some name) (h : operand.run ⟨pos + 1, depth⟩ = some (.ok right, c)) :
    (joinOne tokens operator? operand left).run ⟨pos, depth⟩ =
      some (.ok (.yield (.operator name [left, right])), c) := by
  obtain ⟨t, -, -, -, -, hbump⟩ := run_bump depth hk
  rw [joinOne, run_bind_ok run_peekKind, ← hk, List.head?_cons, Option.bind_some, hname]
  exact (run_bind_ok hbump).trans (run_bind_ok h)

end Rounds

section Operands

variable {tokens : List Token} {size depth : Nat} {operand : Parsing Expr} {read : Reader Expr}
  (h : Agrees tokens size depth operand read)
include h

/-- A loop joins the same operands. -/
theorem loop_answers (operator? : TokenKind → Option String) {bound pos : Nat}
    {left : Parsed Expr bound} (hle : pos ≤ tokens.length)
    (hrest : left.rest = kindsFrom tokens pos) :
    Answers tokens size depth (chain operator? read left)
      ((loop (tokensLeft tokens) (joinOne tokens operator? operand) left.value).run
        ⟨pos, depth⟩) := by
  -- by the number of tokens that remain, of which each round takes one at least
  induction hn : left.rest.length using Nat.strongRecOn generalizing left pos with
  | ind n ih =>
    rw [chain]
    split
    · rename_i hnil
      rw [run_loop_done (run_joinOne_done (by rw [← hrest, hnil]; rfl))]
      exact .value hle hrest
    · rename_i k rest hcons
      have hk : k :: rest = kindsFrom tokens pos := hcons.symm.trans hrest
      split
      · rename_i hname
        rw [run_loop_done (run_joinOne_done (by rw [← hk]; exact hname))]
        exact .value hle hrest
      · rename_i name hname
        obtain ⟨-, -, -, hbehind, hle', -⟩ := run_bump depth hk
        have hanswers := h hle' hbehind
        split
        · rename_i stop hread
          rw [hread] at hanswers
          obtain ⟨failure, pos', hfails, hrun⟩ := hanswers.of_error
          rw [run_loop_error (run_joinOne_error hk hname hrun)]
          exact .failure hfails
        · rename_i right hread
          rw [hread] at hanswers
          obtain ⟨pos', hle'', hrest', hrun⟩ := hanswers.of_ok
          have hlt : pos < pos' :=
            Nat.lt_of_succ_lt (lt_of_rest (by rw [hbehind, length_kindsFrom]) hrest')
          have hfewer : right.rest.length < n := by
            rw [← hn, hrest, hrest', length_kindsFrom, length_kindsFrom]
            omega
          rw [run_loop_yield (run_joinOne_yield hk hname hrun) (tokensLeft_lt hlt hle'')]
          exact ih _ hfewer hle'' hrest' rfl

theorem joined_agrees (operator? : TokenKind → Option String) :
    Agrees tokens size depth (joined tokens operator? operand) (fun input =>
      match read input with
      | .error stop => .error stop
      | .ok left => chain operator? read left) := by
  intro pos input hle hinput
  refine (h hle hinput).bind (fun stop hread => by simp only [hread]) ?_
  intro left pos' hread hle' hrest
  simp only [hread]
  exact loop_answers h operator? hle' hrest

theorem multiplicative_agrees :
    Agrees tokens size depth (multiplicative tokens operand) (product read) :=
  joined_agrees h multiplicative?

theorem additive_agrees : Agrees tokens size depth (additive tokens operand) (sum read) :=
  joined_agrees (multiplicative_agrees h) additive?

/-! ## Calls -/

omit h in
theorem run_slot_expr {c : Cursor} (hcomma : (kindsFrom tokens c.pos).head? ≠ some .comma)
    (hparen : (kindsFrom tokens c.pos).head? ≠ some .rightParen)
    (hinfinity : (kindsFrom tokens c.pos).head? ≠ some .infinity) :
    (slot tokens operand).run c = (operand >>= fun e => pure (.expr e)).run c := by
  rw [slot, run_bind_ok run_peekKind]
  split <;> first | contradiction | rfl

theorem slot_answers {pos : Nat} {input : List TokenKind} (hle : pos ≤ tokens.length)
    (hinput : input = kindsFrom tokens pos) :
    Answers tokens size depth (Grammar.slot read input)
      ((slot tokens operand).run ⟨pos, depth⟩) := by
  rw [Grammar.slot.eq_def]
  split
  · rw [slot, run_bind_ok run_peekKind, ← hinput]
    exact .value hle hinput
  · rw [slot, run_bind_ok run_peekKind, ← hinput]
    exact .value hle hinput
  · obtain ⟨t, -, -, hbehind, hle', hbump⟩ := run_bump depth hinput
    rw [slot, run_bind_ok run_peekKind, ← hinput]
    exact (run_bind_ok hbump).symm ▸ .value hle' hbehind
  · rename_i hcomma hparen hinfinity
    have hhead {k : TokenKind} (hk : ∀ rest, input ≠ k :: rest) :
        (kindsFrom tokens pos).head? ≠ some k := hinput ▸ head?_ne_some hk
    rw [run_slot_expr (hhead hcomma) (hhead hparen) (hhead hinfinity)]
    refine (h hle hinput).bind (fun stop hread => by rw [hread]) ?_
    intro p pos' hread hle' hrest
    rw [hread]
    exact .value hle' hrest

/-- The loop over the slots has read those in front of them as well. -/
theorem arguments_answer {pos : Nat} {input : List TokenKind} (args : List Operand)
    (hle : pos ≤ tokens.length) (hinput : input = kindsFrom tokens pos) :
    Answers tokens size depth
      ((Grammar.slots read input).map fun p => p.withValue (args ++ p.value))
      ((arguments tokens operand args).run ⟨pos, depth⟩) := by
  have hslot := slot_answers h hle hinput
  generalize hread : Grammar.slots read input = result
  rw [Grammar.slots] at hread
  split at hread
  · rename_i stop hfirst
    subst hread
    rw [hfirst] at hslot
    obtain ⟨failure, pos', hfails, hrun⟩ := hslot.of_error
    rw [arguments, run_loop_error (run_bind_error hrun)]
    exact .failure hfails
  · rename_i first hfirst
    rw [hfirst] at hslot
    obtain ⟨pos₁, hle₁, hrest, hrun⟩ := hslot.of_ok
    -- what follows the slot says whether the loop goes on, so each case is one way to end a round
    have hround : (oneSlot tokens operand args).run ⟨pos, depth⟩ = _ :=
      (run_bind_ok hrun).trans (run_bind_ok run_peekKind)
    rw [← hrest] at hround
    split at hread
    · -- a comma: a slot may be empty, but the comma is gone, so there is less left to be read
      rename_i rest hcons
      rw [hcons] at hround hrest
      obtain ⟨t, -, -, hbehind, hle₂, hbump⟩ := run_bump depth hrest
      have hlt : rest.length < input.length :=
        Nat.lt_of_succ_lt_succ (first.length_succ_lt hcons)
      have hpos : pos < pos₁ + 1 := by
        rw [hinput, hbehind, length_kindsFrom, length_kindsFrom] at hlt
        omega
      have hyield : (oneSlot tokens operand args).run ⟨pos, depth⟩ =
          some (.ok (.yield (args ++ [first.value])), ⟨pos₁ + 1, depth⟩) :=
        hround.trans (run_bind_ok hbump)
      have hmore := arguments_answer (args ++ [first.value]) hle₂ hbehind
      rw [arguments, run_loop_yield hyield (tokensLeft_lt hpos hle₂)]
      split at hread
      · rename_i stop hothers
        subst hread
        rw [hothers] at hmore
        obtain ⟨failure, pos₃, hfails, hrun'⟩ := hmore.of_error
        exact hrun'.symm ▸ .failure hfails
      · rename_i others hothers
        subst hread
        rw [hothers] at hmore
        obtain ⟨pos₃, hle₃, hrest', hrun'⟩ := hmore.of_ok
        dsimp only [Parsed.withValue] at hrun'
        rw [← List.append_cons] at hrun'
        exact hrun'.symm ▸ .value hle₃ hrest'
    · -- the closing parenthesis
      rename_i rest hcons
      subst hread
      rw [hcons] at hround hrest
      obtain ⟨t, -, -, hbehind, hle₂, hbump⟩ := run_bump depth hrest
      rw [arguments, run_loop_done (hround.trans (run_bind_ok hbump))]
      exact .value hle₂ hbehind
    · -- neither
      rename_i hcomma hparen
      subst hread
      have hrefused : (oneSlot tokens operand args).run ⟨pos, depth⟩ =
          some (.error (.grammar pos₁), ⟨pos₁, depth⟩) := by
        rw [hround]
        split
        · exact absurd ‹_› (head?_ne_some hcomma)
        · exact absurd ‹_› (head?_ne_some hparen)
        · rfl
      rw [arguments, run_loop_error hrefused]
      exact .failure (.unexpected hle₁ hrest)
termination_by input.length
decreasing_by exact hlt

omit h in
/-- The blame for a token in the slots of a call falls on the same one. -/
theorem run_blame {name : String} {start pos opening : Nat} {rest : List TokenKind} {c : Cursor}
    {t : Token} (hle : pos ≤ tokens.length) (hrest : rest = kindsFrom tokens pos)
    (ht : tokens[start]? = some t)
    (hopening : tokens.length - opening = start) :
    ∃ failure, (blame tokens name start pos : Parsing (List Operand)).run c =
        some (.error failure, c) ∧
      FailsAs tokens size (Stop.inCall name opening (.unexpected rest)) failure := by
  have hclosing : rest.contains .rightParen =
      (tokens.drop pos).any fun t => t.kind = .rightParen := by
    rw [Bool.eq_iff_iff, List.contains_iff_mem, hrest, kindsFrom, List.mem_map, List.any_eq_true]
    simp only [decide_eq_true_eq]
  -- the call has begun, so the line has a last token
  have hlast : tokens.length - 1 < tokens.length := by
    have := (List.getElem?_eq_some_iff.1 ht).1
    omega
  rw [blame, drop?, if_pos hle, run_bind_ok run_check, Stop.inCall, hclosing]
  split
  · rw [run_bind_ok (run_tokenAt ht), run_bind_ok (run_tokenAt (List.getElem?_eq_getElem hlast))]
    exact ⟨_, rfl, failsAs_of_tokens ht (List.getElem?_eq_getElem hlast) hopening rfl⟩
  · exact ⟨_, rfl, .unexpected hle hrest⟩

theorem call_answers {scope : Scope} {name : String} {pos : Nat} {input : List TokenKind}
    (hinput : .identifier name :: .leftParen :: input = kindsFrom tokens pos) :
    Answers tokens size depth (Grammar.call scope (sum read) name input)
      ((call tokens scope operand name).run ⟨pos, depth⟩) := by
  obtain ⟨t, ht, -, hparen, -, hbump⟩ := run_bump depth hinput
  obtain ⟨u, -, -, hbehind, hle, hbump'⟩ := run_bump depth hparen
  have hopening : tokens.length - (input.length + 2) = pos := by
    rw [hbehind, length_kindsFrom]
    omega
  have hanswers := arguments_answer (additive_agrees h) [] hle hbehind
  rw [call, run_bind_ok run_state, run_bind_ok hbump, run_bind_ok hbump', Grammar.call]
  split
  · rename_i stop hread
    rw [hread] at hanswers
    obtain ⟨failure, pos', hfails, hrun⟩ := hanswers.of_error
    -- a token that does not fit is blamed on the call or handed on, anything else is settled
    cases hfails with
    | unexpected hle' hrest =>
      obtain ⟨failure, hblame, hfails⟩ := run_blame (c := ⟨pos', depth⟩) hle' hrest ht hopening
      rw [run_bind_error ((run_recover_grammar hrun).trans hblame)]
      exact .failure hfails
    | settled ha hb hcover hspan =>
      rw [run_bind_error (run_recover_fatal hrun)]
      exact .failure (.settled ha hb hcover hspan)
  · rename_i operands hread
    rw [hread] at hanswers
    obtain ⟨pos', hle', hrest, hrun⟩ := hanswers.of_ok
    -- the last token that was taken is the closing parenthesis, which is behind the name
    have hlt : pos + 1 < pos' := lt_of_rest (by rw [hbehind, length_kindsFrom]; omega) hrest
    have hlast : max (pos' - 1) pos < tokens.length := by omega
    have hclosing : tokens.length - 1 - operands.rest.length = max (pos' - 1) pos := by
      rw [show operands.rest = kindsFrom tokens pos' from hrest, length_kindsFrom]
      omega
    dsimp only [Parsed.withValue, List.nil_append] at hrun
    rw [run_bind_ok (run_recover_ok hrun),
      run_bind_ok (run_spanFrom ht (List.getElem?_eq_getElem hlast)), Grammar.apply]
    cases scope.atoms.get? name with
    | none =>
      dsimp only
      rw [run_bind_ok (run_tokenAt ht)]
      exact .failure (failsAs_of_token ht hopening (by omega))
    | some profile =>
      dsimp only
      split_ifs
      · exact .value hle' hrest
      · exact .failure
          (failsAs_of_tokens ht (List.getElem?_eq_getElem hlast) hopening hclosing)

end Operands

/-! ## Signed operands -/

section Levels

variable {tokens : List Token} {size depth pos : Nat}

/-- What agrees one level deeper agrees here. -/
theorem nested_answers {α : Type} {bound : Nat} {read : Except Stop (Parsed α bound)}
    {rule : Parsing α} (hdepth : depth < maxNesting)
    (h : Answers tokens size (depth + 1) read (rule.run ⟨pos, depth + 1⟩)) :
    Answers tokens size depth read ((nested rule).run ⟨pos, depth⟩) := by
  rw [nested]
  dsimp only
  rw [if_neg (Nat.not_le.2 hdepth)]
  cases read with
  | error stop =>
    obtain ⟨failure, pos', hfails, hrun⟩ := h.of_error
    simp only [hrun, if_true, Nat.add_sub_cancel]
    exact .failure hfails
  | ok p =>
    obtain ⟨pos', hle, hrest, hrun⟩ := h.of_ok
    simp only [hrun, if_true, Nat.add_sub_cancel]
    exact .value hle hrest

theorem run_nested_refused {α : Type} {rule : Parsing α} (hdepth : maxNesting ≤ depth) :
    (nested rule).run ⟨pos, depth⟩ = some (.error (.grammar pos), ⟨pos, depth⟩) :=
  if_pos hdepth

end Levels

section Operand

variable {tokens : List Token} {size depth pos : Nat} {scope : Scope} {operand : Parsing Expr}

/-- What begins with no sign is an operand without one. -/
theorem run_prefixed_primary (hplus : (kindsFrom tokens pos).head? ≠ some .plus)
    (hminus : (kindsFrom tokens pos).head? ≠ some .minus) :
    (prefixed tokens scope operand).run ⟨pos, depth⟩ =
      (primary tokens scope operand).run ⟨pos, depth⟩ := by
  rw [prefixed, run_bind_ok run_peekKind]
  split <;> first | contradiction | rfl

theorem run_prefixed_plus {rest : List TokenKind} (h : .plus :: rest = kindsFrom tokens pos) :
    (prefixed tokens scope operand).run ⟨pos, depth⟩ = operand.run ⟨pos + 1, depth⟩ := by
  obtain ⟨t, -, -, -, -, hbump⟩ := run_bump depth h
  rw [prefixed, run_bind_ok run_peekKind, ← h]
  exact run_bind_ok hbump

theorem run_prefixed_minus {rest : List TokenKind} (h : .minus :: rest = kindsFrom tokens pos) :
    (prefixed tokens scope operand).run ⟨pos, depth⟩ =
      (operand >>= fun e => pure (.operator "-" [e])).run ⟨pos + 1, depth⟩ := by
  obtain ⟨t, -, -, -, -, hbump⟩ := run_bump depth h
  rw [prefixed, run_bind_ok run_peekKind, ← h]
  exact run_bind_ok hbump

theorem run_prefixed_integer {n : Nat} {rest : List TokenKind}
    (h : .integer n :: rest = kindsFrom tokens pos) :
    (prefixed tokens scope operand).run ⟨pos, depth⟩ =
      some (.ok (.ofNumber (.whole n)), ⟨pos + 1, depth⟩) := by
  obtain ⟨t, -, -, -, -, hbump⟩ := run_bump depth h
  rw [run_prefixed_primary (by simp [← h]) (by simp [← h]), primary, run_bind_ok run_peekKind, ← h]
  exact run_bind_ok hbump

theorem run_prefixed_real {x : Float} {rest : List TokenKind}
    (h : .real x :: rest = kindsFrom tokens pos) :
    (prefixed tokens scope operand).run ⟨pos, depth⟩ =
      some (.ok (.ofNumber (.real x)), ⟨pos + 1, depth⟩) := by
  obtain ⟨t, -, -, -, -, hbump⟩ := run_bump depth h
  rw [run_prefixed_primary (by simp [← h]) (by simp [← h]), primary, run_bind_ok run_peekKind, ← h]
  exact run_bind_ok hbump

theorem run_prefixed_call {name : String} {rest : List TokenKind}
    (h : .identifier name :: .leftParen :: rest = kindsFrom tokens pos) :
    (prefixed tokens scope operand).run ⟨pos, depth⟩ =
      (nested (call tokens scope operand name)).run ⟨pos, depth⟩ := by
  rw [run_prefixed_primary (by simp [← h]) (by simp [← h]), primary, run_bind_ok run_peekKind, ← h]
  dsimp only [List.head?_cons]
  rw [run_bind_ok (run_peekAt 1), ← h]
  exact congrArg (fun rule : Parsing Expr => rule.run _) (if_pos rfl)

/-- A name that opens no call is looked up. -/
theorem run_prefixed_name {name : String} {rest : List TokenKind}
    (h : .identifier name :: rest = kindsFrom tokens pos)
    (hname : ∀ after, rest ≠ .leftParen :: after) :
    ∃ t, tokens[pos]? = some t ∧
      (prefixed tokens scope operand).run ⟨pos, depth⟩ =
        match scope.symbols.node? name with
        | some e => some (.ok e, ⟨pos + 1, depth⟩)
        | none =>
          some (.error (.fatal (.semantic (.unknownSymbol name)) t.span), ⟨pos + 1, depth⟩) := by
  obtain ⟨t, ht, -, -, -, hbump⟩ := run_bump depth h
  have hsecond : (TokenKind.identifier name :: rest)[1]? ≠ some .leftParen := fun hparen =>
    head?_ne_some hname (by rw [List.head?_eq_getElem?]; exact hparen)
  refine ⟨t, ht, ?_⟩
  rw [run_prefixed_primary (by simp [← h]) (by simp [← h]), primary, run_bind_ok run_peekKind, ← h]
  dsimp only [List.head?_cons]
  rw [run_bind_ok (run_peekAt 1), ← h, if_neg hsecond, run_bind_ok hbump]
  cases scope.symbols.node? name <;> rfl

theorem run_prefixed_paren {rest : List TokenKind}
    (h : .leftParen :: rest = kindsFrom tokens pos) :
    (prefixed tokens scope operand).run ⟨pos, depth⟩ =
      (additive tokens operand >>= fun e => expect tokens .rightParen >>= fun _ =>
        pure e.inParens).run ⟨pos + 1, depth⟩ := by
  obtain ⟨t, -, -, -, -, hbump⟩ := run_bump depth h
  rw [run_prefixed_primary (by simp [← h]) (by simp [← h]), primary, run_bind_ok run_peekKind, ← h]
  exact run_bind_ok hbump

/-- What begins no operand is refused. -/
theorem run_prefixed_refused (hplus : (kindsFrom tokens pos).head? ≠ some .plus)
    (hminus : (kindsFrom tokens pos).head? ≠ some .minus)
    (hinteger : ∀ n, (kindsFrom tokens pos).head? ≠ some (.integer n))
    (hreal : ∀ x, (kindsFrom tokens pos).head? ≠ some (.real x))
    (hname : ∀ name, (kindsFrom tokens pos).head? ≠ some (.identifier name))
    (hparen : (kindsFrom tokens pos).head? ≠ some .leftParen) :
    (prefixed tokens scope operand).run ⟨pos, depth⟩ =
      some (.error (.grammar pos), ⟨pos, depth⟩) := by
  rw [run_prefixed_primary hplus hminus, primary, run_bind_ok run_peekKind]
  split
  · exact absurd ‹_› (hinteger _)
  · exact absurd ‹_› (hreal _)
  · exact absurd ‹_› (hname _)
  · contradiction
  · exact run_refuse

end Operand

/-- A signed operand agrees, if those agree that are one and two levels deeper. -/
theorem prefixed_agrees {tokens : List Token} {size depth n : Nat} {scope : Scope}
    {operand : Parsing Expr} (h : Agrees tokens size depth operand (signed scope n))
    (hdepth : n + depth = maxNesting)
    (hdeepest : ∀ m, n = m + 1 → Agrees tokens size (depth + 1) operand (signed scope m)) :
    Agrees tokens size depth (prefixed tokens scope operand)
      (signedBy scope (signed scope n) (deepest? scope n)) := by
  intro pos input hle hinput
  have hbehind {k : TokenKind} {ks : List TokenKind} (hk : k :: ks = kindsFrom tokens pos) :
      ks = kindsFrom tokens (pos + 1) ∧ pos + 1 ≤ tokens.length := by
    obtain ⟨-, -, -, hks, hle', -⟩ := run_bump depth hk
    exact ⟨hks, hle'⟩
  rw [signedBy.eq_def]
  split
  · -- a plus sign
    obtain ⟨hrest, hle'⟩ := hbehind hinput
    rw [run_prefixed_plus hinput]
    refine (h hle' hrest).map (fun stop hread => by rw [hread]) fun p hread => ?_
    rw [hread]
    exact ⟨_, rfl, rfl, rfl⟩
  · -- a minus sign
    obtain ⟨hrest, hle'⟩ := hbehind hinput
    rw [run_prefixed_minus hinput]
    refine (h hle' hrest).bind (fun stop hread => by rw [hread]) fun p _ hread hle'' hrest' => ?_
    rw [hread]
    exact .value hle'' hrest'
  · -- an integer
    obtain ⟨hrest, hle'⟩ := hbehind hinput
    exact (run_prefixed_integer hinput).symm ▸ .value hle' hrest
  · -- a floating-point number
    obtain ⟨hrest, hle'⟩ := hbehind hinput
    exact (run_prefixed_real hinput).symm ▸ .value hle' hrest
  · -- a call, which takes one level more
    rw [run_prefixed_call hinput]
    cases n with
    | zero =>
      rw [run_nested_refused (by omega)]
      exact .failure (.unexpected hle hinput)
    | succ m =>
      refine nested_answers (by omega) ?_
      refine (call_answers (hdeepest m rfl) hinput).map (fun stop hread => ?_) fun p hread => ?_
      · dsimp only [deepest?]
        rw [hread]
      · dsimp only [deepest?]
        rw [hread]
        exact ⟨_, rfl, rfl, rfl⟩
  · -- a symbol
    rename_i name rest hname
    obtain ⟨hrest, hle'⟩ := hbehind hinput
    obtain ⟨t, ht, hrun⟩ := run_prefixed_name hinput hname
    have hlength : rest.length = tokens.length - (pos + 1) := by rw [hrest, length_kindsFrom]
    rw [hrun, resolve]
    cases scope.symbols.node? name with
    | none => exact .failure (failsAs_of_token ht (by omega) (by omega))
    | some e => exact .value hle' hrest
  · -- a sum in parentheses
    obtain ⟨hrest, hle'⟩ := hbehind hinput
    rw [run_prefixed_paren hinput]
    refine (additive_agrees h hle' hrest).bind (fun stop hread => by rw [hread]) ?_
    intro p pos' hread hle'' hrest'
    simp only [hread]
    split
    · rename_i after hcons
      have hafter := hcons.symm.trans hrest'
      obtain ⟨u, -, -, hbehind', hle₃, hbump⟩ := run_bump depth hafter
      rw [run_bind_ok (run_expect hafter hbump)]
      exact .value hle₃ hbehind'
    · rename_i after hparen
      rw [run_bind_error (run_expect_refused (hrest' ▸ head?_ne_some hparen))]
      exact .failure (.unexpected hle'' hrest')
  · -- anything else, or nothing
    rename_i hplus hminus hinteger hreal _ hname hparen
    have hhead {k : TokenKind} (hk : ∀ rest, input ≠ k :: rest) :
        (kindsFrom tokens pos).head? ≠ some k := hinput ▸ head?_ne_some hk
    rw [run_prefixed_refused (hhead hplus) (hhead hminus) (fun m => hhead (hinteger m))
      (fun x => hhead (hreal x)) (fun name => hhead (hname name)) (hhead hparen)]
    exact .failure (.unexpected hle hinput)

/-- The signed operands agree on every level, if there are turns enough for the levels that
    remain. -/
theorem unary_agrees {tokens : List Token} {size : Nat} {scope : Scope} (turns : Nat) :
    ∀ {n depth : Nat}, n + depth = maxNesting → maxNesting < turns + depth →
      Agrees tokens size depth (unary tokens scope turns) (signed scope n) := by
  -- each turn that is taken is a level that is gone, so the turns do not run out first
  induction turns with
  | zero =>
    intro n depth hdepth hturns
    omega
  | succ turns ih =>
    intro n depth hdepth hturns pos input hle hinput
    cases n with
    | zero =>
      rw [unary, run_nested_refused (by omega)]
      exact .failure (.unexpected hle hinput)
    | succ n =>
      have hinner : Agrees tokens size (depth + 1)
          (prefixed tokens scope (unary tokens scope turns))
          (signedBy scope (signed scope n) (deepest? scope n)) :=
        prefixed_agrees (ih (by omega) (by omega)) (by omega)
          fun m hm => ih (by omega) (by omega)
      rw [unary, signed_succ]
      exact nested_answers (by omega) (hinner hle hinput)

end ConvexLang.Checked
