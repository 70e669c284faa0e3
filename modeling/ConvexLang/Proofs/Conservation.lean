import ConvexLang.Proofs.Effect
import ConvexLang.Proofs.Extension
import ConvexLang.Proofs.Recognition
import Mathlib

/-!
# Wider scopes

A scope is wider than another if it knows all names that the other knows, for the same
things. Whatever is read over a scope is read as the same over a wider one, unless the
reading stopped at a name that the wider scope alone knows.

Readers stop for no other reason that a wider scope could change. A reader that fails in
front of a token or at the end of the line does so over any scope, so an enclosing call
takes the blame over the one scope just where it does over the other; and what is settled
is handed on by all of them. So each reader only has to be looked at once
(`product_agrees` to `line_agrees`).

* `readLine_conserved`: lines over more symbols and more atoms, and the texts that a
  session accepts.
-/

namespace ConvexLang

/-! ## Scopes -/

/-- The second scope knows all names that the first one knows, for the same things. -/
structure Scope.Within (scope wider : Scope) : Prop where
  /-- Symbols. -/
  symbols : ∀ name e, scope.symbols.get? name = some e → wider.symbols.get? name = some e
  /-- Atoms. -/
  atoms : ∀ name p, scope.atoms.get? name = some p → wider.atoms.get? name = some p

/-- The problem is a name that the second scope knows, but the first one does not. -/
inductive Scope.Misses (scope wider : Scope) : Problem → Prop
  | symbol {name : String} {e : Expr} : scope.symbols.get? name = none →
    wider.symbols.get? name = some e → Misses scope wider (.semantic (.unknownSymbol name))
  | atom {name : String} {p : Profile} : scope.atoms.get? name = none →
    wider.atoms.get? name = some p → Misses scope wider (.semantic (.unknownFunction name))

namespace Grammar

variable {scope wider : Scope} {α β : Type}

/-! ## Readers -/

/-- The second result is what is read over the wider scope, if the first is what is read over
    the scope: the same, unless the reading stopped at a name that the wider scope knows. -/
def Agrees (scope wider : Scope) (result result' : Except Stop α) : Prop :=
  result' = result ∨
    ∃ problem site, result = .error (.settled problem site) ∧ scope.Misses wider problem

theorem Agrees.same {result : Except Stop α} : Agrees scope wider result result :=
  .inl rfl

theorem Agrees.missed {problem : Problem} {site : Site} {result : Except Stop α}
    (h : scope.Misses wider problem) :
    Agrees scope wider (.error (.settled problem site)) result :=
  .inr ⟨problem, site, rfl, h⟩

/-- What is settled is handed on. So results agree that are made of two that agree, if they do
    so where those two are the same. -/
theorem Agrees.through {read read' : Except Stop α} {result result' : Except Stop β}
    (h : Agrees scope wider read read')
    (hstop : ∀ problem site, read = .error (.settled problem site) →
      result = .error (.settled problem site))
    (hsame : read' = read → Agrees scope wider result result') :
    Agrees scope wider result result' := by
  rcases h with heq | ⟨problem, site, hread, hmissed⟩
  · exact hsame heq
  · exact .inr ⟨problem, site, hstop problem site hread, hmissed⟩

/-- The same, where the scope plays no part in what is made of the result. -/
theorem Agrees.handedOn {read read' : Except Stop α} {result result' : Except Stop β}
    (h : Agrees scope wider read read')
    (hstop : ∀ problem site, read = .error (.settled problem site) →
      result = .error (.settled problem site))
    (hsame : read' = read → result' = result) : Agrees scope wider result result' :=
  h.through hstop fun heq => .inl (hsame heq)

/-- The readers agree on every input. -/
def ReadersAgree (scope wider : Scope) (read read' : Reader α) : Prop :=
  ∀ input, Agrees scope wider (read input) (read' input)

section Operands

variable {operand operand' : Reader Expr} (h : ReadersAgree scope wider operand operand')
include h

/-- A loop joins the same operands, up to the one that it stops for. -/
theorem chain_agrees (operator? : TokenKind → Option String) {bound : Nat}
    (left : Parsed Expr bound) :
    Agrees scope wider (chain operator? operand left) (chain operator? operand' left) := by
  -- by the number of tokens that remain, of which each operand takes one at least
  induction hn : left.rest.length using Nat.strongRecOn generalizing left with
  | ind n ih =>
    rw [chain, chain]
    split
    · exact .same
    · rename_i k rest hrest
      split
      · exact .same
      · refine (h rest).through (fun _ _ hstop => by rw [hstop]) fun heq => ?_
        rw [heq]
        split
        · exact .same
        · rename_i right _
          have hlt : right.rest.length < n := by
            have := right.shorter
            rw [← hn, hrest, List.length_cons]
            omega
          exact ih _ hlt _ rfl

theorem product_agrees : ReadersAgree scope wider (product operand) (product operand') := by
  intro input
  rw [product, product]
  refine (h input).through (fun _ _ hstop => by rw [hstop]) fun heq => ?_
  rw [heq]
  split
  · exact .same
  · exact chain_agrees h multiplicative? _

theorem sum_agrees : ReadersAgree scope wider (sum operand) (sum operand') := by
  intro input
  rw [sum, sum]
  refine (product_agrees h input).through (fun _ _ hstop => by rw [hstop]) fun heq => ?_
  rw [heq]
  split
  · exact .same
  · exact chain_agrees (product_agrees h) additive? _

theorem slot_agrees (input : List TokenKind) :
    Agrees scope wider (slot operand input) (slot operand' input) := by
  rw [slot.eq_def, slot.eq_def]
  split
  · exact .same
  · exact .same
  · exact .same
  · exact (h input).handedOn (fun _ _ hstop => by rw [hstop]) fun heq => by rw [heq]

theorem slots_agree (input : List TokenKind) :
    Agrees scope wider (slots operand input) (slots operand' input) := by
  rw [slots, slots]
  refine (slot_agrees h input).through (fun _ _ hstop => by rw [hstop]) fun heq => ?_
  rw [heq]
  split
  · exact .same
  · rename_i first _
    split
    · -- only behind a comma is there more to read
      rename_i rest hrest
      have hlt : rest.length < input.length :=
        Nat.lt_of_succ_lt_succ (first.length_succ_lt hrest)
      exact (slots_agree rest).handedOn (fun _ _ hstop => by rw [hstop]) fun heq => by rw [heq]
    · exact .same
    · exact .same
termination_by input.length

end Operands

/-! ## Names -/

section Names

variable (hw : scope.Within wider)
include hw

theorem apply_agrees (name : String) (opening closing : Nat) (operands : List Operand) :
    Agrees scope wider (apply scope name opening closing operands)
      (apply wider name opening closing operands) := by
  rw [apply, apply]
  rcases hscope : scope.atoms.get? name with _ | p
  · rcases hwider : wider.atoms.get? name with _ | p
    · exact .same
    · exact .missed (.atom hscope hwider)
  · rw [hw.atoms name p hscope]
    exact .same

theorem resolve_agrees (name : String) (closing : Nat) :
    Agrees scope wider (resolve scope name closing) (resolve wider name closing) := by
  rw [resolve, resolve, Symbols.node?, Symbols.node?]
  rcases hscope : scope.symbols.get? name with _ | e
  · rcases hwider : wider.symbols.get? name with _ | e
    · exact .same
    · exact .missed (.symbol hscope hwider)
  · rw [hw.symbols name e hscope]
    exact .same

theorem call_agrees {argument argument' : Reader Expr}
    (h : ReadersAgree scope wider argument argument') (name : String) :
    ReadersAgree scope wider (call scope argument name) (call wider argument' name) := by
  intro input
  rw [call, call]
  -- a call takes the blame only for what is not settled
  refine (slots_agree h input).through (fun _ _ hstop => by rw [hstop]; rfl) fun heq => ?_
  rw [heq]
  split
  · exact .same
  · rename_i operands _
    exact (apply_agrees hw name (input.length + 2) operands.rest.length operands.value).handedOn
      (fun _ _ hstop => by rw [hstop]) fun heq => by rw [heq]

theorem signedBy_agrees {inner inner' : Reader Expr} {deepest? deepest'? : Option (Reader Expr)}
    (hinner : ReadersAgree scope wider inner inner')
    (hdeepest : Option.Rel (ReadersAgree scope wider) deepest? deepest'?) :
    ReadersAgree scope wider (signedBy scope inner deepest?)
      (signedBy wider inner' deepest'?) := by
  intro input
  rw [signedBy.eq_def, signedBy.eq_def]
  split
  · rename_i rest
    exact (hinner rest).handedOn (fun _ _ hstop => by rw [hstop]) fun heq => by rw [heq]
  · rename_i rest
    exact (hinner rest).handedOn (fun _ _ hstop => by rw [hstop]) fun heq => by rw [heq]
  · exact .same
  · exact .same
  · -- a call takes two levels, so there may be no reader for its slots
    rename_i name rest
    rcases hdeepest with hdeepest | _
    · exact (call_agrees hw (sum_agrees hdeepest) name rest).handedOn
        (fun _ _ hstop => by simp only [hstop]) fun heq => by simp only [heq]
    · exact .same
  · rename_i name rest _
    exact (resolve_agrees hw name rest.length).handedOn
      (fun _ _ hstop => by rw [hstop]) fun heq => by rw [heq]
  · rename_i rest
    exact (sum_agrees hinner rest).handedOn (fun _ _ hstop => by rw [hstop]) fun heq => by rw [heq]
  · exact .same

theorem signed_agrees : ∀ n : Nat, ReadersAgree scope wider (signed scope n) (signed wider n)
  | 0 => fun _ => .same
  | 1 => signedBy_agrees hw (signed_agrees 0) .none
  | n + 2 => signedBy_agrees hw (signed_agrees (n + 1)) (.some (signed_agrees n))

end Names

/-! ## Statements and lines -/

theorem statement_agrees {operand operand' : Reader Expr}
    (h : ReadersAgree scope wider operand operand') (input : List TokenKind) :
    Agrees scope wider (statement operand input) (statement operand' input) := by
  rw [statement, statement]
  refine (sum_agrees h input).through (fun _ _ hstop => by rw [hstop]) fun heq => ?_
  rw [heq]
  split
  · exact .same
  · split
    · rename_i rest _
      exact (sum_agrees h rest).handedOn (fun _ _ hstop => by rw [hstop]) fun heq => by rw [heq]
    · exact .same

theorem line_agrees (hw : scope.Within wider) (ks : List TokenKind) :
    Agrees scope wider (line scope ks) (line wider ks) := by
  rw [line.eq_def, line.eq_def]
  split
  · exact .same
  · exact .same
  · exact (statement_agrees (signed_agrees hw maxNesting) ks).handedOn
      (fun _ _ hstop => by rw [hstop]) fun heq => by rw [heq]

end Grammar

/-! ## Lines and texts -/

variable {scope wider : Scope}

/-- A line is read as the same over a wider scope, or is refused over the other for a name
    that the wider one knows. -/
theorem readLine_agrees (hw : scope.Within wider) (text : String) :
    readLine wider text = readLine scope text ∨
      ∃ d, readLine scope text = .error d ∧ scope.Misses wider d.problem := by
  rw [readLine, readLine]
  split
  · exact .inl rfl
  · rename_i tokens _
    rcases Grammar.line_agrees hw (tokens.map Token.kind) with
      heq | ⟨problem, site, hstop, hmissed⟩
    · rw [heq]
      exact .inl rfl
    · rw [hstop]
      exact .inr ⟨_, rfl, hmissed⟩

/-- Lines that are accepted are accepted over more atoms, as the same. -/
theorem Session.Accepts.of_more_atoms {s s' : Session} {lines : List String} {ls : List Line}
    {atoms : Registry} (hatoms : ∀ name p, s.atoms.get? name = some p → atoms.get? name = some p)
    (h : s.Accepts lines ls s') :
    Session.Accepts { s with atoms } lines ls { s' with atoms } := by
  induction h with
  | nil => exact .nil
  | @cons s s' line lines l ls hline _ ih =>
    have hw : s.scope.Within ⟨s.symbols, atoms⟩ := ⟨fun _ _ he => he, hatoms⟩
    have hread : ConvexLang.readLine ⟨s.symbols, atoms⟩ line = .ok l := by
      rcases readLine_agrees hw line with heq | ⟨d, hd, -⟩
      · rw [heq, hline]
      · rw [hline] at hd
        cases hd
    have happly : Session.apply { s with atoms } l = { s.apply l with atoms } := by
      cases l <;> rfl
    rw [← atoms_apply s l] at hatoms
    exact .cons hread (happly ▸ ih hatoms)

/-- Over more symbols and more atoms a line is read as the same, unless it is refused over the
    others for the name of one of those that were added. So a session over an extended
    registry accepts all texts that it accepts over the registry, and they lead to the same
    symbols and the same statements. -/
theorem readLine_conserved {symbols symbols' : Symbols} {atoms atoms' : Registry}
    {extra : List Atom}
    (hsymbols : ∀ name e, symbols.get? name = some e → symbols'.get? name = some e)
    (hatoms : atoms.extend extra = .ok atoms') :
    (∀ text, readLine ⟨symbols', atoms'⟩ text = readLine ⟨symbols, atoms⟩ text ∨
      ∃ d name, readLine ⟨symbols, atoms⟩ text = .error d ∧
        (d.problem = .semantic (.unknownSymbol name) ∧ symbols.get? name = none ∧
            (symbols'.get? name).isSome = true ∨
          d.problem = .semantic (.unknownFunction name) ∧ atoms.get? name = none ∧
            ∃ a ∈ extra, a.name = name)) ∧
    ∀ (s s' : Session) (text : String), s.atoms = atoms → s.readText text = (s', .ok ()) →
      Session.readText { s with atoms := atoms' } text = ({ s' with atoms := atoms' }, .ok ()) := by
  have hmore : ∀ name p, atoms.get? name = some p → atoms'.get? name = some p :=
    fun _ _ => Registry.get?_of_extend hatoms
  have hw : Scope.Within ⟨symbols, atoms⟩ ⟨symbols', atoms'⟩ := ⟨hsymbols, hmore⟩
  refine ⟨fun text => ?_, fun s s' text hs hread => ?_⟩
  · rcases readLine_agrees hw text with heq | ⟨⟨problem, span, source, help⟩, hd, hmissed⟩
    · exact .inl heq
    · refine .inr ?_
      cases hmissed with
      | @symbol name e hnone hsome =>
        exact ⟨_, name, hd, .inl ⟨rfl, hnone, Option.isSome_of_eq_some hsome⟩⟩
      | @atom name p hnone hsome =>
        refine ⟨_, name, hd, .inr ⟨rfl, hnone, ?_⟩⟩
        rcases Registry.get?_or_mem_of_extend hatoms hsome with hknown | ⟨a, ha, hname, -⟩
        · exact absurd (hnone.symm.trans hknown) (Option.some_ne_none p).symm
        · exact ⟨a, ha, hname⟩
  · subst hs
    obtain ⟨ls, haccepts⟩ := Session.readLines_eq_ok_iff.1 hread
    exact Session.readLines_eq_ok_iff.2 ⟨ls, haccepts.of_more_atoms hmore⟩

/-- A registry with one more atom, and a text that does not call it. -/
theorem readLine_conserved_cube :
    let cube : Atom := { curvature := .convex, sign := .positive, arity := some 1, name := "cube" }
    let atoms := Registry.standard.insert cube.name cube.toProfile
    let x := Expr.ofSymbol .decision "x" .unknown
    let symbols := Symbols.declare .empty ⟨.decision, .unknown⟩ ["x"]
    let statements : List Statement := [.expr (.operator "-" [x])]
    Registry.standard.extend [cube] = .ok atoms ∧
      readLine ⟨symbols, atoms⟩ "1" = .ok (.statement (.expr (.ofNumber (.whole 1)))) ∧
      Session.readText { atoms } "variable x\n-x" = ({ atoms, symbols, statements }, .ok ()) := by
  intro cube atoms x symbols statements
  have hcube : Registry.standard.extend [cube] = .ok atoms := by
    have hone : Registry.standard.extendOne cube = .ok atoms :=
      Registry.extendOne_eq_ok_iff.2 ⟨by decide, by decide, by decide +kernel, rfl⟩
    rw [Registry.extend, hone]
    rfl
  have hread : Session.standard.readText "variable x\n-x" =
      ({ atoms := .standard, symbols, statements }, .ok ()) := by cbv
  have hline : readLine ⟨.empty, .standard⟩ "1" =
      .ok (.statement (.expr (.ofNumber (.whole 1)))) := by cbv
  have hsymbols : ∀ name e, Table.empty.get? name = some e → symbols.get? name = some e := by
    intro name e he
    cases he
  obtain ⟨hlines, htexts⟩ := readLine_conserved hsymbols hcube
  refine ⟨hcube, ?_, htexts .standard _ _ rfl hread⟩
  rcases hlines "1" with heq | ⟨d, name, hd, -⟩
  · exact heq.trans hline
  · rw [hline] at hd
    cases hd

end ConvexLang
