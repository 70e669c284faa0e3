import ConvexLang.Proofs.Placement
import ConvexLang.Proofs.Position
import ConvexLang.Proofs.Recognition
import ConvexLang.Registry.Standard
import Mathlib

/-!
# Diagnostics are true

A line that is refused is refused for what its diagnostic says. For each problem this
module tells what must hold of the kinds that are pointed at, of those in front of
them and of those behind them, in terms of the derivations of the grammar alone:

* `OperandFault`: an unknown name, a call with too few or too many slots, a call whose
  slots are malformed. Each of them stands where an operand is due.
* `StatementFault`: a fault of an operand, a relation behind a constraint, or anything
  else behind a whole statement.
* `LineFault`: a fault of a statement, or a line that is acceptable in no way.

A reader knows what remains, not what came before it. So each reader explains why it
stops (`Explains`) by some way to cut its input into what was read, the run that is
pointed at and what remains behind that; a reader that goes through another adds what
it read to the front (`Blames.behind`). `readLine_faulty` puts the tokens of the line
in place of the kinds, and the run's bytes in place of what remains.
-/

namespace ConvexLang

namespace Grammar

variable {scope : Scope}

/-! ## What is wrong -/

/-- What is wrong with an operand: `run` are the kinds that are pointed at, `after`
    those behind them, and `due m` says that an operand of `m` levels is due in front
    of them. -/
inductive OperandFault (scope : Scope) (due : Nat → Prop) :
    Problem → List TokenKind → List TokenKind → Prop
  /-- A name that opens no call and is no symbol. -/
  | unknownSymbol {n : Nat} {name : String} {after : List TokenKind} : due (n + 1) →
    EndsName after → scope.symbols.get? name = none →
      OperandFault scope due (.semantic (.unknownSymbol name)) [.identifier name] after
  /-- The name of a call with well-formed slots, but of no atom. -/
  | unknownFunction {n : Nat} {name : String} {inside after : List TokenKind}
    {os : List Operand} : due (n + 2) → IsSlots scope n inside os → IsBalanced inside →
      scope.atoms.get? name = none →
        OperandFault scope due (.semantic (.unknownFunction name)) [.identifier name]
          (.leftParen :: (inside ++ .rightParen :: after))
  /-- A call of an atom with well-formed slots, but not as many as the atom has
      arguments. -/
  | arityMismatch {n : Nat} {name : String} {inside after : List TokenKind}
    {os : List Operand} {p : Profile} {expected : Nat} : due (n + 2) →
      IsSlots scope n inside os → IsBalanced inside → scope.atoms.get? name = some p →
        p.arity = some expected → os.length ≠ expected →
          OperandFault scope due (.semantic (.arityMismatch name expected os.length))
            (.identifier name :: .leftParen :: (inside ++ [.rightParen])) after
  /-- A call whose slots are not well-formed, though parentheses are closed behind
      them. It is pointed at with all that follows it. -/
  | malformedCall {n : Nat} {name : String} {rest : List TokenKind} : due (n + 2) →
    .rightParen ∈ rest →
      (∀ inside after os, rest = inside ++ .rightParen :: after → ¬IsSlots scope n inside os) →
        OperandFault scope due (.grammatical (.malformedCall name))
          (.identifier name :: .leftParen :: rest) []

theorem OperandFault.mono {due due' : Nat → Prop} (hdue : ∀ m, due m → due' m)
    {problem : Problem} {run after : List TokenKind}
    (h : OperandFault scope due problem run after) :
    OperandFault scope due' problem run after := by
  cases h with
  | unknownSymbol hd ha hs => exact .unknownSymbol (hdue _ hd) ha hs
  | unknownFunction hd hos hb ha => exact .unknownFunction (hdue _ hd) hos hb ha
  | arityMismatch hd hos hb hp he hne => exact .arityMismatch (hdue _ hd) hos hb hp he hne
  | malformedCall hd hr hno => exact .malformedCall (hdue _ hd) hr hno

/-- Why a reader may have stopped, where `fault` tells what is wrong with a run of its
    input, by what stands in front of the run and behind it: an unexpected kind or the
    end of the input, or else a problem that is settled. -/
inductive Explains (fault : List TokenKind → Problem → List TokenKind → List TokenKind → Prop)
    (input : List TokenKind) : Stop → Prop
  | unexpected {before rest : List TokenKind} : input = before ++ rest →
    Explains fault input (.unexpected rest)
  | settled {before run after : List TokenKind} {problem : Problem} :
    input = before ++ (run ++ after) → run ≠ [] → fault before problem run after →
      Explains fault input (.settled problem ⟨(run ++ after).length, after.length⟩)

section Explains

variable {fault : List TokenKind → Problem → List TokenKind → List TokenKind → Prop}

/-- What is wrong with the input is wrong with the input behind other kinds. -/
theorem Explains.behind
    {fault' : List TokenKind → Problem → List TokenKind → List TokenKind → Prop}
    (ks : List TokenKind)
    (hfault : ∀ {before problem run after}, fault before problem run after →
      fault' (ks ++ before) problem run after)
    {input : List TokenKind} {stop : Stop} (h : Explains fault input stop) :
    Explains fault' (ks ++ input) stop := by
  cases h with
  | unexpected hi =>
    rw [hi, ← List.append_assoc]
    exact .unexpected rfl
  | settled hi hrun hf =>
    rw [hi, ← List.append_assoc]
    exact .settled rfl hrun (hfault hf)

/-- A fault of what the input begins with. -/
theorem explains_of_fault {input run after : List TokenKind} {problem : Problem} {site : Site}
    (hinput : input = run ++ after) (hrun : run ≠ []) (hfault : fault [] problem run after)
    (hsite : site = ⟨input.length, after.length⟩) :
    Explains fault input (.settled problem site) := by
  rw [hsite, hinput]
  exact .settled rfl hrun hfault

end Explains

/-- Why a reader may have stopped that reads nothing but operands, where `due` tells
    which operands are due behind some of its input. -/
abbrev Blames (scope : Scope) (due : List TokenKind → Nat → Prop) (input : List TokenKind)
    (stop : Stop) : Prop :=
  Explains (fun before => OperandFault scope (due before)) input stop

/-- An operand that is due behind part of the input is due behind other kinds. -/
theorem Blames.behind {due due' : List TokenKind → Nat → Prop} {input : List TokenKind}
    {stop : Stop} (h : Blames scope due input stop) (ks : List TokenKind)
    (hdue : ∀ {before : List TokenKind} {m : Nat}, due before m → due' (ks ++ before) m) :
    Blames scope due' (ks ++ input) stop :=
  Explains.behind ks (fun hf => hf.mono fun _ => hdue) h

/-- The reader tells rightly why it stops. -/
def Explained {α : Type} (scope : Scope) (read : Reader α) (due : List TokenKind → Nat → Prop) :
    Prop :=
  ∀ {input : List TokenKind} {stop : Stop}, read input = .error stop →
    Blames scope due input stop

/-! ## Sums and products -/

/-- What holds of why an operand of a loop stops holds, behind what was read before it,
    of why the loop stops. -/
theorem chain_stops {operator? : TokenKind → Option String} {operand : Reader Expr}
    {P Q : List TokenKind → Expr → Prop} {R R' : List TokenKind → Stop → Prop}
    (hP : Sound operand P)
    (hoperand : ∀ {input : List TokenKind} {stop : Stop}, operand input = .error stop →
      R input stop)
    (hQ : ∀ {ks ls : List TokenKind} {a b : Expr} {k : TokenKind} {name : String},
      Q ks a → operator? k = some name → P ls b → Q (ks ++ k :: ls) (.operator name [a, b]))
    (hR : ∀ {ks input : List TokenKind} {a : Expr} {k : TokenKind} {name : String} {stop : Stop},
      Q ks a → operator? k = some name → R input stop → R' (ks ++ k :: input) stop)
    {bound : Nat} {left : Parsed Expr bound} {stop : Stop}
    (h : chain operator? operand left = .error stop) {ks : List TokenKind}
    (hks : Q ks left.value) : R' (ks ++ left.rest) stop := by
  induction hn : left.rest.length using Nat.strongRecOn generalizing left ks with
  | ind n ih =>
    rw [chain] at h
    split at h
    · cases h
    · rename_i k rest hrest
      split at h
      · cases h
      · rename_i name hname
        rw [hrest]
        split at h
        · rename_i stop' hstop
          cases h
          exact hR hks hname (hoperand hstop)
        · rename_i right hright
          obtain ⟨ls, hls, hb⟩ := hP hright
          have hlt : right.rest.length < n := by
            have := right.shorter
            rw [← hn, hrest, List.length_cons]
            omega
          have hstops := ih _ hlt h (hQ hks hname hb) rfl
          rw [hls]
          simpa using hstops

/-- A loop explains why it stops, if its operand does, where an operand behind one
    more operator is due in what was read before. -/
theorem chain_explained {operator? : TokenKind → Option String} {operand : Reader Expr}
    {P Q : List TokenKind → Expr → Prop} {due due' : List TokenKind → Nat → Prop}
    (hP : Sound operand P) (hoperand : Explained scope operand due)
    (hQ : ∀ {ks ls : List TokenKind} {a b : Expr} {k : TokenKind} {name : String},
      Q ks a → operator? k = some name → P ls b → Q (ks ++ k :: ls) (.operator name [a, b]))
    (hdue : ∀ {ks ls : List TokenKind} {a : Expr} {k : TokenKind} {name : String} {m : Nat},
      Q ks a → operator? k = some name → due ls m → due' (ks ++ k :: ls) m)
    {bound : Nat} {left : Parsed Expr bound} {stop : Stop}
    (h : chain operator? operand left = .error stop) {ks : List TokenKind}
    (hks : Q ks left.value) : Blames scope due' (ks ++ left.rest) stop := by
  refine chain_stops hP hoperand hQ (fun {ks input _ k _ stop} hks hk hblames => ?_) h hks
  have hbehind : Blames scope due' ((ks ++ [k]) ++ input) stop :=
    Blames.behind hblames (ks ++ [k]) fun hm => by
      rw [List.append_assoc]
      exact hdue hks hk hm
  rwa [List.append_assoc] at hbehind

/-- Why `apply` builds no call. -/
theorem apply_eq_error {name : String} {opening closing : Nat} {os : List Operand} {stop : Stop}
    (h : apply scope name opening closing os = .error stop) :
    (scope.atoms.get? name = none ∧
      stop = .settled (.semantic (.unknownFunction name)) ⟨opening, opening - 1⟩) ∨
    ∃ p expected, scope.atoms.get? name = some p ∧ p.arity = some expected ∧
      os.length ≠ expected ∧
      stop = .settled (.semantic (.arityMismatch name expected os.length)) ⟨opening, closing⟩ := by
  rw [apply] at h
  split at h
  · rename_i hnone
    cases h
    exact .inl ⟨hnone, rfl⟩
  · rename_i p hp
    split at h
    · cases h
    · rename_i haccepts
      cases h
      rw [Profile.accepts] at haccepts
      split at haccepts
      · exact absurd rfl haccepts
      · rename_i expected harity
        rw [harity]
        exact .inr ⟨p, expected, hp, harity, fun hlen => haccepts (by simp [hlen]), rfl⟩

/-! ## One level -/

section Level

variable {n : Nat} (h : Explained scope (signed scope n) (DueInSigned scope n))
include h

theorem product_explained : Explained scope (product (signed scope n)) (DueInProduct scope n) := by
  intro input stop hstop
  rw [product] at hstop
  split at hstop
  · rename_i hread
    cases hstop
    exact (h hread).behind [] .first
  · rename_i left hleft
    obtain ⟨ks, hks, ha⟩ := signed_sound n hleft
    rw [hks]
    exact chain_explained (Q := IsProduct scope n) (signed_sound n) h IsProduct.multiplicative
      .next hstop (.signed ha)

theorem sum_explained : Explained scope (sum (signed scope n)) (DueInSum scope n) := by
  intro input stop hstop
  rw [sum] at hstop
  split at hstop
  · rename_i hread
    cases hstop
    exact (product_explained h hread).behind [] .first
  · rename_i left hleft
    obtain ⟨ks, hks, ha⟩ := product_sound (signed_sound n) hleft
    rw [hks]
    exact chain_explained (Q := IsSum scope n) (product_sound (signed_sound n))
      (product_explained h) IsSum.additive .next hstop (.product ha)

theorem slot_explained {input : List TokenKind} {stop : Stop}
    (hstop : slot (sum (signed scope n)) input = .error stop) :
    Blames scope (DueInSum scope n) input stop := by
  rw [slot.eq_def] at hstop
  split at hstop
  · cases hstop
  · cases hstop
  · cases hstop
  · split at hstop
    · cases hstop
      exact sum_explained h ‹_›
    · cases hstop

theorem slots_explained {input : List TokenKind} {stop : Stop}
    (hstop : slots (sum (signed scope n)) input = .error stop) :
    Blames scope (DueInSlots scope n) input stop := by
  rw [slots] at hstop
  split at hstop
  · rename_i hread
    cases hstop
    exact (slot_explained h hread).behind [] .first
  · rename_i first hfirst
    obtain ⟨ks, hks, hs⟩ := slot_sound (sum_sound (signed_sound n)) hfirst
    split at hstop
    · rename_i rest hrest
      split at hstop
      · rename_i hread
        cases hstop
        have hlt : rest.length < input.length :=
          Nat.lt_of_succ_lt_succ (first.length_succ_lt hrest)
        have hbehind : Blames scope (DueInSlots scope n) ((ks ++ [.comma]) ++ rest) _ :=
          (slots_explained hread).behind (ks ++ [.comma]) fun hm => by
            rw [List.append_assoc]
            exact .next hs hm
        rw [hks, hrest]
        rwa [List.append_assoc] at hbehind
      · cases hstop
    · cases hstop
    · cases hstop
      exact .unexpected hks
termination_by input.length

theorem call_explained {name : String} {input : List TokenKind} {stop : Stop}
    (hstop : call scope (sum (signed scope n)) name input = .error stop) :
    Blames scope (DueInSigned scope (n + 2)) (.identifier name :: .leftParen :: input) stop := by
  rw [call] at hstop
  split at hstop
  · rename_i stop' hslots
    cases hstop
    have hexplains := slots_explained h hslots
    have hbehind : Blames scope (DueInSigned scope (n + 2))
        ([.identifier name, .leftParen] ++ input) stop' :=
      hexplains.behind [.identifier name, .leftParen] .call
    cases hexplains with
    | settled => exact hbehind
    | unexpected hi =>
      rw [Stop.inCall]
      split
      · rename_i hclosing
        refine explains_of_fault (List.append_nil _).symm (List.cons_ne_nil _ _)
          (.malformedCall .here ?_ ?_) rfl
        · rw [hi]
          exact List.mem_append_right _ (List.contains_iff_mem.1 hclosing)
        · -- well-formed slots in front of a closing parenthesis would have been read
          intro inside after os hinput d
          obtain ⟨_, hread⟩ := d.reads hinput
          rw [hread] at hslots
          cases hslots
      · exact hbehind
  · rename_i operands hoperands
    obtain ⟨inside, hinside, hos⟩ := slots_sound (sum_sound (signed_sound n)) hoperands
    split at hstop
    · rename_i stop' happly
      cases hstop
      have hcall := congrArg (fun ks => TokenKind.identifier name :: .leftParen :: ks) hinside
      rcases apply_eq_error happly with ⟨hnone, rfl⟩ | ⟨p, expected, hp, harity, hne, rfl⟩
      · refine explains_of_fault hcall (List.cons_ne_nil _ [])
          (.unknownFunction .here hos hos.isBalanced hnone) ?_
        simp [← hinside]
      · refine explains_of_fault (hcall.trans ?_) (List.cons_ne_nil _ _)
          (.arityMismatch .here hos hos.isBalanced hp harity hne) rfl
        simp
    · cases hstop

end Level

/-- A signed operand of one more level, where `inner` reads what lies one level
    deeper. The reader for two levels deeper is there only if there are two. -/
theorem signedBy_explained {n : Nat} (h : Explained scope (signed scope n) (DueInSigned scope n))
    (hdeepest : ∀ m, n = m + 1 → Explained scope (signed scope m) (DueInSigned scope m)) :
    Explained scope (signedBy scope (signed scope n) (deepest? scope n))
      (DueInSigned scope (n + 1)) := by
  intro input stop hstop
  rw [signedBy.eq_def] at hstop
  split at hstop
  · -- a sign `+`
    split at hstop
    · cases hstop
      exact (h ‹_›).behind [.plus] .plus
    · cases hstop
  · -- a sign `-`
    split at hstop
    · cases hstop
      exact (h ‹_›).behind [.minus] .minus
    · cases hstop
  · cases hstop
  · cases hstop
  · -- a call
    split at hstop
    · cases hstop
      exact .unexpected (List.nil_append _).symm
    · rename_i hdeep
      cases n with
      | zero => cases hdeep
      | succ m =>
        cases hdeep
        split at hstop
        · cases hstop
          exact call_explained (hdeepest m rfl) ‹_›
        · cases hstop
  · -- a bare name
    rename_i name rest hrest
    rw [resolve] at hstop
    split at hstop
    · rename_i hread
      cases hstop
      split at hread
      · cases hread
      · rename_i hnone
        cases hread
        have hends : EndsName rest := by
          rintro k hk rfl
          obtain ⟨_, rfl⟩ := List.head?_eq_some_iff.1 hk
          exact hrest _ rfl
        exact explains_of_fault rfl (List.cons_ne_nil _ []) (.unknownSymbol .here hends hnone) rfl
    · cases hstop
  · -- a sum in parentheses
    split at hstop
    · cases hstop
      exact (sum_explained h ‹_›).behind [.leftParen] .parens
    · rename_i p hp
      obtain ⟨ks, hks, -⟩ := sum_sound (signed_sound n) hp
      split at hstop
      · cases hstop
      · cases hstop
        have hinput := congrArg (List.cons TokenKind.leftParen) hks
        rw [← List.cons_append] at hinput
        exact .unexpected hinput
  · cases hstop
    exact .unexpected (List.nil_append _).symm

theorem signed_explained : ∀ n : Nat, Explained scope (signed scope n) (DueInSigned scope n)
  | 0 => fun h => by
    cases h
    exact .unexpected (List.nil_append _).symm
  | 1 => signedBy_explained (signed_explained 0) nofun
  | n + 2 => signedBy_explained (signed_explained (n + 1)) fun m hm => by
    cases hm
    exact signed_explained n

/-! ## Statements -/

/-- What is wrong with a statement: `before` are the kinds in front of those that are
    pointed at. -/
inductive StatementFault (scope : Scope) :
    List TokenKind → Problem → List TokenKind → List TokenKind → Prop
  /-- One of its operands is at fault. -/
  | operand {before run after : List TokenKind} {problem : Problem} :
    OperandFault scope (DueInStatement scope before) problem run after →
      StatementFault scope before problem run after
  /-- A relation stands behind a whole constraint. -/
  | chainedConstraint {before after : List TokenKind} {r r' : Relation} {a b : Expr} :
    IsStatement scope before (.constraint r a b) →
      StatementFault scope before (.grammatical .chainedConstraint) [.relation r'] after
  /-- A whole statement does not take up the line. -/
  | trailingInput {before run : List TokenKind} {s : Statement} :
    IsStatement scope before s → run ≠ [] →
      StatementFault scope before (.grammatical (.trailingInput s.text)) run []

/-- What is wrong with an operand of a statement is wrong with the statement. -/
theorem Blames.inStatement {due : List TokenKind → Nat → Prop} {input : List TokenKind}
    {stop : Stop} (h : Blames scope due input stop) (ks : List TokenKind)
    (hdue : ∀ {before : List TokenKind} {m : Nat}, due before m →
      DueInStatement scope (ks ++ before) m) :
    Explains (StatementFault scope) (ks ++ input) stop :=
  Explains.behind ks (fun hf => .operand (hf.mono fun _ => hdue)) h

/-- A whole statement that is refused is refused for what is behind it. -/
theorem complete_explained {before rest : List TokenKind} {s : Statement} {stop : Stop}
    (hs : IsStatement scope before s) (h : complete s rest = .error stop) :
    Explains (StatementFault scope) (before ++ rest) stop := by
  cases rest with
  | nil => cases h
  | cons k ks =>
    cases h
    have hne := List.cons_ne_nil k ks
    have hfault : StatementFault scope before (.grammatical (.trailingInput s.text)) (k :: ks) [] :=
      .trailingInput hs hne
    have hsettled := Explains.settled rfl hne hfault
    rwa [List.append_nil] at hsettled

theorem statement_explained {input : List TokenKind} {stop : Stop}
    (h : statement (signed scope maxNesting) input = .error stop) :
    Explains (StatementFault scope) input stop := by
  have hsum : Explained scope (sum (signed scope maxNesting)) (DueInSum scope maxNesting) :=
    sum_explained (signed_explained maxNesting)
  rw [statement] at h
  split at h
  · rename_i hread
    cases h
    exact (hsum hread).inStatement [] .left
  · rename_i left hleft
    obtain ⟨ks, hks, ha⟩ := sum_sound (signed_sound _) hleft
    split at h
    · rename_i r rest hrest
      rw [hrest] at hks
      split at h
      · rename_i hread
        cases h
        rw [hks, List.append_cons]
        refine (hsum hread).inStatement _ fun hm => ?_
        rw [List.append_assoc]
        exact .right ha hm
      · rename_i right hright
        obtain ⟨ls, hls, hb⟩ := sum_sound (signed_sound _) hright
        have hconstraint : IsStatement scope (ks ++ .relation r :: ls)
            (.constraint r left.value right.value) := .constraint ha hb
        have hinput : input = (ks ++ .relation r :: ls) ++ right.rest := by
          rw [append_cons_append, ← hls, hks]
        split at h
        · rename_i r' after hafter
          cases h
          rw [hafter] at hinput
          exact .settled hinput (List.cons_ne_nil _ []) (.chainedConstraint hconstraint)
        · rw [hinput]
          exact complete_explained hconstraint h
    · rw [hks]
      exact complete_explained (.expr ha) h

/-! ## Lines -/

theorem names_eq_error {ks : List TokenKind} {stop : Stop} (h : names ks = .error stop) :
    ∃ before rest, ks = before ++ rest ∧ stop = .unexpected rest := by
  induction ks with
  | nil => cases h
  | cons k ks ih =>
    cases k with
    | identifier name =>
      rw [names] at h
      split at h
      · rename_i hread
        cases h
        obtain ⟨before, rest, rfl, rfl⟩ := ih hread
        exact ⟨.identifier name :: before, rest, rfl, rfl⟩
      · cases h
    | _ =>
      cases h
      exact ⟨[], _, rfl, rfl⟩

theorem declaredSign_rest (ks : List TokenKind) : ∃ before, ks = before ++ (declaredSign ks).2 := by
  rw [declaredSign.eq_def]
  split
  · exact ⟨[_], rfl⟩
  · exact ⟨[], rfl⟩

/-- A declaration is refused for an unexpected kind or for its end. -/
theorem declaration_eq_error {role : Role} {ks : List TokenKind} {stop : Stop}
    (h : declaration role ks = .error stop) :
    ∃ before rest, ks = before ++ rest ∧ stop = .unexpected rest := by
  obtain ⟨before, hbefore⟩ := declaredSign_rest ks
  simp only [declaration] at h
  split at h
  · rename_i hread
    cases h
    obtain ⟨more, rest, hrest, rfl⟩ := names_eq_error hread
    rw [hrest, ← List.append_assoc] at hbefore
    exact ⟨_, rest, hbefore, rfl⟩
  · cases h
    exact ⟨ks, [], (List.append_nil ks).symm, rfl⟩
  · cases h

/-- What begins as an operand is refused as a statement is. -/
theorem line_eq_error_iff {ks : List TokenKind} (hks : Begins ks) {stop : Stop} :
    line scope ks = .error stop ↔ statement (signed scope maxNesting) ks = .error stop := by
  obtain ⟨k, rest, rfl, hk⟩ := hks
  rw [line.eq_def]
  split
  · cases ‹_ = []›
  · rename_i heq
    cases heq
    cases hk
  · cases statement (signed scope maxNesting) (k :: rest) <;> simp

theorem line_explained {ks : List TokenKind} {stop : Stop} (h : line scope ks = .error stop) :
    Explains (StatementFault scope) ks stop := by
  rw [line.eq_def] at h
  split at h
  · cases h
  · rename_i role rest
    split at h
    · rename_i hread
      cases h
      obtain ⟨before, rest', rfl, rfl⟩ := declaration_eq_error hread
      exact .unexpected (List.cons_append ..).symm
    · cases h
  · split at h
    · cases h
      exact statement_explained ‹_›
    · cases h

/-- The kinds are an acceptable line. -/
inductive IsLine (scope : Scope) : List TokenKind → Prop
  | empty : IsLine scope []
  | declaration {ks : List TokenKind} {d : Declared} {ns : List String} :
    IsDeclaration ks d ns → IsLine scope ks
  | statement {ks : List TokenKind} {s : Statement} : IsStatement scope ks s → IsLine scope ks

/-- The acceptable lines are those that are read. -/
theorem isLine_iff {ks : List TokenKind} : IsLine scope ks ↔ ∃ l, line scope ks = .ok l := by
  refine ⟨fun h => ?_, fun ⟨l, hl⟩ => ?_⟩
  · cases h with
    | empty => exact ⟨_, line_eq_ok_empty_iff.2 rfl⟩
    | declaration d => exact ⟨_, line_eq_ok_declaration_iff.2 d⟩
    | statement d => exact ⟨_, line_eq_ok_statement_iff.2 d⟩
  · cases l with
    | empty =>
      rw [line_eq_ok_empty_iff.1 hl]
      exact .empty
    | declaration d ns => exact .declaration (line_eq_ok_declaration_iff.1 hl)
    | statement s => exact .statement (line_eq_ok_statement_iff.1 hl)

/-- What is wrong with a line, whose text is `text`: `before` are the kinds in front of
    those that are pointed at, `run`, and `after` those behind them. -/
inductive LineFault (scope : Scope) (text : String) :
    List TokenKind → Problem → List TokenKind → List TokenKind → Prop
  /-- The line is a statement that is at fault. -/
  | statement {before run after : List TokenKind} {problem : Problem} :
    StatementFault scope before problem run after →
      LineFault scope text before problem run after
  /-- The line is not acceptable because of a kind in it. -/
  | unexpected {before after : List TokenKind} {k : TokenKind} :
    ¬IsLine scope (before ++ k :: after) →
      LineFault scope text before (.grammatical (.invalidExpression text)) [k] after
  /-- The line is not acceptable because it ends. -/
  | unfinished {before : List TokenKind} : ¬IsLine scope before →
    LineFault scope text before (.grammatical (.invalidExpression text)) [] []

end Grammar

/-- A line that is cut into tokens is refused for why the reading of their kinds stops. -/
theorem readLine_eq_error_iff {scope : Scope} {text : String} {tokens : List Token}
    {d : Diagnostic} (htokens : tokenize text = .ok tokens) :
    readLine scope text = .error d ↔ ∃ stop,
      Grammar.line scope (tokens.map Token.kind) = .error stop ∧
        d = stop.toDiagnostic text tokens := by
  rw [readLine, htokens]
  dsimp only
  cases Grammar.line scope (tokens.map Token.kind) with
  | error stop => simp [eq_comm]
  | ok l => simp

open Grammar in
/-- The diagnostic of a line that is cut into tokens is true of them: it covers a run of
    tokens, or stands at the end of the line, and what it says is wrong with that run,
    with what is in front of it and with what is behind it. -/
theorem readLine_faulty {scope : Scope} {text : String} {tokens : List Token} {d : Diagnostic}
    (htokens : tokenize text = .ok tokens) (h : readLine scope text = .error d) :
    ∃ before run after problem, tokens = before ++ (run ++ after) ∧
      d = .atSpan problem (spanOfRun run text.utf8ByteSize) ∧
      LineFault scope text (before.map Token.kind) problem (run.map Token.kind)
        (after.map Token.kind) := by
  obtain ⟨stop, hstop, rfl⟩ := (readLine_eq_error_iff htokens).1 h
  have hrejected : ¬IsLine scope (tokens.map Token.kind) := fun hline => by
    obtain ⟨l, hl⟩ := isLine_iff.1 hline
    rw [hl] at hstop
    cases hstop
  cases line_explained hstop with
  | @unexpected _ ks hks =>
    obtain ⟨before, rest, rfl, rfl, rfl⟩ := List.map_eq_append_iff.1 hks
    rw [hks] at hrejected
    cases rest with
    | nil =>
      refine ⟨before, [], [], _, rfl, ?_, .unfinished (by simpa using hrejected)⟩
      simp [Stop.toDiagnostic, Site.span, spanOfRun]
    | cons t after =>
      refine ⟨before, [t], after, _, rfl, ?_, .unexpected hrejected⟩
      have hspan := (tokenize_placed htokens).span_site (List.cons_ne_nil t []) rfl
        text.utf8ByteSize
      rw [← hspan]
      simp [Stop.toDiagnostic]
  | settled hks hrun hf =>
    obtain ⟨before, rest, rfl, rfl, hrest⟩ := List.map_eq_append_iff.1 hks
    obtain ⟨run, after, rfl, rfl, rfl⟩ := List.map_eq_append_iff.1 hrest
    refine ⟨before, run, after, _, rfl, ?_, .statement hf⟩
    have hspan := (tokenize_placed htokens).span_site
      (fun hnil => hrun (List.map_eq_nil_iff.2 hnil)) rfl text.utf8ByteSize
    rw [← hspan]
    simp [Stop.toDiagnostic]

open Grammar in
/-- A call with one argument too many, behind a sum. -/
theorem readLine_faulty_call :
    let scope : Scope := ⟨.empty, .standard⟩
    let tokens : List Token :=
      [⟨.integer 1, ⟨0, 1⟩⟩, ⟨.plus, ⟨1, 2⟩⟩, ⟨.identifier "abs", ⟨2, 5⟩⟩, ⟨.leftParen, ⟨5, 6⟩⟩,
        ⟨.integer 1, ⟨6, 7⟩⟩, ⟨.comma, ⟨7, 8⟩⟩, ⟨.integer 2, ⟨8, 9⟩⟩, ⟨.rightParen, ⟨9, 10⟩⟩]
    let d : Diagnostic := .atSpan (.semantic (.arityMismatch "abs" 1 2)) ⟨2, 10⟩
    tokenize "1+abs(1,2)" = .ok tokens ∧ readLine scope "1+abs(1,2)" = .error d ∧
      ∃ before run after problem, tokens = before ++ (run ++ after) ∧
        d = .atSpan problem (spanOfRun run ("1+abs(1,2)" : String).utf8ByteSize) ∧
        LineFault scope "1+abs(1,2)" (before.map Token.kind) problem (run.map Token.kind)
          (after.map Token.kind) := by
  intro scope tokens d
  have htokens : tokenize "1+abs(1,2)" = .ok tokens := by cbv
  have hread : readLine scope "1+abs(1,2)" = .error d := by cbv
  exact ⟨htokens, hread, readLine_faulty htokens hread⟩

end ConvexLang
