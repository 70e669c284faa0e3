import ConvexLang.Proofs.Annotation
import ConvexLang.Proofs.Effect
import Mathlib

/-!
# What names stand for

A name stands for what the last accepted declaration of it says, and a statement keeps what
its names stood for when it was read.

To say so of a session that has been asked to do many things, the lines that it accepted
since it was reset are kept in a log, each with the session that it was read over
(`Session.log`). Of a text these are the lines in front of its first failing one.

* `Session.Logs`: what such a log may be. It grows by a line that is accepted over the
  session, and a run keeps it (`logs_run`).
* `Logs.node?_eq`: what a name stands for, by the log alone. It holds of each session in the
  log too, with the part of the log in front of it (`Logs.front`).
* `run_scoping`: both after any run.
-/

namespace ConvexLang

/-! ## Declarations -/

/-- How the line declares a name, if it does. -/
def Line.declares? (name : String) : Line → Option Declared
  | .declaration d names => if name ∈ names then some d else none
  | _ => none

/-- A line that was accepted, and the session that it was read over. -/
structure Reading where
  /-- The session at that moment. -/
  session : Session
  /-- The text of the line. -/
  text : String
  /-- What it was read as. -/
  line : Line

/-- How the last of the lines that declare a name declares it. -/
def lastDeclared? (log : List Reading) (name : String) : Option Declared :=
  log.reverse.findSome? fun r => r.line.declares? name

theorem lastDeclared?_concat (log : List Reading) (r : Reading) (name : String) :
    lastDeclared? (log ++ [r]) name =
      (r.line.declares? name).or (lastDeclared? log name) := by
  rw [lastDeclared?, List.reverse_concat, List.findSome?_cons]
  rcases r.line.declares? name with _ | d <;> rfl

theorem isSome_lastDeclared?_iff {log : List Reading} {name : String} :
    (lastDeclared? log name).isSome = true ↔
      ∃ r ∈ log, (r.line.declares? name).isSome = true := by
  simp [lastDeclared?, List.findSome?_isSome_iff]

namespace Session

variable {atoms : Registry} {s : Session} {rs : List Reading}

/-! ## Logs -/

/-- The lines that are accepted one after the other, up to the first failing one. -/
def readings (s : Session) : List String → List Reading
  | [] => []
  | text :: texts =>
    match ConvexLang.readLine s.scope text with
    | .error _ => []
    | .ok l => ⟨s, text, l⟩ :: readings (s.apply l) texts

/-- The log after one more call. -/
def record (s : Session) (rs : List Reading) : Call → List Reading
  | .text text => rs ++ s.readings (Text.lines text)
  | .line text => rs ++ s.readings [text]
  | .reset => []

/-- The log after several calls. -/
def logFrom (s : Session) (rs : List Reading) : List Call → List Reading
  | [] => rs
  | c :: calls => logFrom (s.perform c) (s.record rs c) calls

/-- The lines that the session accepts while it performs the calls, since the last reset
    among them. -/
def log (s : Session) (calls : List Call) : List Reading :=
  s.logFrom [] calls

/-- The log holds the lines that led from a new session to this one. -/
inductive Logs (atoms : Registry) : List Reading → Session → Prop
  | nil : Logs atoms [] { atoms }
  | concat {rs : List Reading} {s : Session} {text : String} {l : Line} : Logs atoms rs s →
    ConvexLang.readLine s.scope text = .ok l → Logs atoms (rs ++ [⟨s, text, l⟩]) (s.apply l)

theorem Logs.atoms_eq (h : Logs atoms rs s) : s.atoms = atoms := by
  induction h with
  | nil => rfl
  | concat _ _ ih => rw [atoms_apply, ih]

/-- Lines add those of them to the log that are accepted. -/
theorem Logs.readLines (h : Logs atoms rs s) (number : Nat) (texts : List String) :
    Logs atoms (rs ++ s.readings texts) (s.readLines number texts).1 := by
  induction texts generalizing s rs number with
  | nil =>
    rw [readings, List.append_nil]
    exact h
  | cons text texts ih =>
    rw [readings, Session.readLines, Session.readLine]
    rcases hread : ConvexLang.readLine s.scope text with d | l
    · rw [List.append_nil]
      exact h
    · have hnext := ih (h.concat hread) (number + 1)
      rwa [List.append_assoc] at hnext

theorem readLine_fst (s : Session) (text : String) :
    (s.readLine text).1 = (s.readLines 1 [text]).1 := by
  rw [Session.readLines]
  rcases s.readLine text with ⟨s', d | l⟩ <;> rfl

/-- A call keeps the log right, whether it succeeds or not. -/
theorem Logs.perform (h : Logs atoms rs s) (c : Call) :
    Logs atoms (s.record rs c) (s.perform c) := by
  rcases c with text | text | _
  · exact h.readLines 1 _
  · rw [Session.perform, readLine_fst]
    exact h.readLines 1 [text]
  · rw [Session.perform, reset, h.atoms_eq]
    exact .nil

theorem Logs.run (h : Logs atoms rs s) (calls : List Call) :
    Logs atoms (s.logFrom rs calls) (s.run calls) := by
  induction calls generalizing s rs with
  | nil => exact h
  | cons c calls ih => exact ih (h.perform c)

theorem logs_run (atoms : Registry) (calls : List Call) :
    Logs atoms (Session.log { atoms } calls) (Session.run { atoms } calls) :=
  Logs.nil.run calls

/-! ## What logs tell -/

/-- Each line in the log was accepted over the session that the lines in front of it led to. -/
theorem Logs.front (h : Logs atoms rs s) {before after : List Reading} {r : Reading}
    (hrs : rs = before ++ r :: after) :
    Logs atoms before r.session ∧ ConvexLang.readLine r.session.scope r.text = .ok r.line := by
  induction h generalizing after with
  | nil => simp at hrs
  | @concat rs s text l h hl ih =>
    -- the line is the last one, or was in the log before the last one
    rcases List.eq_nil_or_concat' after with rfl | ⟨after, last, rfl⟩
    · obtain ⟨rfl, hr⟩ := List.append_inj' hrs rfl
      obtain rfl := (List.cons.inj hr).1
      exact ⟨h, hl⟩
    · rw [← List.cons_append, ← List.append_assoc] at hrs
      exact ih (List.append_inj' hrs rfl).1

/-- A name stands for what the last line says that declares it. -/
theorem Logs.node?_eq (h : Logs atoms rs s) (name : String) :
    s.symbols.node? name = (lastDeclared? rs name).map (·.symbol name) := by
  induction h with
  | nil => rfl
  | @concat rs s text l _ _ ih =>
    rw [lastDeclared?_concat]
    -- only a declaration changes what names stand for
    rcases l with _ | ⟨d, names⟩ | t
    · exact ih
    · rw [apply, Symbols.node?_declare, ih, Line.declares?]
      split <;> rfl
    · exact ih

theorem Logs.statements (h : Logs atoms rs s) :
    s.statements = rs.filterMap fun r => r.line.statement? := by
  induction h with
  | nil => rfl
  | @concat rs s text l _ _ ih =>
    rw [statements_apply, ih, List.filterMap_append]
    rcases h : l.statement? with _ | t <;> simp [h]

/-- A symbol is the one that its name stands for, but for parentheses. -/
def IsCurrent (symbols : Symbols) : Expr → Prop
  | .symbol role name sign _ => symbols.node? name = some (.symbol role name sign false)
  | .literal .. | .compound .. => True

open Grammar in
/-- A statement that is read holds the symbols that its names stand for. -/
theorem Logs.isCurrent (h : Logs atoms rs s) {text : String} {t : Statement}
    (hread : ConvexLang.readLine s.scope text = .ok (.statement t)) :
    ∀ a ∈ t.nodes, IsCurrent s.symbols a := by
  obtain ⟨ks, hks, hline⟩ := readLine_eq_ok_iff_kinds.1 hread
  have hholds : HoldsOfNodes s.scope (IsCurrent s.symbols) := by
    refine ⟨fun {e} he => ?_, fun _ => trivial, fun _ => trivial, fun {name e} he => ?_,
      fun _ => trivial, trivial, fun _ _ _ => trivial⟩
    · rcases e with _ | _ | _ <;> exact he
    · -- what a name stands for was declared, so it is a symbol of this name
      intro a ha
      have he : s.symbols.node? name = some e := he
      obtain ⟨d, -, rfl⟩ := Option.map_eq_some_iff.1 ((h.node?_eq name).symm.trans he)
      obtain rfl := List.mem_singleton.1 ha
      exact he
  exact (line_eq_ok_statement_iff.1 hline).nodes hholds (isWritten_of_kinds? hks)

open Grammar in
/-- Scoping over whole runs. After any calls a name stands for something exactly if a line
    declares it that was accepted since the last reset. Then it stands for a symbol with the
    role and the sign of the last such line, and these are the ones that the line spells out.
    The statements are those that were accepted since the last reset, and each symbol in them
    is what its name stood for at that moment, by the lines in front. -/
theorem run_scoping (atoms : Registry) (calls : List Call) :
    let s := Session.run { atoms } calls
    let rs := Session.log { atoms } calls
    (∀ name, (s.symbols.node? name).isSome = true ↔
      ∃ r ∈ rs, (r.line.declares? name).isSome = true) ∧
    (∀ name, s.symbols.node? name = (lastDeclared? rs name).map (·.symbol name)) ∧
    (∀ r ∈ rs, ∀ d names, r.line = .declaration d names →
      ∃ tokens, tokenize r.text = .ok tokens ∧ IsDeclaration (tokens.map Token.kind) d names) ∧
    (s.statements = rs.filterMap fun r => r.line.statement?) ∧
    ∀ before r after, rs = before ++ r :: after →
      ConvexLang.readLine r.session.scope r.text = .ok r.line ∧
      (∀ name, r.session.symbols.node? name =
        (lastDeclared? before name).map (·.symbol name)) ∧
      ∀ t, r.line = .statement t → ∀ role name sign parens,
        .symbol role name sign parens ∈ t.nodes →
          r.session.symbols.node? name = some (.symbol role name sign false) := by
  intro s rs
  have h : Logs atoms rs s := logs_run atoms calls
  refine ⟨fun name => ?_, h.node?_eq, fun r hr d names hline => ?_, h.statements,
    fun before r after hrs => ?_⟩
  · rw [h.node?_eq, Option.isSome_map, isSome_lastDeclared?_iff]
  · obtain ⟨before, after, hrs⟩ := List.append_of_mem hr
    obtain ⟨-, hread⟩ := h.front hrs
    rw [hline] at hread
    obtain ⟨tokens, htokens, hl⟩ := ConvexLang.readLine_eq_ok_iff.1 hread
    exact ⟨tokens, htokens, line_eq_ok_declaration_iff.1 hl⟩
  · obtain ⟨hfront, hread⟩ := h.front hrs
    refine ⟨hread, hfront.node?_eq, fun t ht role name sign parens hmem => ?_⟩
    rw [ht] at hread
    exact hfront.isCurrent hread _ hmem

/-- A statement keeps the variable that the name stood for, though it is a parameter now. -/
example :
    let s := Session.run .standard [.line "variable x", .text "x\nnegative parameter x\nx >",
      .line "parameter negative x"]
    s.symbols.node? "x" = some (.ofSymbol .parameter "x" .negative) ∧
      s.statements = [.expr (.ofSymbol .decision "x" .unknown)] := by
  cbv

end Session

end ConvexLang
