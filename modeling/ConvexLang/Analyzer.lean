import ConvexLang.Scanner
import ConvexLang.Session
import ConvexLang.Settings

/-!
# Analyzers

An analyzer reads statements by the grammar or by the scanner, as its settings
ask, and answers with the statement read last or with an error. In automatic mode
it gives up the added atoms and falls back to the scanner if those do not fit;
it never works with some of them only.
-/

namespace ConvexLang

/-- The reader an analyzer works with. -/
inductive Backend where
  /-- The grammar. -/
  | grammar (session : Session)
  /-- The scanner. -/
  | fallback (scanner : Scanner)

/-- An analyzer. -/
structure Analyzer where
  /-- What reads the statements. -/
  backend : Backend
  /-- Whether records are indented. -/
  pretty : Bool := false

/-- The answer to a text, as it is shown to a front end. -/
inductive Response where
  /-- A statement. -/
  | tree (statement : Statement)
  /-- The wording of an error. -/
  | failure (message : String)

namespace Response

/-- The answer that an outcome amounts to. -/
def ofOutcome : Except Diagnostic Statement → Response
  | .ok statement => tree statement
  | .error d => failure d.message

/-- Whether the answer is an error. -/
def isError : Response → Bool
  | tree _ => false
  | failure _ => true

/-- The record of an answer. -/
def record : Response → Json
  | tree statement => statement.record
  | failure message => .fields [("error", .text message)]

end Response

namespace Analyzer

/-! ## Construction -/

/-- An analyzer by the grammar over the standard atoms. -/
def standard : Analyzer where
  backend := .grammar .standard

/-- The analyzer that the settings ask for. -/
def ofSettings (settings : Settings) : Except SetupFault Analyzer :=
  match settings.mode, Registry.standard.extend settings.extraAtoms with
  | .grammar, .ok atoms | .auto, .ok atoms =>
    .ok ⟨.grammar { atoms }, settings.pretty⟩
  | .fallback, .ok atoms => .ok ⟨.fallback { atoms }, settings.pretty⟩
  | .auto, .error _ => .ok ⟨.fallback { atoms := .standard }, settings.pretty⟩
  | .grammar, .error fault | .fallback, .error fault => .error fault

/-! ## Views -/

/-- The way statements are read, never the automatic one. -/
def mode (a : Analyzer) : Mode :=
  match a.backend with
  | .grammar _ => .grammar
  | .fallback _ => .fallback

/-- The known atoms. -/
def atoms (a : Analyzer) : Registry :=
  match a.backend with
  | .grammar s => s.atoms
  | .fallback s => s.atoms

/-- The declared symbols. -/
def symbols (a : Analyzer) : Symbols :=
  match a.backend with
  | .grammar s => s.symbols
  | .fallback s => s.symbols

/-- The statements read so far. -/
def statements (a : Analyzer) : List Statement :=
  match a.backend with
  | .grammar s => s.statements
  | .fallback s => s.statements

/-- The declared names with their signs and curvatures, in the order of the
    names. -/
def symbolTable (a : Analyzer) : List (String × String) :=
  a.symbols.nodes.map fun (name, e) => (name, e.sign.label ++ " " ++ e.curvature.label)

/-- The statement read last, or the error that there is none. -/
def answer (a : Analyzer) : Except Diagnostic Statement :=
  match a.statements.getLast? with
  | some statement => .ok statement
  | none => .error .noStatement

/-! ## Reading -/

/-- The lines of a text that are not blank. -/
def fullLines (text : String) : List String :=
  (Text.lines text).filter fun line => ¬ (Text.trim line).isEmpty

/-- Reads a text and answers with the statement read last. -/
def analyze (a : Analyzer) (text : String) : Analyzer × Except Diagnostic Statement :=
  match a.backend with
  | .grammar s =>
    match s.readText text with
    | (s', .error d) => ({ a with backend := .grammar s' }, .error d)
    | (s', .ok _) =>
      let a' := { a with backend := .grammar s' }
      (a', a'.answer)
  | .fallback s =>
    let a' := { a with backend := .fallback ((fullLines text).foldl Scanner.read s) }
    (a', a'.answer)

/-- The text of an answer. -/
def render (a : Analyzer) (r : Response) : String :=
  if a.pretty then r.record.pretty else r.record.compact

/-- Reads a text and answers with a record. -/
def analyzeToText (a : Analyzer) (text : String) : Analyzer × String :=
  let (a', outcome) := a.analyze text
  (a', a'.render (.ofOutcome outcome))

/-- The analyzer without its declarations and statements. -/
def reset (a : Analyzer) : Analyzer :=
  match a.backend with
  | .grammar s => { a with backend := .grammar s.reset }
  | .fallback s => { a with backend := .fallback s.reset }

end Analyzer

end ConvexLang
