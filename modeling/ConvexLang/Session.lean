import ConvexLang.Line
import ConvexLang.Registry.Standard
import ConvexLang.Text

/-!
# Sessions

A session is what survives from line to line: the declared symbols and the
statements read so far, over a registry that stays. Each line takes effect as a
whole or not at all (`Session.readLine`), and a text takes effect up to its
first failing line (`Session.readText`).
-/

namespace ConvexLang

/-- The state between lines. -/
structure Session where
  /-- The known atoms. -/
  atoms : Registry
  /-- The declared symbols. -/
  symbols : Symbols := .empty
  /-- The statements, in the order they were read. -/
  statements : List Statement := []

namespace Session

/-- A session over the standard atoms. -/
def standard : Session where
  atoms := .standard

/-- What the names in the next line may refer to. -/
def scope (s : Session) : Scope where
  symbols := s.symbols
  atoms := s.atoms

/-- The session after a line. -/
def apply (s : Session) : Line → Session
  | .empty => s
  | .declaration declared names => { s with symbols := s.symbols.declare declared names }
  | .statement statement => { s with statements := s.statements ++ [statement] }

theorem atoms_apply (s : Session) (l : Line) : (s.apply l).atoms = s.atoms := by
  cases l <;> rfl

/-- Reads a line: the session after it, and what the line was. -/
def readLine (s : Session) (line : String) : Session × Except Diagnostic Line :=
  match ConvexLang.readLine s.scope line with
  | .error d => (s, .error d)
  | .ok l => (s.apply l, .ok l)

/-- Reads lines in order, the first of them numbered `number`, up to the first
    failing one. A failure carries the number and the text of its line. -/
def readLines (s : Session) (number : Nat) : List String → Session × Except Diagnostic Unit
  | [] => (s, .ok ())
  | line :: lines =>
    match s.readLine line with
    | (s', .error d) => (s', .error (d.inLine number line))
    | (s', .ok _) => readLines s' (number + 1) lines

/-- Reads a text of any number of lines. -/
def readText (s : Session) (text : String) : Session × Except Diagnostic Unit :=
  s.readLines 1 (Text.lines text)

/-- The session without its declarations and statements. -/
def reset (s : Session) : Session where
  atoms := s.atoms

/-- The statement read last. -/
def last? (s : Session) : Option Statement :=
  s.statements.getLast?

/-! ## Runs -/

/-- What is asked of a session. -/
inductive Call where
  /-- To read a text of any number of lines. -/
  | text (text : String)
  /-- To read one line. -/
  | line (line : String)
  /-- To forget its declarations and statements. -/
  | reset
  deriving DecidableEq, Repr

/-- The session after a call, whether the call succeeded or not. -/
def perform (s : Session) : Call → Session
  | .text text => (s.readText text).1
  | .line line => (s.readLine line).1
  | .reset => s.reset

/-- The session after several calls. -/
def run (s : Session) (calls : List Call) : Session :=
  calls.foldl perform s

end Session

end ConvexLang
