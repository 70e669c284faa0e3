import ConvexLang.Analyzer
import ConvexLang.Output.Outline

/-!
# The prompt

An interactive session reads one line after the other. Lines are gathered until
their parentheses balance; a blank line ends the gathering as it is. A line that
starts with a colon is a command, unless lines are being gathered.

The prompt is a state and a step (`Prompt.step`): a line leads to a new state, or
to the end, and to what is written. `Prompt.run` takes all steps of an input.
-/

namespace ConvexLang

/-! ## Input -/

/-- A line of the standard input. -/
inductive InputLine where
  /-- Its text, with or without the line end. -/
  | text (line : String)
  /-- Bytes that are no text. -/
  | unreadable
  deriving DecidableEq, Repr

/-- The state of an interactive session. -/
structure Prompt where
  /-- What reads the statements. -/
  analyzer : Analyzer
  /-- The lines that are being gathered. -/
  buffer : String := ""

/-- The version shown to users. -/
def version : String := "0.1.0"

namespace Prompt

/-! ## Completeness -/

/-- How many more parentheses a text opens than it closes. -/
def openParens (cs : List Char) : Int :=
  cs.foldl (fun depth c => if c = '(' then depth + 1 else if c = ')' then depth - 1 else depth) 0

/-- Whether a text can be read as it is: its parentheses balance, not counting
    what stands behind the first `#`. A blank text is incomplete, a comment is
    not. -/
def isComplete (input : String) : Bool :=
  let code := Text.trimChars (input.toList.takeWhile (· ≠ '#'))
  if code.isEmpty then (Text.trimStart input.toList).head? = some '#'
  else openParens code ≤ 0

/-! ## Evaluation -/

/-- Reads a text and shows the statement read last, if the text brought one.
    Declarations show nothing. The answer says whether the text could be read. -/
def evaluate (a : Analyzer) (input : String) : Analyzer × Output × Bool :=
  match a.analyze input with
  | (a', .ok statement) =>
    if a.statements.length < a'.statements.length then (a', Output.statement statement, true)
    else (a', [], true)
  | (a', .error d) => (a', [], d.problem = .grammatical .noStatement)

/-! ## Commands -/

/-- What the prompt can be asked for. -/
inductive Command where
  | help
  | quit
  | reset
  | symbols
  | atoms
  deriving DecidableEq, Repr

/-- The words of the commands. -/
def commandWords : List (String × Command) :=
  [(":help", .help), (":h", .help), (":quit", .quit), (":q", .quit), (":reset", .reset),
    (":r", .reset), (":symbols", .symbols), (":s", .symbols), (":atoms", .atoms),
    (":a", .atoms)]

/-- The help. -/
def helpText : Output :=
  Output.heading "REPL commands"
    ++ Output.line "  :help, :h       Show this help"
    ++ Output.line "  :quit, :q       Exit the REPL"
    ++ Output.line "  :reset, :r      Forget all declarations and statements"
    ++ Output.line "  :symbols, :s    List declared variables and parameters"
    ++ Output.line "  :atoms, :a      List the known atoms"
    ++ Output.line ""
    ++ Output.line "Declare with 'variable [sign] x y' or 'parameter [sign] a'."
    ++ Output.line "Then enter one expression or constraint per line."

/-- Carries out the command that a line asks for; ASCII capitals do not count.
    No analyzer is left where the command ends the session. -/
def command (a : Analyzer) (line : String) : Option Analyzer × Output :=
  match commandWords.lookup (Text.lower line) with
  | some .help => (some a, helpText)
  | some .quit => (none, Output.line "Goodbye!")
  | some .reset => (some a.reset, Output.line "Session reset.")
  | some .symbols => (some a, Output.symbols a.symbolTable)
  | some .atoms => (some a, Output.atoms a.atoms)
  | none =>
    (some a, Output.line ("Unknown command: " ++ line ++ ". Type :help for available commands."))

/-! ## Steps -/

/-- What greets the user. -/
def banner : Output :=
  Output.line ("dcp-analyzer REPL v" ++ version)
    ++ Output.line "Type :help for help, :quit to exit, :reset to forget declarations"
    ++ Output.line ""

/-- What asks for the next line. -/
def ask (p : Prompt) : Output :=
  Output.plain (if p.buffer.isEmpty then "dcp> " else "  -> ")

/-- What is written where the input ends. -/
def farewell : Output :=
  Output.line "\nGoodbye!"

/-- The lines gathered so far and one more, parted by a blank. -/
def gather (buffer line : String) : String :=
  if buffer.isEmpty then line else buffer ++ " " ++ line

/-- Takes a trimmed line that is no command. -/
def take (p : Prompt) (line : String) : Prompt × Output :=
  let buffer := gather p.buffer line
  if isComplete buffer ∨ line.isEmpty then
    if (Text.trim buffer).isEmpty then ({ p with buffer := "" }, [])
    else
      let (analyzer, output, _) := evaluate p.analyzer buffer
      ({ analyzer }, output)
  else ({ p with buffer }, [])

/-- Takes one line of the input. No state is left where the session ends: by a
    command, or at bytes that are no text. -/
def step (p : Prompt) : InputLine → Option Prompt × Output
  | .unreadable => (none, [])
  | .text line =>
    let line := Text.trim line
    if p.buffer.isEmpty ∧ line.toList.head? = some ':' then
      match command p.analyzer line with
      | (none, output) => (none, output)
      | (some analyzer, output) => (some { p with analyzer }, output)
    else
      let (p', output) := p.take line
      (some p', output)

/-- The session from a state on: its last state, and what is written. -/
def runFrom (p : Prompt) : List InputLine → Prompt × Output
  | [] => (p, p.ask ++ farewell)
  | line :: lines =>
    match p.step line with
    | (none, output) => (p, p.ask ++ output)
    | (some p', output) =>
      let (last, rest) := runFrom p' lines
      (last, p.ask ++ output ++ rest)

/-- What a whole session writes. -/
def run (a : Analyzer) (lines : List InputLine) : Output :=
  banner ++ (runFrom { analyzer := a } lines).2

end Prompt

end ConvexLang
