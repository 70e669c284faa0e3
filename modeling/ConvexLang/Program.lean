import ConvexLang.CommandLine
import ConvexLang.Quiz.Play
import ConvexLang.Quiz.Xoshiro

/-!
# The program

What an invocation amounts to, given the files it can read, and what the program
writes for a given standard input. Nothing here touches the outside: files come
in as a function and the input as bytes.
-/

namespace ConvexLang

/-! ## Input -/

namespace Input

/-- The bytes cut behind each newline. -/
def pieces (current : List UInt8) : List UInt8 → List (List UInt8)
  | [] => if current.isEmpty then [] else [current.reverse]
  | b :: bs => if b = 10 then (b :: current).reverse :: pieces [] bs else pieces (b :: current) bs

/-- The text that bytes stand for, if they are UTF-8. -/
def text? (bytes : List UInt8) : Option String :=
  String.fromUTF8? bytes.toByteArray

/-- The lines that bytes stand for. -/
def lines (bytes : List UInt8) : List InputLine :=
  (pieces [] bytes).map fun piece =>
    match text? piece with
    | some line => .text line
    | none => .unreadable

end Input

/-! ## Actions -/

/-- What the program can read. -/
structure Host where
  /-- The text of a file, if it can be read. -/
  file? : String → Option String
  /-- The text of the whole standard input, if it can be read. -/
  input? : Option String
  /-- The seed of a game for which none is given. -/
  entropy : UInt64 := 0

/-- What an invocation amounts to. -/
inductive Action where
  /-- Write something, with the diagnostic of a failure. -/
  | finish (output : Output) (problem : Option Diagnostic)
  /-- Read statements interactively. -/
  | converse (analyzer : Analyzer)
  /-- Play a game. -/
  | game (g : Quiz.Game Quiz.Xoshiro)

namespace Program

/-- Whether a path names the standard input: a hyphen, and behind it only what
    does not lead away from it. -/
def isInput (path : String) : Bool :=
  match path.splitOn "/" with
  | "-" :: parts => parts.all fun p => p = "" || p = "."
  | _ => false

/-- The settings of an invocation: those of its file, or else the default ones,
    and over them the options. -/
def settings (host : Host) (i : Invocation) : Except Diagnostic Settings :=
  let base : Except Diagnostic Settings := match i.config with
    | none => .ok {}
    | some path => Settings.load path (host.file? path)
  base.map fun s => { s with mode := i.mode.getD s.mode, pretty := s.pretty || i.pretty }

/-- The analyzer of an invocation. -/
def analyzer (host : Host) (i : Invocation) : Except Diagnostic Analyzer :=
  match settings host i with
  | .error d => .error d
  | .ok s =>
    match Analyzer.ofSettings s with
    | .ok a => .ok a
    | .error fault => .error (.ofSetup fault)

/-- The text to be analyzed. -/
def source (host : Host) (path : String) : Except Diagnostic String :=
  if isInput path then
    match host.input? with
    | some text => .ok text
    | none => .error (.ofSetup .unreadableInput)
  else
    match host.file? path with
    | some text => .ok text
    | none => .error (.ofSetup (.unreadableFile path))

/-- Analyzes a text and writes the record of the answer. -/
def parse (a : Analyzer) (text : String) : Action :=
  let (a', outcome) := a.analyze text
  let problem := match outcome with
    | .ok _ => none
    | .error d => some d
  .finish (Output.line (a'.render (.ofOutcome outcome))) problem

/-- What an invocation amounts to. -/
def action (host : Host) (i : Invocation) : Action :=
  match analyzer host i with
  | .error d => .finish [] (some d)
  | .ok a =>
    match i.command with
    | .parse file =>
      match source host file with
      | .error d => .finish [] (some d)
      | .ok text => parse a text
    | .repl => .converse a
    | .atoms => .finish (Output.atoms a.atoms) none
    | .quiz seed difficulty =>
      let seed := match seed with
        | some n => n.toUInt64
        | none => host.entropy
      .game { source := .ofSeed seed, atoms := a.atoms, standing := { difficulty } }

/-- The line that tells the version. -/
def versionLine : Output :=
  Output.line ("dcp-analyzer " ++ version)

/-- What an action writes for the lines of the input, and the exit code. -/
def perform (lines : List InputLine) : Action → Output × Nat
  | .finish output none => (output, 0)
  | .finish output (some _) => (output, 1)
  | .converse a => (Prompt.run a lines, 0)
  | .game g => (Quiz.play g lines, 0)

end Program

end ConvexLang
