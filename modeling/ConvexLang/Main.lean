import ConvexLang.Program

/-!
# The executable

The command line program: it looks at the arguments, the files and the terminal,
and leaves all decisions to `Program` and to the steps of the prompt and of the
game.
-/

namespace ConvexLang.Shell

/-- Whether the terminal shows colours. -/
def coloursShown : IO Bool := do
  let terminal ← IO.getEnv "TERM"
  let refusal ← IO.getEnv "NO_COLOR"
  return terminal.isSome && terminal != some "dumb" && refusal.isNone && (← (← IO.getStdout).isTty)

/-- Writes an output. -/
def write (o : Output) : IO Unit := do
  let stdout ← IO.getStdout
  stdout.putStr (o.render (← coloursShown))
  stdout.flush

/-- Writes a diagnostic to the standard error. -/
def report (d : Diagnostic) : IO Unit := do
  IO.eprintln ("Error: " ++ d.problem.code ++ ": " ++ d.message)
  match d.hint? with
  | some hint => IO.eprintln ("help: " ++ hint)
  | none => pure ()

/-- The text of a file, if it can be read. -/
def readTextFile (path : String) : IO (Option String) := do
  try
    return some (← IO.FS.readFile path)
  catch _ => return none

/-- The next line of the input. -/
def readInputLine : IO (Option InputLine) := do
  try
    let line ← (← IO.getStdin).getLine
    return if line.isEmpty then none else some (.text line)
  catch _ => return some .unreadable

/-- Reads statements until the session ends. -/
partial def converse (p : Prompt) : IO Unit := do
  write p.ask
  match ← readInputLine with
  | none => write Prompt.farewell
  | some line =>
    let (next, output) := p.step line
    write output
    match next with
    | none => return
    | some p' => converse p'

/-- Plays until the game ends. -/
partial def playRounds (r : Quiz.Round Quiz.Xoshiro) : IO Unit := do
  write Quiz.Round.ask
  match ← readInputLine with
  | none => write Prompt.farewell
  | some line =>
    let (next, output) := r.step line
    write output
    match next with
    | none => return
    | some r' => playRounds r'

/-- The files that an invocation names, with their texts. -/
def namedFiles (i : Invocation) : IO (List (String × Option String)) := do
  let sources := match i.command with
    | .parse file => if Program.isInput file then [] else [file]
    | _ => []
  (i.config.toList ++ sources).mapM fun path => return (path, ← readTextFile path)

/-- The standard input as a whole, where an invocation wants it as a whole. -/
def wholeInput (i : Invocation) : IO (Option String) := do
  match i.command with
  | .parse file =>
    if Program.isInput file then
      let bytes ← (← IO.getStdin).readBinToEnd
      return String.fromUTF8? bytes
    else return none
  | _ => return none

/-- A seed that is different from run to run. -/
def freshSeed : IO UInt64 := do
  let bytes ← IO.getRandomBytes 8
  return bytes.toList.foldl (fun seed b => seed * 256 + b.toUInt64) 0

/-- How the program is used. -/
def usage : String :=
  "Usage: dcp-analyzer [--config <YAML>] [--mode <MODE>] [--pretty] <COMMAND>\n\n"
    ++ "Commands:\n"
    ++ "  parse [FILE]                               Analyze a file, or - for the input\n"
    ++ "  repl                                       Read statements interactively\n"
    ++ "  atoms                                      List the known atoms\n"
    ++ "  quiz [--seed <N>] [--difficulty <LEVEL>]   Guess curvatures\n"

end ConvexLang.Shell

open ConvexLang ConvexLang.Shell

def main (args : List String) : IO UInt32 := do
  match Invocation.ofArguments args with
  | .error .version =>
    write Program.versionLine
    return 0
  | .error .help =>
    IO.print usage
    return 0
  | .error e =>
    IO.eprint usage
    return e.exitCode.toUInt32
  | .ok i =>
    let files ← namedFiles i
    let host : Host := {
      file? := fun path => (files.lookup path).join
      input? := ← wholeInput i
      entropy := ← freshSeed }
    match Program.action host i with
    | .finish output problem =>
      write output
      match problem with
      | none => return 0
      | some d =>
        report d
        return 1
    | .converse a =>
      write Prompt.banner
      converse { analyzer := a }
      return 0
    | .game g =>
      write Quiz.Round.banner
      let (round, output) := Quiz.Round.start g
      write output
      match round with
      | none => return 0
      | some r =>
        playRounds r
        return 0
