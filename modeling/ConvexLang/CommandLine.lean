import ConvexLang.Quiz.Difficulty
import ConvexLang.Settings

/-!
# The command line

The arguments of the program become an invocation: some general options and a
command with options of its own. General options may stand before or behind the
command; what stands behind it wins. An option takes its value from the next
argument or from behind an equals sign, and can be given once on each side of the
command. Behind `--` every argument is taken as it stands.

Arguments are read from left to right. A value that is an argument of its own is
looked at only when the next argument has turned out not to be its business, so
of two errors it is not always the first one that is reported.
-/

namespace ConvexLang

/-! ## Invocations -/

/-- What the program is asked to do. -/
inductive Command where
  /-- Analyze a file and print its last statement. -/
  | parse (file : String)
  /-- Read statements interactively. -/
  | repl
  /-- List the atoms. -/
  | atoms
  /-- Play the curvature game. -/
  | quiz (seed : Option Nat) (difficulty : Quiz.Difficulty)
  deriving DecidableEq, Repr

/-- A command with the general options. -/
structure Invocation where
  /-- The file with the settings. -/
  config : Option String := none
  /-- The mode that takes the place of the one in the settings. -/
  mode : Option Mode := none
  /-- Whether records are indented, whatever the settings say. -/
  pretty : Bool := false
  /-- The command. -/
  command : Command
  deriving DecidableEq, Repr

/-- Why there is no invocation. -/
inductive UsageError where
  /-- Help was asked for. -/
  | help
  /-- The version was asked for. -/
  | version
  /-- There are no arguments to go by. -/
  | noArguments
  /-- There is no command. -/
  | missingCommand
  /-- There is no such command. -/
  | unknownCommand
  /-- There is no such option, or an argument too many. -/
  | unknownArgument
  /-- A value is missing or none of those admitted. -/
  | invalidValue
  /-- A value is no number of the wanted kind. -/
  | malformedValue
  /-- An option is given twice. -/
  | repeatedArgument
  /-- A value is given to an option that takes none. -/
  | superfluousValue
  deriving DecidableEq, Repr

/-- The exit code of the program: help and version are no failures. -/
def UsageError.exitCode : UsageError → Nat
  | help | version => 0
  | _ => 2

namespace CommandLine

/-! ## Options -/

/-- The words of the commands. -/
inductive CommandWord where
  | parse
  | repl
  | atoms
  | quiz
  deriving DecidableEq, Repr

/-- The commands by their words. -/
def commandWords : List (String × CommandWord) :=
  [("parse", .parse), ("repl", .repl), ("atoms", .atoms), ("quiz", .quiz)]

/-- The word that asks for help on a command. -/
def helpWord : String := "help"

/-- What takes a value. -/
inductive Slot where
  | config
  | mode
  | seed
  | difficulty
  | file
  deriving DecidableEq, Repr

/-- What an argument that begins with two hyphens names. -/
inductive Switch where
  /-- An option with a value. -/
  | valued (slot : Slot)
  /-- The option for indented records. -/
  | pretty
  /-- The question for help. -/
  | help
  /-- The question for the version. -/
  | version
  deriving DecidableEq, Repr

/-- The options known in front of the commands, and behind each of them. -/
def switches : Option CommandWord → List (String × Switch)
  | none => ("version", .version) :: general
  | some .quiz => ("seed", .valued .seed) :: ("difficulty", .valued .difficulty) :: general
  | some _ => general
where
  /-- The options known everywhere. -/
  general : List (String × Switch) :=
    [("config", .valued .config), ("mode", .valued .mode), ("pretty", .pretty), ("help", .help)]

/-- The options of one letter. -/
def letters : Option CommandWord → List (Char × Switch)
  | none => [('h', .help), ('V', .version)]
  | some _ => [('h', .help)]

/-- The values given on one side of the command. -/
structure Given where
  /-- A settings file. -/
  config : Option String := none
  /-- A mode. -/
  mode : Option Mode := none
  /-- Indented records. -/
  pretty : Bool := false
  /-- A seed. -/
  seed : Option Nat := none
  /-- A difficulty. -/
  difficulty : Option Quiz.Difficulty := none
  /-- A file. -/
  file : Option String := none

/-- Puts a value into a slot that holds none yet. -/
def fill {α : Type} (slot : Option α) (value : Except UsageError α) :
    Except UsageError (Option α) :=
  match slot with
  | some _ => .error .repeatedArgument
  | none => value.map some

/-- A value, or the error that it is none of those admitted. -/
def admitted {α : Type} (value : Option α) : Except UsageError α :=
  match value with
  | some a => .ok a
  | none => .error .invalidValue

/-- A path, which is not empty. -/
def path? (text : String) : Option String :=
  if text.isEmpty then none else some text

/-- The greatest seed, which fills 64 bits. -/
def maxSeed : Nat :=
  18446744073709551615

/-- A seed: digits, perhaps with a plus sign in front. -/
def seed? (text : String) : Option Nat :=
  let cs := text.toList
  match Decimal.readNat? (if cs.head? = some '+' then cs.drop 1 else cs) with
  | some n => if n ≤ maxSeed then some n else none
  | none => none

/-- Takes the value of an option; none is given where the arguments end or another
    option follows. -/
def Given.take (g : Given) (slot : Slot) : Option String → Except UsageError Given
  | none => .error .invalidValue
  | some text =>
    match slot with
    | .config => (fill g.config (admitted (path? text))).map fun config => { g with config }
    | .mode => (fill g.mode (admitted (Mode.ofLabel? text))).map fun mode => { g with mode }
    | .seed =>
      let value := match seed? text with
        | some n => .ok n
        | none => .error .malformedValue
      (fill g.seed value).map fun seed => { g with seed }
    | .difficulty =>
      (fill g.difficulty (admitted (Quiz.Difficulty.ofLabel? text))).map fun difficulty =>
        { g with difficulty }
    | .file => (fill g.file (admitted (path? text))).map fun file => { g with file }

/-! ## Reading one side -/

/-- The state of reading the arguments on one side of the command. -/
structure State where
  /-- The values taken. -/
  given : Given := {}
  /-- A slot whose value is not taken yet, with the value if it is there. -/
  pending : Option (Slot × Option String) := none
  /-- Whether `--` was read. -/
  verbatim : Bool := false
  /-- Whether a file was named. -/
  fileNamed : Bool := false

namespace State

/-- Takes the pending value. -/
def settle (s : State) : Except UsageError State :=
  match s.pending with
  | none => .ok s
  | some (slot, value) => (s.given.take slot value).map fun given => { s with given, pending := none }

/-- Whether the next argument is the value of an option. -/
def isAwaiting (s : State) : Bool :=
  match s.pending with
  | some (_, none) => true
  | _ => false

/-- Takes an option with the value behind its equals sign, if there is one. -/
def switch (s : State) (attached : Option String) : Switch → Except UsageError State
  | .valued slot => do
    let s ← s.settle
    match attached with
    | some value => return { s with given := (← s.given.take slot (some value)) }
    | none => return { s with pending := some (slot, none) }
  | .pretty => do
    if attached.isSome then throw .superfluousValue
    let s ← s.settle
    if s.given.pretty then throw .repeatedArgument
    return { s with given := { s.given with pretty := true } }
  | .help => do
    if attached.isSome then throw .superfluousValue
    let _ ← s.settle
    throw .help
  | .version => do
    if attached.isSome then throw .superfluousValue
    let _ ← s.settle
    throw .version

end State

/-- The error for an argument that has no place. In front of the commands it was
    meant for a command; one that is kept from being a command by `--` has no
    place either. -/
def misplaced (side : Option CommandWord) (s : State) (arg : String) : UsageError :=
  match side with
  | some _ => .unknownArgument
  | none =>
    if s.verbatim ∧ (arg = helpWord ∨ (commandWords.lookup arg).isSome) then .unknownArgument
    else .unknownCommand

/-- Takes an argument that is no option: the file, where one is wanted. -/
def positional (side : Option CommandWord) (s : State) (arg : String) :
    Except UsageError State :=
  if side = some .parse ∧ ¬ s.fileNamed then do
    let s ← s.settle
    return { s with pending := some (.file, some arg), fileNamed := true }
  else .error (misplaced side s arg)

/-- Takes one argument that is no command. -/
def argument (side : Option CommandWord) (s : State) (arg : String) : Except UsageError State :=
  if s.verbatim then positional side s arg
  else
    match arg.toList with
    | ['-', '-'] => .ok { s with verbatim := true }
    | '-' :: '-' :: cs =>
      let name := String.ofList (cs.takeWhile (· ≠ '='))
      let attached := match cs.dropWhile (· ≠ '=') with
        | _ :: value => some (String.ofList value)
        | [] => none
      match (switches side).lookup name with
      | some sw => s.switch attached sw
      | none => .error .unknownArgument
    | '-' :: c :: _ =>
      match (letters side).lookup c with
      | some sw => s.switch none sw
      | none => .error .unknownArgument
    | _ =>
      match s.pending with
      | some (slot, none) => .ok { s with pending := some (slot, some arg) }
      | _ => positional side s arg

/-- Takes all arguments behind a command. -/
def behind (word : CommandWord) (s : State) : List String → Except UsageError Given
  | [] => do return (← s.settle).given
  | arg :: args => do behind word (← argument (some word) s arg) args

/-- The answer to a question for help on a command, named by the arguments. -/
def helpOn : List String → UsageError
  | [] => .help
  | [arg] => if arg = helpWord ∨ (commandWords.lookup arg).isSome then .help else .unknownCommand
  | _ => .unknownCommand

/-- The error where the arguments end in front of a command. -/
def noCommand (g : Given) : UsageError :=
  if g.config.isNone ∧ g.mode.isNone ∧ ¬ g.pretty then .noArguments else .missingCommand

/-- The invocation of a command with the values given in front of it and behind
    it. -/
def invocation (front back : Given) (word : CommandWord) : Invocation where
  config := back.config <|> front.config
  mode := back.mode <|> front.mode
  pretty := back.pretty || front.pretty
  command :=
    match word with
    | .parse => .parse (back.file.getD "-")
    | .repl => .repl
    | .atoms => .atoms
    | .quiz => .quiz back.seed (back.difficulty.getD .easy)

/-- Takes the arguments up to the command, and then those behind it. -/
def front (s : State) : List String → Except UsageError Invocation
  | [] => do throw (noCommand (← s.settle).given)
  | arg :: args =>
    if ¬ s.verbatim ∧ ¬ s.isAwaiting ∧ arg = helpWord then .error (helpOn args)
    else
      match (if s.verbatim ∨ s.isAwaiting then none else commandWords.lookup arg) with
      | some word => do
        let back ← behind word {} args
        return invocation (← s.settle).given back word
      | none => do front (← argument none s arg) args

end CommandLine

/-- Reads the arguments of the program. -/
def Invocation.ofArguments (args : List String) : Except UsageError Invocation :=
  CommandLine.front {} args

end ConvexLang
