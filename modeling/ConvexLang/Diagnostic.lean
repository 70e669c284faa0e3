import ConvexLang.Decimal
import ConvexLang.Span

/-!
# Diagnostics

A diagnostic is a cause (`Problem`) with what is known about its place: the span
of the offending tokens, the line they stand in and a hint. Causes carry data,
not wording; `Problem.message` is the one place where they are put into words.
-/

namespace ConvexLang

/-! ## Causes -/

/-- A character that starts no token. Some are told apart because other notations
    of mathematics use them. -/
inductive LexicalFault where
  /-- An equals sign without its partner. -/
  | singleEquals
  /-- A less-than sign without an equals sign behind it. -/
  | strictLess
  /-- A greater-than sign without an equals sign behind it. -/
  | strictGreater
  /-- The sign of exponentiation. -/
  | exponent
  /-- Any other character. -/
  | illegalCharacter (c : Char)
  deriving DecidableEq, Repr

/-- A violation of the grammar. -/
inductive GrammarFault where
  /-- The line is no declaration and no statement. -/
  | invalidExpression (line : String)
  /-- Tokens are left behind a complete statement. -/
  | trailingInput (statement : String)
  /-- The arguments of a call are malformed. -/
  | malformedCall (function : String)
  /-- A second relation follows a constraint. -/
  | chainedConstraint
  /-- There is no statement to answer with. -/
  | noStatement
  deriving DecidableEq, Repr

/-- A well-formed reference to something that does not exist or does not fit. -/
inductive SemanticFault where
  /-- No atom has this name. -/
  | unknownFunction (name : String)
  /-- The atom takes another number of arguments. -/
  | arityMismatch (name : String) (expected found : Nat)
  /-- No symbol of this name is declared. -/
  | unknownSymbol (name : String)
  deriving DecidableEq, Repr

/-- A failure to set an analyzer up or to read its input. -/
inductive SetupFault where
  /-- The name of an added atom is no identifier. -/
  | invalidName (name : String)
  /-- The name of an added atom is a keyword. -/
  | reservedName (name : String)
  /-- An atom of this name exists already. -/
  | duplicateName (name : String)
  /-- The settings are no settings document. -/
  | invalidDocument
  /-- A file cannot be read as text. -/
  | unreadableFile (path : String)
  /-- The standard input cannot be read as text. -/
  | unreadableInput
  /-- A failure in the words of whoever reports it, with or without a failure
      beneath it. -/
  | reported (message : String) (caused : Bool)
  deriving DecidableEq, Repr

/-- The cause of a diagnostic. -/
inductive Problem where
  /-- Raised while cutting a line into tokens. -/
  | lexical (fault : LexicalFault)
  /-- Raised by the grammar. -/
  | grammatical (fault : GrammarFault)
  /-- Raised by looking up a name. -/
  | semantic (fault : SemanticFault)
  /-- Raised outside the lines. -/
  | setup (fault : SetupFault)
  deriving DecidableEq, Repr

/-! ## Wording -/

/-- The wording of a lexical fault. -/
def LexicalFault.message : LexicalFault → String
  | singleEquals => "'=' is not valid. Did you mean '=='?"
  | strictLess => "'<' constraints are not valid. Consider using '<='."
  | strictGreater => "'>' constraints are not valid. Consider using '>='."
  | exponent => "'^' is not valid. Consider using the 'pow' function."
  | illegalCharacter c => "Illegal character '" ++ c.toString ++ "'."

/-- The wording of a violation of the grammar. -/
def GrammarFault.message : GrammarFault → String
  | invalidExpression line => "'" ++ line ++ "' is not a valid expression."
  | trailingInput statement => "Invalid syntax after '" ++ statement ++ "'."
  | malformedCall function => "Syntax error in call to '" ++ function ++ "'."
  | chainedConstraint => "An expression can only contain one constraint."
  | noStatement => "No valid expression found"

/-- The wording of a failed reference. -/
def SemanticFault.message : SemanticFault → String
  | unknownFunction name => "'" ++ name ++ "' is not a known function."
  | arityMismatch name _ _ => "Incorrect number of arguments in '" ++ name ++ "'."
  | unknownSymbol name => "'" ++ name ++ "' is not a known variable or parameter."

/-- The wording of a setup failure. -/
def SetupFault.message : SetupFault → String
  | invalidName name => "'" ++ name ++ "' is not a valid atom name."
  | reservedName name => "'" ++ name ++ "' is a reserved word and cannot name an atom."
  | duplicateName name => "Atom '" ++ name ++ "' is already defined."
  | invalidDocument => "Invalid analyzer configuration"
  | unreadableFile path => "Failed to read '" ++ path ++ "'"
  | unreadableInput => "Failed to read standard input"
  | reported message _ => message

/-- Whether another failure lies beneath a setup failure. -/
def SetupFault.isCaused : SetupFault → Bool
  | invalidName _ | reservedName _ | duplicateName _ => false
  | invalidDocument | unreadableFile _ | unreadableInput => true
  | reported _ caused => caused

namespace Problem

/-- The wording of a problem. -/
def message : Problem → String
  | lexical f => f.message
  | grammatical f => f.message
  | semantic f => f.message
  | setup f => f.message

/-- The hint that a problem brings along. -/
def hint? : Problem → Option String
  | semantic (.arityMismatch name expected found) =>
    some ("'" ++ name ++ "' takes exactly " ++ Decimal.ofNat expected ++ " argument(s), found "
      ++ Decimal.ofNat found)
  | semantic (.unknownSymbol name) =>
    some ("declare it first, e.g. 'variable " ++ name ++ "' or 'parameter " ++ name ++ "'")
  | grammatical .chainedConstraint => some "split the statement into one constraint per line"
  | _ => none

/-- The code of a problem's class. -/
def code : Problem → String
  | lexical _ => "dcp::lex"
  | grammatical _ => "dcp::syntax"
  | semantic _ => "dcp::semantic"
  | setup _ => "dcp::config"

/-- Whether another failure lies beneath the problem. -/
def isCaused : Problem → Bool
  | setup f => f.isCaused
  | _ => false

end Problem

/-! ## Diagnostics -/

/-- A line of a text, numbered from one. -/
structure SourceLine where
  /-- Its number. -/
  number : Nat
  /-- Its text. -/
  text : String
  deriving DecidableEq, Repr

/-- The title of a line in a report. -/
def SourceLine.title (l : SourceLine) : String :=
  "line " ++ Decimal.ofNat l.number

/-- A cause with what is known about its place. -/
structure Diagnostic where
  /-- The cause. -/
  problem : Problem
  /-- The offending bytes of the line. -/
  span : Option Span := none
  /-- The line. -/
  source : Option SourceLine := none
  /-- A hint that takes the place of the problem's own. -/
  help : Option String := none
  deriving DecidableEq, Repr

namespace Diagnostic

/-- A problem at a span of the line that is being read. -/
def atSpan (problem : Problem) (span : Span) : Diagnostic where
  problem
  span := some span

/-- The answer where a statement is asked for and there is none. -/
def noStatement : Diagnostic :=
  .atSpan (.grammatical .noStatement) ⟨0, 0⟩

/-- A setup failure, which has no place in a line. -/
def ofSetup (fault : SetupFault) : Diagnostic where
  problem := .setup fault

/-- The wording. -/
def message (d : Diagnostic) : String :=
  d.problem.message

/-- The hint: the one that was put in, or else the problem's own. -/
def hint? (d : Diagnostic) : Option String :=
  d.help <|> d.problem.hint?

/-- The diagnostic with the line it is about. -/
def inLine (number : Nat) (text : String) (d : Diagnostic) : Diagnostic :=
  { d with source := some ⟨number, text⟩ }

/-- The diagnostic with a hint of its own. -/
def withHelp (help : String) (d : Diagnostic) : Diagnostic :=
  { d with help := some help }

/-- Where a report points: an offset and a length of at least one. Without the
    line there is nothing to point into. -/
def label? (d : Diagnostic) : Option (Nat × Nat) := do
  let _ ← d.source
  let s ← d.span
  return (s.first, max 1 s.size)

end Diagnostic

end ConvexLang
