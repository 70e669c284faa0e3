import ConvexLang.Registry.Standard
import ConvexLang.Statement
import ConvexLang.Symbols
import ConvexLang.Text

/-!
# The scanner

A rough reading of statements for when the grammar is not to be had. The scanner
does not cut a text into tokens. It knows a declaration by the word the text
begins with, looks for the leftmost call of an atom anywhere in the text, and
otherwise takes the text for a symbol, a number or an unknown leaf. It fails on
no input: the only error is that there is no statement to answer with.
-/

namespace ConvexLang

/-- The state of a scanner. -/
structure Scanner where
  /-- The known atoms. -/
  atoms : Registry
  /-- The declared symbols; any word can be one. -/
  symbols : Symbols := .empty
  /-- The statements, in the order they were read. -/
  statements : List Statement := []

namespace Scanner

/-! ## Calls -/

/-- What remains of a text behind `start`, if it begins with it. -/
def dropStart? : List Char → List Char → Option (List Char)
  | [], cs => some cs
  | _ :: _, [] => none
  | a :: as, c :: cs => if a = c then dropStart? as cs else none

/-- Whether a text begins with a call of `name`: the name, any blanks and an
    opening parenthesis. -/
def beginsWithCall (name : String) (cs : List Char) : Bool :=
  match dropStart? name.toList cs with
  | none => false
  | some rest => (Text.trimStart rest).head? = some '('

/-- The entry of the atom whose call comes first in a text, no matter what
    stands around it. -/
def leftmostCall? (atoms : List (String × Profile)) : List Char → Option (String × Profile)
  | [] => none
  | c :: cs =>
    match atoms.find? fun e => beginsWithCall e.1 (c :: cs) with
    | some e => some e
    | none => leftmostCall? atoms cs

/-! ## Classification -/

/-- The atoms of one argument whose call is given an operand to show. -/
def singleArgumentAtoms : List String :=
  ["square", "sqrt", "abs", "exp", "log", "pos"]

/-- The operand that stands in for the argument of such a call. -/
def placeholder : Expr :=
  .compound "x" .unknown .affine [] false

/-- A call of an atom, whose arguments are not read. -/
def callOf (name : String) (profile : Profile) : Expr :=
  .compound name profile.sign profile.curvature
    (if singleArgumentAtoms.contains name then [.expr placeholder] else []) false

/-- What a trimmed text is taken for: its leftmost call, a declared symbol, a
    number, or a leaf of which nothing is known. -/
def classify (s : Scanner) (text : String) : Expr :=
  match leftmostCall? s.atoms.entries text.toList with
  | some (name, profile) => callOf name profile
  | none =>
    match s.symbols.node? text with
    | some e => e
    | none =>
      match Decimal.readFloat? text with
      | some x => .ofNumber (.real x)
      | none => .unclassified text

/-! ## Scanning -/

/-- The declaration a trimmed text is taken for, if it begins with the word for
    one: how, and which names. Every further word is a name, but for the sign
    `positive` in front of parameters. -/
def declaration? (text : String) : Option (Declared × List String) :=
  let names := (Text.words text).drop 1
  if (dropStart? Role.decision.keyword.toList text.toList).isSome then
    some (⟨.decision, .unknown⟩, names)
  else if (dropStart? Role.parameter.keyword.toList text.toList).isSome then
    match names with
    | "positive" :: rest => some (⟨.parameter, .positive⟩, rest)
    | _ => some (⟨.parameter, .unknown⟩, names)
  else none

/-- The scanner after a text. -/
def read (s : Scanner) (text : String) : Scanner :=
  let text := Text.trim text
  match declaration? text with
  | some (declared, names) => { s with symbols := s.symbols.declare declared names }
  | none => { s with statements := s.statements ++ [.expr (s.classify text)] }

/-- The statement read last. -/
def last? (s : Scanner) : Option Statement :=
  s.statements.getLast?

/-- The statement read last, or the error that there is none. -/
def answer (s : Scanner) : Except Diagnostic Statement :=
  match s.last? with
  | some statement => .ok statement
  | none => .error .noStatement

/-- Reads a text and answers with the statement read last. -/
def scan (s : Scanner) (text : String) : Scanner × Except Diagnostic Statement :=
  ((s.read text), (s.read text).answer)

/-- The scanner without its declarations and statements. -/
def reset (s : Scanner) : Scanner where
  atoms := s.atoms

end Scanner

end ConvexLang
