import ConvexLang.Expr
import ConvexLang.Relation
import ConvexLang.Span

/-!
# Tokens

What the words, numbers and signs of a line are. A word that is in the table of
keywords is that keyword and otherwise an identifier; the look-up takes the
whole word, capitals included.
-/

namespace ConvexLang

/-- The kind of a token, with what it carries. -/
inductive TokenKind where
  /-- Digits that fit into 63 bits. -/
  | integer (n : Nat)
  /-- A number with a point, or digits too many for an integer. -/
  | real (x : Float)
  /-- The sign `+`. -/
  | plus
  /-- The sign `-`. -/
  | minus
  /-- The sign `*`. -/
  | star
  /-- The sign `/`. -/
  | slash
  /-- One of `==`, `<=` and `>=`. -/
  | relation (r : Relation)
  /-- The sign `(`. -/
  | leftParen
  /-- The sign `)`. -/
  | rightParen
  /-- The sign `,`. -/
  | comma
  /-- A name. -/
  | identifier (name : String)
  /-- The word that opens a declaration. -/
  | declare (role : Role)
  /-- The word for a sign. -/
  | sign (s : Sign)
  /-- The word `Inf`, which fills an argument slot as it stands. -/
  | infinity
  deriving DecidableEq

/-- A token and the bytes of the line it covers. -/
structure Token where
  /-- What it is. -/
  kind : TokenKind
  /-- Where it stands. -/
  span : Span
  deriving DecidableEq

/-! ## Words -/

/-- Whether a character may begin a word. -/
def isWordStart (c : Char) : Bool :=
  c.isAlpha || c = '_'

/-- Whether a character may go on with a word. -/
def isWordChar (c : Char) : Bool :=
  c.isAlphanum || c = '_'

/-- Whether a text is one whole word. -/
def isWord : List Char → Bool
  | [] => false
  | c :: cs => isWordStart c && cs.all isWordChar

/-- Whether a text has the form of a name. -/
def isIdentifier (s : String) : Bool :=
  isWord s.toList

/-- The reserved words. -/
def keywords : List (String × TokenKind) :=
  [(Role.decision.keyword, .declare .decision), (Role.parameter.keyword, .declare .parameter)]
    ++ Sign.all.map (fun s => (s.label, .sign s)) ++ [("Inf", .infinity)]

/-- The keyword a word is, if it is reserved. -/
def keyword? (word : String) : Option TokenKind :=
  keywords.lookup word

/-- The kind of token a word is. -/
def TokenKind.ofWord (word : String) : TokenKind :=
  (keyword? word).getD (.identifier word)

end ConvexLang
