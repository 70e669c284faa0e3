/-!
# Output

What is written to a terminal: pieces of text, some of them in a style. A style
only shows where the terminal has colours; without them a piece is its text.
-/

namespace ConvexLang

/-- The colours in use. -/
inductive Colour where
  | red
  | green
  | yellow
  | blue
  | cyan
  deriving DecidableEq, Repr

/-- The number of a colour in an escape sequence. -/
def Colour.code : Colour → String
  | red => "31"
  | green => "32"
  | yellow => "33"
  | blue => "34"
  | cyan => "36"

/-- How a piece of text is set off. -/
structure Style where
  /-- In bold. -/
  bold : Bool := false
  /-- In a colour. -/
  colour : Option Colour := none
  deriving DecidableEq, Repr

/-- A piece of text in one style, or in none. -/
structure Piece where
  /-- The style. -/
  style : Option Style := none
  /-- The text. -/
  text : String
  deriving DecidableEq, Repr

/-- What is written, piece by piece. -/
abbrev Output := List Piece

namespace Output

/-- A text without a style. -/
def plain (text : String) : Output :=
  [{ text }]

/-- A line without a style. -/
def line (text : String) : Output :=
  plain (text ++ "\n")

/-- A text in a style. -/
def styled (style : Style) (text : String) : Output :=
  [{ style := some style, text }]

/-- The escape sequence with the given number. -/
def escape (code : String) : String :=
  "\x1b[" ++ code ++ "m"

/-- The escape sequences that turn a style on, after all others are turned off. -/
def opening (style : Style) : String :=
  escape "0" ++ (if style.bold then escape "1" else "")
    ++ (match style.colour with
      | some c => escape c.code
      | none => "")

/-- The text of a piece, with escape sequences around it where there are
    colours. -/
def renderPiece (colours : Bool) (p : Piece) : String :=
  match colours, p.style with
  | true, some style => opening style ++ p.text ++ escape "0"
  | _, _ => p.text

/-- The text of an output. -/
def render (colours : Bool) (o : Output) : String :=
  String.join (o.map (renderPiece colours))

end Output

end ConvexLang
