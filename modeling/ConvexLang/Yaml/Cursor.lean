import ConvexLang.Yaml.Character

/-!
# Places in a YAML document

A reader is at a line and a column of the document (`Cursor`), and columns decide
what belongs together. Two kinds of gaps lie in front of a reader: the gap between
two words of one text (`Cursor.gap?`), which the text keeps as spaces or folded
line ends, and the gap between two signs (`Cursor.skipGap`), where comments may
stand and of which nothing is kept.
-/

namespace ConvexLang.Yaml

/-- The place of a reader. -/
structure Cursor where
  /-- What remains. -/
  rest : List Char
  /-- How many line ends lie behind. -/
  line : Nat := 0
  /-- How many characters of the current line lie behind. -/
  column : Nat := 0

namespace Cursor

/-- The next character. -/
def peek? (c : Cursor) : Option Char :=
  c.rest.head?

/-- The place `n` characters further on the same line. -/
def advance (c : Cursor) (n : Nat) : Cursor :=
  { c with rest := c.rest.drop n, column := c.column + n }

/-- The place on the same line where `rest` remains. -/
def leaving (c : Cursor) (rest : List Char) : Cursor :=
  { c with rest, column := c.column + (c.rest.length - rest.length) }

/-- The place behind the characters of a class that follow. -/
def skip (c : Cursor) (p : Char → Bool) : Cursor :=
  c.leaving (c.rest.dropWhile p)

/-- The start of the next line, seen from the end of a line. -/
def nextLine (c : Cursor) : Cursor :=
  { rest := c.rest.drop 1, line := c.line + 1 }

/-- Whether a line starts here that marks the start of a document, for `-`, or its
    end, for `.`. -/
def atMarker (c : Cursor) (sign : Char) : Bool :=
  c.column = 0 && c.rest.take 3 = [sign, sign, sign] && isGapNext (c.rest.drop 3)

/-- Whether the text of a document ends here in favour of a marker. -/
def atAnyMarker (c : Cursor) : Bool :=
  c.atMarker '-' || c.atMarker '.'

/-- The start of the next line. Nothing may remain of the current one but spaces
    and a comment. -/
def endLine? (c : Cursor) : Option Cursor :=
  let behind := c.skip isSpace
  let stop := if behind.peek? = some '#' then behind.skip fun d => ¬ isBreak d else behind
  match stop.peek? with
  | none => some stop
  | some d => if isBreak d then some stop.nextLine else none

end Cursor

/-! ## Gaps in a text -/

/-- A gap between two words of a text. -/
structure Gap where
  /-- The spaces on the line of the first word. -/
  spaces : List Char := []
  /-- The line ends. -/
  breaks : List Char := []
  /-- Whether the second word stands on another line. -/
  crossed : Bool := false

/-- What the line ends between two words stand for: the first for a space if it
    is the only one and for nothing otherwise. Separators of lines and paragraphs
    stay. -/
def foldBreaks : List Char → List Char
  | '\n' :: [] => [' ']
  | '\n' :: more => more
  | breaks => breaks

example : foldBreaks ['\n'] = [' '] := rfl
example : foldBreaks ['\n', '\n', '\n'] = ['\n', '\n'] := rfl
example : foldBreaks ['\u2028', '\n'] = ['\u2028', '\n'] := rfl

/-- What a gap stands for in the text. -/
def Gap.text (g : Gap) : List Char :=
  if g.crossed then foldBreaks g.breaks else g.spaces

/-- Reads on in a gap of which `gap` is read. On a line that the gap has reached,
    a tab in front of the column `least` is refused. -/
def gapFrom? (least : Nat) (gap : Gap) (line column : Nat) : List Char → Option (Gap × Cursor)
  | [] => some (gap, ⟨[], line, column⟩)
  | c :: r =>
    if isBreak c then
      gapFrom? least { breaks := gap.breaks ++ [c], crossed := true } (line + 1) 0 r
    else if ¬ isSpace c then some (gap, ⟨c :: r, line, column⟩)
    else if ¬ gap.crossed then
      gapFrom? least { gap with spaces := gap.spaces ++ [c] } line (column + 1) r
    else if c = '\t' ∧ column < least then none
    else gapFrom? least gap line (column + 1) r

/-- The gap at a place, and the place behind it; see `gapFrom?`. -/
def Cursor.gap? (c : Cursor) (least : Nat) : Option (Gap × Cursor) :=
  gapFrom? least {} c.line c.column c.rest

/-! ## Gaps between signs -/

/-- Skips spaces, comments and line ends, a mark of the byte order at the start
    of a line, and tabs unless one could be mistaken for indentation. That is the
    case outside `brackets` where a key may start; `keyAllowed` tells this, and
    outside brackets a new line lets a key start. Answers with it and the place
    that is reached. -/
def skipGapFrom (brackets keyAllowed comment : Bool) (line column : Nat) :
    List Char → Bool × Cursor
  | [] => (keyAllowed, ⟨[], line, column⟩)
  | c :: r =>
    if isBreak c then skipGapFrom brackets (keyAllowed || ¬ brackets) false (line + 1) 0 r
    else if comment then skipGapFrom brackets keyAllowed true line (column + 1) r
    else if c = '#' then skipGapFrom brackets keyAllowed true line (column + 1) r
    else if c = ' ' ∨ (c = '\t' ∧ (brackets ∨ ¬ keyAllowed)) ∨ (c = byteOrderMark ∧ column = 0) then
      skipGapFrom brackets keyAllowed false line (column + 1) r
    else (keyAllowed, ⟨c :: r, line, column⟩)

/-- The place behind a gap, and whether a key may start there; see
    `skipGapFrom`. -/
def Cursor.skipGap (c : Cursor) (brackets keyAllowed : Bool) : Bool × Cursor :=
  skipGapFrom brackets keyAllowed false c.line c.column c.rest

end ConvexLang.Yaml
