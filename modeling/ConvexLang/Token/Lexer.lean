import ConvexLang.Diagnostic
import ConvexLang.Text
import ConvexLang.Token

/-!
# Lexer

A line is cut into gaps and lexemes from left to right. Gaps are blanks, tabs,
line ends and comments from `#` to the end of the line. A lexeme is as long as
its class admits: a word, a number, one of the relations or a single sign. The
first character that belongs to neither ends the reading with an error at that
character.

A lexeme comes with the proof that it and what remains make up the input
(`Lexeme.whole`), so nothing is lost and reading goes on with a shorter text.
-/

namespace ConvexLang

/-- A lexeme at the start of `input`. -/
structure Lexeme (input : List Char) where
  /-- The kind of token it is. -/
  kind : TokenKind
  /-- Its characters. -/
  text : List Char
  /-- The characters behind it. -/
  rest : List Char
  /-- Both together are the input. -/
  whole : text ++ rest = input
  /-- It is not empty. -/
  text_ne_nil : text ≠ []

theorem Lexeme.length_rest_lt {input : List Char} (l : Lexeme input) :
    l.rest.length < input.length := by
  have h := congrArg List.length l.whole
  have := List.length_pos_iff.2 l.text_ne_nil
  simp only [List.length_append] at h
  omega

/-- A character that cannot be read and the bytes it covers. -/
structure LexicalError where
  /-- What is wrong with it. -/
  fault : LexicalFault
  /-- Where it stands. -/
  span : Span
  deriving DecidableEq

/-- The error as a diagnostic. -/
def LexicalError.toDiagnostic (e : LexicalError) : Diagnostic :=
  .atSpan (.lexical e.fault) e.span

namespace Lexeme

/-! ## Numbers -/

/-- The characters of a number at the start of a text: digits, and a point with
    digits behind it if a digit follows the point. -/
def splitNumber (cs : List Char) : List Char × List Char × List Char :=
  let whole := cs.takeWhile Char.isDigit
  match cs.dropWhile Char.isDigit with
  | '.' :: d :: r =>
    if d.isDigit then (whole, '.' :: (d :: r).takeWhile Char.isDigit, (d :: r).dropWhile Char.isDigit)
    else (whole, [], '.' :: d :: r)
  | r => (whole, [], r)

theorem splitNumber_whole (cs : List Char) :
    (splitNumber cs).1 ++ ((splitNumber cs).2.1 ++ (splitNumber cs).2.2) = cs := by
  have h := List.takeWhile_append_dropWhile (p := Char.isDigit) (l := cs)
  unfold splitNumber
  split
  · rename_i d r hd
    rw [hd] at h
    split
    · simpa using h
    · simpa using h
  · simp

/-- The largest integer token, which fills 63 bits. -/
def maxInteger : Nat :=
  9223372036854775807

/-- The kind of a number: an integer where no point was read and the value fits,
    else the nearest floating-point number. -/
def numberKind (whole fraction : List Char) : TokenKind :=
  match fraction with
  | [] =>
    let n := Decimal.value whole
    if n ≤ maxInteger then .integer n else .real (Decimal.ofParts whole []).toFloat
  | _ :: ds => .real (Decimal.ofParts whole ds).toFloat

/-! ## One lexeme -/

/-- A lexeme of one character. -/
def single (kind : TokenKind) (c : Char) (cs : List Char) : Lexeme (c :: cs) where
  kind
  text := [c]
  rest := cs
  whole := rfl
  text_ne_nil := by simp

/-- A relation: `c` with an equals sign behind it. -/
def withEquals (r : Relation) (fault : LexicalFault) (c : Char) (cs : List Char) :
    Except LexicalFault (Lexeme (c :: cs)) :=
  match cs with
  | '=' :: rest => .ok ⟨.relation r, [c, '='], rest, rfl, by simp⟩
  | _ => .error fault

/-- A word: its first character and all that may go on with it. -/
def word (c : Char) (cs : List Char) : Lexeme (c :: cs) where
  kind := .ofWord (String.ofList (c :: cs.takeWhile isWordChar))
  text := c :: cs.takeWhile isWordChar
  rest := cs.dropWhile isWordChar
  whole := by simp
  text_ne_nil := by simp

/-- A number that begins with a digit or with a point and a digit; nothing if
    the text begins with neither. -/
def number? (input : List Char) : Option (Lexeme input) :=
  let parts := splitNumber input
  if h : parts.1 ++ parts.2.1 ≠ [] then
    some ⟨numberKind parts.1 parts.2.1, parts.1 ++ parts.2.1, parts.2.2,
      by simpa using splitNumber_whole input, h⟩
  else none

/-- The lexeme at the start of a text that begins with `c`, which is no gap. -/
def read (c : Char) (cs : List Char) : Except LexicalFault (Lexeme (c :: cs)) :=
  if isWordStart c then .ok (word c cs)
  else
    match number? (c :: cs) with
    | some l => .ok l
    | none =>
      match c with
      | '+' => .ok (single .plus '+' cs)
      | '-' => .ok (single .minus '-' cs)
      | '*' => .ok (single .star '*' cs)
      | '/' => .ok (single .slash '/' cs)
      | '(' => .ok (single .leftParen '(' cs)
      | ')' => .ok (single .rightParen ')' cs)
      | ',' => .ok (single .comma ',' cs)
      | '=' => withEquals .equal .singleEquals '=' cs
      | '<' => withEquals .lessEqual .strictLess '<' cs
      | '>' => withEquals .greaterEqual .strictGreater '>' cs
      | '^' => .error .exponent
      | c => .error (.illegalCharacter c)

end Lexeme

/-! ## A whole line -/

/-- The blanks between tokens: the space, the tab and the two line ends. -/
def isGap (c : Char) : Bool :=
  c = ' ' || c = '\t' || c = '\r' || c = '\n'

/-- The tokens of a text whose first character has the offset `offset`. -/
def tokensFrom (offset : Nat) (input : List Char) : Except LexicalError (List Token) :=
  match input with
  | [] => .ok []
  | c :: cs =>
    if isGap c then tokensFrom (offset + 1) cs
    else if c = '#' then
      tokensFrom (offset + 1 + Text.byteSize (cs.takeWhile (· ≠ '\n'))) (cs.dropWhile (· ≠ '\n'))
    else
      match Lexeme.read c cs with
      | .error fault => .error ⟨fault, ⟨offset, offset + c.utf8Size⟩⟩
      | .ok l =>
        let past := offset + Text.byteSize l.text
        match tokensFrom past l.rest with
        | .error e => .error e
        | .ok ts => .ok (⟨l.kind, ⟨offset, past⟩⟩ :: ts)
termination_by input.length
decreasing_by
  · simp
  · have := (List.dropWhile_sublist (l := cs) (· ≠ '\n')).length_le
    simp only [List.length_cons]
    omega
  · exact l.length_rest_lt

/-- The tokens of a line, or the first character that cannot be read. -/
def tokenize (line : String) : Except LexicalError (List Token) :=
  tokensFrom 0 line.toList

end ConvexLang
