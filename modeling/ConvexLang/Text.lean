/-!
# Text

The few operations on text that the statement language, the prompt and the
tables share: the blank characters, trimming, cutting a text into words or into
lines, folding of ASCII capitals and padding to a column.

Texts are taken apart as lists of characters, so that a law about a text is a
law about a list. The laws stated here are the ones the rest of the library
leans on: trimming takes away blanks only (`trimStart_eq_self_iff`) and cutting
a text into pieces loses nothing (`flatten_pieces`).
-/

namespace ConvexLang.Text

/-! ## Blank characters -/

/-- The characters with the Unicode property White_Space. -/
def blanks : List Char :=
  ['\t', '\n', '\x0b', '\x0c', '\r', ' ', '\u0085', '\u00a0', '\u1680', '\u2000', '\u2001',
    '\u2002', '\u2003', '\u2004', '\u2005', '\u2006', '\u2007', '\u2008', '\u2009', '\u200a',
    '\u2028', '\u2029', '\u202f', '\u205f', '\u3000']

/-- Whether `c` is white space in the sense of Unicode. -/
def isBlank (c : Char) : Bool :=
  blanks.contains c

example : blanks.length = 25 := by decide

/-! ## Trimming -/

/-- The text without the blanks in front of it. -/
def trimStart (cs : List Char) : List Char :=
  cs.dropWhile isBlank

/-- The text without the blanks behind it. -/
def trimEnd (cs : List Char) : List Char :=
  (trimStart cs.reverse).reverse

/-- The text without the blanks around it. -/
def trimChars (cs : List Char) : List Char :=
  trimEnd (trimStart cs)

/-- The text without the blanks around it. -/
def trim (s : String) : String :=
  String.ofList (trimChars s.toList)

/-- Trimming changes exactly the texts that begin with a blank. -/
theorem trimStart_eq_self_iff (cs : List Char) :
    trimStart cs = cs ↔ ∀ c, cs.head? = some c → isBlank c = false := by
  cases cs with
  | nil => simp [trimStart]
  | cons c r =>
    by_cases hc : isBlank c
    · simp only [trimStart, List.dropWhile_cons, hc, if_true, List.head?_cons, Option.some.injEq]
      constructor
      · intro h
        have := congrArg List.length h
        have := (List.dropWhile_sublist (l := r) isBlank).length_le
        simp only [List.length_cons] at *
        omega
      · intro h
        simp [h c rfl] at hc
    · simp [trimStart, hc]

/-! ## Words -/

/-- The maximal runs of characters that are not blank, in order; `word` is the
    run that is being read. -/
def wordsFrom (word : List Char) : List Char → List (List Char)
  | [] => if word.isEmpty then [] else [word]
  | c :: cs =>
    if isBlank c then
      if word.isEmpty then wordsFrom [] cs else word :: wordsFrom [] cs
    else wordsFrom (word ++ [c]) cs

/-- The words of a text: its maximal runs of characters that are not blank. -/
def words (s : String) : List String :=
  (wordsFrom [] s.toList).map String.ofList

/-! ## Lines -/

/-- The text cut behind each newline. Every piece but the last ends in a
    newline, and no piece is empty. -/
def pieces : List Char → List (List Char)
  | [] => []
  | c :: cs =>
    if c = '\n' then [c] :: pieces cs
    else
      match pieces cs with
      | [] => [[c]]
      | p :: ps => (c :: p) :: ps

/-- Cutting loses nothing. -/
@[simp] theorem flatten_pieces (cs : List Char) : (pieces cs).flatten = cs := by
  induction cs with
  | nil => rfl
  | cons c cs ih =>
    unfold pieces
    split
    · simp [ih]
    · split <;> rename_i h <;> rw [h] at ih <;> simp_all

/-- A piece without its line end: a newline, with one carriage return before it
    if there is one. A carriage return that no newline follows is text. -/
def lineOfPiece (piece : List Char) : List Char :=
  match piece.reverse with
  | '\n' :: '\r' :: r => r.reverse
  | '\n' :: r => r.reverse
  | _ => piece

/-- The lines of a text, without their line ends. A newline at the end of the
    text opens no further line. -/
def lines (s : String) : List String :=
  (pieces s.toList).map fun piece => String.ofList (lineOfPiece piece)

/-! ## Letters and columns -/

/-- The character with `A` to `Z` made small and all others kept. -/
def lowerChar (c : Char) : Char :=
  if 'A' ≤ c ∧ c ≤ 'Z' then Char.ofNat (c.toNat + 32) else c

/-- The text with `A` to `Z` made small and all else kept. -/
def lower (s : String) : String :=
  String.ofList (s.toList.map lowerChar)

/-- The text followed by the blanks that fill it up to `width` characters. -/
def padEnd (width : Nat) (s : String) : String :=
  s ++ String.ofList (List.replicate (width - s.toList.length) ' ')

/-- The size of a text in bytes of UTF-8. -/
def byteSize : List Char → Nat
  | [] => 0
  | c :: cs => c.utf8Size + byteSize cs

@[simp] theorem byteSize_append (a b : List Char) :
    byteSize (a ++ b) = byteSize a + byteSize b := by
  induction a with
  | nil => simp [byteSize]
  | cons c a ih => simp [byteSize, ih, Nat.add_assoc]

end ConvexLang.Text
