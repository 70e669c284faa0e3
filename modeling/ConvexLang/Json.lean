import ConvexLang.Number

/-!
# JSON records

The values a record is made of and their two texts: one without any space
(`Json.compact`) and one indented by two blanks a level (`Json.pretty`). The
fields of a record keep the order they are given in.

A writer takes what is to stand behind the text of its value, so that a text is
put together from its end and no part of it is copied
(`Json.writeCompact_append`).
-/

namespace ConvexLang

/-- A value of a record. -/
inductive Json where
  /-- A number; one that is not finite is written `null`. -/
  | number (n : Number)
  /-- A text. -/
  | text (s : String)
  /-- A list. -/
  | list (items : List Json)
  /-- Named fields. -/
  | fields (entries : List (String × Json))

namespace Json

/-! ## Leaves -/

/-- A hexadecimal digit, small letters. -/
def hexDigit (n : Nat) : Char :=
  Nat.digitChar n

/-- One character of a quoted text: quotes, backslashes and the control
    characters below the blank are escaped, all others stand for themselves. -/
def escape (c : Char) : List Char :=
  if c = '"' then ['\\', '"']
  else if c = '\\' then ['\\', '\\']
  else if c = '\x08' then ['\\', 'b']
  else if c = '\x0c' then ['\\', 'f']
  else if c = '\n' then ['\\', 'n']
  else if c = '\r' then ['\\', 'r']
  else if c = '\t' then ['\\', 't']
  else if c.toNat < 32 then
    ['\\', 'u', '0', '0', hexDigit (c.toNat / 16), hexDigit (c.toNat % 16)]
  else [c]

/-- A text in quotes. -/
def quote (s : String) : List Char :=
  '"' :: (s.toList.flatMap escape ++ ['"'])

/-- The text of a number. -/
def numberText : Number → List Char
  | .whole n => (Decimal.ofInt n).toList
  | .real x => (Decimal.recordText? x).getD ['n', 'u', 'l', 'l']

/-! ## The compact text -/

mutual

/-- The text without spaces, with `rest` behind it. -/
def writeCompact : Json → List Char → List Char
  | number n, rest => numberText n ++ rest
  | text s, rest => quote s ++ rest
  | list items, rest => '[' :: writeItems items (']' :: rest)
  | fields entries, rest => '{' :: writeEntries entries ('}' :: rest)

/-- The items of a list, parted by commas, with `rest` behind them. -/
def writeItems : List Json → List Char → List Char
  | [], rest => rest
  | [v], rest => writeCompact v rest
  | v :: w :: vs, rest => writeCompact v (',' :: writeItems (w :: vs) rest)

/-- The fields of a record, parted by commas, with `rest` behind them. -/
def writeEntries : List (String × Json) → List Char → List Char
  | [], rest => rest
  | [(k, v)], rest => quote k ++ ':' :: writeCompact v rest
  | (k, v) :: e :: es, rest => quote k ++ ':' :: writeCompact v (',' :: writeEntries (e :: es) rest)

end

mutual

/-- What stands behind a value does not change its text. -/
theorem writeCompact_append : ∀ (v : Json) (rest more : List Char),
    writeCompact v (rest ++ more) = writeCompact v rest ++ more
  | number n, rest, more => by simp [writeCompact]
  | text s, rest, more => by simp [writeCompact]
  | list items, rest, more => by
    simp [writeCompact, ← writeItems_append items (']' :: rest) more]
  | fields entries, rest, more => by
    simp [writeCompact, ← writeEntries_append entries ('}' :: rest) more]

theorem writeItems_append : ∀ (vs : List Json) (rest more : List Char),
    writeItems vs (rest ++ more) = writeItems vs rest ++ more
  | [], rest, more => rfl
  | [v], rest, more => by simp [writeItems, writeCompact_append v rest more]
  | v :: w :: vs, rest, more => by
    simp [writeItems, writeItems_append (w :: vs) rest more, ← writeCompact_append v]

theorem writeEntries_append : ∀ (es : List (String × Json)) (rest more : List Char),
    writeEntries es (rest ++ more) = writeEntries es rest ++ more
  | [], rest, more => rfl
  | [(k, v)], rest, more => by simp [writeEntries, writeCompact_append v rest more]
  | (k, v) :: e :: es, rest, more => by
    simp [writeEntries, writeEntries_append (e :: es) rest more, ← writeCompact_append v]

end

/-- The text without spaces. -/
def compact (v : Json) : String :=
  String.ofList (v.writeCompact [])

/-! ## The indented text -/

/-- A new line, indented by two blanks a level, with `rest` behind it. -/
def newline (level : Nat) (rest : List Char) : List Char :=
  '\n' :: (List.replicate (2 * level) ' ' ++ rest)

mutual

/-- The indented text of a value that stands at `level`, with `rest` behind it. -/
def writePretty (level : Nat) : Json → List Char → List Char
  | number n, rest => numberText n ++ rest
  | text s, rest => quote s ++ rest
  | list [], rest => '[' :: ']' :: rest
  | list (v :: vs), rest =>
    '[' :: writePrettyItems (level + 1) (v :: vs) (newline level (']' :: rest))
  | fields [], rest => '{' :: '}' :: rest
  | fields (e :: es), rest =>
    '{' :: writePrettyEntries (level + 1) (e :: es) (newline level ('}' :: rest))

/-- The items of a list, each on a line of its own, with `rest` behind them. -/
def writePrettyItems (level : Nat) : List Json → List Char → List Char
  | [], rest => rest
  | [v], rest => newline level (writePretty level v rest)
  | v :: w :: vs, rest =>
    newline level (writePretty level v (',' :: writePrettyItems level (w :: vs) rest))

/-- The fields of a record, each on a line of its own, with `rest` behind them. -/
def writePrettyEntries (level : Nat) : List (String × Json) → List Char → List Char
  | [], rest => rest
  | [(k, v)], rest => newline level (quote k ++ ':' :: ' ' :: writePretty level v rest)
  | (k, v) :: e :: es, rest =>
    newline level (quote k ++ ':' :: ' ' ::
      writePretty level v (',' :: writePrettyEntries level (e :: es) rest))

end

/-- The indented text. -/
def pretty (v : Json) : String :=
  String.ofList (v.writePretty 0 [])

end Json

end ConvexLang
