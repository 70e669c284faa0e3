import ConvexLang.Yaml.Cursor
import ConvexLang.Yaml.Token

/-!
# YAML names, tags and directives

What stands in front of a node or in front of a document. Tags are written with
the characters of a URI, in which any octet may be written as a percent sign and
two digits; the octets of a character have to follow each other. A tag ends at
its first zero octet, and one whose octets are no text is kept as no text.
-/

namespace ConvexLang.Yaml

/-! ## Octets -/

/-- How many octets follow the first one of a character. -/
def followers? (octet : Nat) : Option Nat :=
  if octet < 0x80 then some 0
  else if octet < 0xC0 then none
  else if octet < 0xE0 then some 1
  else if octet < 0xF0 then some 2
  else if octet < 0xF8 then some 3
  else none

/-- Whether a character may stand in a tag. -/
def isTagChar (c : Char) : Bool :=
  isNameChar c
    || [';', '/', '?', ':', '@', '&', '=', '+', '$', '.', '!', '~', '*', '\'', '(', ')'].contains c

/-- Reads the octets of a tag as far as they go, commas and square brackets among
    them only where `signs`. In the middle of a character `awaited` octets of it
    are still to come. -/
def octets? (signs : Bool) (awaited : Nat) : List Char → Option (List UInt8 × List Char)
  | '%' :: a :: b :: r => do
    let octet ← valueIn? 16 [a, b]
    let next ←
      if awaited = 0 then followers? octet
      else if octet / 0x40 = 2 then some (awaited - 1)
      else none
    let (octets, rest) ← octets? signs next r
    return (octet.toUInt8 :: octets, rest)
  | c :: r =>
    if awaited ≠ 0 ∨ c = '%' then none
    else if isTagChar c ∨ (signs ∧ [',', '[', ']'].contains c) then
      (octets? signs 0 r).map fun (octets, rest) => (c.toNat.toUInt8 :: octets, rest)
    else some ([], c :: r)
  | [] => if awaited = 0 then some ([], []) else none

/-- The octets of a part of a tag, of which there is at least one. -/
def part? (signs : Bool) (cs : List Char) : Option (List UInt8 × List Char) :=
  (octets? signs 0 cs).filter fun (octets, _) => ¬ octets.isEmpty

/-- The text that octets are, up to the first zero. -/
def textOf? (octets : List UInt8) : Option String :=
  String.fromUTF8? ⟨(octets.takeWhile (· ≠ 0)).toArray⟩

/-! ## Names and tags -/

/-- Reads the name behind `&` or `*`. -/
def name? (c : Cursor) : Option (String × Cursor) :=
  let name := c.rest.takeWhile isNameChar
  let behind := c.advance name.length
  if name.isEmpty then none
  else if isGapNext behind.rest ∨ (behind.peek?.map ending).getD false then
    some (String.ofList name, behind)
  else none
where
  /-- Whether a name may end in front of a character that is no gap. -/
  ending (c : Char) : Bool :=
    ['?', ':', ',', ']', '\x7d', '%', '@', '\x60'].contains c

/-- Reads a tag, from behind its exclamation mark: all of it between angles, or
    what follows a handle such as `!` or `!e!`. An exclamation mark alone is a tag
    of no family. -/
def tagParts? : List Char → Option (Token × List Char)
  | '<' :: r => do
    let (octets, rest) ← part? true r
    match rest with
    | '>' :: behind => return (.tag "" (textOf? octets), behind)
    | _ => none
  | r =>
    let name := r.takeWhile isNameChar
    match r.drop name.length with
    | '!' :: behind =>
      (part? false behind).map fun (octets, rest) =>
        (.tag (String.ofList ('!' :: name ++ ['!'])) (textOf? octets), rest)
    | _ =>
      (octets? false 0 r).map fun (octets, rest) =>
        match textOf? octets with
        | some "" => (.tag "" (some "!"), rest)
        | suffix => (.tag "!" suffix, rest)

/-- Reads a tag at a place. A gap follows it, or a comma in brackets. -/
def tag? (brackets : Bool) (c : Cursor) : Option (Token × Cursor) := do
  let (token, rest) ← tagParts? (c.rest.drop 1)
  if isGapNext rest ∨ (brackets ∧ rest.head? = some ',') then return (token, c.leaving rest)
  none

/-! ## Directives -/

/-- Reads a number of at most nine digits. -/
def number? (cs : List Char) : Option (Nat × List Char) :=
  let ds := cs.takeWhile Char.isDigit
  if 9 < ds.length then none else (valueIn? 10 ds).map fun n => (n, cs.drop ds.length)

/-- Reads the two numbers of a version. -/
def version? (cs : List Char) : Option (Token × List Char) := do
  let (major, rest) ← number? cs
  match rest with
  | '.' :: r =>
    let (minor, rest) ← number? r
    return (.version major minor, rest)
  | _ => none

/-- Reads the handle of a family of tags and what the tags of the family begin
    with. -/
def family? : List Char → Option (Token × List Char)
  | '!' :: r => do
    let name := r.takeWhile isNameChar
    let behind := r.drop name.length
    let (handle, gap) ←
      match behind with
      | '!' :: gap => some ('!' :: name ++ ['!'], gap)
      | gap => if name.isEmpty then some (['!'], gap) else none
    if ¬ (gap.head?.map isSpace).getD false then none
    let (octets, rest) ← part? true (gap.dropWhile isSpace)
    if isGapNext rest then return (.family (String.ofList handle) (textOf? octets), rest)
    none
  | _ => none

/-- Reads the line of a directive. -/
def directive? (c : Cursor) : Option (Token × Cursor) := do
  let line := c.rest.drop 1
  let name := line.takeWhile isNameChar
  let behind := line.drop name.length
  if ¬ isGapNext behind then none
  let (token, rest) ←
    match String.ofList name with
    | "YAML" => version? (behind.dropWhile isSpace)
    | "TAG" => family? (behind.dropWhile isSpace)
    | _ => none
  return (token, ← (c.leaving rest).endLine?)

end ConvexLang.Yaml
