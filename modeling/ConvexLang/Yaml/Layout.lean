import ConvexLang.Yaml.Scalar
import ConvexLang.Yaml.Tag

/-!
# The layout of a YAML document

A document is read from left to right into its tokens (`Layout.tokens?`). Outside
brackets the column of a token decides where it belongs: the dashes of a sequence
and the keys of a mapping of lines stand at one column, which opens a level, and
the level ends with the first token in front of that column. Inside brackets and
braces columns do not count.

That a node is a key shows only at the colon behind it. The start of a node that
may be a key is therefore kept as a pending key, one for each pair of brackets
around the place and one outside of them, until the colon comes or the place is
left for good: a key lies on one line and is at most 1024 characters long. What
stands at the column of a level that is open must be a key.
-/

namespace ConvexLang.Yaml

/-- The start of a node that may turn out a key. -/
structure PendingKey where
  /-- How many tokens lie in front of it. -/
  index : Nat
  /-- Its line. -/
  line : Nat
  /-- Its column. -/
  column : Nat
  /-- Whether it must turn out a key. -/
  required : Bool

/-- The greatest length of a key. -/
def maxKeyLength : Nat :=
  1024

/-- How much of a document is read, and what is open there. -/
structure Layout where
  /-- The place that is reached. -/
  cursor : Cursor
  /-- The tokens read. -/
  tokens : Array Token := #[]
  /-- The column where the inside of the innermost level starts: one behind the
      column of the level, and the first column where no level is open. -/
  least : Nat := 0
  /-- The same for the levels around it, the innermost first. -/
  outerLeast : List Nat := []
  /-- The pending key inside the innermost brackets. -/
  key : Option PendingKey := none
  /-- The pending keys outside of each pair of brackets, the innermost first. -/
  outerKeys : List (Option PendingKey) := []
  /-- Whether a node that starts here may be a key. -/
  keyAllowed : Bool := true

namespace Layout

/-- Whether the place lies inside brackets. -/
def inBrackets (l : Layout) : Bool :=
  ¬ l.outerKeys.isEmpty

/-- The column of the place. -/
def column (l : Layout) : Nat :=
  l.cursor.column

/-- The layout with a token read, up to a place. -/
def push (l : Layout) (token : Token) (cursor : Cursor) : Layout :=
  { l with tokens := l.tokens.push token, cursor }

/-- The layout with the sign of a token read. -/
def pushSign (l : Layout) (token : Token) (size : Nat) : Layout :=
  l.push token (l.cursor.advance size)

/-! ## Pending keys -/

/-- The layout without the pending key; fails if it had to be one. -/
def dropKey? (l : Layout) : Option Layout :=
  if l.key.any (·.required) then none else some { l with key := none }

/-- The layout with the node that starts here as the pending key, if it may be
    one. -/
def saveKey? (l : Layout) : Option Layout :=
  if l.keyAllowed then
    l.dropKey?.map fun l => { l with key := some {
      index := l.tokens.size
      line := l.cursor.line
      column := l.column
      required := ¬ l.inBrackets && l.least = l.column + 1 } }
  else some l

/-- A pending key as long as a colon at a place may still follow it. -/
def fresh? (c : Cursor) : Option PendingKey → Option (Option PendingKey)
  | none => some none
  | some k =>
    if c.line = k.line ∧ c.column ≤ k.column + maxKeyLength then some (some k)
    else if k.required then none
    else some none

/-! ## Levels -/

/-- Opens a level at `column` with a token in front of the one at `index`, unless
    the place lies inside brackets or a level is open at that column. -/
def openLevel (l : Layout) (start : Token) (index column : Nat) : Layout :=
  if l.inBrackets ∨ column < l.least then l
  else { l with
    tokens := l.tokens.insertIdxIfInBounds index start
    least := column + 1
    outerLeast := l.least :: l.outerLeast }

/-- Closes levels, the innermost first, as long as their inside starts behind the
    column `bound`. Answers with the number of levels that end, with where the
    inside of the innermost level left starts and with the same of those around
    it. -/
def closeFrom (bound closed least : Nat) : List Nat → Nat × Nat × List Nat
  | [] => (closed, least, [])
  | outer :: outers =>
    if bound < least then closeFrom bound (closed + 1) outer outers
    else (closed, least, outer :: outers)

/-- The layout with the levels closed whose inside starts behind the column
    `bound`; inside brackets none is. -/
def closeLevels (l : Layout) (bound : Nat) : Layout :=
  if l.inBrackets then l
  else
    let (closed, least, outerLeast) := closeFrom bound 0 l.least l.outerLeast
    { l with tokens := l.tokens ++ List.replicate closed Token.levelEnd, least, outerLeast }

/-! ## Tokens -/

/-- The layout at the next token: behind the gap, with the keys that can be none
    any more forgotten and the levels closed that end here. -/
def settle? (l : Layout) : Option Layout := do
  let (keyAllowed, cursor) := l.cursor.skipGap l.inBrackets l.keyAllowed
  let key ← fresh? cursor l.key
  let outerKeys ← l.outerKeys.mapM (fresh? cursor)
  return { l with cursor, keyAllowed, key, outerKeys }.closeLevels (cursor.column + 1)

/-- The layout at the end of a document: every level ends, and no key may follow. -/
def finish? (l : Layout) : Option Layout :=
  (l.closeLevels 0).dropKey?

/-- Reads a line that starts outside of every level. -/
def outside? (l : Layout) (token : Token) (cursor : Cursor) : Option Layout :=
  l.finish?.map fun l => { l with keyAllowed := false }.push token cursor

/-- Reads an opening bracket, which may open a key. -/
def openBracket? (l : Layout) (token : Token) : Option Layout :=
  l.saveKey?.map fun l =>
    { l with key := none, outerKeys := l.key :: l.outerKeys, keyAllowed := true }.pushSign token 1

/-- Reads a closing bracket. -/
def closeBracket? (l : Layout) (token : Token) : Option Layout :=
  l.dropKey?.map fun l =>
    match l.outerKeys with
    | [] => { l with keyAllowed := false }.pushSign token 1
    | key :: outerKeys => { l with key, outerKeys, keyAllowed := false }.pushSign token 1

/-- Reads a comma. -/
def separator? (l : Layout) : Option Layout :=
  l.dropKey?.map fun l => { l with keyAllowed := true }.pushSign .separator 1

/-- The layout with a level opened by the sign at its place. Outside brackets the
    sign must stand where a key may start. -/
def openAtSign? (l : Layout) (start : Token) : Option Layout :=
  if l.inBrackets ∨ l.keyAllowed then some (l.openLevel start l.tokens.size l.column) else none

/-- Reads the dash of an item. -/
def entry? (l : Layout) : Option Layout := do
  let l ← (← l.openAtSign? .sequenceStart).dropKey?
  return { l with keyAllowed := true }.pushSign .entry 1

/-- Reads the question mark of a key. -/
def key? (l : Layout) : Option Layout := do
  let l ← (← l.openAtSign? .mappingStart).dropKey?
  return { l with keyAllowed := ¬ l.inBrackets }.pushSign .key 1

/-- Reads the colon of a value. It makes a key of the pending one. -/
def value? (l : Layout) : Option Layout :=
  match l.key with
  | some k =>
    let keyed := { l with tokens := l.tokens.insertIdxIfInBounds k.index .key }
    let opened := keyed.openLevel .mappingStart k.index k.column
    some ({ opened with key := none, keyAllowed := false }.pushSign .value 1)
  | none =>
    (l.openAtSign? .mappingStart).map fun l =>
      { l with keyAllowed := ¬ l.inBrackets }.pushSign .value 1

/-- Reads what stands in front of a node or is one. It may be a key, or the start
    of one. -/
def node? (l : Layout) (read? : Layout → Option (Token × Cursor)) : Option Layout := do
  let l ← l.saveKey?
  let (token, cursor) ← read? l
  return { l with keyAllowed := false }.push token cursor

/-- Reads a name behind a sign. -/
def named? (l : Layout) (token : String → Token) : Option Layout :=
  l.node? fun l => (name? (l.cursor.advance 1)).map fun (name, cursor) => (token name, cursor)

/-- Reads a quoted scalar. -/
def quotation? (l : Layout) (double : Bool) : Option Layout :=
  l.node? fun l =>
    let start := l.cursor.advance 1
    (quoted? (start.rest.length + 1) double start).map fun (text, cursor) =>
      (.scalar .quoted (String.ofList text), cursor)

/-- Reads a plain scalar. A key may start on a line behind it. -/
def plainScalar? (l : Layout) : Option Layout := do
  let l ← l.saveKey?
  let (text, crossed, cursor) ←
    plain? (l.cursor.rest.length + 1) l.inBrackets l.least {} l.cursor
  return { l with keyAllowed := crossed }.push (.scalar .plain (String.ofList text)) cursor

/-- Reads a block of lines. -/
def block? (l : Layout) (folded : Bool) : Option Layout := do
  let l ← l.dropKey?
  let (text, cursor) ← Yaml.block? folded l.least (l.cursor.advance 1)
  let style := if folded then Style.folded else Style.literal
  return { l with keyAllowed := true }.push (.scalar style (String.ofList text)) cursor

/-- Reads the token at a place where something remains. -/
def token? (l : Layout) : Option Layout :=
  match l.cursor.rest with
  | [] => none
  | c :: r =>
    if l.column = 0 ∧ c = '%' then do
      let (token, cursor) ← directive? l.cursor
      l.outside? token cursor
    else if l.cursor.atMarker '-' then l.outside? .documentStart (l.cursor.advance 3)
    else if l.cursor.atMarker '.' then l.outside? .documentEnd (l.cursor.advance 3)
    else if c = '[' then l.openBracket? .openSequence
    else if c = '\x7b' then l.openBracket? .openMapping
    else if c = ']' then l.closeBracket? .closeSequence
    else if c = '\x7d' then l.closeBracket? .closeMapping
    else if c = ',' then l.separator?
    else if c = '-' ∧ isGapNext r then l.entry?
    else if c = '?' ∧ (l.inBrackets ∨ isGapNext r) then l.key?
    else if c = ':' ∧ (l.inBrackets ∨ isGapNext r) then l.value?
    else if c = '*' then l.named? .reference
    else if c = '&' then l.named? .anchor
    else if c = '!' then l.node? fun l => tag? l.inBrackets l.cursor
    else if c = '|' ∧ ¬ l.inBrackets then l.block? false
    else if c = '>' ∧ ¬ l.inBrackets then l.block? true
    else if c = '\'' then l.quotation? false
    else if c = '"' then l.quotation? true
    else if startsPlain l.inBrackets c r then l.plainScalar?
    else none

/-- All tokens, from a place on. -/
def tokensFrom? (fuel : Nat) (l : Layout) : Option (Array Token) :=
  match fuel with
  | 0 => none
  | fuel + 1 => do
    let l ← l.settle?
    if l.cursor.rest.isEmpty then return (← l.finish?).tokens
    else tokensFrom? fuel (← l.token?)

/-- The tokens of a text. -/
def tokens? (cs : List Char) : Option (List Token) :=
  if cs.all isAdmitted then
    (tokensFrom? (cs.length + 1) { cursor := { rest := unifyBreaks cs } }).map (·.toList)
  else none

example : tokens? "a: b".toList = some
    [.mappingStart, .key, .scalar .plain "a", .value, .scalar .plain "b", .levelEnd] := by
  decide +kernel

example : tokens? "[a: b]".toList = some
    [.openSequence, .key, .scalar .plain "a", .value, .scalar .plain "b", .closeSequence] := by
  decide +kernel

example : tokens? "a:\n- b".toList = some
    [.mappingStart, .key, .scalar .plain "a", .value, .entry, .scalar .plain "b", .levelEnd] := by
  decide +kernel

end Layout

end ConvexLang.Yaml
