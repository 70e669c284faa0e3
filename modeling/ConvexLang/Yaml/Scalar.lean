import ConvexLang.Yaml.Cursor

/-!
# YAML scalars

The ways to write a text: plain, in single or double quotes, or as a block of
lines. Where a plain or quoted text goes over several lines, one line end stands
for a space and `n` of them for `n - 1` line ends.

Where indentation matters, `least` is the first column of what lies inside the
node that is being read: a line that starts in front of it belongs to another
node.
-/

namespace ConvexLang.Yaml

/-! ## Plain scalars -/

/-- Whether a plain scalar may start with `c`, which `r` follows. -/
def startsPlain (brackets : Bool) (c : Char) (r : List Char) : Bool :=
  if c = '-' then ¬ (r.head?.map isSpace).getD false
  else if c = '?' ∨ c = ':' then ¬ brackets ∧ ¬ isGapNext r
  else ¬ isGap c ∧ ¬ isBracketSign c
    ∧ ¬ ['#', '&', '*', '!', '|', '>', '\'', '"', '%', '@', '\x60'].contains c

/-- A run of characters of a plain scalar, without gaps. A colon ends it in front
    of a gap; inside brackets a colon in front of one of their signs is refused. -/
def plainRun? (brackets : Bool) : List Char → Option (List Char)
  | [] => some []
  | c :: r =>
    if isGap c then some []
    else if c = ':' ∧ isGapNext r then some []
    else if brackets ∧ c = ':' ∧ (r.head?.map ended).getD false then none
    else if brackets ∧ isBracketSign c then some []
    else (plainRun? brackets r).map (c :: ·)
where
  /-- Whether a colon may not stand in front of a character. -/
  ended (c : Char) : Bool :=
    isBracketSign c || c = '?'

/-- Reads a plain scalar on from a word that `gap` lies in front of. Answers with
    the text, whether a line end was crossed behind it, and the place of what
    follows. Outside brackets a line that goes on with the text starts at column
    `least` or behind it. -/
def plain? (fuel : Nat) (brackets : Bool) (least : Nat) (gap : Gap) (c : Cursor) :
    Option (List Char × Bool × Cursor) :=
  match fuel with
  | 0 => none
  | fuel + 1 => do
    if c.atAnyMarker ∨ c.peek? = some '#' then return ([], gap.crossed, c)
    let run ← plainRun? brackets c.rest
    if run.isEmpty then return ([], gap.crossed, c)
    let (next, behind) ← (c.advance run.length).gap? least
    if ¬ brackets ∧ behind.column < least then return (gap.text ++ run, next.crossed, behind)
    let (more, crossed, stop) ← plain? fuel brackets least next behind
    return (gap.text ++ run ++ more, crossed, stop)

/-! ## Quoted scalars -/

/-- The characters that a letter behind a backslash stands for. -/
def escapes : List (Char × Char) :=
  [('0', '\x00'), ('a', '\x07'), ('b', '\x08'), ('t', '\t'), ('\t', '\t'), ('n', '\n'),
    ('v', '\x0b'), ('f', '\x0c'), ('r', '\r'), ('e', '\x1b'), (' ', ' '), ('"', '"'), ('/', '/'),
    ('\\', '\\'), ('N', '\u0085'), ('_', '\u00a0'), ('L', '\u2028'), ('P', '\u2029')]

/-- What follows a backslash: the character it stands for, and its length. -/
def unescape? : List Char → Option (Char × Nat)
  | [] => none
  | c :: r =>
    let size := if c = 'x' then 2 else if c = 'u' then 4 else if c = 'U' then 8 else 0
    if size = 0 then (escapes.lookup c).map fun d => (d, 1)
    else if (r.take size).length < size then none
    else ((valueIn? 16 (r.take size)).bind charOf?).map fun d => (d, size + 1)

/-- Reads up to the closing quote, from behind the opening one. A quote written
    twice stands for itself between single quotes. A line end behind a backslash
    counts for nothing, and the line ends that follow it for themselves. -/
def quoted? (fuel : Nat) (double : Bool) (c : Cursor) : Option (List Char × Cursor) :=
  match fuel, c.rest with
  | 0, _ | _, [] => none
  | fuel + 1, d :: r => do
    if c.atAnyMarker then none
    if d = (if double then '"' else '\'') ∧ (double ∨ r.head? ≠ some '\'') then
      return ([], c.advance 1)
    let (piece, next) ←
      if d = '\'' ∧ ¬ double then pure ([d], c.advance 2)
      else if isGap d then (c.gap? 0).map fun (gap, next) => (gap.text, next)
      else if d = '\\' ∧ double then
        if (r.head?.map isBreak).getD false then
          let start := (c.advance 1).nextLine
          (gapFrom? 0 { crossed := true } start.line start.column start.rest).map
            fun (gap, next) => (gap.breaks, next)
        else (unescape? r).map fun (e, size) => ([e], c.advance (size + 1))
      else pure ([d], c.advance 1)
    let (more, stop) ← quoted? fuel double next
    return (piece ++ more, stop)

/-! ## Block scalars -/

/-- What happens to the line ends behind a block. -/
inductive Chomping where
  /-- One is kept. -/
  | clip
  /-- None is kept. -/
  | strip
  /-- All are kept. -/
  | keep
  deriving DecidableEq, Repr

/-- The chomping a sign stands for. -/
def Chomping.ofSign? : Char → Option Chomping
  | '+' => some .keep
  | '-' => some .strip
  | _ => none

/-- The chomping that is written at a place. -/
def chomping? (c : Cursor) : Option Chomping :=
  c.peek?.bind Chomping.ofSign?

/-- The digit that is written at a place if there is one, and the place behind
    it. No block is indented by zero. -/
def indentation? (c : Cursor) : Option (Option Nat × Cursor) :=
  match c.peek? with
  | none => some (none, c)
  | some d =>
    if d = '0' then none
    else if d.isDigit then some (some (d.toNat - 48), c.advance 1)
    else some (none, c)

/-- The head of a block: how its last line ends count, and by how much it is
    indented if that is given, in any order. -/
def blockHead? (c : Cursor) : Option (Chomping × Option Nat × Cursor) :=
  match chomping? c with
  | some chomping => (indentation? (c.advance 1)).map fun (given, behind) => (chomping, given, behind)
  | none => (indentation? c).map fun (given, behind) =>
    match chomping? behind with
    | some chomping => (chomping, given, behind.advance 1)
    | none => (.clip, given, behind)

/-- Skips the blank lines in front of a line of a block and the indentation of
    that line, of which only `indent` spaces count if it is known. A tab in place
    of indentation is refused. Answers with the line ends, the greatest
    indentation and the place that is reached. -/
def blankLines? (indent : Option Nat) (widest line column : Nat) :
    List Char → Option (List Char × Nat × Cursor)
  | [] => some ([], max widest column, ⟨[], line, column⟩)
  | c :: r =>
    let indenting := (indent.map fun n => decide (column < n)).getD true
    if c = ' ' ∧ indenting then blankLines? indent widest line (column + 1) r
    else if c = '\t' ∧ indenting then none
    else if isBreak c then
      (blankLines? indent (max widest column) (line + 1) 0 r).map
        fun (breaks, most, stop) => (c :: breaks, most, stop)
    else some ([], max widest column, ⟨c :: r, line, column⟩)

/-- What the line end `lead` and the blank lines `blank` behind it stand for
    between two lines of a block. A folded block joins lines that start with no
    space; `spaced` tells whether one of the two does. -/
def joint (folded spaced : Bool) (lead blank : List Char) : List Char :=
  if folded ∧ ¬ spaced ∧ lead = ['\n'] then foldBreaks (lead ++ blank) else lead ++ blank

/-- Reads the lines of a block that is indented by `indent`, from behind the
    indentation of a line that the line end `lead` and the blank lines `blank` lie
    in front of. `spaced` tells whether the line before starts with a space.
    Answers with the text, its last line end, the blank lines behind it and the
    place that is reached. -/
def blockLines? (fuel : Nat) (folded : Bool) (indent : Nat) (lead blank : List Char)
    (spaced : Bool) (c : Cursor) : Option (List Char × List Char × List Char × Cursor) :=
  match fuel with
  | 0 => none
  | fuel + 1 => do
    if c.column ≠ indent ∨ c.rest.isEmpty then return ([], lead, blank, c)
    let opens := (c.peek?.map isSpace).getD false
    let line := c.rest.takeWhile fun d => ¬ isBreak d
    let behind := c.advance line.length
    let start := if behind.rest.isEmpty then behind else behind.nextLine
    let (breaks, _, next) ← blankLines? (some indent) 0 start.line start.column start.rest
    let (more, ends) ← blockLines? fuel folded indent (behind.rest.take 1) breaks opens next
    return (joint folded (spaced || opens) lead blank ++ line ++ more, ends)

/-- Reads the block that a head behind `|` or `>` opens. An indentation that is
    given counts from the column of the node that holds the block; otherwise the
    first line that is not blank tells it. -/
def block? (folded : Bool) (least : Nat) (c : Cursor) : Option (List Char × Cursor) := do
  let (chomping, given, behind) ← blockHead? c
  let start ← behind.endLine?
  let known := given.map fun n => least - 1 + n
  let (breaks, widest, first) ← blankLines? known 0 start.line start.column start.rest
  let indent := known.getD (max widest (max least 1))
  let (text, lead, blank, stop) ←
    blockLines? (first.rest.length + 1) folded indent [] breaks false first
  let ends := match chomping with
    | .strip => []
    | .clip => lead
    | .keep => lead ++ blank
  return (text ++ ends, stop)

end ConvexLang.Yaml
