import ConvexLang.Registry
import ConvexLang.Yaml.Document

/-!
# Settings

What an analyzer is built from: the way it reads statements, whether its records
are indented, and the atoms it knows besides the standard ones. Settings are
written as a YAML mapping in which every entry may be left out.

The reading is strict where a slip would go unnoticed: an unknown or repeated
entry is refused, truth values are the words `true` and `false` alone, and a text
in quotes is neither a number nor a truth value. Unknown entries of an atom are
passed over.
-/

namespace ConvexLang

/-- How an analyzer reads statements. -/
inductive Mode where
  /-- By the grammar, or by the scanner if the added atoms do not fit. -/
  | auto
  /-- By the grammar. -/
  | grammar
  /-- By the scanner. -/
  | fallback
  deriving DecidableEq, Repr

namespace Mode

/-- All modes. -/
def all : List Mode :=
  [auto, grammar, fallback]

/-- The word for a mode. -/
def label : Mode → String
  | auto => "auto"
  | grammar => "grammar"
  | fallback => "fallback"

/-- The mode a word names; capitals count. -/
def ofLabel? (word : String) : Option Mode :=
  all.find? fun m => m.label = word

end Mode

/-- What an analyzer is built from. -/
structure Settings where
  /-- How statements are read. -/
  mode : Mode := .auto
  /-- Whether records are indented. -/
  pretty : Bool := false
  /-- The atoms known besides the standard ones. -/
  extraAtoms : List Atom := []
  deriving DecidableEq, Repr

namespace Settings

/-! ## Entries -/

/-- The text of a scalar, however it is written. -/
def text? (d : Yaml.Document) (node : Yaml) : Option String :=
  match d.follow node with
  | .scalar _ _ text => some text
  | _ => none

/-- The entries of a mapping, whose keys have to be texts; a plain text with no
    characters has none. -/
def entries? (d : Yaml.Document) (node : Yaml) : Option (List (String × Yaml)) :=
  match d.follow node with
  | .mapping _ entries => entries.mapM fun (key, value) => (text? d key).map fun t => (t, value)
  | .scalar _ .plain "" => some []
  | _ => none

/-- The items of a sequence; a plain text with no characters has none. -/
def items? (d : Yaml.Document) (node : Yaml) : Option (List Yaml) :=
  match d.follow node with
  | .sequence _ items => some items
  | .scalar _ .plain "" => some []
  | _ => none

/-- The value of the entry with this name, if there is one; fails if there are
    several. -/
def entry? (name : String) (entries : List (String × Yaml)) : Option (Option Yaml) :=
  match entries.filter fun e => e.1 = name with
  | [] => some none
  | [e] => some (some e.2)
  | _ => none

/-! ## Scalars -/

/-- Whether a plain text stands for nothing. -/
def isNull (text : String) : Bool :=
  ["~", "null", "Null", "NULL"].contains text

/-- Whether a scalar may be of a kind that is no text: a plain one, or a block of
    lines that its tag says to be of this kind. -/
def mayBe (kind : String) (p : Yaml.Properties) (style : Yaml.Style) : Bool :=
  style = .plain || (style = .literal && p.tag = some (Yaml.coreTag kind))

/-- A truth value. -/
def truth? (d : Yaml.Document) (node : Yaml) : Option Bool :=
  match d.follow node with
  | .scalar p style text =>
    if ¬ mayBe "bool" p style then none
    else if ["true", "True", "TRUE"].contains text then some true
    else if ["false", "False", "FALSE"].contains text then some false
    else none
  | _ => none

/-- The word that a tag of one's own stands for: what follows its exclamation mark,
    or the mark if nothing does. -/
def tagWord? (p : Yaml.Properties) : Option String :=
  match p.tag.map String.toList with
  | some ['!'] => some "!"
  | some ('!' :: cs) => some (String.ofList cs)
  | _ => none

/-- A word out of a closed set. The word may also stand as a tag in front of
    nothing. -/
def word? {α : Type} (ofLabel? : String → Option α) (d : Yaml.Document) (node : Yaml) : Option α :=
  match d.follow node with
  | .scalar p style text =>
    match tagWord? p with
    | some word =>
      if style = .plain ∧ (text = "" ∨ isNull text) then ofLabel? word else none
    | none => ofLabel? text
  | _ => none

/-- The digits of a numeral and the base they are in. A zero in front of further
    digits makes a text of them. -/
def numeralBase? (cs : List Char) : Option (Nat × List Char) :=
  match cs with
  | '0' :: 'x' :: r => some (16, r)
  | '0' :: 'o' :: r => some (8, r)
  | '0' :: 'b' :: r => some (2, r)
  | '0' :: _ :: _ => none
  | r => some (10, r)

/-- The greatest number of arguments that can be asked for, which fills 64 bits. -/
def maxCount : Nat :=
  18446744073709551615

/-- A count: digits, or digits in base 16, 8 or 2 behind `0x`, `0o` or `0b`,
    perhaps with a plus sign in front. -/
def count? (text : String) : Option Nat := do
  let cs := text.toList
  let unsigned := if cs.head? = some '+' then cs.drop 1 else cs
  let (base, ds) ← numeralBase? unsigned
  let n ← Yaml.valueIn? base ds
  if n ≤ maxCount then some n else none

/-- A count, or nothing. A tag in front of a plain text says whether it is nothing;
    without one the text tells. -/
def arity? (d : Yaml.Document) (node : Yaml) : Option (Option Nat) :=
  match d.follow node with
  | .scalar p style text =>
    if style = .plain ∧ p.tag = some (Yaml.coreTag "null") then
      if isNull text then some none else none
    else if style = .plain ∧ p.tag = none ∧ (text = "" ∨ isNull text) then some none
    else if mayBe "int" p style then (count? text).map some
    else none
  | _ => none

/-! ## Records -/

/-- The names of the entries of an atom that count. -/
def atomEntryNames : List String :=
  ["name", "curvature", "sign", "arity"]

/-- An atom. -/
def atom? (d : Yaml.Document) (node : Yaml) : Option Atom := do
  let entries ← entries? d node
  let name ← text? d (← ← entry? "name" entries)
  let curvature ← word? Curvature.ofLabel? d (← ← entry? "curvature" entries)
  let sign ← word? Sign.ofLabel? d (← ← entry? "sign" entries)
  let arity ← arity? d ((← entry? "arity" entries).getD .nothing)
  return { name, curvature, sign, arity }

/-- The names of the entries of settings. -/
def entryNames : List String :=
  ["mode", "pretty", "extra_atoms"]

/-- Settings. An entry that is left out has its default. -/
def ofDocument? (d : Yaml.Document) : Option Settings := do
  let entries ← entries? d d.root
  if entries.any fun e => ¬ entryNames.contains e.1 then none
  let mode ← (← entry? "mode" entries).elim (some Mode.auto) (word? Mode.ofLabel? d)
  let pretty ← (← entry? "pretty" entries).elim (some false) (truth? d)
  let extraAtoms ←
    ((← entry? "extra_atoms" entries).elim (some []) (items? d)).bind (·.mapM (atom? d))
  return { mode, pretty, extraAtoms }

/-! ## References -/

/-- How many references stand in the keys of a record and in those of its values
    that have one of the names. -/
def recordReferences (d : Yaml.Document) (names : List String) (node : Yaml) : Nat :=
  match d.follow node with
  | .mapping _ entries =>
    (entries.map fun (key, value) => key.isReference.toNat +
      if names.contains ((text? d key).getD "") then value.isReference.toNat else 0).foldl (· + ·) 0
  | _ => 0

/-- How many references reading the settings follows. One is counted each time that
    it is come to, in each of the atoms that are written only once. -/
def references (d : Yaml.Document) : Nat :=
  let atoms := do
    let entries ← entries? d d.root
    items? d (← ← entry? "extra_atoms" entries)
  (atoms.getD []).foldl
    (fun n atom => n + atom.isReference.toNat + recordReferences d atomEntryNames atom)
    (recordReferences d entryNames d.root)

/-- Whether a document is read at all: following references must not make much more
    of it than what is written. -/
def isBounded (d : Yaml.Document) : Bool :=
  references d ≤ 100 * d.length

/-- Reads settings from the text of a document. -/
def ofText (text : String) : Except Diagnostic Settings :=
  match ((Yaml.Document.ofText? text).filter isBounded).bind ofDocument? with
  | some s => .ok s
  | none => .error (.ofSetup .invalidDocument)

/-- Reads settings from a file with the given path, whose text is `content?` if
    it can be read. -/
def load (path : String) (content? : Option String) : Except Diagnostic Settings :=
  match content? with
  | none => .error (.ofSetup (.unreadableFile path))
  | some text =>
    match ofText text with
    | .ok s => .ok s
    | .error d => .error (d.withHelp ("while loading '" ++ path ++ "'"))

end Settings

end ConvexLang
