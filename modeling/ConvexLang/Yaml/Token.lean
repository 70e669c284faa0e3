import ConvexLang.Yaml

/-!
# YAML tokens

What a document is written with, once spaces, line ends and indentation are
understood. The tokens `sequenceStart`, `mappingStart` and `levelEnd` are written
by indentation alone, and so is a `key` without a question mark, which the colon
behind it tells.
-/

namespace ConvexLang.Yaml

/-- A token of a document. -/
inductive Token where
  /-- The line that names the version of YAML. -/
  | version (major minor : Nat)
  /-- The line that says what a family of tags begins with; nothing if that is no
      text. -/
  | family (handle : String) (stem : Option String)
  /-- The marker in front of a document. -/
  | documentStart
  /-- The marker behind a document. -/
  | documentEnd
  /-- The start of a sequence of lines. -/
  | sequenceStart
  /-- The start of a mapping of lines. -/
  | mappingStart
  /-- The end of a sequence or a mapping of lines. -/
  | levelEnd
  /-- The bracket in front of a sequence. -/
  | openSequence
  /-- The bracket behind a sequence. -/
  | closeSequence
  /-- The brace in front of a mapping. -/
  | openMapping
  /-- The brace behind a mapping. -/
  | closeMapping
  /-- The comma between the parts of what stands in brackets. -/
  | separator
  /-- The dash in front of an item. -/
  | entry
  /-- The place in front of a key. -/
  | key
  /-- The colon in front of a value. -/
  | value
  /-- A name that stands for an anchored node. -/
  | reference (name : String)
  /-- A name given to a node. -/
  | anchor (name : String)
  /-- A tag, of the family with a handle unless that is empty; nothing if it is no
      text. -/
  | tag (handle : String) (suffix : Option String)
  /-- A scalar. -/
  | scalar (style : Style) (text : String)
  deriving DecidableEq, Repr

end ConvexLang.Yaml
