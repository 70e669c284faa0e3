import ConvexLang.Yaml.Layout

/-!
# Reading YAML

The tokens of a text are put together to the tree of its only document
(`Document.ofText?`). A text with several documents is refused, and one without
any is a document where nothing is written.

Each node starts with its anchor and its tag and goes on with a scalar or with
the sign of a sequence or a mapping. An anchor gets the number of names known so
far. That is a new number unless the name was used before: then the next new name
has the same number, and of the nodes that share it the last is meant.
-/

namespace ConvexLang.Yaml

/-- What is left to put together. -/
structure Supply where
  /-- The tokens that remain. -/
  tokens : List Token
  /-- The names that nodes were given, each with its latest anchor. -/
  names : List (String × Nat) := []
  /-- What the families of tags begin with. -/
  families : List (String × Option String) := []

/-- A part of a document that is put together from the front of a supply. -/
abbrev Assembly (α : Type) := StateT Supply Option α

namespace Assembly

/-! ## Tokens -/

/-- The next token. -/
def peek : Assembly (Option Token) := do
  return (← get).tokens.head?

/-- Passes over a token. -/
def skip : Assembly Unit :=
  modify fun s => { s with tokens := s.tokens.drop 1 }

/-- Whether the next token is one of a few. -/
def isNext (tokens : List Token) : Assembly Bool := do
  return (← peek).any tokens.contains

/-- Passes over a token if it is next, and tells whether it was. -/
def taken (token : Token) : Assembly Bool := do
  let found ← isNext [token]
  if found then skip
  return found

/-! ## What stands in front of a node -/

/-- Gives a name its anchor. -/
def anchorOf (name : String) : Assembly Nat := do
  let s ← get
  let anchor := s.names.length
  set { s with names := (name, anchor) :: s.names.filter (·.1 ≠ name) }
  return anchor

/-- The tag with a handle and a suffix; empty if it is no text. The family has to
    be known. -/
def tagOf (handle : String) (suffix : Option String) : Assembly String := do
  if handle.isEmpty then return suffix.getD ""
  let stem ← ((← get).families.lookup handle : Option (Option String))
  return (stem.bind fun stem => suffix.map (stem ++ ·)).getD ""

/-- Reads an anchor if there is one. -/
def anchor? : Assembly (Option Nat) := do
  match ← peek with
  | some (.anchor name) =>
    skip
    return some (← anchorOf name)
  | _ => return none

/-- Reads a tag if there is one. -/
def tag? : Assembly (Option String) := do
  match ← peek with
  | some (.tag handle suffix) =>
    skip
    return some (← tagOf handle suffix)
  | _ => return none

/-- Reads an anchor and a tag, in any order. -/
def properties : Assembly Properties := do
  match ← anchor? with
  | some anchor => return { anchor, tag := ← tag? }
  | none =>
    let tag ← tag?
    return { anchor := ← anchor?, tag }

/-- The node where nothing but an anchor or a tag is written. -/
def bare (p : Properties) : Assembly Yaml :=
  if p = {} then failure else return .scalar p .plain ""

/-! ## Nodes -/

mutual

/-- Reads a node. Levels may open in it only where `lines`, and the dashes of a
    sequence may stand there without a level of their own only where `loose`. -/
def node (fuel : Nat) (lines loose : Bool) : Assembly Yaml :=
  match fuel with
  | 0 => failure
  | fuel + 1 => do
    if let some (.reference name) ← peek then
      skip
      return .reference (← ((← get).names.lookup name : Option Nat))
    let p ← properties
    match ← peek, lines, loose with
    | some .entry, _, true => return .sequence p (← looseItems fuel)
    | some (.scalar style text), _, _ =>
      skip
      return .scalar p style text
    | some .openSequence, _, _ =>
      skip
      return .sequence p (← bracketItems fuel true)
    | some .openMapping, _, _ =>
      skip
      return .mapping p (← bracketEntries fuel true)
    | some .sequenceStart, true, _ =>
      skip
      return .sequence p (← lineItems fuel)
    | some .mappingStart, true, _ =>
      skip
      return .mapping p (← lineEntries fuel)
    | _, _, _ => bare p

/-- Reads a node, or nothing in front of one of the tokens `ends`. -/
def nodeUnless (fuel : Nat) (lines loose : Bool) (ends : List Token) : Assembly Yaml :=
  match fuel with
  | 0 => failure
  | fuel + 1 => do
    if ← isNext ends then return nothing
    node fuel lines loose

/-- Reads the items of a sequence of lines, up to the end of its level. -/
def lineItems (fuel : Nat) : Assembly (List Yaml) :=
  match fuel with
  | 0 => failure
  | fuel + 1 => do
    if ← taken .levelEnd then return []
    if ¬ (← taken .entry) then failure
    let item ← nodeUnless fuel true false [.entry, .levelEnd]
    return item :: (← lineItems fuel)

/-- Reads the items of a sequence without a level of its own. -/
def looseItems (fuel : Nat) : Assembly (List Yaml) :=
  match fuel with
  | 0 => failure
  | fuel + 1 => do
    if ¬ (← taken .entry) then return []
    let item ← nodeUnless fuel true false [.entry, .key, .value, .levelEnd]
    return item :: (← looseItems fuel)

/-- Reads the entries of a mapping of lines, up to the end of its level. -/
def lineEntries (fuel : Nat) : Assembly (List (Yaml × Yaml)) :=
  match fuel with
  | 0 => failure
  | fuel + 1 => do
    if ← taken .levelEnd then return []
    if ¬ (← taken .key) then failure
    let ends := [.key, .value, .levelEnd]
    let key ← nodeUnless fuel true true ends
    let value ← if ← taken .value then nodeUnless fuel true true ends else pure nothing
    return (key, value) :: (← lineEntries fuel)

/-- Reads the items of a sequence in brackets, up to the closing one. A comma
    stands in front of every item but the `first`, and may stand behind the last.
    An item with a key is a mapping of one entry. -/
def bracketItems (fuel : Nat) (first : Bool) : Assembly (List Yaml) :=
  match fuel with
  | 0 => failure
  | fuel + 1 => do
    if ← taken .closeSequence then return []
    if ¬ first then
      if ¬ (← taken .separator) then failure
    if ← taken .closeSequence then return []
    let item ← if ← taken .key then itemEntry fuel else node fuel false false
    return item :: (← bracketItems fuel false)

/-- Reads the only entry of an item in brackets. Where its key is left out, the
    token behind that place is passed over. -/
def itemEntry (fuel : Nat) : Assembly Yaml :=
  match fuel with
  | 0 => failure
  | fuel + 1 => do
    let ends := [.separator, .closeSequence]
    let empty ← isNext (.value :: ends)
    let key ← nodeUnless fuel false false (.value :: ends)
    if empty then skip
    let value ← if ← taken .value then nodeUnless fuel false false ends else pure nothing
    return .mapping {} [(key, value)]

/-- Reads the entries of a mapping in braces, up to the closing one. Commas stand
    as in `bracketItems`. A node that is no key has no value. -/
def bracketEntries (fuel : Nat) (first : Bool) : Assembly (List (Yaml × Yaml)) :=
  match fuel with
  | 0 => failure
  | fuel + 1 => do
    if ← taken .closeMapping then return []
    if ¬ first then
      if ¬ (← taken .separator) then failure
    if ← taken .closeMapping then return []
    let ends := [.separator, .closeMapping]
    let entry ←
      if ← taken .key then do
        let key ← nodeUnless fuel false false (.value :: ends)
        let value ← if ← taken .value then nodeUnless fuel false false ends else pure nothing
        pure (key, value)
      else do
        let key ← node fuel false false
        pure (key, nothing)
    return entry :: (← bracketEntries fuel false)

end

/-! ## Documents -/

/-- Whether a token can be no part of the tree of a document. -/
def isOutside : Token → Bool
  | .version _ _ | .family _ _ | .documentStart | .documentEnd => true
  | _ => false

/-- Reads the tree behind the marker of a document; nothing may be written. -/
def marked (fuel : Nat) : Assembly Yaml := do
  match ← peek with
  | none => return nothing
  | some token => if isOutside token then return nothing else node fuel true false

end Assembly

/-- The families of tags that need not be declared. -/
def standardFamilies : List (String × Option String) :=
  [("!", some "!"), ("!!", some (coreTag ""))]

/-- Reads the lines in front of a document: the version of YAML, of which two are
    known, and families of tags, each at most once. -/
def directives? (versioned : Bool) (families : List (String × Option String)) :
    List Token → Option (List (String × Option String) × List Token)
  | .version major minor :: r =>
    if versioned ∨ major ≠ 1 ∨ (minor ≠ 1 ∧ minor ≠ 2) then none
    else directives? true families r
  | .family handle stem :: r =>
    if families.any (·.1 = handle) then none
    else directives? versioned ((handle, stem) :: families) r
  | r => some (families, r)

/-- The tree of the only document that tokens write. -/
def ofTokens? (tokens : List Token) : Option Yaml := do
  let (families, rest) ← directives? false [] tokens
  let fuel := 3 * tokens.length + 3
  let supply (tokens : List Token) : Supply :=
    { tokens, families := families ++ standardFamilies }
  let (root, behind) ←
    match rest with
    | .documentStart :: r => (Assembly.marked fuel).run (supply r)
    | _ =>
      if rest.length < tokens.length then none
      else if tokens.isEmpty then some (nothing, supply [])
      else (Assembly.node fuel true false).run (supply tokens)
  if behind.tokens.all (· = .documentEnd) then return root
  none

example : ofTokens? [.openSequence, .anchor "x", .scalar .plain "a", .separator, .reference "x",
    .closeSequence] = some (.sequence {} [.scalar { anchor := some 0 } .plain "a", .reference 0]) :=
  rfl

/-- The only document in a text. -/
def Document.ofText? (text : String) : Option Document := do
  let root ← ofTokens? (← Layout.tokens? text.toList)
  return { root }

end ConvexLang.Yaml
