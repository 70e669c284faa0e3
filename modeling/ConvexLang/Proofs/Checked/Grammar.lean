import ConvexLang.Line
import ConvexLang.Proofs.Checked.Lexer

/-!
# The grammar by positions

The readers of the grammar, reading the tokens of a line in place. A reader knows the tokens,
the position it has come to and how deep it is nested (`Cursor`). It asks for a token by its
position, counts a level when it goes in and takes it back when it comes out, and tells where
it fails by a position as well. All that can go wrong there is checked: that there is a token
where one is asked for (`bump`, `tokenAt`), that tokens can be cut off where they are
(`drop?`), that a reader comes out as deep as it went in (`nested`), and that each round of a
loop goes on in the line.
-/

namespace ConvexLang.Checked

open Grammar (maxNesting)

/-- Where a reading of tokens has come to. -/
structure Cursor where
  /-- The position of the next token. -/
  pos : Nat
  /-- How many levels it is nested. -/
  depth : Nat

/-- Why a reading of tokens failed. -/
inductive Failure where
  /-- The token at the position does not fit. An enclosing call may still take the blame. -/
  | grammar (pos : Nat)
  /-- The problem is settled. -/
  | fatal (problem : Problem) (span : Span)

/-- A reader of tokens by the position it has come to. -/
abbrev Parsing (α : Type) : Type :=
  Checked Cursor Failure α

/-- What remains behind the first `n` of a list, if there are so many. -/
def drop? {α : Type} (n : Nat) (as : List α) : Option (List α) :=
  if n ≤ as.length then some (as.drop n) else none

section Tokens

variable {α : Type} (tokens : List Token)

/-! ## Steps -/

/-- How many tokens remain. -/
def tokensLeft (c : Cursor) : Nat :=
  tokens.length - c.pos

/-- The kind of the token `offset` places behind the next one, if there is one. -/
def peekAt (offset : Nat) : Parsing (Option TokenKind) := do
  let c ← state
  return tokens[c.pos + offset]?.map Token.kind

/-- The kind of the next token, if there is one. -/
def peekKind : Parsing (Option TokenKind) :=
  peekAt tokens 0

/-- The token at a position. -/
def tokenAt (pos : Nat) : Parsing Token :=
  check tokens[pos]?

/-- Takes the next token. -/
def bump : Parsing Token := do
  let c ← state
  let t ← tokenAt tokens c.pos
  goTo { c with pos := c.pos + 1 }
  return t

/-- The next token does not fit. -/
def refuse : Parsing α := do
  let c ← state
  fail (.grammar c.pos)

/-- Takes the next token, which must be of this kind. -/
def expect (k : TokenKind) : Parsing Token := do
  let next? ← peekKind tokens
  if next? = some k then bump tokens else refuse

/-- Reads one level deeper, and comes back from there. -/
def nested (read : Parsing α) : Parsing α where
  run c :=
    if maxNesting ≤ c.depth then refuse.run c
    else
      match read.run { c with depth := c.depth + 1 } with
      | none => none
      | some (result, c') =>
        -- one level less must be as deep as it was before
        if c'.depth = c.depth + 1 then some (result, { c' with depth := c'.depth - 1 }) else none

/-- The span from the token at `start` to the last one that was taken. -/
def spanFrom (start : Nat) : Parsing Span := do
  let c ← state
  let first ← tokenAt tokens start
  let last ← tokenAt tokens (max (c.pos - 1) start)
  return first.span.cover last.span

/-- Goes on if a token did not fit. -/
def recover (read : Parsing α) (handler : Nat → Parsing α) : Parsing α where
  run c :=
    match read.run c with
    | some (.error (.grammar pos), c') => (handler pos).run c'
    | result => result

/-! ## Sums and products -/

/-- Joins one more operand to what was read, if an operator follows. -/
def joinOne (operator? : TokenKind → Option String) (operand : Parsing Expr) (left : Expr) :
    Parsing (ForInStep Expr) := do
  let next? ← peekKind tokens
  match next?.bind operator? with
  | some name =>
    let _ ← bump tokens
    let right ← operand
    return .yield (.operator name [left, right])
  | none => return .done left

/-- Reads operands with operators between them. -/
def joined (operator? : TokenKind → Option String) (operand : Parsing Expr) : Parsing Expr := do
  let left ← operand
  loop (tokensLeft tokens) (joinOne tokens operator? operand) left

/-- Reads a product of signed operands. -/
def multiplicative (unary : Parsing Expr) : Parsing Expr :=
  joined tokens Grammar.multiplicative? unary

/-- Reads a sum of products of signed operands. -/
def additive (unary : Parsing Expr) : Parsing Expr :=
  joined tokens Grammar.additive? (multiplicative tokens unary)

/-! ## Calls -/

/-- Reads what fills an argument slot. -/
def slot (argument : Parsing Expr) : Parsing Operand := do
  match ← peekKind tokens with
  | some .comma => return .absent
  | some .rightParen => return .absent
  | some .infinity =>
    let _ ← bump tokens
    return .word "Inf"
  | _ =>
    let e ← argument
    return .expr e

/-- Reads one more slot and what ends it. -/
def oneSlot (argument : Parsing Expr) (args : List Operand) :
    Parsing (ForInStep (List Operand)) := do
  let arg ← slot tokens argument
  match ← peekKind tokens with
  | some .comma =>
    let _ ← bump tokens
    return .yield (args ++ [arg])
  | some .rightParen =>
    let _ ← bump tokens
    return .done (args ++ [arg])
  | _ => refuse

/-- Reads the slots of a call and the parenthesis that closes it, behind the slots that were
    read. -/
def arguments (argument : Parsing Expr) : List Operand → Parsing (List Operand) :=
  loop (tokensLeft tokens) (oneSlot tokens argument)

/-- Tells who is to blame for a token in the slots of a call that does not fit. The call
    begins at `start`. -/
def blame {α : Type} (name : String) (start pos : Nat) : Parsing α := do
  let behind ← check (drop? pos tokens)
  if behind.any fun t => t.kind = .rightParen then
    let first ← tokenAt tokens start
    let last ← tokenAt tokens (tokens.length - 1)
    fail (.fatal (.grammatical (.malformedCall name)) (first.span.cover last.span))
  else fail (.grammar pos)

variable (scope : Scope)

/-- Reads a call, given the reader of the signed operands in it. -/
def call (unary : Parsing Expr) (name : String) : Parsing Expr := do
  let c ← state
  let _ ← bump tokens
  let _ ← bump tokens
  let args ← recover (arguments tokens (additive tokens unary) []) (blame tokens name c.pos)
  let span ← spanFrom tokens c.pos
  match scope.atoms.get? name with
  | none =>
    let first ← tokenAt tokens c.pos
    fail (.fatal (.semantic (.unknownFunction name)) first.span)
  | some profile =>
    if profile.accepts args.length then
      return .compound name profile.sign profile.curvature args false
    else
      fail (.fatal (.semantic (.arityMismatch name (profile.arity.getD 0) args.length)) span)

/-! ## Signed operands -/

/-- Reads a literal, a symbol, a call or a sum in parentheses. -/
def primary (unary : Parsing Expr) : Parsing Expr := do
  match ← peekKind tokens with
  | some (.integer n) =>
    let _ ← bump tokens
    return .ofNumber (.whole n)
  | some (.real x) =>
    let _ ← bump tokens
    return .ofNumber (.real x)
  | some (.identifier name) =>
    let second? ← peekAt tokens 1
    if second? = some .leftParen then nested (call tokens scope unary name)
    else
      let t ← bump tokens
      match scope.symbols.node? name with
      | some e => return e
      | none => fail (.fatal (.semantic (.unknownSymbol name)) t.span)
  | some .leftParen =>
    let _ ← bump tokens
    let inner ← additive tokens unary
    let _ ← expect tokens .rightParen
    return inner.inParens
  | _ => refuse

/-- Reads a sign with an operand behind it, or an operand without a sign. -/
def prefixed (unary : Parsing Expr) : Parsing Expr := do
  match ← peekKind tokens with
  | some .plus =>
    let _ ← bump tokens
    unary
  | some .minus =>
    let _ ← bump tokens
    let operand ← unary
    return .operator "-" [operand]
  | _ => primary tokens scope unary

/-- Reads a signed operand. There are `turns` left for those within it; that there are
    enough is checked. -/
def unary : Nat → Parsing Expr
  | 0 => check none
  | turns + 1 => nested (prefixed tokens scope (unary turns))

/-! ## Lines -/

/-- The relation that a kind is. -/
def relation? : TokenKind → Option Relation
  | .relation r => some r
  | _ => none

/-- A statement, behind which nothing may follow. -/
def complete (s : Statement) : Parsing Statement := do
  let c ← state
  if c.pos < tokens.length then
    let first ← tokenAt tokens c.pos
    let last ← tokenAt tokens (tokens.length - 1)
    fail (.fatal (.grammatical (.trailingInput s.text)) (first.span.cover last.span))
  else return s

/-- Reads a whole line as one expression or one constraint. -/
def statement (unary : Parsing Expr) : Parsing Statement := do
  let left ← additive tokens unary
  let next? ← peekKind tokens
  match next?.bind relation? with
  | some r =>
    let _ ← bump tokens
    let right ← additive tokens unary
    let next? ← peekKind tokens
    match next?.bind relation? with
    | some _ =>
      let c ← state
      let t ← tokenAt tokens c.pos
      fail (.fatal (.grammatical .chainedConstraint) t.span)
    | none => complete tokens (.constraint r left right)
  | none => complete tokens (.expr left)

/-! ## Declarations -/

/-- What is left of `m` when `n` is taken away, which must not be more. -/
def minus? (m n : Nat) : Option Nat :=
  if n ≤ m then some (m - n) else none

/-- Reads names up to the end of `rest`, the end of the line, of which `offset` tokens were
    read. -/
def names (rest : List Token) : Nat → List Token → Parsing (List String)
  | _, [] => return []
  | offset, t :: ts =>
    match t.kind with
    | .identifier name => do
      let ns ← names rest (offset + 1) ts
      return name :: ns
    | _ => do
      let skipped ← check (minus? tokens.length rest.length)
      fail (.grammar (skipped + offset))

/-- The sign in front of the declared names, and what is behind it. -/
def declaredSign (rest : List Token) : Parsing (Sign × List Token) :=
  match rest.head?.map Token.kind with
  | some (.sign s) => do
    let rest ← check (drop? 1 rest)
    return (s, rest)
  | _ => return (.unknown, rest)

/-- Reads a line as a declaration. -/
def declaration (role : Role) : Parsing (Declared × List String) := do
  let rest ← check (drop? 1 tokens)
  let (sign, rest) ← declaredSign rest
  let ns ← names tokens rest 0 rest
  if ns = [] then fail (.grammar tokens.length) else return (⟨role, sign⟩, ns)

/-- Reads the tokens of a line. A signed operand may take one turn more than there are
    levels, for it is refused before it goes too deep. -/
def line : Parsing Line :=
  match tokens.head?.map Token.kind with
  | none => return .empty
  | some (.declare role) => do
    let (declared, ns) ← declaration tokens role
    return .declaration declared ns
  | some _ => do
    let s ← statement tokens (unary tokens scope (maxNesting + 1))
    return .statement s

end Tokens

/-! ## Diagnostics -/

/-- The span of the token at a position, or of the end of the line. -/
def spanAt (tokens : List Token) (pos size : Nat) : Span :=
  (tokens[pos]?.map Token.span).getD ⟨size, size⟩

/-- The diagnostic for a line whose reading failed. -/
def Failure.toDiagnostic (line : String) (tokens : List Token) : Failure → Diagnostic
  | .grammar pos =>
    .atSpan (.grammatical (.invalidExpression line)) (spanAt tokens pos line.utf8ByteSize)
  | .fatal problem span => .atSpan problem span

/-- Reads one line by positions. There is no result if a check fails. -/
def readLine (scope : Scope) (text : String) : Option (Except Diagnostic Line) :=
  match tokenize text with
  | none => none
  | some (.error e) => some (.error e.toDiagnostic)
  | some (.ok tokens) =>
    ((line tokens scope).run ⟨0, 0⟩).map fun result =>
      result.1.mapError (Failure.toDiagnostic text tokens)

end ConvexLang.Checked
