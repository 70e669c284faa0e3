import ConvexLang.Registry
import ConvexLang.Statement
import ConvexLang.Symbols

/-!
# Grammar

The kinds of the tokens of a line become a declaration or an annotated
statement. From the loosest to the tightest:

* a statement is a sum, or two sums with one relation between them;
* a sum is products joined by `+` and `-`, from the left;
* a product is signed operands joined by `*` and `/`, from the left;
* a signed operand is any number of `+` and `-` in front of a literal, a symbol,
  a call or a sum in parentheses.

Operators leave sign and curvature unknown, calls take them from the registry.
The slots of a call are parted by commas; each holds a sum, the word `Inf` or
nothing.

A reader takes a list of kinds and answers with a value and the kinds behind it,
which are fewer (`Parsed.shorter`); the loops end because of that. Nesting is
another matter: it is bounded by a budget of `maxNesting` levels, on which the
signed operands recur. Each sign and each pair of parentheses takes one level
and each call two. What lies deeper is refused like an unexpected token.

Places are told by counting the tokens that remain, so a reader never needs to
know what came before it.
-/

namespace ConvexLang

/-- What the names in a line may refer to. -/
structure Scope where
  /-- The declared symbols. -/
  symbols : Symbols
  /-- The known atoms. -/
  atoms : Registry

/-- A run of tokens of a line, told by the tokens that remain. -/
structure Site where
  /-- How many tokens remain in front of the run's first one. -/
  opening : Nat
  /-- How many tokens remain behind the run's last one. -/
  closing : Nat
  deriving DecidableEq, Repr

namespace Grammar

/-- Why a reader stopped. -/
inductive Stop where
  /-- The first of the remaining tokens, or the end of the line, does not fit.
      An enclosing call may still take the blame. -/
  | unexpected (rest : List TokenKind)
  /-- The problem is settled. -/
  | settled (problem : Problem) (site : Site)

/-- A value and what remains behind it, fewer than `bound` tokens. -/
structure Parsed (α : Type) (bound : Nat) where
  /-- What was read. -/
  value : α
  /-- What remains. -/
  rest : List TokenKind
  /-- Less remains than there was. -/
  shorter : rest.length < bound

/-- A reader of values of `α`. -/
abbrev Reader (α : Type) :=
  (input : List TokenKind) → Except Stop (Parsed α input.length)

namespace Parsed

variable {α β : Type} {m n : Nat}

/-- The same with a looser bound. -/
def weaken (p : Parsed α m) (h : m ≤ n) : Parsed α n :=
  ⟨p.value, p.rest, Nat.lt_of_lt_of_le p.shorter h⟩

/-- The same with another value. -/
def withValue (p : Parsed α n) (b : β) : Parsed β n :=
  ⟨b, p.rest, p.shorter⟩

theorem length_succ_lt (p : Parsed α n) {k : TokenKind} {after : List TokenKind}
    (h : p.rest = k :: after) : after.length + 1 < n := by
  have hlt := p.shorter
  rwa [h] at hlt

end Parsed

/-! ## Sums and products -/

/-- The operators that join products. -/
def additive? : TokenKind → Option String
  | .plus => some "+"
  | .minus => some "-"
  | _ => none

/-- The operators that join signed operands. -/
def multiplicative? : TokenKind → Option String
  | .star => some "*"
  | .slash => some "/"
  | _ => none

/-- Goes on from a left operand as long as an operator follows; each operator
    joins all that was read before it with one more operand. -/
def chain {bound : Nat} (operator? : TokenKind → Option String) (operand : Reader Expr)
    (left : Parsed Expr bound) : Except Stop (Parsed Expr bound) :=
  match hrest : left.rest with
  | [] => .ok left
  | k :: rest =>
    match operator? k with
    | none => .ok left
    | some name =>
      match operand rest with
      | .error stop => .error stop
      | .ok right =>
        have hlt : right.rest.length < left.rest.length := by
          have := right.shorter
          simp only [hrest, List.length_cons]
          omega
        chain operator? operand
          ⟨.operator name [left.value, right.value], right.rest, Nat.lt_trans hlt left.shorter⟩
termination_by left.rest.length
decreasing_by exact hlt

/-- Reads a product of signed operands. -/
def product (operand : Reader Expr) : Reader Expr := fun input =>
  match operand input with
  | .error stop => .error stop
  | .ok left => chain multiplicative? operand left

/-- Reads a sum of products of signed operands. -/
def sum (operand : Reader Expr) : Reader Expr := fun input =>
  match product operand input with
  | .error stop => .error stop
  | .ok left => chain additive? (product operand) left

/-! ## Calls -/

/-- Reads what fills an argument slot. An empty slot takes no token. -/
def slot (argument : Reader Expr) (input : List TokenKind) :
    Except Stop (Parsed Operand (input.length + 1)) :=
  match input with
  | .comma :: rest => .ok ⟨.absent, .comma :: rest, Nat.lt_succ_self _⟩
  | .rightParen :: rest => .ok ⟨.absent, .rightParen :: rest, Nat.lt_succ_self _⟩
  | .infinity :: rest => .ok ⟨.word "Inf", rest, Nat.lt_succ_of_lt (Nat.lt_succ_self _)⟩
  | other =>
    match argument other with
    | .error stop => .error stop
    | .ok p => .ok ((p.withValue (.expr p.value)).weaken (Nat.le_succ _))

/-- Reads the slots of a call and the parenthesis that closes it. -/
def slots (argument : Reader Expr) (input : List TokenKind) :
    Except Stop (Parsed (List Operand) input.length) :=
  match slot argument input with
  | .error stop => .error stop
  | .ok first =>
    match hrest : first.rest with
    | .comma :: rest =>
      have hlt : rest.length < input.length := Nat.lt_of_succ_lt_succ (first.length_succ_lt hrest)
      match slots argument rest with
      | .error stop => .error stop
      | .ok others =>
        .ok ((others.withValue (first.value :: others.value)).weaken (Nat.le_of_lt hlt))
    | .rightParen :: rest =>
      .ok ⟨[first.value], rest, Nat.lt_of_succ_lt_succ (first.length_succ_lt hrest)⟩
    | rest => .error (.unexpected rest)
termination_by input.length
decreasing_by exact hlt

/-- Who is to blame when the slots of a call cannot be read: the call, if a
    closing parenthesis is still to come, and otherwise whoever encloses it.
    `opening` tokens remain in front of the call. -/
def Stop.inCall (name : String) (opening : Nat) : Stop → Stop
  | .unexpected rest =>
    if rest.contains .rightParen then
      .settled (.grammatical (.malformedCall name)) ⟨opening, 0⟩
    else .unexpected rest
  | stop => stop

/-- A call with its slots; `opening` tokens remain in front of it and `closing`
    behind it. Sign and curvature come from the registry. -/
def apply (scope : Scope) (name : String) (opening closing : Nat) (operands : List Operand) :
    Except Stop Expr :=
  match scope.atoms.get? name with
  | none => .error (.settled (.semantic (.unknownFunction name)) ⟨opening, opening - 1⟩)
  | some profile =>
    if profile.accepts operands.length then
      .ok (.compound name profile.sign profile.curvature operands false)
    else
      .error (.settled
        (.semantic (.arityMismatch name (profile.arity.getD 0) operands.length))
        ⟨opening, closing⟩)

/-- Reads a call behind its name and its opening parenthesis. -/
def call (scope : Scope) (argument : Reader Expr) (name : String) : Reader Expr := fun input =>
  match slots argument input with
  | .error stop => .error (stop.inCall name (input.length + 2))
  | .ok operands =>
    match apply scope name (input.length + 2) operands.rest.length operands.value with
    | .error stop => .error stop
    | .ok e => .ok (operands.withValue e)

/-! ## Signed operands -/

/-- The expression a bare name stands for; `closing` tokens remain behind it. -/
def resolve (scope : Scope) (name : String) (closing : Nat) : Except Stop Expr :=
  match scope.symbols.node? name with
  | some e => .ok e
  | none => .error (.settled (.semantic (.unknownSymbol name)) ⟨closing + 1, closing⟩)

/-- Reads a signed operand, given the reader `inner` for what lies one level
    deeper and `deepest?` for what lies two levels deeper, if there are two. -/
def signedBy (scope : Scope) (inner : Reader Expr) (deepest? : Option (Reader Expr)) :
    Reader Expr := fun input =>
  match input with
  | .plus :: rest =>
    match inner rest with
    | .error stop => .error stop
    | .ok p => .ok (p.weaken (Nat.le_succ _))
  | .minus :: rest =>
    match inner rest with
    | .error stop => .error stop
    | .ok p => .ok ((p.withValue (.operator "-" [p.value])).weaken (Nat.le_succ _))
  | .integer n :: rest => .ok ⟨.ofNumber (.whole n), rest, Nat.lt_succ_self _⟩
  | .real x :: rest => .ok ⟨.ofNumber (.real x), rest, Nat.lt_succ_self _⟩
  | .identifier name :: .leftParen :: rest =>
    match deepest? with
    | none => .error (.unexpected (.identifier name :: .leftParen :: rest))
    | some deepest =>
      match call scope (sum deepest) name rest with
      | .error stop => .error stop
      | .ok p => .ok (p.weaken (Nat.le_add_right _ 2))
  | .identifier name :: rest =>
    match resolve scope name rest.length with
    | .error stop => .error stop
    | .ok e => .ok ⟨e, rest, Nat.lt_succ_self _⟩
  | .leftParen :: rest =>
    match sum inner rest with
    | .error stop => .error stop
    | .ok p =>
      match hrest : p.rest with
      | .rightParen :: after =>
        .ok ⟨p.value.inParens, after,
          Nat.lt_succ_of_lt (Nat.lt_of_succ_lt (p.length_succ_lt hrest))⟩
      | after => .error (.unexpected after)
  | _ => .error (.unexpected input)

/-- The greatest number of levels that operands may nest. -/
def maxNesting : Nat := 128

/-- Reads a signed operand that nests at most `budget` levels. -/
def signed (scope : Scope) : Nat → Reader Expr
  | 0, input => .error (.unexpected input)
  | 1, input => signedBy scope (signed scope 0) none input
  | budget + 2, input =>
    signedBy scope (signed scope (budget + 1)) (some (signed scope budget)) input

/-! ## Statements -/

/-- A statement that nothing may follow. -/
def complete (s : Statement) : List TokenKind → Except Stop Statement
  | [] => .ok s
  | rest => .error (.settled (.grammatical (.trailingInput s.text)) ⟨rest.length, 0⟩)

/-- Reads a whole line as one expression or one constraint. -/
def statement (operand : Reader Expr) (input : List TokenKind) : Except Stop Statement :=
  match sum operand input with
  | .error stop => .error stop
  | .ok left =>
    match left.rest with
    | .relation r :: rest =>
      match sum operand rest with
      | .error stop => .error stop
      | .ok right =>
        match right.rest with
        | .relation _ :: after =>
          .error (.settled (.grammatical .chainedConstraint) ⟨after.length + 1, after.length⟩)
        | after => complete (.constraint r left.value right.value) after
    | after => complete (.expr left.value) after

/-! ## Declarations -/

/-- Reads names up to the end of the line. -/
def names : List TokenKind → Except Stop (List String)
  | [] => .ok []
  | .identifier name :: rest =>
    match names rest with
    | .error stop => .error stop
    | .ok ns => .ok (name :: ns)
  | rest => .error (.unexpected rest)

/-- The sign in front of the declared names, unknown where none is given. -/
def declaredSign : List TokenKind → Sign × List TokenKind
  | .sign s :: rest => (s, rest)
  | rest => (.unknown, rest)

/-- Reads a declaration behind its first word: perhaps a sign, then one name or
    more. -/
def declaration (role : Role) (input : List TokenKind) :
    Except Stop (Declared × List String) :=
  let (sign, rest) := declaredSign input
  match names rest with
  | .error stop => .error stop
  | .ok [] => .error (.unexpected [])
  | .ok ns => .ok (⟨role, sign⟩, ns)

end Grammar

end ConvexLang
