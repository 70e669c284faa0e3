import ConvexLang.Grammar
import ConvexLang.Token.Lexer

/-!
# Lines

One line of text is empty, a declaration or a statement. Reading a line changes
nothing: it says what the line is, and a session applies it.
-/

namespace ConvexLang

/-- What a line turned out to be. -/
inductive Line where
  /-- Nothing but gaps and comments. -/
  | empty
  /-- The declaration of one or more names, all alike. -/
  | declaration (declared : Declared) (names : List String)
  /-- A statement. -/
  | statement (s : Statement)

namespace Grammar

/-- Reads the kinds of the tokens of a line. -/
def line (scope : Scope) : List TokenKind → Except Stop Line
  | [] => .ok .empty
  | .declare role :: rest =>
    match declaration role rest with
    | .error stop => .error stop
    | .ok (declared, ns) => .ok (.declaration declared ns)
  | input =>
    match statement (signed scope maxNesting) input with
    | .error stop => .error stop
    | .ok s => .ok (.statement s)

end Grammar

/-- The bytes of a run of tokens, from its first to its last; a run without a
    first token stands at the end of the line, `size` bytes into it. -/
def Site.span (site : Site) (tokens : List Token) (size : Nat) : Span :=
  match tokens[tokens.length - site.opening]?, tokens[tokens.length - 1 - site.closing]? with
  | some first, some last => first.span.cover last.span
  | _, _ => ⟨size, size⟩

/-- The diagnostic for a line whose reading stopped. -/
def Grammar.Stop.toDiagnostic (line : String) (tokens : List Token) : Stop → Diagnostic
  | .unexpected rest =>
    .atSpan (.grammatical (.invalidExpression line))
      (Site.span ⟨rest.length, rest.length - 1⟩ tokens line.utf8ByteSize)
  | .settled problem site => .atSpan problem (site.span tokens line.utf8ByteSize)

/-- Reads one line. -/
def readLine (scope : Scope) (line : String) : Except Diagnostic Line :=
  match tokenize line with
  | .error e => .error e.toDiagnostic
  | .ok tokens =>
    match Grammar.line scope (tokens.map Token.kind) with
    | .error stop => .error (stop.toDiagnostic line tokens)
    | .ok l => .ok l

end ConvexLang
