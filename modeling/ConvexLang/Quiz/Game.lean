import ConvexLang.Line
import ConvexLang.Quiz.Difficulty
import ConvexLang.Quiz.Generator
import ConvexLang.Text

/-!
# The curvature game

A game draws random expressions over a few variables and asks for their
curvature. An answer is graded against what the grammar makes of the whole
expression. Five right answers in a row raise the difficulty, five wrong ones
lower it.
-/

namespace ConvexLang.Quiz

/-! ## Questions and answers -/

/-- An expression whose curvature is asked for. -/
structure Question where
  /-- Its text. -/
  expression : String
  /-- What it is read as. -/
  statement : Statement

/-- The curvature asked for. -/
def Question.curvature (q : Question) : Curvature :=
  q.statement.curvature

/-- The answers that say an expression breaks the rules. -/
def ruleBreakers : List String :=
  ["non-dcp", "non-convex", "nondcp"]

/-- The curvature that a typed answer names; ASCII capitals and blanks around it
    do not count. -/
def readAnswer? (text : String) : Option Curvature :=
  let word := Text.lower (Text.trim text)
  if ruleBreakers.contains word then some .unknown else Curvature.ofLabel? word

/-- An answer beside what was expected. -/
structure Grade where
  /-- The right answer. -/
  expected : Curvature
  /-- The answer given. -/
  answered : Curvature
  deriving DecidableEq, Repr

namespace Grade

/-- Whether the answer is right. -/
def isRight (g : Grade) : Bool :=
  g.expected = g.answered

/-- What the player is told. -/
def text (g : Grade) : String :=
  if g.isRight then "Correct! The expression is " ++ g.expected.displayName ++ "."
  else
    "Incorrect! The expression is " ++ g.expected.displayName ++ ", but you answered "
      ++ g.answered.displayName ++ "."

end Grade

/-! ## Games -/

/-- The standing of a player. -/
structure Standing where
  /-- How hard the questions are. -/
  difficulty : Difficulty := .easy
  /-- The number of right answers since the last wrong one or the last step. -/
  rightStreak : Nat := 0
  /-- The number of wrong answers since the last right one or the last step. -/
  wrongStreak : Nat := 0
  deriving DecidableEq, Repr

/-- The length of a run of answers that moves the difficulty. -/
def streakLength : Nat := 5

/-- The standing after a right or a wrong answer. -/
def Standing.after (s : Standing) (right : Bool) : Standing :=
  if right then
    if s.rightStreak + 1 ≥ streakLength then ⟨s.difficulty.harder, 0, 0⟩
    else ⟨s.difficulty, s.rightStreak + 1, 0⟩
  else
    if s.wrongStreak + 1 ≥ streakLength then ⟨s.difficulty.easier, 0, 0⟩
    else ⟨s.difficulty, 0, s.wrongStreak + 1⟩

/-- The variables that questions are about, with unknown signs. -/
def variableSymbols : Symbols :=
  Symbols.declare .empty ⟨.decision, .unknown⟩ Operator.variableNames

/-- A game in progress, with a random source in `ρ`. -/
structure Game (ρ : Type) where
  /-- The random source. -/
  source : ρ
  /-- The known atoms. -/
  atoms : Registry
  /-- The declared symbols. -/
  symbols : Symbols := variableSymbols
  /-- The standing of the player. -/
  standing : Standing := {}

namespace Game

variable {ρ : Type}

/-- What the names in a question refer to. -/
def scope (g : Game ρ) : Scope where
  symbols := g.symbols
  atoms := g.atoms

/-- The kinds of questions: the shape of the expression, and whether it keeps the
    composition rules. -/
def kinds : List (Shape × Bool) :=
  [(.ofConvex, true), (.ofConcave, true), ({}, false)]

/-- Draws the text of a question. -/
def drawExpression [RandomSource ρ] (difficulty : Difficulty) : Draw ρ String := do
  let i ← Draw.index kinds.length (by decide)
  let (shape, rules) := kinds[i]
  drawText [shape] difficulty.likelihood difficulty.growth rules

/-- The error for a text that is no question: it holds no statement. -/
def noQuestion (expression : String) : Diagnostic :=
  .atSpan (.grammatical .noStatement) ⟨0, expression.utf8ByteSize⟩

/-- Reads a text as a question: the game after it, and the question. A line that
    declares something is no question, but it takes effect. -/
def pose (g : Game ρ) (expression : String) : Game ρ × Except Diagnostic Question :=
  match readLine g.scope expression with
  | .error d => (g, .error d)
  | .ok .empty => (g, .error (noQuestion expression))
  | .ok (.declaration declared names) =>
    ({ g with symbols := g.symbols.declare declared names }, .error (noQuestion expression))
  | .ok (.statement statement) => (g, .ok { expression, statement })

/-- Draws the next question. -/
def next [RandomSource ρ] (g : Game ρ) : Game ρ × Except Diagnostic Question :=
  let (expression, source) := drawExpression g.standing.difficulty g.source
  { g with source }.pose expression

/-- Grades an answer. -/
def grade (g : Game ρ) (q : Question) (answered : Curvature) : Game ρ × Grade :=
  let grade : Grade := ⟨q.curvature, answered⟩
  ({ g with standing := g.standing.after grade.isRight }, grade)

/-! ## Runs -/

/-- What is asked of a game. -/
inductive Call where
  /-- To draw the next question. -/
  | next
  /-- To grade an answer to a question. -/
  | grade (question : Question) (answered : Curvature)

/-- The game after a call. -/
def perform [RandomSource ρ] (g : Game ρ) : Call → Game ρ
  | .next => g.next.1
  | .grade q answered => (g.grade q answered).1

/-- The game after several calls. -/
def run [RandomSource ρ] (g : Game ρ) (calls : List Call) : Game ρ :=
  calls.foldl perform g

end Game

end ConvexLang.Quiz
