import ConvexLang.Prompt
import ConvexLang.Quiz.Game

/-!
# Playing the game

The game in a terminal: questions are shown and answers read, line by line, until
the player leaves or the input ends. A line that is no answer changes nothing and
is asked for again.
-/

namespace ConvexLang.Quiz

variable {ρ : Type} [RandomSource ρ]

/-- A game and the question that is open. -/
structure Round (ρ : Type) where
  /-- The game. -/
  game : Game ρ
  /-- The question. -/
  question : Question

namespace Round

/-- What greets the player. -/
def banner : Output :=
  Output.line ("dcp-analyzer quiz v" ++ version)
    ++ Output.line "Answer constant, affine, convex, concave or non-dcp. :quit to exit."
    ++ Output.line ""

/-- What asks for an answer. -/
def ask : Output :=
  Output.plain "answer> "

/-- Draws the next question and shows it. No round is left where that fails. -/
def start (g : Game ρ) : Option (Round ρ) × Output :=
  match g.next with
  | (game, .ok question) =>
    (some { game, question },
      Output.heading ("[" ++ game.standing.difficulty.title ++ "] " ++ question.expression))
  | (_, .error _) => (none, [])

/-- What is shown for a graded answer. -/
def verdict (q : Question) (grade : Grade) : Output :=
  Output.line grade.text ++ Output.statement q.statement ++ Output.line ""

/-- Takes one line of the input: an answer, after which the next question is
    shown, a word to leave with, or something to be asked for again. -/
def step (r : Round ρ) : InputLine → Option (Round ρ) × Output
  | .unreadable => (none, [])
  | .text line =>
    let line := Text.trim line
    if line = ":quit" ∨ line = ":q" then (none, Output.line "Goodbye!")
    else
      match readAnswer? line with
      | none =>
        (some r, Output.line ("Unknown answer: " ++ line
          ++ ". Try constant, affine, convex, concave or non-dcp."))
      | some answered =>
        let (game, grade) := r.game.grade r.question answered
        let (next, shown) := start game
        (next, verdict r.question grade ++ shown)

/-- Everything that is written from a round on. -/
def runFrom (r : Round ρ) : List InputLine → Output
  | [] => ask ++ Prompt.farewell
  | line :: lines =>
    match r.step line with
    | (none, output) => ask ++ output
    | (some r', output) => ask ++ output ++ runFrom r' lines

end Round

/-- What a whole game writes. -/
def play (g : Game ρ) (lines : List InputLine) : Output :=
  match Round.start g with
  | (none, output) => Round.banner ++ output
  | (some r, output) => Round.banner ++ output ++ r.runFrom lines

end ConvexLang.Quiz
