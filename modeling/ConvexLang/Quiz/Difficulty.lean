/-!
# Difficulties

How hard the questions are, and how the runs of answers move that up and down.
-/

namespace ConvexLang.Quiz

/-- How hard the questions are. -/
inductive Difficulty where
  | easy
  | medium
  | hard
  deriving DecidableEq, Repr

namespace Difficulty

/-- All difficulties, the easiest first. -/
def all : List Difficulty :=
  [easy, medium, hard]

/-- The name shown to a player. -/
def title : Difficulty → String
  | easy => "Easy"
  | medium => "Medium"
  | hard => "Hard"

/-- The word for a difficulty. -/
def label : Difficulty → String
  | easy => "easy"
  | medium => "medium"
  | hard => "hard"

/-- The difficulty a word names; capitals count. -/
def ofLabel? (word : String) : Option Difficulty :=
  all.find? fun d => d.label = word

/-- How likely a root is a terminal. -/
def likelihood : Difficulty → Float
  | easy => 0.05
  | medium => 0.01
  | hard => 0.01

/-- By how much that grows from level to level. -/
def growth : Difficulty → Float
  | easy => 20
  | medium => 10
  | hard => 5

/-- One step up, as far as there is one. -/
def harder : Difficulty → Difficulty
  | easy => medium
  | medium | hard => hard

/-- One step down, as far as there is one. -/
def easier : Difficulty → Difficulty
  | easy | medium => easy
  | hard => medium

end Difficulty

end ConvexLang.Quiz
