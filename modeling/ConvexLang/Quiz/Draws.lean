/-!
# Random draws

The quiz draws fractions and indices from a source of which nothing else is
assumed: a fraction may be any floating-point number, and an index lies in its
range.
-/

namespace ConvexLang.Quiz

/-- A source of random draws with states in `ρ`. -/
class RandomSource (ρ : Type) where
  /-- Draws a fraction. -/
  fraction : ρ → Float × ρ
  /-- Draws one of `n` indices. -/
  index : (n : Nat) → 0 < n → ρ → Fin n × ρ

/-- What is drawn from a source with states in `ρ`. -/
abbrev Draw (ρ : Type) (α : Type) := StateM ρ α

namespace Draw

variable {ρ : Type} [RandomSource ρ]

/-- Draws a fraction. -/
def fraction : Draw ρ Float := fun s =>
  RandomSource.fraction s

/-- Draws one of `n` indices. -/
def index (n : Nat) (h : 0 < n) : Draw ρ (Fin n) := fun s =>
  RandomSource.index n h s

end Draw

end ConvexLang.Quiz
