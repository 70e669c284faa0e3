/-!
# Curvatures

Curvature is the shape class of an expression as disciplined convex programming
sees it. Decision variables are affine, parameters and literals constant, a call
has the curvature of its atom, and an arithmetic operator leaves it unknown.
-/

namespace ConvexLang

/-- The curvature of an expression. -/
inductive Curvature where
  /-- A constant value. -/
  | constant
  /-- Both convex and concave. -/
  | affine
  /-- Convex. -/
  | convex
  /-- Concave. -/
  | concave
  /-- Nothing is known. -/
  | unknown
  deriving DecidableEq, Repr

namespace Curvature

/-- All curvatures. -/
def all : List Curvature :=
  [constant, affine, convex, concave, unknown]

/-- The word for a curvature. -/
def label : Curvature → String
  | constant => "constant"
  | affine => "affine"
  | convex => "convex"
  | concave => "concave"
  | unknown => "unknown"

/-- The curvature a word names; capitals count. -/
def ofLabel? (word : String) : Option Curvature :=
  all.find? fun c => c.label = word

/-- Whether an expression of this curvature is convex. -/
def isConvex : Curvature → Bool
  | constant | affine | convex => true
  | concave | unknown => false

/-- Whether an expression of this curvature is concave. -/
def isConcave : Curvature → Bool
  | constant | affine | concave => true
  | convex | unknown => false

/-- The name shown to a player: an unknown curvature breaks the composition
    rules. -/
def displayName : Curvature → String
  | unknown => "non-DCP"
  | c => c.label

theorem mem_all (c : Curvature) : c ∈ all := by
  cases c <;> decide

end Curvature

end ConvexLang
