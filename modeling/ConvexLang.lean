import ConvexLang.Main
import ConvexLang.Program
import ConvexLang.Proofs.Admission
import ConvexLang.Proofs.Arity
import ConvexLang.Proofs.Blame
import ConvexLang.Proofs.Checked.Agreement
import ConvexLang.Proofs.Checked.Basic
import ConvexLang.Proofs.Checked.Grammar
import ConvexLang.Proofs.Checked.Lexer
import ConvexLang.Proofs.Checked.Line
import ConvexLang.Proofs.Classification
import ConvexLang.Proofs.Conservation
import ConvexLang.Proofs.Continuation
import ConvexLang.Proofs.Declaring
import ConvexLang.Proofs.Effect
import ConvexLang.Proofs.Enclosing
import ConvexLang.Proofs.Failure
import ConvexLang.Proofs.Height
import ConvexLang.Proofs.Joining
import ConvexLang.Proofs.Leftmost
import ConvexLang.Proofs.Literals
import ConvexLang.Proofs.Meaning
import ConvexLang.Proofs.Munching
import ConvexLang.Proofs.Naming
import ConvexLang.Proofs.Placement
import ConvexLang.Proofs.Position
import ConvexLang.Proofs.Prompt.Agreement
import ConvexLang.Proofs.Prompt.Gathering
import ConvexLang.Proofs.Prompt.Input
import ConvexLang.Proofs.Prompt.Parentheses
import ConvexLang.Proofs.Quiz.Composition
import ConvexLang.Proofs.Quiz.Course
import ConvexLang.Proofs.Quiz.Grading
import ConvexLang.Proofs.Quiz.Meaning
import ConvexLang.Proofs.Quiz.Preorder
import ConvexLang.Proofs.Quiz.Question
import ConvexLang.Proofs.Quiz.Streaks
import ConvexLang.Proofs.Quiz.Visibility
import ConvexLang.Proofs.Record
import ConvexLang.Proofs.Recovery
import ConvexLang.Proofs.Rendering
import ConvexLang.Proofs.Scanning
import ConvexLang.Proofs.Scoping
