import ConvexLang.Proofs.Quiz.Question
import ConvexLang.Quiz.Play

/-!
# The course of a game

A game in a terminal is a course of events (`course`): a question is shown, a line is
refused, an answer is graded, the game ends. All that is written is written for these
events, one after the other (`play_eq`).

A line that is refused is written about and asked for again, and that is all: neither the
random source nor the standing of the player nor the open question changes. So a game takes
the same course, but for the refusals, whether such lines are given to it or not. What is
left of the course are turns (`TakesTurns`): a question is shown and then graded by the next
answer, until the game ends behind a question that has no answer.

* `Round.course_filter`: without the lines that are not heeded, the course is the same
  without the refusals.
* `Round.takesTurns_course`: questions and answers come by turns.
* `play_undisturbed`: both, and what is written, of a whole game.
-/

namespace ConvexLang.Quiz

/-! ## Events -/

/-- How a game ends. -/
inductive Ending where
  /-- The player leaves. -/
  | left
  /-- The input is over. -/
  | inputOver
  /-- The input goes on with bytes that are no text. -/
  | inputUnreadable
  /-- There is no next question. -/
  | noQuestion
  deriving DecidableEq, Repr

/-- What happens in a game. -/
inductive Event where
  /-- A question is shown. -/
  | shown (difficulty : Difficulty) (question : Question)
  /-- A line is no answer, and is asked for again. -/
  | refused (word : String)
  /-- An answer to a question is graded. -/
  | graded (question : Question) (grade : Grade)
  /-- The game ends. -/
  | ended (how : Ending)

namespace Event

/-- What is written for an event, with what asks for the line that brought it about. -/
def output : Event → Output
  | shown difficulty question =>
    Output.heading ("[" ++ difficulty.title ++ "] " ++ question.expression)
  | refused word =>
    Round.ask ++ Output.line ("Unknown answer: " ++ word
      ++ ". Try constant, affine, convex, concave or non-dcp.")
  | graded question grade => Round.ask ++ Round.verdict question grade
  | ended .left => Round.ask ++ Output.line "Goodbye!"
  | ended .inputOver => Round.ask ++ Prompt.farewell
  | ended .inputUnreadable => Round.ask
  | ended .noQuestion => []

/-- Whether an event leaves something behind; a refusal does not. -/
def isLasting : Event → Bool
  | refused _ => false
  | _ => true

end Event

/-! ## What a line asks for -/

/-- What a line of the input asks of a game. -/
inductive Reply where
  /-- To end. -/
  | ends (how : Ending)
  /-- To grade an answer. -/
  | answer (answered : Curvature)
  /-- Nothing that a game knows. -/
  | unknown (word : String)

/-- What a line of the input asks of a game. -/
def reply : InputLine → Reply
  | .unreadable => .ends .inputUnreadable
  | .text line =>
    if Text.trim line = ":quit" ∨ Text.trim line = ":q" then .ends .left
    else
      match readAnswer? (Text.trim line) with
      | some answered => .answer answered
      | none => .unknown (Text.trim line)

/-- How the line ends a game, if it does. -/
def ending? (line : InputLine) : Option Ending :=
  match reply line with
  | .ends how => some how
  | _ => none

/-- The answer that the line is, if it is one. -/
def answer? (line : InputLine) : Option Curvature :=
  match reply line with
  | .answer answered => some answered
  | _ => none

/-- Whether a game heeds a line: without the blanks around it, the line is a word to leave
    with or an answer. Bytes that are no text are heeded as well, for they end a game. -/
def isHeeded : InputLine → Bool
  | .unreadable => true
  | .text line =>
    Text.trim line = ":quit" || Text.trim line = ":q" || (readAnswer? (Text.trim line)).isSome

/-- How the lines end a game, which is over behind the last of them at the latest. -/
def ending (lines : List InputLine) : Ending :=
  (lines.findSome? ending?).getD .inputOver

/-- The answers among the lines in front of the first that ends the game. -/
def answers (lines : List InputLine) : List Curvature :=
  (lines.takeWhile fun line => (ending? line).isNone).filterMap answer?

/-! ## Courses -/

variable {ρ : Type}

/-- What happens once a question was asked for: it is shown, if there is one. -/
def opened (round? : Option (Round ρ)) (after : Round ρ → List Event) : List Event :=
  match round? with
  | none => [.ended .noQuestion]
  | some r => .shown r.game.standing.difficulty r.question :: after r

variable [RandomSource ρ]

/-- What happens in a game, from a round on. -/
def Round.course (r : Round ρ) : List InputLine → List Event
  | [] => [.ended .inputOver]
  | line :: lines =>
    match reply line with
    | .ends how => [.ended how]
    | .unknown word => .refused word :: r.course lines
    | .answer answered =>
      let (game, grade) := r.game.grade r.question answered
      .graded r.question grade :: opened (start game).1 fun r' => r'.course lines

/-- What happens in a whole game. -/
def course (g : Game ρ) (lines : List InputLine) : List Event :=
  opened (Round.start g).1 fun r => r.course lines

/-! ## What is written -/

/-- What is written for a round that begins, if one does, and behind that. -/
theorem flatMap_opened (g : Game ρ) (after : Round ρ → List Event) :
    (opened (Round.start g).1 after).flatMap Event.output =
      (Round.start g).2 ++ (Round.start g).1.elim [] fun r => (after r).flatMap Event.output := by
  rw [Round.start.eq_def]
  split
  · rfl
  · rfl

/-- What one step of a round writes, and what it leads to. -/
theorem Round.runFrom_cons (r : Round ρ) (line : InputLine) (lines : List InputLine) :
    r.runFrom (line :: lines) =
      match reply line with
      | .ends how => (Event.ended how).output
      | .unknown word => (Event.refused word).output ++ r.runFrom lines
      | .answer answered =>
        let (game, grade) := r.game.grade r.question answered
        (Event.graded r.question grade).output ++ ((start game).2 ++
          (start game).1.elim [] fun r' => r'.runFrom lines) := by
  rw [runFrom]
  cases line with
  | unreadable => simp [step, reply, Event.output]
  | text line =>
    rw [step, reply]
    split_ifs with hleave
    · rfl
    · cases readAnswer? (Text.trim line) with
      | none => simp [Event.output]
      | some answered =>
        dsimp only
        cases (start (r.game.grade r.question answered).1).1 <;>
          simp [Event.output]

/-- All that is written from a round on is written for what happens. -/
theorem Round.runFrom_eq (r : Round ρ) (lines : List InputLine) :
    r.runFrom lines = (r.course lines).flatMap Event.output := by
  induction lines generalizing r with
  | nil => simp [runFrom, course, Event.output]
  | cons line lines ih =>
    rw [runFrom_cons, course]
    cases reply line with
    | ends how => simp
    | unknown word => simp [ih]
    | answer answered => simp [flatMap_opened, ih]

/-- All that a game writes behind the banner is written for what happens. -/
theorem play_eq (g : Game ρ) (lines : List InputLine) :
    play g lines = Round.banner ++ (course g lines).flatMap Event.output := by
  rw [course, flatMap_opened, play.eq_def]
  split <;> rename_i hstart <;> simp [hstart, Round.runFrom_eq]

/-! ## Lines that are not heeded -/

/-- A line is heeded unless a game does not know what it asks for. -/
theorem isHeeded_eq_false_iff {line : InputLine} :
    isHeeded line = false ↔ ∃ word, reply line = .unknown word := by
  cases line with
  | unreadable => simp [isHeeded, reply]
  | text line =>
    rw [isHeeded, reply]
    split_ifs with hleave
    · rcases hleave with h | h <;> simp [h]
    · rw [not_or] at hleave
      cases readAnswer? (Text.trim line) <;> simp [hleave]

omit [RandomSource ρ] in
theorem filter_opened (round? : Option (Round ρ)) (after : Round ρ → List Event) :
    (opened round? after).filter Event.isLasting =
      opened round? fun r => (after r).filter Event.isLasting := by
  cases round? <;> rfl

/-- Without the lines that are not heeded, the course from a round on is the same, but for
    the refusals. -/
theorem Round.course_filter (r : Round ρ) (lines : List InputLine) :
    r.course (lines.filter isHeeded) = (r.course lines).filter Event.isLasting := by
  induction lines generalizing r with
  | nil => rfl
  | cons line lines ih =>
    cases hheeded : isHeeded line with
    | false =>
      -- the round stays open as it was, so that only the refusal is left out
      obtain ⟨word, hreply⟩ := isHeeded_eq_false_iff.1 hheeded
      rw [List.filter_cons_of_neg (by simp [hheeded]), ih, course, hreply]
      rfl
    | true =>
      rw [List.filter_cons_of_pos hheeded, course, course]
      cases hreply : reply line with
      | ends how => rfl
      | unknown word =>
        rw [isHeeded_eq_false_iff.2 ⟨word, hreply⟩] at hheeded
        cases hheeded
      | answer answered =>
        simp only [ih]
        rw [List.filter_cons_of_pos rfl, filter_opened]

/-- So is the course of a whole game. -/
theorem course_filter (g : Game ρ) (lines : List InputLine) :
    course g (lines.filter isHeeded) = (course g lines).filter Event.isLasting := by
  rw [course, course, filter_opened]
  simp only [Round.course_filter]

/-! ## Turns -/

/-- Questions are shown and graded by turns: each but the last by the next of the answers,
    and behind the last the game ends. -/
inductive TakesTurns : List Event → List Curvature → Ending → Prop
  | last {difficulty : Difficulty} {question : Question} {how : Ending} :
    TakesTurns [.shown difficulty question, .ended how] [] how
  | answered {difficulty : Difficulty} {question : Question} {answer : Curvature}
      {events : List Event} {answers : List Curvature} {how : Ending} :
    TakesTurns events answers how →
      TakesTurns (.shown difficulty question :: .graded question ⟨question.curvature, answer⟩ ::
        events) (answer :: answers) how

/-- Over the names that questions are made of, a round begins, and its game is about the
    same names. -/
theorem exists_start {g : Game ρ} (h : KnowsNames g.scope) :
    ∃ r, (Round.start g).1 = some r ∧ KnowsNames r.game.scope := by
  obtain ⟨q, _, hq, -, -, hgame⟩ := Game.next_of_knowsNames h
  refine ⟨⟨g.next.1, q⟩, ?_, ?_⟩
  · rw [Round.start.eq_def, ← Prod.eta g.next, hq]
  · rw [hgame]
    exact h

/-- One line more in front of the others. -/
theorem answers_cons (line : InputLine) (lines : List InputLine) :
    answers (line :: lines) =
      match reply line with
      | .ends _ => []
      | .unknown _ => answers lines
      | .answer answered => answered :: answers lines := by
  cases h : reply line <;> simp [answers, ending?, answer?, h]

theorem ending_cons (line : InputLine) (lines : List InputLine) :
    ending (line :: lines) =
      match reply line with
      | .ends how => how
      | _ => ending lines := by
  cases h : reply line <;> simp [ending, ending?, h]

/-- Once a question is shown, its round goes on by turns. -/
theorem Round.takesTurns_course {r : Round ρ} (h : KnowsNames r.game.scope)
    (difficulty : Difficulty) (lines : List InputLine) :
    TakesTurns
      (.shown difficulty r.question :: (r.course lines).filter Event.isLasting)
      (answers lines) (ending lines) := by
  induction lines generalizing r difficulty with
  | nil => exact .last
  | cons line lines ih =>
    rw [course, answers_cons, ending_cons]
    cases reply line with
    | ends how => exact .last
    | unknown word => exact ih h difficulty
    | answer answered =>
      -- grading changes the standing alone, so there is a next question
      have hgraded : KnowsNames (r.game.grade r.question answered).1.scope := h
      obtain ⟨r', hstart, hr'⟩ := exists_start hgraded
      simp only [hstart, opened]
      exact .answered (ih hr' _)

/-- A game over a registry that extends the standard one, with any source of draws, any
    standing to begin with, and any lines. What it writes, it writes for the events of its
    course. Without the lines that are not heeded it takes the same course, but for the
    refusals: the same questions are shown at the same difficulties, the same grades are given
    for the same statements, and the game ends at the same place and in the same way. In that
    course each answer in front of the end grades the question that was shown last, and each
    question is graded once at most. -/
theorem play_undisturbed {atoms : Registry} {extra : List Atom}
    (h : Registry.standard.extend extra = .ok atoms) (source : ρ) (standing : Standing)
    (lines : List InputLine) :
    let g : Game ρ := { source, atoms, standing }
    (∀ lines', play g lines' = Round.banner ++ (course g lines').flatMap Event.output) ∧
      course g (lines.filter isHeeded) = (course g lines).filter Event.isLasting ∧
      TakesTurns (course g (lines.filter isHeeded)) (answers lines) (ending lines) := by
  intro g
  have hnames : KnowsNames g.scope := knowsNames_of_extend h
  refine ⟨play_eq g, course_filter g lines, ?_⟩
  obtain ⟨r, hstart, hr⟩ := exists_start hnames
  rw [course_filter, course, hstart]
  exact r.takesTurns_course hr _ lines

/-- Two lines that are no answers, one of them empty, between the lines of a game that is
    left behind its first answer. -/
theorem play_undisturbed_affine :
    let cube : Atom := { curvature := .convex, sign := .positive, arity := some 1, name := "cube" }
    let atoms := Registry.standard.insert cube.name cube.toProfile
    let g : Game Xoshiro :=
      { source := Xoshiro.ofSeed 7, atoms, standing := { difficulty := .hard } }
    let lines : List InputLine :=
      [.text "affin\n", .text " AFFINE \n", .text "\n", .text ":q\n", .text "convex"]
    Registry.standard.extend [cube] = .ok atoms ∧
      course g [.text " AFFINE \n", .text ":q\n", .text "convex"] =
        (course g lines).filter Event.isLasting ∧
      TakesTurns ((course g lines).filter Event.isLasting) [.affine] .left := by
  intro cube atoms g lines
  have hcube : Registry.standard.extend [cube] = .ok atoms :=
    Registry.extend_singleton (by decide) (by decide) (by decide +kernel)
  have hheeded : lines.filter isHeeded = [.text " AFFINE \n", .text ":q\n", .text "convex"] := by
    decide +kernel
  have hanswers : answers lines = [.affine] := by decide +kernel
  have hending : ending lines = .left := by decide +kernel
  obtain ⟨-, hcourse, hturns⟩ :=
    play_undisturbed hcube (Xoshiro.ofSeed 7) { difficulty := .hard } lines
  rw [hheeded] at hcourse hturns
  rw [hanswers, hending, hcourse] at hturns
  exact ⟨hcube, hcourse, hturns⟩

end ConvexLang.Quiz
