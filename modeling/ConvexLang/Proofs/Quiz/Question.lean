import ConvexLang.Proofs.Quiz.Meaning

/-!
# Questions are expressions

Every text that the quiz draws is read as one expression, for the text of a tree that
fits is. Each call has as many slots as its atom takes, also after its operator was
replaced by another one. A tree of `n` levels nests within `2 n` levels, since each call
takes two, so that the deepest of the questions stay far from what the grammar refuses.

* `Game.next_run`: whatever was asked of a game before, over a registry that
  extends the standard one, there is a next question, its text is read as an
  expression, and drawing it changes nothing but the random source.
-/

namespace ConvexLang.Quiz

namespace Game

variable {ρ : Type}

theorem pose_of_statement {g : Game ρ} {text : String} {t : Statement}
    (h : readLine g.scope text = .ok (.statement t)) : g.pose text = (g, .ok ⟨text, t⟩) := by
  rw [pose, h]

variable [RandomSource ρ]

theorem always_drawExpression (difficulty : Difficulty) :
    Draw.Always (drawExpression difficulty : Draw ρ _) fun text =>
      ∃ t : Tree, t.Fits maxDepth ∧ text = t.text :=
  (Draw.always_true _).bind fun _ _ => always_drawText _ _ _ _

/-- Drawing a question takes a text from the source and reads it. -/
theorem next_of_draw {g : Game ρ} {text : String} {source : ρ}
    (h : (drawExpression g.standing.difficulty).run g.source = (text, source)) :
    g.next = pose { g with source } text := by
  change drawExpression g.standing.difficulty g.source = (text, source) at h
  rw [next, h]

/-- Over the names that questions are made of, the text of the next question is
    read as an expression, and only the random source has changed. -/
theorem next_of_knowsNames {g : Game ρ} (h : KnowsNames g.scope) :
    ∃ q e, g.next.2 = .ok q ∧ q.statement = .expr e ∧
      readLine g.scope q.expression = .ok (.statement (.expr e)) ∧
      g.next.1 = { g with source := g.next.1.source } := by
  have hdrawn := always_drawExpression g.standing.difficulty g.source
  cases hdraw : (drawExpression g.standing.difficulty).run g.source with
  | mk text source =>
    rw [hdraw] at hdrawn
    obtain ⟨t, ht, rfl⟩ : ∃ t : Tree, t.Fits maxDepth ∧ text = t.text := hdrawn
    obtain ⟨e, he, -⟩ := ht.readLine_text h
    rw [next_of_draw hdraw, pose_of_statement (g := { g with source }) he]
    exact ⟨_, e, rfl, rfl, he, rfl⟩

theorem scope_perform {g : Game ρ} (h : KnowsNames g.scope) (c : Call) :
    (g.perform c).scope = g.scope := by
  cases c with
  | next =>
    obtain ⟨_, _, -, -, -, hnext⟩ := next_of_knowsNames h
    rw [perform, hnext]
    rfl
  | grade q answered => rfl

/-- No call changes what the names in a question refer to. -/
theorem scope_run {g : Game ρ} (h : KnowsNames g.scope) (calls : List Call) :
    (g.run calls).scope = g.scope := by
  induction calls generalizing g with
  | nil => rfl
  | cons c calls ih =>
    have hc := scope_perform h c
    exact (ih (hc ▸ h)).trans hc

/-- Whatever was asked of a game before, over a registry that extends the standard
    one, there is a next question, its text is read as an expression, and drawing it
    changes nothing but the random source. -/
theorem next_run {atoms : Registry} {extra : List Atom}
    (h : Registry.standard.extend extra = .ok atoms) (source : ρ) (standing : Standing)
    (calls : List Call) :
    let g := Game.run { source, atoms, standing } calls
    ∃ q e, g.next.2 = .ok q ∧ q.statement = .expr e ∧
      readLine g.scope q.expression = .ok (.statement (.expr e)) ∧
      g.next.1 = { g with source := g.next.1.source } := by
  intro g
  have hstart : KnowsNames (scope { source, atoms, standing : Game ρ }) := knowsNames_of_extend h
  have hrun : g.scope = scope { source, atoms, standing : Game ρ } := scope_run hstart calls
  exact next_of_knowsNames (hrun ▸ hstart)

/-- The second question of a game over the standard atoms and one more. -/
theorem next_run_second :
    let cube : Atom := { curvature := .convex, sign := .positive, arity := some 1, name := "cube" }
    let atoms := Registry.standard.insert cube.name cube.toProfile
    let g := Game.run { source := Xoshiro.ofSeed 7, atoms, standing := {} } [.next]
    Registry.standard.extend [cube] = .ok atoms ∧
      ∃ q e, g.next.2 = .ok q ∧ q.statement = .expr e ∧
        readLine g.scope q.expression = .ok (.statement (.expr e)) ∧
        g.next.1 = { g with source := g.next.1.source } := by
  intro cube atoms g
  have hcube : Registry.standard.extend [cube] = .ok atoms := by
    have hone : Registry.standard.extendOne cube = .ok atoms :=
      Registry.extendOne_eq_ok_iff.2 ⟨by decide, by decide, by decide +kernel, rfl⟩
    rw [Registry.extend, hone]
    rfl
  exact ⟨hcube, next_run hcube _ _ _⟩

end Game

end ConvexLang.Quiz
