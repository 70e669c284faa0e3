import ConvexLang.Quiz.Game
import Mathlib.Data.List.Chain
import Mathlib.Data.List.SplitBy

/-!
# Runs of answers

A game counts the right answers since the last wrong one, or since they last moved the
difficulty, and the wrong answers likewise. What comes of that is told by the runs alone:
the answers are cut where right and wrong ones change, and a run of `k` right answers
raises the difficulty by `k / 5` levels, a run of `k` wrong ones lowers it by as many, as
far as there are levels. Nothing is carried from one run to the next, also where a run
went on at the hardest or at the easiest level.

* `Standing.after_cases`: all that one answer does. It goes on with a count, or it moves
  the difficulty and the count begins again.
* `Standing.foldl_after_replicate`: so one run moves the level by the fives in it, and
* `Standing.foldl_after_flatten`: several runs do so one after the other.
* `Standing.IsShort`: the invariant of the two counts.
* `Game.run_level`: the level after any calls, from the runs of the answers in them.
-/

namespace ConvexLang.Quiz

/-! ## Levels -/

namespace Difficulty

/-- The number of steps from the easiest difficulty. -/
def level : Difficulty → Nat
  | easy => 0
  | medium => 1
  | hard => 2

theorem level_le (d : Difficulty) : d.level ≤ 2 := by
  cases d <;> decide

theorem level_harder (d : Difficulty) : d.harder.level = min (d.level + 1) 2 := by
  cases d <;> rfl

theorem level_easier (d : Difficulty) : d.easier.level = d.level - 1 := by
  cases d <;> rfl

end Difficulty

/-- The level after so many steps up or down, as far as there are any. -/
def moved (up : Bool) (steps level : Nat) : Nat :=
  if up then min (level + steps) 2 else level - steps

theorem moved_zero {level : Nat} (h : level ≤ 2) (up : Bool) : moved up 0 level = level := by
  cases up
  · rfl
  · exact Nat.min_eq_left h

theorem moved_succ (up : Bool) (steps level : Nat) :
    moved up (steps + 1) level = moved up 1 (moved up steps level) := by
  cases up <;> simp only [moved, Bool.false_eq_true, if_false, if_true] <;> omega

/-- The level after a run of answers, which are all right or all wrong. -/
def levelAfter (level : Nat) : List Bool → Nat
  | [] => level
  | right :: run => moved right ((run.length + 1) / 5) level

/-! ## One answer -/

namespace Standing

/-- The count of the right or of the wrong answers. -/
def streak (s : Standing) (right : Bool) : Nat :=
  if right then s.rightStreak else s.wrongStreak

/-- An answer goes on with its count, or is the fifth and moves the difficulty. -/
theorem after_cases (s : Standing) (right : Bool) :
    (s.streak right + 1 < 5 ∧ (s.after right).difficulty = s.difficulty ∧
        (s.after right).streak right = s.streak right + 1) ∨
      (5 ≤ s.streak right + 1 ∧
        (s.after right).difficulty.level = moved right 1 s.difficulty.level ∧
        (s.after right).streak right = 0) := by
  by_cases hcount : s.streak right + 1 ≥ 5
  · refine .inr ⟨hcount, ?_⟩
    cases right with
    | true =>
      have hafter : s.after true = ⟨s.difficulty.harder, 0, 0⟩ := if_pos hcount
      rw [hafter]
      exact ⟨s.difficulty.level_harder, rfl⟩
    | false =>
      have hafter : s.after false = ⟨s.difficulty.easier, 0, 0⟩ := if_pos hcount
      rw [hafter]
      exact ⟨s.difficulty.level_easier, rfl⟩
  · refine .inl ⟨Nat.lt_of_not_le hcount, ?_⟩
    cases right with
    | true =>
      have hafter : s.after true = ⟨s.difficulty, s.rightStreak + 1, 0⟩ := if_neg hcount
      rw [hafter]
      exact ⟨rfl, rfl⟩
    | false =>
      have hafter : s.after false = ⟨s.difficulty, 0, s.wrongStreak + 1⟩ := if_neg hcount
      rw [hafter]
      exact ⟨rfl, rfl⟩

/-- An answer ends the count of the other kind. -/
theorem streak_not_after (s : Standing) (right : Bool) : (s.after right).streak (!right) = 0 := by
  cases right <;>
  · simp only [after, Bool.false_eq_true, if_false, if_true]
    split <;> rfl

/-! ## Runs -/

/-- The answers of one run, none of which is counted in the beginning, move the level by
    the fives in it, and what remains of it is counted. -/
theorem foldl_after_replicate {s : Standing} {right : Bool} (hs : s.streak right = 0) (n : Nat) :
    ((List.replicate n right).foldl after s).difficulty.level =
        moved right (n / 5) s.difficulty.level ∧
      ((List.replicate n right).foldl after s).streak right = n % 5 := by
  induction n with
  | zero => exact ⟨(moved_zero s.difficulty.level_le right).symm, hs⟩
  | succ n ih =>
    rw [List.replicate_succ', List.foldl_concat]
    generalize (List.replicate n right).foldl after s = t at ih
    obtain ⟨hlevel, hstreak⟩ := ih
    -- behind `n` answers `n % 5` are counted, so every fifth one moves the level
    rcases t.after_cases right with ⟨hlt, hsame, hnext⟩ | ⟨hge, hmoved, hnext⟩
    · rw [hstreak] at hlt hnext
      have hdiv : (n + 1) / 5 = n / 5 := by omega
      have hmod : (n + 1) % 5 = n % 5 + 1 := by omega
      rw [hsame, hlevel, hdiv, hnext, hmod]
      exact ⟨rfl, rfl⟩
    · rw [hstreak] at hge
      have hdiv : (n + 1) / 5 = n / 5 + 1 := by omega
      have hmod : (n + 1) % 5 = 0 := by omega
      rw [hmoved, hlevel, hdiv, hnext, hmod]
      exact ⟨(moved_succ right (n / 5) _).symm, rfl⟩

/-- One run of answers moves the level, and leaves nothing counted of the other kind. -/
theorem foldl_after_run {s : Standing} {right : Bool} {run : List Bool}
    (hrun : right :: run = List.replicate (run.length + 1) right) (hs : s.streak right = 0) :
    ((right :: run).foldl after s).difficulty.level =
        levelAfter s.difficulty.level (right :: run) ∧
      ((right :: run).foldl after s).streak (!right) = 0 := by
  rw [levelAfter, hrun]
  refine ⟨(foldl_after_replicate hs (run.length + 1)).1, ?_⟩
  rw [List.replicate_succ', List.foldl_concat]
  exact streak_not_after _ right

/-- Runs of answers, each of the other kind than the one before, move the level one after
    the other. -/
theorem foldl_after_flatten {runs : List (List Bool)} (hne : [] ∉ runs)
    (hruns : ∀ run ∈ runs, run.IsChain (· = ·))
    (hchange : runs.IsChain fun a b => ∃ ha hb, a.getLast ha ≠ b.head hb) {s : Standing}
    (hs : ∀ right run, runs.head? = some (right :: run) → s.streak right = 0) :
    (runs.flatten.foldl after s).difficulty.level = runs.foldl levelAfter s.difficulty.level := by
  induction runs generalizing s with
  | nil => rfl
  | cons run runs ih =>
    obtain ⟨hhead, hbehind⟩ := List.isChain_cons.1 hchange
    obtain ⟨hrun, hrest⟩ := List.forall_mem_cons.1 hruns
    cases run with
    | nil => exact absurd List.mem_cons_self hne
    | cons right run =>
      have hsame : right :: run = List.replicate (run.length + 1) right :=
        congrArg (right :: ·) (List.isChain_cons_eq_iff_eq_replicate.1 hrun)
      obtain ⟨hlevel, hother⟩ := foldl_after_run hsame (hs right run rfl)
      rw [List.flatten_cons, List.foldl_append, List.foldl_cons (f := levelAfter), ← hlevel]
      refine ih (fun hmem => hne (List.mem_cons_of_mem _ hmem)) hrest hbehind ?_
      -- the next run is of the other kind, of which nothing is counted here
      intro right' run' hnext
      obtain ⟨_, _, hdiff⟩ := hhead _ hnext
      have hall : ∀ b ∈ right :: run, b = right := fun b hb =>
        List.eq_of_mem_replicate (hsame ▸ hb)
      rw [hall _ (List.getLast_mem _), List.head_cons] at hdiff
      rw [(Bool.eq_not_of_ne hdiff.symm : right' = !right)]
      exact hother

/-- Answers of which none is counted in the beginning move the level run by run. -/
theorem foldl_after {s : Standing} (hs : ∀ right, s.streak right = 0) (answers : List Bool) :
    (answers.foldl after s).difficulty.level =
      (answers.splitBy (· == ·)).foldl levelAfter s.difficulty.level := by
  have hruns : ∀ run ∈ answers.splitBy (· == ·), run.IsChain (· = ·) := fun run hrun =>
    (List.isChain_of_mem_splitBy hrun).imp fun _ _ h => beq_iff_eq.1 h
  have hchange : (answers.splitBy (· == ·)).IsChain fun a b =>
      ∃ ha hb, a.getLast ha ≠ b.head hb :=
    (List.isChain_getLast_head_splitBy (· == ·) answers).imp
      fun _ _ ⟨ha, hb, h⟩ => ⟨ha, hb, beq_eq_false_iff_ne.1 h⟩
  have hflatten := foldl_after_flatten (List.nil_notMem_splitBy _ _) hruns hchange
    fun right _ _ => hs right
  rwa [List.flatten_splitBy] at hflatten

/-! ## The counts -/

/-- Both counts are below five, and only one kind of answers is counted. -/
structure IsShort (s : Standing) : Prop where
  /-- The right answers. -/
  right : s.rightStreak < 5
  /-- The wrong answers. -/
  wrong : s.wrongStreak < 5
  /-- One of the two. -/
  one : s.rightStreak = 0 ∨ s.wrongStreak = 0

theorem IsShort.after (s : Standing) (right : Bool) : (s.after right).IsShort := by
  have hother := s.streak_not_after right
  have hown : (s.after right).streak right < 5 := by
    rcases s.after_cases right with ⟨hlt, -, hnext⟩ | ⟨-, -, hnext⟩ <;> omega
  cases right with
  | true =>
    replace hother : (s.after true).wrongStreak = 0 := hother
    exact ⟨hown, by omega, .inr hother⟩
  | false =>
    replace hother : (s.after false).rightStreak = 0 := hother
    exact ⟨by omega, hown, .inl hother⟩

theorem isShort_foldl_after {s : Standing} (hs : s.IsShort) (answers : List Bool) :
    (answers.foldl Standing.after s).IsShort := by
  induction answers generalizing s with
  | nil => exact hs
  | cons right answers ih => exact ih (.after s right)

end Standing

/-! ## Games -/

namespace Game

variable {ρ : Type}

/-- Whether a call grades a right answer; nothing if it grades none. -/
def Call.outcome? : Call → Option Bool
  | .next => none
  | .grade q answered => some (Grade.isRight ⟨q.curvature, answered⟩)

/-- Which of the answers that are graded are right, in order. -/
def outcomes (calls : List Call) : List Bool :=
  calls.filterMap Call.outcome?

theorem standing_pose (g : Game ρ) (text : String) : (g.pose text).1.standing = g.standing := by
  rw [pose.eq_def]
  split <;> rfl

variable [RandomSource ρ]

/-- Drawing a question leaves the standing of the player, also where it fails. -/
theorem standing_next (g : Game ρ) : g.next.1.standing = g.standing := by
  rw [next.eq_def]
  split
  exact standing_pose _ _

theorem standing_run (g : Game ρ) (calls : List Call) :
    (g.run calls).standing = (outcomes calls).foldl Standing.after g.standing := by
  induction calls generalizing g with
  | nil => rfl
  | cons c calls ih =>
    have hrun : (g.run (c :: calls)).standing =
        (outcomes calls).foldl Standing.after (g.perform c).standing := ih _
    cases c with
    | next => rw [hrun, perform, standing_next, outcomes, outcomes, List.filterMap_cons_none rfl]
    | grade q answered => exact hrun

/-- The level of a game that began at any difficulty, after any calls: the right and wrong
    answers among them are cut into runs, as long as they can be, and each run moves the
    level by the fives in it, up or down as far as there are levels. Neither of the counts
    reaches five, one of them is zero, and drawing a question changes nothing of this. -/
theorem run_level (source : ρ) (atoms : Registry) (difficulty : Difficulty)
    (calls : List Call) :
    let g := Game.run { source, atoms, standing := { difficulty } } calls
    g.standing.difficulty.level =
        ((outcomes calls).splitBy (· == ·)).foldl levelAfter difficulty.level ∧
      g.standing.IsShort ∧ g.next.1.standing = g.standing := by
  intro g
  have hnew : ∀ right, Standing.streak { difficulty } right = 0 := by
    intro right
    cases right <;> rfl
  refine ⟨?_, ?_, standing_next g⟩ <;> rw [standing_run]
  · exact Standing.foldl_after hnew (outcomes calls)
  · exact Standing.isShort_foldl_after ⟨Nat.succ_pos 4, Nat.succ_pos 4, .inl rfl⟩ (outcomes calls)

/-- Nine right answers, a wrong one and six right ones raise the level twice. -/
example : ((List.replicate 9 true ++ false :: List.replicate 6 true).splitBy (· == ·)).foldl
    levelAfter 0 = 2 := by decide

end Game

end ConvexLang.Quiz
