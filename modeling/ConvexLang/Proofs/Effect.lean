import ConvexLang.Session

/-!
# What a text leaves behind

A text takes effect line by line, up to its first failing line. The lines in front
of that line are accepted one after the other (`Session.Accepts`), each over the
session that the lines before it have led to. The failing line and all lines behind
it leave nothing behind: the session is the one that the accepted lines led to.

* `Session.Accepts.statements`: the statements among accepted lines are kept, in
  their order.
* `Session.readText_effect`: which session a text leads to, and which line the
  failure is about if there is one.
-/

namespace ConvexLang

/-- The statement a line is, if it is one. -/
def Line.statement? : Line → Option Statement
  | .statement t => some t
  | _ => none

namespace Session

variable {s s' : Session} {line : String} {lines : List String}

/-! ## Accepted lines -/

/-- The lines are accepted one after the other, as what the results say, and lead
    from the first session to the second. -/
inductive Accepts : Session → List String → List Line → Session → Prop
  | nil {s : Session} : Accepts s [] [] s
  | cons {s s' : Session} {line : String} {lines : List String} {l : Line} {ls : List Line} :
    ConvexLang.readLine s.scope line = .ok l → Accepts (s.apply l) lines ls s' →
      Accepts s (line :: lines) (l :: ls) s'

theorem statements_apply (s : Session) (l : Line) :
    (s.apply l).statements = s.statements ++ l.statement?.toList := by
  cases l <;> simp [apply, Line.statement?]

/-- The statements among accepted lines are kept, in their order. -/
theorem Accepts.statements {ls : List Line} (h : s.Accepts lines ls s') :
    s'.statements = s.statements ++ ls.filterMap Line.statement? := by
  induction h with
  | nil => simp
  | @cons s s' line lines l ls _ _ ih =>
    rw [ih, statements_apply, List.append_assoc]
    cases hl : l.statement? <;> simp [hl]

/-- A line that is accepted with others is accepted over the session that the lines in
    front of it lead to. -/
theorem Accepts.take {ls : List Line} {k : Nat} (h : s.Accepts lines ls s')
    (hk : lines[k]? = some line) : ∃ t ls' l, s.Accepts (lines.take k) ls' t ∧
      ConvexLang.readLine t.scope line = .ok l := by
  induction h generalizing k with
  | nil => cases hk
  | @cons s s' first lines l ls hfirst _ ih =>
    cases k with
    | zero =>
      cases hk
      exact ⟨s, [], l, .nil, hfirst⟩
    | succ k =>
      obtain ⟨t, ls', l', hls', hl'⟩ := ih hk
      exact ⟨t, l :: ls', l', .cons hfirst hls', hl'⟩

/-! ## One line -/

theorem readLine_eq_ok_iff {l : Line} :
    s.readLine line = (s', .ok l) ↔ ConvexLang.readLine s.scope line = .ok l ∧ s' = s.apply l := by
  rw [Session.readLine]
  cases ConvexLang.readLine s.scope line with
  | error d => simp
  | ok l' =>
    simp only [Prod.mk.injEq, Except.ok.injEq]
    constructor <;>
    · rintro ⟨rfl, rfl⟩
      exact ⟨rfl, rfl⟩

/-- A line that fails leaves the session as it was. -/
theorem readLine_eq_error_iff {d : Diagnostic} :
    s.readLine line = (s', .error d) ↔
      ConvexLang.readLine s.scope line = .error d ∧ s' = s := by
  rw [Session.readLine]
  cases ConvexLang.readLine s.scope line with
  | error d' => simp [and_comm, eq_comm]
  | ok l => simp

/-! ## Several lines -/

theorem readLines_eq_ok_iff {number : Nat} :
    s.readLines number lines = (s', .ok ()) ↔ ∃ ls, s.Accepts lines ls s' := by
  induction lines generalizing s number with
  | nil =>
    rw [readLines]
    constructor
    · intro h
      cases h
      exact ⟨[], .nil⟩
    · rintro ⟨_, _ | _⟩
      rfl
  | cons line lines ih =>
    rw [readLines]
    split
    · rename_i s'' d hread
      obtain ⟨hline, -⟩ := readLine_eq_error_iff.1 hread
      constructor
      · intro h
        cases h
      · rintro ⟨_, _ | ⟨hok, _⟩⟩
        rw [hline] at hok
        cases hok
    · rename_i s'' l hread
      obtain ⟨hline, rfl⟩ := readLine_eq_ok_iff.1 hread
      rw [ih]
      constructor
      · rintro ⟨ls, h⟩
        exact ⟨l :: ls, .cons hline h⟩
      · rintro ⟨_, _ | ⟨hok, h⟩⟩
        rw [hline] at hok
        cases hok
        exact ⟨_, h⟩

/-- The line that has `k` others in front of it is the first one to fail: those in
    front of it are accepted and lead to the session `s'`, over which it has the
    fault. -/
structure FailsAt (s : Session) (lines : List String) (k : Nat) (line : String)
    (fault : Diagnostic) (s' : Session) : Prop where
  /-- The line stands behind `k` others. -/
  stands : lines[k]? = some line
  /-- The lines in front of it are accepted. -/
  accepted : ∃ ls, s.Accepts (lines.take k) ls s'
  /-- The line is not. -/
  fails : ConvexLang.readLine s'.scope line = .error fault

theorem failsAt_zero_iff {first : String} {fault : Diagnostic} :
    s.FailsAt (first :: lines) 0 line fault s' ↔
      line = first ∧ ConvexLang.readLine s.scope first = .error fault ∧ s' = s := by
  constructor
  · rintro ⟨hline, ⟨_, _ | _⟩, hfails⟩
    obtain rfl : first = line := Option.some.inj hline
    exact ⟨rfl, hfails, rfl⟩
  · rintro ⟨rfl, hfails, rfl⟩
    exact ⟨rfl, ⟨[], .nil⟩, hfails⟩

theorem failsAt_succ_iff {first : String} {k : Nat} {fault : Diagnostic} :
    s.FailsAt (first :: lines) (k + 1) line fault s' ↔
      ∃ l, ConvexLang.readLine s.scope first = .ok l ∧
        (s.apply l).FailsAt lines k line fault s' := by
  constructor
  · rintro ⟨hline, ⟨_, _ | ⟨hok, haccepted⟩⟩, hfails⟩
    exact ⟨_, hok, hline, ⟨_, haccepted⟩, hfails⟩
  · rintro ⟨l, hok, hline, ⟨ls, haccepted⟩, hfails⟩
    exact ⟨hline, ⟨l :: ls, .cons hok haccepted⟩, hfails⟩

theorem readLines_eq_error_iff {number : Nat} {d : Diagnostic} :
    s.readLines number lines = (s', .error d) ↔ ∃ k line fault,
      s.FailsAt lines k line fault s' ∧ d = fault.inLine (number + k) line := by
  induction lines generalizing s number with
  | nil =>
    rw [readLines]
    constructor
    · intro h
      cases h
    · rintro ⟨k, line, fault, ⟨hline, -, -⟩, -⟩
      cases hline
  | cons first lines ih =>
    rw [readLines]
    split
    · rename_i s'' fault hread
      obtain ⟨hfirst, rfl⟩ := readLine_eq_error_iff.1 hread
      constructor
      · intro h
        cases h
        exact ⟨0, first, fault, failsAt_zero_iff.2 ⟨rfl, hfirst, rfl⟩, rfl⟩
      · rintro ⟨_ | k, line, fault', hfails, rfl⟩
        · obtain ⟨rfl, hfault, rfl⟩ := failsAt_zero_iff.1 hfails
          rw [hfirst] at hfault
          cases hfault
          rfl
        · obtain ⟨l, hok, -⟩ := failsAt_succ_iff.1 hfails
          rw [hfirst] at hok
          cases hok
    · rename_i s'' l hread
      obtain ⟨hfirst, rfl⟩ := readLine_eq_ok_iff.1 hread
      rw [ih]
      constructor
      · rintro ⟨k, line, fault, hfails, rfl⟩
        refine ⟨k + 1, line, fault, failsAt_succ_iff.2 ⟨l, hfirst, hfails⟩, ?_⟩
        rw [Nat.add_right_comm, Nat.add_assoc]
      · rintro ⟨_ | k, line, fault, hfails, rfl⟩
        · obtain ⟨-, hfault, -⟩ := failsAt_zero_iff.1 hfails
          rw [hfirst] at hfault
          cases hfault
        · obtain ⟨l', hok, hfails⟩ := failsAt_succ_iff.1 hfails
          rw [hfirst] at hok
          cases hok
          refine ⟨k, line, fault, hfails, ?_⟩
          rw [Nat.add_right_comm, Nat.add_assoc]

/-! ## Texts -/

/-- The effect of a text. It is accepted where all of its lines are, one after the
    other, and then all of them take effect. It fails where one of its lines is the
    first to fail; then the lines in front of that line take effect, and no other
    does. The failure carries the number of the line, counted from one, and its text.
    A single line that fails changes nothing. -/
theorem readText_effect (s : Session) (text : String) :
    (∀ s', s.readText text = (s', .ok ()) ↔ ∃ ls, s.Accepts (Text.lines text) ls s') ∧
    (∀ s' d, s.readText text = (s', .error d) ↔ ∃ k line fault,
      s.FailsAt (Text.lines text) k line fault s' ∧ d = fault.inLine (k + 1) line ∧
        d.source.map SourceLine.title = some ("line " ++ Decimal.ofNat (k + 1))) ∧
    ∀ line s' d, s.readLine line = (s', .error d) ↔
      ConvexLang.readLine s.scope line = .error d ∧ s' = s := by
  refine ⟨fun s' => readLines_eq_ok_iff, fun s' d => ?_, fun line s' d => readLine_eq_error_iff⟩
  rw [readText, readLines_eq_error_iff]
  constructor
  · rintro ⟨k, line, fault, hfails, rfl⟩
    rw [Nat.add_comm 1 k]
    exact ⟨k, line, fault, hfails, rfl, rfl⟩
  · rintro ⟨k, line, fault, hfails, rfl, -⟩
    rw [Nat.add_comm k 1]
    exact ⟨k, line, fault, hfails, rfl⟩

end Session

end ConvexLang
