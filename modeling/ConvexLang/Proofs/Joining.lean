import ConvexLang.Analyzer
import ConvexLang.Proofs.Effect
import ConvexLang.Proofs.Lines
import ConvexLang.Proofs.Trimming

/-!
# Texts in one piece or in two

An analyzer reads a text line by line, and what it keeps from one line to the next is what
it keeps from one text to the next. So it makes no difference whether two texts come one
after the other or joined by a newline.

The newline between them shows in three places. It makes an empty line out of an empty
text, and out of the end of a text that ends in a newline: such a line is skipped. It
turns a carriage return before it into a part of the line end: behind a line that is a
gap, and blank. And the lines of the second text are counted from another number, which
shows in failures (`Diagnostic.later`).

By the grammar a text that fails keeps what stands behind it from being read. The joined
text then fails as well, in the same session.

* `Session.readLines_append`, `Scanner.foldl_read_isEnded`: the two ways of reading.
* `Analyzer.analyze_joined`: both.
-/

namespace ConvexLang

/-- The diagnostic, its line being counted with `count` more in front of it. -/
def Diagnostic.later (count : Nat) (d : Diagnostic) : Diagnostic :=
  { d with source := d.source.map fun l => { l with number := l.number + count } }

theorem Diagnostic.later_inLine (count number : Nat) (line : String) (d : Diagnostic) :
    (d.inLine number line).later count = d.inLine (number + count) line :=
  rfl

/-! ## By the grammar -/

/-- A carriage return behind a line does not change what the line is read as. -/
theorem readLine_append_carriageReturn {scope : Scope} {line : String} {l : Line}
    (hline : '\n' ∉ line.toList) :
    readLine scope (line ++ "\r") = .ok l ↔ readLine scope line = .ok l := by
  have hconcat : (line ++ "\r").toList = line.toList ++ ['\r'] := String.toList_append
  have hnewline : '\n' ∉ line.toList ++ ['\r'] := by simpa using hline
  rw [readLine_eq_ok_iff_kinds, readLine_eq_ok_iff_kinds, hconcat, kinds?_concat_gap rfl hnewline]

theorem readLine_empty (scope : Scope) : readLine scope "" = .ok .empty :=
  readLine_eq_ok_iff_kinds.2 ⟨[], kinds?_nil, rfl⟩

namespace Session

variable {s : Session} {number : Nat}

/-- Lines are read behind others over the session that these lead to, unless one of them
    fails. -/
theorem readLines_append (s : Session) (number : Nat) (as bs : List String) :
    s.readLines number (as ++ bs) =
      match s.readLines number as with
      | (s', .error d) => (s', .error d)
      | (s', .ok _) => s'.readLines (number + as.length) bs := by
  induction as generalizing s number with
  | nil => rfl
  | cons line as ih =>
    rw [List.cons_append, readLines, readLines]
    rcases s.readLine line with ⟨s', d | l⟩
    · rfl
    · dsimp only
      rw [ih, List.length_cons, Nat.add_right_comm, Nat.add_assoc]

/-- Lines that are counted from another number fail with that other number. -/
theorem readLines_later (s : Session) (number count : Nat) (lines : List String) :
    s.readLines (number + count) lines =
      ((s.readLines number lines).1, (s.readLines number lines).2.mapError (.later count)) := by
  induction lines generalizing s number with
  | nil => rfl
  | cons line lines ih =>
    rw [readLines, readLines]
    rcases s.readLine line with ⟨s', d | l⟩
    · dsimp only [Except.mapError]
      rw [Diagnostic.later_inLine]
    · dsimp only
      rw [Nat.add_right_comm, ih]

/-- Whether one line is read, and what it leads to, is not a matter of a carriage return
    behind it. -/
theorem readLines_carriageReturn {line : String} (hline : '\n' ∉ line.toList) :
    (s.readLines number [line]).1 = (s.readLines number [line ++ "\r"]).1 ∧
      (s.readLines number [line]).2.toOption = (s.readLines number [line ++ "\r"]).2.toOption := by
  simp only [readLines, readLine]
  cases hread : ConvexLang.readLine s.scope line with
  | ok l =>
    rw [(readLine_append_carriageReturn hline).2 hread]
    exact ⟨rfl, rfl⟩
  | error d =>
    cases hread' : ConvexLang.readLine s.scope (line ++ "\r") with
    | ok l =>
      rw [(readLine_append_carriageReturn hline).1 hread'] at hread
      cases hread
    | error d' => exact ⟨rfl, rfl⟩

/-- A newline behind the lines changes neither whether they are read nor what they lead
    to. -/
theorem readLines_isEnded (s : Session) (number : Nat) {ls ls' : List String}
    (h : Text.IsEnded ls ls') :
    (s.readLines number ls').1 = (s.readLines number ls).1 ∧
      (s.readLines number ls').2.toOption = (s.readLines number ls).2.toOption := by
  cases h with
  | line => exact ⟨rfl, rfl⟩
  | @carriageReturn ls l hl =>
    rw [readLines_append, readLines_append]
    rcases s.readLines number ls with ⟨s', d | _⟩
    · exact ⟨rfl, rfl⟩
    · exact readLines_carriageReturn hl
  | empty =>
    rw [readLines_append]
    rcases s.readLines number ls with ⟨s', d | _⟩
    · exact ⟨rfl, rfl⟩
    · have hempty : s'.readLine "" = (s', .ok .empty) :=
        readLine_eq_ok_iff.2 ⟨readLine_empty s'.scope, rfl⟩
      dsimp only
      rw [readLines, hempty]
      exact ⟨rfl, rfl⟩

/-- A text that is read is left behind for the one that is joined to it. -/
theorem readText_joined_of_ok {s' : Session} {t : String} (h : s.readText t = (s', .ok ()))
    (u : String) : s.readText (t ++ "\n" ++ u) =
      ((s'.readText u).1, (s'.readText u).2.mapError (.later (t.toList.count '\n' + 1))) := by
  obtain ⟨hstate, hoption⟩ := readLines_isEnded s 1 (Text.isEnded_lines t)
  rw [readText] at h
  rw [h] at hstate hoption
  rw [readText, Text.lines_joined, readLines_append]
  rcases hended : s.readLines 1 (Text.lines (t ++ "\n")) with ⟨s'', d | _⟩
  · rw [hended] at hoption
    cases hoption
  · rw [hended] at hstate
    obtain rfl : s'' = s' := hstate
    rw [Text.length_lines_concat_newline, readText, ← readLines_later]

/-- A text that fails does so also in front of another one, which is not read then. -/
theorem readText_joined_of_error {s' : Session} {t : String} {d : Diagnostic}
    (h : s.readText t = (s', .error d)) (u : String) :
    ∃ d', s.readText (t ++ "\n" ++ u) = (s', .error d') := by
  obtain ⟨hstate, hoption⟩ := readLines_isEnded s 1 (Text.isEnded_lines t)
  rw [readText] at h
  rw [h] at hstate hoption
  rw [readText, Text.lines_joined, readLines_append]
  rcases hended : s.readLines 1 (Text.lines (t ++ "\n")) with ⟨s'', d' | _⟩
  · rw [hended] at hstate
    obtain rfl : s'' = s' := hstate
    exact ⟨d', rfl⟩
  · rw [hended] at hoption
    cases hoption

end Session

/-! ## By the scanner -/

namespace Scanner

/-- Blanks around a text make no difference to the scanner. -/
theorem read_congr {s : Scanner} {t u : String} (h : Text.trim t = Text.trim u) :
    s.read t = s.read u := by
  rw [read, read, h]

theorem trim_append_carriageReturn (line : String) : Text.trim (line ++ "\r") = Text.trim line := by
  have hconcat : (line ++ "\r").toList = line.toList ++ ['\r'] := String.toList_append
  have hblank : ∀ c ∈ ['\r'], Text.isBlank c = true := List.all_eq_true.1 (by decide +kernel)
  rw [Text.trim, Text.trim, hconcat, Text.trimChars_append_blanks _ hblank]

/-- Whether a line is read: whether something is left of it without the blanks around it. -/
def isFull (line : String) : Bool :=
  ¬(Text.trim line).isEmpty

/-- A newline behind the lines does not change what they lead to. -/
theorem foldl_read_isEnded (s : Scanner) {ls ls' : List String} (h : Text.IsEnded ls ls') :
    (ls'.filter isFull).foldl read s = (ls.filter isFull).foldl read s := by
  cases h with
  | line => rfl
  | @carriageReturn ls l _ =>
    have htrim := trim_append_carriageReturn l
    have hfull : isFull (l ++ "\r") = isFull l := by rw [isFull, isFull, htrim]
    simp only [List.filter_append, List.foldl_append, List.filter_singleton, hfull]
    cases isFull l with
    | false => rfl
    | true =>
      rw [cond_true, cond_true, List.foldl_cons, List.foldl_cons, read_congr htrim]
  | empty =>
    have hempty : isFull "" = false := by decide
    simp [List.filter_append, hempty]

end Scanner

/-! ## Both -/

namespace Analyzer

/-- The lines of two texts that are full, with a newline between the texts. -/
theorem foldl_read_joined (s : Scanner) (t u : String) :
    (fullLines (t ++ "\n" ++ u)).foldl Scanner.read s =
      (fullLines u).foldl Scanner.read ((fullLines t).foldl Scanner.read s) := by
  have hfull (text : String) : fullLines text = (Text.lines text).filter Scanner.isFull := rfl
  rw [hfull, hfull, hfull, Text.lines_joined, List.filter_append, List.foldl_append,
    s.foldl_read_isEnded (Text.isEnded_lines t)]

/-- It makes no difference whether two texts are read one after the other or joined by a
    newline. The scanner ends up in the same state with the same answer. So does the grammar
    if all lines of the first text are read, except that the line that a failure is about
    has another number; if one of them fails, the joined text fails, too, and leaves what
    the first text leaves. -/
theorem analyze_joined (a : Analyzer) (t u : String) :
    let joined := a.analyze (t ++ "\n" ++ u)
    let first := a.analyze t
    let second := first.1.analyze u
    match a.backend with
    | .fallback _ => joined = second
    | .grammar s =>
      match (s.readText t).2 with
      | .ok _ => joined = (second.1, second.2.mapError (.later (t.toList.count '\n' + 1)))
      | .error d => first.2 = .error d ∧ joined.1 = first.1 ∧ ∃ d', joined.2 = .error d' := by
  intro joined first second
  obtain ⟨s | s, pretty⟩ := a
  · dsimp only
    rcases hread : s.readText t with ⟨s', d | _⟩
    · have hfirst : first = (⟨.grammar s', pretty⟩, .error d) := by
        simp only [first, analyze, hread]
      obtain ⟨d', hjoined⟩ := Session.readText_joined_of_error hread u
      have hjoined : joined = (⟨.grammar s', pretty⟩, .error d') := by
        simp only [joined, analyze, hjoined]
      rw [hfirst, hjoined]
      exact ⟨rfl, rfl, d', rfl⟩
    · have hfirst : first.1 = ⟨.grammar s', pretty⟩ := by
        simp only [first, analyze, hread]
      have hjoined := Session.readText_joined_of_ok hread u
      simp only [joined, second, hfirst, analyze, hjoined]
      rcases s'.readText u with ⟨s'', d | _⟩
      · rfl
      · -- the answer is the last statement, or a failure that is about no line
        dsimp only [Except.mapError]
        rw [answer]
        split <;> rfl
  · have hfirst : first.1 = ⟨.fallback ((fullLines t).foldl Scanner.read s), pretty⟩ := rfl
    simp only [joined, second, hfirst, analyze, foldl_read_joined]

end Analyzer

end ConvexLang
