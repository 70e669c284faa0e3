import ConvexLang.Proofs.Prompt.Parentheses

/-!
# Gathering lines

A statement may be continued over several lines. The prompt holds lines back while
their parentheses are open, joins them by blanks and reads what it has joined when the
last parenthesis is closed.

Joined by blanks, the lines are one line. A comment then goes on behind the line it was
written on: it hides the lines that follow, and their parentheses with them. So the
prompt counts the parentheses up to the first comment only (`openParens_joined`), and
those are open unless that comment stands on the last line.

* `Prompt.runFrom_gathering`: lines behind which parentheses are open are held back.
* `Prompt.runFrom_continued`: lines that are continued are read as one line when the
  last one comes, if no line but the last has a comment. If another one has, all of
  them are still held back then.
* `Prompt.continued_comment_unread`: there are such lines.
-/

namespace ConvexLang

namespace Prompt

theorem openParens_codeOf_trim (cs : List Char) :
    openParens (codeOf (Text.trimChars cs)) = openParens (codeOf cs) := by
  obtain ⟨as, bs, hcs, has, hbs⟩ := exists_blanks_trim cs
  conv_rhs => rw [hcs]
  rw [codeOf_append, if_neg (hash_not_mem_of_blanks has), openParens_append,
    openParens_of_blanks has, zero_add, codeOf_append]
  split
  · rfl
  · rename_i h
    rw [openParens_append, codeOf_eq_self h, codeOf_eq_self (hash_not_mem_of_blanks hbs),
      openParens_of_blanks hbs, add_zero]

/-! ## Joined lines -/

/-- The lines, joined by blanks and without the blanks around each of them. -/
def joined (lines : List String) : String :=
  " ".intercalate (lines.map Text.trim)

/-- How many more parentheses the lines open than they close, in the code of each. -/
def openIn (lines : List String) : Int :=
  (lines.map fun line => openParens (codeOf line.toList)).sum

variable {line : String} {lines : List String}

theorem toList_joined_singleton (line : String) :
    (joined [line]).toList = Text.trimChars line.toList := by
  simp [joined, Text.trim]

theorem toList_joined_cons (line : String) (h : lines ≠ []) :
    (joined (line :: lines)).toList =
      Text.trimChars line.toList ++ ' ' :: (joined lines).toList := by
  simp [joined, Text.trim, List.intercalate_cons_of_ne_nil, h]

theorem joined_concat (h : lines ≠ []) :
    joined (lines ++ [line]) = joined lines ++ " " ++ Text.trim line := by
  induction lines with
  | nil => exact absurd rfl h
  | cons first lines ih =>
    apply String.toList_inj.1
    cases lines with
    | nil => simp [toList_joined_cons, toList_joined_singleton, Text.trim]
    | cons second lines =>
      rw [List.cons_append, toList_joined_cons first (by simp), ih (by simp)]
      simp [toList_joined_cons]

/-- The lines up to the first one with a comment. -/
def counted : List String → List String
  | [] => []
  | line :: lines => if '#' ∈ line.toList then [line] else line :: counted lines

theorem counted_eq_self (h : ∀ line ∈ lines.dropLast, '#' ∉ line.toList) :
    counted lines = lines := by
  induction lines with
  | nil => rfl
  | cons line lines ih =>
    cases lines with
    | nil => simp [counted]
    | cons second lines =>
      rw [List.dropLast_cons_cons] at h
      rw [counted, if_neg (h line List.mem_cons_self),
        ih fun l hl => h l (List.mem_cons_of_mem line hl)]

/-- Where a line has a comment and is not the last, some lines are not counted. -/
theorem exists_counted_eq_take (h : line ∈ lines.dropLast) (hline : '#' ∈ line.toList) :
    ∃ k, 0 < k ∧ k < lines.length ∧ counted lines = lines.take k := by
  induction lines with
  | nil => cases h
  | cons first lines ih =>
    cases lines with
    | nil => cases h
    | cons second lines =>
      rw [List.dropLast_cons_cons] at h
      by_cases hfirst : '#' ∈ first.toList
      · exact ⟨1, by simp, by simp, by simp [counted, hfirst]⟩
      · have hmem : line ∈ (second :: lines).dropLast := by
          rcases List.mem_cons.1 h with rfl | h
          · exact absurd hline hfirst
          · exact h
        obtain ⟨k, -, hlt, hk⟩ := ih hmem
        refine ⟨k + 1, Nat.succ_pos k, Nat.succ_lt_succ hlt, ?_⟩
        rw [counted, if_neg hfirst, hk, List.take_succ_cons]

/-- The prompt counts the parentheses of joined lines up to the first comment. -/
theorem openParens_joined (lines : List String) :
    openParens (codeOf (joined lines).toList) = openIn (counted lines) := by
  induction lines with
  | nil => rfl
  | cons line lines ih =>
    cases lines with
    | nil =>
      rw [toList_joined_singleton, openParens_codeOf_trim]
      simp [counted, openIn]
    | cons second lines =>
      rw [toList_joined_cons line (by simp), codeOf_append, counted]
      simp only [hash_mem_trim_iff]
      split
      · rw [openParens_codeOf_trim]
        simp [openIn]
      · rename_i h
        have hblank : codeOf (' ' :: (joined (second :: lines)).toList) =
            ' ' :: codeOf (joined (second :: lines)).toList := rfl
        have hcode : openParens (Text.trimChars line.toList) = openParens (codeOf line.toList) := by
          rw [openParens_trim, codeOf_eq_self h]
        have hweight : charWeight ' ' = 0 := rfl
        rw [hblank, openParens_append, openParens_cons, hweight, zero_add, ih, hcode]
        simp [openIn]

/-! ## Parts -/

/-- The line can be a part of a statement: it is one line, it is not blank, and its
    characters can be read, as the given kinds. -/
structure IsPart (line : String) (ks : List TokenKind) : Prop where
  /-- It is one line. -/
  single : '\n' ∉ (Text.trim line).toList
  /-- It is not blank. -/
  filled : Text.trim line ≠ ""
  /-- It can be read, as these kinds. -/
  kinds : kinds? line.toList = some ks

instance (line : String) (ks : List TokenKind) : Decidable (IsPart line ks) :=
  decidable_of_iff
    ('\n' ∉ (Text.trim line).toList ∧ Text.trim line ≠ "" ∧ kinds? line.toList = some ks)
    ⟨fun ⟨h, h', h''⟩ => ⟨h, h', h''⟩, fun ⟨h, h', h''⟩ => ⟨h, h', h''⟩⟩

theorem IsPart.kinds?_trim {ks : List TokenKind} (h : IsPart line ks) :
    kinds? (Text.trimChars line.toList) = some ks := by
  refine ConvexLang.kinds?_trim ?_ h.kinds
  simpa [Text.trim] using h.single

/-- A part is no command. -/
theorem IsPart.head?_ne_colon {ks : List TokenKind} (h : IsPart line ks) :
    (Text.trim line).toList.head? ≠ some ':' := by
  rw [Text.trim, String.toList_ofList]
  exact head?_ne_colon_of_kinds? h.kinds?_trim

variable {kss : List (List TokenKind)}

theorem exists_isPart (h : List.Forall₂ IsPart lines kss) (hline : line ∈ lines) :
    ∃ ks, IsPart line ks := by
  induction h with
  | nil => cases hline
  | cons hfirst _ ih =>
    rcases List.mem_cons.1 hline with rfl | hline
    · exact ⟨_, hfirst⟩
    · exact ih hline

/-- Without comments, joined parts have the kinds of all of them. -/
theorem kinds?_joined (h : List.Forall₂ IsPart lines kss)
    (hcomment : ∀ line ∈ lines.dropLast, '#' ∉ line.toList) :
    kinds? (joined lines).toList = some kss.flatten := by
  induction h with
  | nil => exact kinds?_nil
  | @cons line ks lines kss hline hlines ih =>
    cases hlines with
    | nil =>
      rw [toList_joined_singleton, hline.kinds?_trim]
      simp
    | @cons second ls lines kss hsecond hlines =>
      rw [List.dropLast_cons_cons] at hcomment
      have hdetached : Detached (' ' :: (joined (second :: lines)).toList) :=
        detached_cons (by decide) _
      have hhash : '#' ∉ Text.trimChars line.toList := fun h =>
        hcomment line List.mem_cons_self (hash_mem_trim_iff.1 h)
      have hrest := ih fun l hl => hcomment l (List.mem_cons_of_mem line hl)
      rw [toList_joined_cons line (by simp), kinds?_append hhash hdetached, hline.kinds?_trim,
        kinds?_gap rfl, hrest]
      simp

/-- Parts are not blank when they are joined. -/
theorem trimChars_joined_ne_nil (h : ∀ line ∈ lines, ∃ ks, IsPart line ks) (hne : lines ≠ []) :
    Text.trimChars (joined lines).toList ≠ [] := by
  intro hblank
  rw [trimChars_eq_nil_iff] at hblank
  cases lines with
  | nil => exact hne rfl
  | cons line lines =>
    obtain ⟨ks, hline⟩ := h line List.mem_cons_self
    refine hline.filled (trim_eq_empty (trimChars_eq_nil_iff.2 fun c hc => hblank c ?_))
    rw [Text.trim, String.toList_ofList] at hc
    cases lines with
    | nil => rwa [toList_joined_singleton]
    | cons second lines =>
      rw [toList_joined_cons line (by simp)]
      exact List.mem_append_left _ hc

theorem isEmpty_joined (h : ∀ line ∈ lines, ∃ ks, IsPart line ks) :
    (joined lines).isEmpty = lines.isEmpty := by
  cases lines with
  | nil => rfl
  | cons first lines =>
    rw [List.isEmpty_cons, ← Bool.not_eq_true, String.isEmpty_iff]
    intro hempty
    refine trimChars_joined_ne_nil h (by simp) ?_
    rw [hempty]
    rfl

/-! ## Steps -/

section Steps

variable (a : Analyzer)

/-- A line is gathered behind the others. -/
theorem gather_joined (h : ∀ l ∈ lines, ∃ ks, IsPart l ks) (line : String) :
    gather (joined lines) (Text.trim line) = joined (lines ++ [line]) := by
  rw [gather, isEmpty_joined h]
  cases lines with
  | nil => rfl
  | cons first lines =>
    rw [joined_concat (by simp)]
    rfl

/-- The line is held back with the others where parentheses are open behind those that
    are counted. -/
theorem step_open (h : ∀ l ∈ lines ++ [line], ∃ ks, IsPart l ks)
    (hopen : 0 < openIn (counted (lines ++ [line]))) :
    step ⟨a, joined lines⟩ (.text line) = (some ⟨a, joined (lines ++ [line])⟩, []) := by
  obtain ⟨ks, hline⟩ := h line (by simp)
  have hgather := gather_joined (fun l hl => h l (List.mem_append_left _ hl)) line
  have hcomplete : isComplete (joined (lines ++ [line])) = false := by
    rw [← Bool.not_eq_true, isComplete_iff (trimChars_joined_ne_nil h (by simp)),
      openParens_joined, not_le]
    exact hopen
  have htake : take ⟨a, joined lines⟩ (Text.trim line) = (⟨a, joined (lines ++ [line])⟩, []) :=
    take_of_not_isComplete hgather hcomplete hline.filled
  rw [step_text fun _ => hline.head?_ne_colon, htake]

/-- The line is read with the others where no parenthesis is open behind those that are
    counted. -/
theorem step_closed (h : ∀ l ∈ lines ++ [line], ∃ ks, IsPart l ks)
    (hclosed : openIn (counted (lines ++ [line])) ≤ 0) :
    step ⟨a, joined lines⟩ (.text line) =
      (some ⟨(evaluate a (joined (lines ++ [line]))).1, ""⟩,
        (evaluate a (joined (lines ++ [line]))).2.1) := by
  obtain ⟨ks, hline⟩ := h line (by simp)
  have hgather := gather_joined (fun l hl => h l (List.mem_append_left _ hl)) line
  have hblank := trimChars_joined_ne_nil h (by simp)
  have hcomplete : isComplete (joined (lines ++ [line])) = true := by
    rw [isComplete_iff hblank, openParens_joined]
    exact hclosed
  have htake : take ⟨a, joined lines⟩ (Text.trim line) = _ :=
    take_of_isComplete hgather hcomplete hblank
  rw [step_text fun _ => hline.head?_ne_colon, htake]

/-! ## Runs -/

/-- What asks for the lines of a statement: once for a new one, then for more of it. -/
def asks : Nat → Output
  | 0 => []
  | n + 1 => asks n ++ Output.plain (if n = 0 then "dcp> " else "  -> ")

theorem runFrom_cons {p p' : Prompt} {input : InputLine} {output : Output}
    (h : p.step input = (some p', output)) (rest : List InputLine) :
    runFrom p (input :: rest) =
      ((runFrom p' rest).1, p.ask ++ output ++ (runFrom p' rest).2) := by
  rw [runFrom, h]

theorem ask_joined (h : ∀ l ∈ lines, ∃ ks, IsPart l ks) :
    asks (lines.length + 1) = asks lines.length ++ ask ⟨a, joined lines⟩ := by
  rw [asks, ask, isEmpty_joined h]
  cases lines <;> rfl

/-- Behind the counted ones of some lines parentheses are open, if they are open behind
    any first ones of them. -/
theorem openIn_counted_pos (hne : lines ≠ [])
    (hopen : ∀ k, 0 < k → k ≤ lines.length → 0 < openIn (lines.take k)) :
    0 < openIn (counted lines) := by
  by_cases hcomment : ∃ line ∈ lines.dropLast, '#' ∈ line.toList
  · obtain ⟨line, hline, hhash⟩ := hcomment
    obtain ⟨k, hpos, hlt, hk⟩ := exists_counted_eq_take hline hhash
    rw [hk]
    exact hopen k hpos hlt.le
  · have hall := hopen lines.length (List.length_pos_of_ne_nil hne) le_rfl
    rw [List.take_length] at hall
    rwa [counted_eq_self fun line hline hhash => hcomment ⟨line, hline, hhash⟩]

/-- Lines behind which parentheses are open are held back, whatever comes next. -/
theorem runFrom_gathering (h : ∀ l ∈ lines, ∃ ks, IsPart l ks)
    (hopen : ∀ k, 0 < k → k ≤ lines.length → 0 < openIn (lines.take k))
    (rest : List InputLine) :
    runFrom { analyzer := a } (lines.map .text ++ rest) =
      ((runFrom ⟨a, joined lines⟩ rest).1,
        asks lines.length ++ (runFrom ⟨a, joined lines⟩ rest).2) := by
  induction lines using List.reverseRecOn generalizing rest with
  | nil => rfl
  | append_singleton lines line ih =>
    -- the last line is one more step from where the others lead
    have hinit : ∀ l ∈ lines, ∃ ks, IsPart l ks := fun l hl => h l (List.mem_append_left _ hl)
    have hstep := step_open a h (openIn_counted_pos (by simp) hopen)
    have hprefix : ∀ k, 0 < k → k ≤ lines.length → 0 < openIn (lines.take k) := by
      intro k hpos hle
      have hk := hopen k hpos (by simp; omega)
      rwa [List.take_append_of_le_length hle] at hk
    rw [List.map_append, List.append_assoc, ih hinit hprefix, List.map_singleton,
      List.singleton_append, runFrom_cons hstep, List.length_append, List.length_singleton,
      ask_joined a hinit]
    simp only [List.append_assoc, List.append_nil]

end Steps

/-- The lines are one statement that is continued over them: behind the first ones of
    them, but not all, parentheses are open, and behind all of them none is. A line is
    counted without its own comment. -/
structure IsContinued (lines : List String) (kss : List (List TokenKind)) : Prop where
  /-- Each of the lines can be a part. -/
  parts : List.Forall₂ IsPart lines kss
  /-- There are several. -/
  several : 2 ≤ lines.length
  /-- Parentheses are open until the last one. -/
  opened : ∀ k, 0 < k → k < lines.length → 0 < openIn (lines.take k)
  /-- The last one closes them. -/
  closed : openIn lines = 0

instance (lines : List String) (kss : List (List TokenKind)) :
    Decidable (IsContinued lines kss) :=
  decidable_of_iff (List.Forall₂ IsPart lines kss ∧ 2 ≤ lines.length ∧
      (∀ k < lines.length, 0 < k → 0 < openIn (lines.take k)) ∧ openIn lines = 0)
    ⟨fun ⟨h, h', h'', h'''⟩ => ⟨h, h', fun k hpos hlt => h'' k hlt hpos, h'''⟩,
      fun ⟨h, h', h'', h'''⟩ => ⟨h, h', fun k hlt hpos => h'' k hpos hlt, h'''⟩⟩

section Continued

variable (a : Analyzer)

/-- The first of the lines are held back. -/
theorem IsContinued.runFrom_take (h : IsContinued lines kss) {k : Nat} (hk : k < lines.length)
    (rest : List InputLine) :
    runFrom { analyzer := a } ((lines.take k).map .text ++ rest) =
      ((runFrom ⟨a, joined (lines.take k)⟩ rest).1,
        asks k ++ (runFrom ⟨a, joined (lines.take k)⟩ rest).2) := by
  have hparts : ∀ l ∈ lines.take k, ∃ ks, IsPart l ks := fun l hl =>
    exists_isPart h.parts (List.mem_of_mem_take hl)
  have hlength : (lines.take k).length = k := List.length_take_of_le hk.le
  have hopen : ∀ j, 0 < j → j ≤ (lines.take k).length → 0 < openIn ((lines.take k).take j) := by
    intro j hpos hle
    rw [hlength] at hle
    rw [List.take_take, Nat.min_eq_left hle]
    exact h.opened j hpos (lt_of_le_of_lt hle hk)
  rw [runFrom_gathering a hparts hopen, hlength]

/-- What the last of the lines does decides what all of them do. -/
theorem IsContinued.runFrom_concat {init : List String} {last : String}
    (h : IsContinued (init ++ [last]) kss) {p : Prompt} {output : Output}
    (hlast : step ⟨a, joined init⟩ (.text last) = (some p, output)) (rest : List InputLine) :
    runFrom { analyzer := a } ((init ++ [last]).map .text ++ rest) =
      ((runFrom p rest).1,
        asks (init ++ [last]).length ++ output ++ (runFrom p rest).2) := by
  have hinit : ∀ l ∈ init, ∃ ks, IsPart l ks := fun l hl =>
    exists_isPart h.parts (List.mem_append_left _ hl)
  have hrun := h.runFrom_take a (k := init.length) (by simp) (.text last :: rest)
  rw [List.take_left, runFrom_cons hlast] at hrun
  rw [List.map_append, List.append_assoc, List.map_singleton, List.singleton_append, hrun,
    List.length_append, List.length_singleton, ask_joined a hinit]
  simp only [List.append_assoc]

end Continued

/-- Of lines that are continued, those before the last are held back, as one line. When
    the last one comes, all are read as one line, with the kinds of all of them, if no
    line but the last has a comment; nothing is held back then. If another one has a
    comment, the last line is held back too, and nothing has been read. -/
theorem runFrom_continued (a : Analyzer) {lines : List String} {kss : List (List TokenKind)}
    (h : IsContinued lines kss) (rest : List InputLine) :
    (∀ k < lines.length, runFrom { analyzer := a } ((lines.take k).map .text ++ rest) =
      ((runFrom ⟨a, joined (lines.take k)⟩ rest).1,
        asks k ++ (runFrom ⟨a, joined (lines.take k)⟩ rest).2)) ∧
    ((∀ line ∈ lines.dropLast, '#' ∉ line.toList) →
      kinds? (joined lines).toList = some kss.flatten ∧
      ∃ a' output answered, evaluate a (joined lines) = (a', output, answered) ∧
        runFrom { analyzer := a } (lines.map .text ++ rest) =
          ((runFrom { analyzer := a' } rest).1,
            asks lines.length ++ output ++ (runFrom { analyzer := a' } rest).2)) ∧
    ((∃ line ∈ lines.dropLast, '#' ∈ line.toList) →
      runFrom { analyzer := a } (lines.map .text ++ rest) =
        ((runFrom ⟨a, joined lines⟩ rest).1,
          asks lines.length ++ (runFrom ⟨a, joined lines⟩ rest).2)) := by
  have hne : lines ≠ [] := by
    rintro rfl
    exact absurd h.several (by decide)
  refine ⟨fun k hk => h.runFrom_take a hk rest, fun hcomment => ?_, ?_⟩
  · -- without comments all lines are counted, and they are balanced
    have hclosed : openIn (counted lines) ≤ 0 := by rw [counted_eq_self hcomment, h.closed]
    refine ⟨kinds?_joined h.parts hcomment, _, _, _, rfl, ?_⟩
    obtain ⟨init, last, rfl⟩ := (List.eq_nil_or_concat' lines).resolve_left hne
    exact h.runFrom_concat a (step_closed a (fun l hl => exists_isPart h.parts hl) hclosed) rest
  · -- those up to the first comment are not all of them, and so they are not balanced
    rintro ⟨line, hline, hhash⟩
    obtain ⟨k, hpos, hlt, hk⟩ := exists_counted_eq_take hline hhash
    have hopen : 0 < openIn (counted lines) := hk ▸ h.opened k hpos hlt
    obtain ⟨init, last, rfl⟩ := (List.eq_nil_or_concat' lines).resolve_left hne
    rw [h.runFrom_concat a (step_open a (fun l hl => exists_isPart h.parts hl) hopen) rest,
      List.append_nil]

/-- Three lines, the last one with a comment, are read as one. -/
theorem runFrom_continued_sum :
    let lines := ["max(1,\n", "\t2 + (3", ")) # all\n"]
    let kss := [[.identifier "max", .leftParen, .integer 1, .comma],
      [.integer 2, .plus, .leftParen, .integer 3], [.rightParen, .rightParen]]
    IsContinued lines kss ∧ (∀ line ∈ lines.dropLast, '#' ∉ line.toList) ∧
      joined lines = "max(1, 2 + (3 )) # all" ∧ kinds? (joined lines).toList = some kss.flatten ∧
      (runFrom { analyzer := .standard } (lines.map .text)).1.buffer = "" := by
  intro lines kss
  have hcontinued : IsContinued lines kss := by decide +kernel
  have hcomment : ∀ line ∈ lines.dropLast, '#' ∉ line.toList := by decide +kernel
  have hrun := runFrom_continued .standard hcontinued []
  obtain ⟨hkinds, a', output, answered, -, hend⟩ := hrun.2.1 hcomment
  rw [List.append_nil] at hend
  refine ⟨hcontinued, hcomment, by decide +kernel, hkinds, ?_⟩
  rw [hend]
  rfl

/-- A line that is continued may have a comment, and then nothing is read. -/
theorem continued_comment_unread :
    let lines := ["max(1, # first\n", "2)\n"]
    (∃ kss, IsContinued lines kss) ∧
      (runFrom { analyzer := .standard } (lines.map .text)).1.buffer = "max(1, # first 2)" := by
  intro lines
  have hcontinued : IsContinued lines
      [[.identifier "max", .leftParen, .integer 1, .comma], [.integer 2, .rightParen]] := by
    decide +kernel
  exact ⟨⟨_, hcontinued⟩, by decide +kernel⟩

end Prompt

end ConvexLang
