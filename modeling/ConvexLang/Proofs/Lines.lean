import ConvexLang.Text
import Mathlib.Data.List.Basic
import Mathlib.Data.List.TakeWhile

/-!
# Lines of a text

A text is cut into pieces behind its newlines, and a line is a piece without its line end.
A newline stands at the end of a piece or nowhere in it, so lines hold none, and what is
taken away with a line end is blank.

A newline behind a text ends its last line (`IsEnded`). If the text is empty, or ends in
a newline itself, that is one more line, an empty one. Otherwise it is the line that
stands there already; but a carriage return at its end is text as long as no newline
follows it, and part of the line end then. The lines of a text in front of a newline are
so the lines that it has by itself, up to one carriage return and one empty line.

* `lines_joined`: the lines of two texts with a newline between them.
* `isEnded_lines`: the lines of a text with a newline behind it.
-/

namespace ConvexLang.Text

/-! ## Pieces and lines -/

theorem lineOfPiece_eq_self {p : List Char} (h : '\n' ∉ p) : lineOfPiece p = p := by
  unfold lineOfPiece
  split
  · rename_i r hr
    exact absurd (List.mem_reverse.1 (hr ▸ List.mem_cons_self)) h
  · rename_i r _ hr
    exact absurd (List.mem_reverse.1 (hr ▸ List.mem_cons_self)) h
  · rfl

/-- Blanks behind a text are trimmed away. -/
theorem trimChars_append_blanks (cs : List Char) {bs : List Char}
    (h : ∀ c ∈ bs, isBlank c = true) : trimChars (cs ++ bs) = trimChars cs := by
  have hend (ds : List Char) : trimEnd (ds ++ bs) = trimEnd ds := by
    rw [trimEnd, trimStart, List.reverse_append, List.dropWhile_append_of_pos fun c hc =>
      h c (List.mem_reverse.1 hc)]
    rfl
  rw [trimChars, trimStart, List.dropWhile_append]
  split
  · rename_i hcs
    rw [List.dropWhile_eq_nil_iff.2 h, trimChars, trimStart, List.isEmpty_iff.1 hcs]
  · exact hend _

theorem pieces_newline_cons (cs ds : List Char) :
    pieces (cs ++ '\n' :: ds) = pieces (cs ++ ['\n']) ++ pieces ds := by
  induction cs with
  | nil => simp [pieces]
  | cons c cs ih =>
    rw [List.cons_append, List.cons_append, pieces, pieces]
    split
    · rw [ih, List.cons_append]
    · rw [ih]
      cases h : pieces (cs ++ ['\n']) with
      | nil =>
        have hflatten := flatten_pieces (cs ++ ['\n'])
        simp [h] at hflatten
      | cons p ps => rfl

/-- The lines of two texts with a newline between them: the newline ends the first one. -/
theorem lines_joined (s t : String) : lines (s ++ "\n" ++ t) = lines (s ++ "\n") ++ lines t := by
  have hnewline : "\n".toList = ['\n'] := rfl
  simp only [lines, String.toList_append, hnewline, List.append_assoc, List.singleton_append,
    pieces_newline_cons s.toList t.toList, List.map_append]

theorem length_pieces_concat_newline (cs : List Char) :
    (pieces (cs ++ ['\n'])).length = cs.count '\n' + 1 := by
  induction cs with
  | nil => rfl
  | cons c cs ih =>
    rw [List.cons_append, pieces, List.count_cons]
    split
    · rename_i hc
      simp [ih, hc]
    · rename_i hc
      cases h : pieces (cs ++ ['\n']) with
      | nil => simp [h] at ih
      | cons p ps => simpa [h, hc] using ih

/-- A text has as many lines in front of a newline as it has newlines, and one more. -/
theorem length_lines_concat_newline (s : String) :
    (lines (s ++ "\n")).length = s.toList.count '\n' + 1 := by
  rw [lines, List.length_map, String.toList_append]
  exact length_pieces_concat_newline s.toList

/-- A newline ends the last piece of a text that is not ended yet, and is a piece of its
    own behind one that is. -/
theorem pieces_concat_newline (cs : List Char) :
    pieces (cs ++ ['\n']) = pieces cs ++ [['\n']] ∨
      ∃ ps p, '\n' ∉ p ∧ pieces cs = ps ++ [p] ∧ pieces (cs ++ ['\n']) = ps ++ [p ++ ['\n']] := by
  induction cs with
  | nil => exact .inl rfl
  | cons c cs ih =>
    rw [List.cons_append, pieces, pieces]
    split
    · rcases ih with h | ⟨ps, p, hp, hcs, hended⟩
      · exact .inl (by rw [h, List.cons_append])
      · exact .inr ⟨[c] :: ps, p, hp, by rw [hcs, List.cons_append],
          by rw [hended, List.cons_append]⟩
    · rename_i hc
      rcases ih with h | ⟨ps, p, hp, hcs, hended⟩
      · rw [h]
        cases pieces cs with
        | nil => exact .inr ⟨[], [c], by simpa using Ne.symm hc, rfl, rfl⟩
        | cons q qs => exact .inl rfl
      · rw [hcs, hended]
        cases ps with
        | nil => exact .inr ⟨[], c :: p, by simpa [hp] using Ne.symm hc, rfl, rfl⟩
        | cons q qs => exact .inr ⟨(c :: q) :: qs, p, hp, rfl, rfl⟩

/-- A carriage return is part of the line end if a newline follows it. -/
theorem lineOfPiece_concat_newline (q : List Char) (c : Char) :
    lineOfPiece (q ++ [c] ++ ['\n']) = if c = '\r' then q else q ++ [c] := by
  split <;> rename_i hc <;> simp [lineOfPiece, hc]

/-- What becomes of the lines of a text when a newline is put behind it. -/
inductive IsEnded : List String → List String → Prop
  /-- It ends the last line. -/
  | line {ls : List String} {l : String} : IsEnded (ls ++ [l]) (ls ++ [l])
  /-- It ends the last line, together with the carriage return before it. -/
  | carriageReturn {ls : List String} {l : String} : '\n' ∉ l.toList →
    IsEnded (ls ++ [l ++ "\r"]) (ls ++ [l])
  /-- It is a line of its own. -/
  | empty {ls : List String} : IsEnded ls (ls ++ [""])

theorem isEnded_lines (s : String) : IsEnded (lines s) (lines (s ++ "\n")) := by
  have hlines : lines (s ++ "\n") =
      (pieces (s.toList ++ ['\n'])).map fun p => String.ofList (lineOfPiece p) := by
    rw [lines, String.toList_append]
    rfl
  rw [hlines, lines]
  rcases pieces_concat_newline s.toList with h | ⟨ps, p, hp, hs, hended⟩
  · rw [h, List.map_append]
    exact .empty
  · rw [hs, hended, List.map_append, List.map_append, List.map_singleton, List.map_singleton,
      lineOfPiece_eq_self hp]
    rcases List.eq_nil_or_concat' p with rfl | ⟨q, c, rfl⟩
    · exact .line
    · rw [lineOfPiece_concat_newline]
      split
      · rename_i hc
        rw [String.ofList_append, hc]
        refine .carriageReturn fun h => hp (List.mem_append_left _ ?_)
        rwa [String.toList_ofList] at h
      · exact .line

end ConvexLang.Text
