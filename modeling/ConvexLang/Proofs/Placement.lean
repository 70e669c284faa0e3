import ConvexLang.Line
import ConvexLang.Proofs.Lexing
import Mathlib.Data.String.Basic

/-!
# Where the tokens of a line stand

The tokens of a line stand one behind the other, none of them is empty and none
reaches past the end of the line (`tokenize_placed`). So a token is known by where
it begins (`Placed.eq_of_first_eq`), and a run of tokens covers what lies between
the beginning of its first and the end of its last token (`span_site`).
-/

namespace ConvexLang

/-- The tokens stand one behind the other between two offsets, and none is empty. -/
structure Placed (first past : Nat) (tokens : List Token) : Prop where
  /-- They stand one behind the other. -/
  ordered : tokens.Pairwise fun a b => a.span.past ≤ b.span.first
  /-- They stand between the offsets. -/
  within : ∀ t ∈ tokens, first ≤ t.span.first ∧ t.span.first < t.span.past ∧ t.span.past ≤ past

theorem placed_nil {first past : Nat} : Placed first past [] :=
  ⟨.nil, fun _ h => nomatch h⟩

theorem Placed.cons {first past : Nat} {t : Token} {ts : List Token}
    (hts : Placed t.span.past past ts) (hfirst : first ≤ t.span.first)
    (hne : t.span.first < t.span.past) (hpast : t.span.past ≤ past) :
    Placed first past (t :: ts) where
  ordered := List.pairwise_cons.2 ⟨fun u hu => (hts.within u hu).1, hts.ordered⟩
  within u hu := by
    rcases List.mem_cons.1 hu with rfl | hu
    · exact ⟨hfirst, hne, hpast⟩
    · obtain ⟨h, h', h''⟩ := hts.within u hu
      exact ⟨by omega, h', h''⟩

theorem Placed.weaken {m n past : Nat} {ts : List Token} (h : Placed n past ts) (hmn : m ≤ n) :
    Placed m past ts :=
  ⟨h.ordered, fun t ht => ⟨hmn.trans (h.within t ht).1, (h.within t ht).2⟩⟩

theorem byteSize_pos {cs : List Char} (h : cs ≠ []) : 0 < Text.byteSize cs := by
  obtain ⟨c, cs, rfl⟩ := List.exists_cons_of_ne_nil h
  exact Nat.add_pos_left c.utf8Size_pos _

theorem utf8Size_of_isGap {c : Char} (h : isGap c = true) : c.utf8Size = 1 := by
  simp only [isGap, Bool.or_eq_true, decide_eq_true_eq] at h
  rcases h with ((rfl | rfl) | rfl) | rfl <;> rfl

theorem tokensFrom_placed {offset : Nat} {cs : List Char} {tokens : List Token}
    (h : tokensFrom offset cs = .ok tokens) :
    Placed offset (offset + Text.byteSize cs) tokens := by
  induction cs using cut_induction generalizing offset tokens with
  | nil =>
    rw [tokensFrom] at h
    cases h
    exact placed_nil
  | gap c cs hgap ih =>
    rw [tokensFrom, if_pos hgap] at h
    rw [Text.byteSize, utf8Size_of_isGap hgap, ← Nat.add_assoc]
    exact (ih h).weaken (Nat.le_succ _)
  | comment cs ih =>
    rw [tokensFrom, if_neg (by decide), if_pos rfl] at h
    have hsize := congrArg Text.byteSize
      (List.takeWhile_append_dropWhile (p := (· ≠ '\n')) (l := cs))
    rw [Text.byteSize_append] at hsize
    rw [Text.byteSize, ← hsize, show ('#' : Char).utf8Size = 1 from rfl, ← Nat.add_assoc,
      ← Nat.add_assoc]
    exact (ih h).weaken (by omega)
  | error c cs fault hgap hc hread =>
    rw [tokensFrom] at h
    simp only [hgap, Bool.false_eq_true, if_false, hc, hread] at h
    cases h
  | lexeme c cs l hgap hc hread ih =>
    rw [tokensFrom] at h
    simp only [hgap, Bool.false_eq_true, if_false, hc, hread] at h
    split at h
    · cases h
    · rename_i ts hts
      cases h
      have hsize := congrArg Text.byteSize l.whole
      rw [Text.byteSize_append] at hsize
      have hpos := byteSize_pos l.text_ne_nil
      have hplaced := ih hts
      rw [Nat.add_assoc, hsize] at hplaced
      exact hplaced.cons le_rfl (by dsimp only; omega) (by dsimp only; omega)

/-- The size of a text is that of its characters. -/
theorem byteSize_toList (text : String) : Text.byteSize text.toList = text.utf8ByteSize := by
  rw [← String.utf8Len_toList]
  generalize text.toList = cs
  induction cs with
  | nil => rfl
  | cons c cs ih => rw [Text.byteSize, String.utf8Len_cons, ih, Nat.add_comm]

/-- The tokens of a line are placed in the line. -/
theorem tokenize_placed {text : String} {tokens : List Token} (h : tokenize text = .ok tokens) :
    Placed 0 text.utf8ByteSize tokens := by
  have hplaced := tokensFrom_placed h
  rwa [Nat.zero_add, byteSize_toList] at hplaced

/-! ## Runs -/

/-- The bytes of a run of tokens, from the beginning of its first to the end of its
    last. A run without tokens stands at the end of the line, `size` bytes into it. -/
def spanOfRun (run : List Token) (size : Nat) : Span :=
  match run.head?, run.getLast? with
  | some first, some last => ⟨first.span.first, last.span.past⟩
  | _, _ => ⟨size, size⟩

/-- The first token of a run stands where those in front of it end. -/
theorem getElem?_length_before {tokens before run after : List Token} (hrun : run ≠ [])
    (htokens : tokens = before ++ (run ++ after)) :
    tokens[before.length]? = some (run.head hrun) := by
  rw [htokens, List.getElem?_append_right le_rfl, Nat.sub_self,
    List.getElem?_append_left (List.length_pos_iff.2 hrun), ← List.head?_eq_getElem?,
    List.head?_eq_some_head]

section Placed

variable {first past : Nat} {tokens : List Token} (h : Placed first past tokens)
include h

theorem Placed.first_lt_past {i : Nat} {a : Token} (ha : tokens[i]? = some a) :
    a.span.first < a.span.past :=
  (h.within a (List.mem_of_getElem? ha)).2.1

theorem Placed.past_le_first {i j : Nat} {a b : Token} (hij : i < j) (ha : tokens[i]? = some a)
    (hb : tokens[j]? = some b) : a.span.past ≤ b.span.first := by
  obtain ⟨hi, rfl⟩ := List.getElem?_eq_some_iff.1 ha
  obtain ⟨hj, rfl⟩ := List.getElem?_eq_some_iff.1 hb
  exact List.pairwise_iff_getElem.1 h.ordered i j hi hj hij

/-- A later token neither begins nor ends before an earlier one. -/
theorem Placed.le_of_le {i j : Nat} {a b : Token} (hij : i ≤ j) (ha : tokens[i]? = some a)
    (hb : tokens[j]? = some b) : a.span.first ≤ b.span.first ∧ a.span.past ≤ b.span.past := by
  rcases hij.eq_or_lt with rfl | hlt
  · rw [ha] at hb
    cases hb
    exact ⟨le_rfl, le_rfl⟩
  · have := h.past_le_first hlt ha hb
    have := h.first_lt_past ha
    have := h.first_lt_past hb
    omega

/-- A token is known by where it begins. -/
theorem Placed.eq_of_first_eq {i j : Nat} {a b : Token} (ha : tokens[i]? = some a)
    (hb : tokens[j]? = some b) (hab : a.span.first = b.span.first) : i = j := by
  have hlta := h.first_lt_past ha
  have hltb := h.first_lt_past hb
  rcases Nat.lt_trichotomy i j with hij | hij | hij
  · have := h.past_le_first hij ha hb
    omega
  · exact hij
  · have := h.past_le_first hij hb ha
    omega

/-- The site of a run is told by the tokens that remain in front of it and behind it. -/
theorem Placed.span_site {before run after : List Token} (hrun : run ≠ [])
    (htokens : tokens = before ++ (run ++ after)) (size : Nat) :
    Site.span ⟨(run ++ after).length, after.length⟩ tokens size = spanOfRun run size := by
  have hpos := List.length_pos_iff.2 hrun
  have hopening : tokens.length - (run ++ after).length = before.length := by
    rw [htokens, List.length_append, Nat.add_sub_cancel]
  have hclosing : tokens.length - 1 - after.length = before.length + (run.length - 1) := by
    rw [htokens, List.length_append, List.length_append]
    omega
  have ha := getElem?_length_before hrun htokens
  have hb : tokens[before.length + (run.length - 1)]? = some (run.getLast hrun) := by
    rw [htokens, List.getElem?_append_right (Nat.le_add_right _ _), Nat.add_sub_cancel_left,
      List.getElem?_append_left (by omega), ← List.getLast?_eq_getElem?,
      List.getLast?_eq_some_getLast]
  obtain ⟨hfirst, hpast⟩ := h.le_of_le (Nat.le_add_right _ _) ha hb
  simp only [Site.span, hopening, hclosing, ha, hb, spanOfRun, List.head?_eq_some_head hrun,
    List.getLast?_eq_some_getLast hrun, Span.cover, Nat.min_eq_left hfirst,
    Nat.max_eq_right hpast]

/-- A run whose site begins with a token's first byte begins with that token. -/
theorem Placed.length_of_site {before run after : List Token} (hrun : run ≠ [])
    (htokens : tokens = before ++ (run ++ after)) {size i : Nat} {t : Token}
    (ht : tokens[i]? = some t)
    (hfirst : (Site.span ⟨(run ++ after).length, after.length⟩ tokens size).first = t.span.first) :
    tokens.length = i + (run ++ after).length := by
  have ha := getElem?_length_before hrun htokens
  rw [h.span_site hrun htokens, spanOfRun, List.head?_eq_some_head hrun,
    List.getLast?_eq_some_getLast hrun] at hfirst
  rw [← h.eq_of_first_eq ha ht hfirst, htokens, List.length_append]

end Placed

end ConvexLang
