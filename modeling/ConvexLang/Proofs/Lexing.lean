import ConvexLang.Proofs.Recognition

/-!
# Kinds of a text

The grammar reads the kinds of the tokens of a line, not where they stand.
`kinds?` is what the lexer makes of a text, without the places: a gap adds
nothing to it, and a lexeme adds its kind (`kinds?_gap`, `kinds?_lexeme`).

* `readLine_eq_ok_iff_kinds`: a line is read by its kinds alone.
* `isWritten_of_kinds?`: the kinds of a text carry what a text can hold. A name
  has the form of a name and is no keyword, an integer fits into 63 bits, and a
  floating-point number is read from a decimal fraction.
-/

namespace ConvexLang

/-! ## Kinds -/

/-- The kinds of the tokens of a text whose first character has the offset
    `offset`; nothing if a character cannot be read. -/
def kindsFrom? (offset : Nat) (cs : List Char) : Option (List TokenKind) :=
  (tokensFrom offset cs).toOption.map fun ts => ts.map Token.kind

/-- The kinds of the tokens of a text; nothing if a character cannot be read. -/
def kinds? (cs : List Char) : Option (List TokenKind) :=
  kindsFrom? 0 cs

section Step

variable {offset : Nat} {c : Char} {cs : List Char}

theorem kindsFrom?_gap (h : isGap c = true) :
    kindsFrom? offset (c :: cs) = kindsFrom? (offset + 1) cs := by
  simp only [kindsFrom?]
  rw [tokensFrom, if_pos h]

theorem kindsFrom?_comment :
    kindsFrom? offset ('#' :: cs) =
      kindsFrom? (offset + 1 + Text.byteSize (cs.takeWhile (· ≠ '\n')))
        (cs.dropWhile (· ≠ '\n')) := by
  simp only [kindsFrom?]
  rw [tokensFrom]
  simp [isGap]

theorem kindsFrom?_error {fault : LexicalFault} (hgap : isGap c = false) (hc : c ≠ '#')
    (h : Lexeme.read c cs = .error fault) : kindsFrom? offset (c :: cs) = none := by
  simp only [kindsFrom?]
  rw [tokensFrom]
  simp only [hgap, Bool.false_eq_true, if_false, hc, h]
  rfl

theorem kindsFrom?_lexeme {l : Lexeme (c :: cs)} (hgap : isGap c = false) (hc : c ≠ '#')
    (h : Lexeme.read c cs = .ok l) :
    kindsFrom? offset (c :: cs) =
      (kindsFrom? (offset + Text.byteSize l.text) l.rest).map fun ks => l.kind :: ks := by
  simp only [kindsFrom?]
  rw [tokensFrom]
  simp only [hgap, Bool.false_eq_true, if_false, hc, h]
  cases tokensFrom (offset + Text.byteSize l.text) l.rest <;> rfl

end Step

/-- The induction along the cuts of a text: off its front comes a gap, a comment
    or a lexeme, or nothing that can be read. -/
@[elab_as_elim] theorem cut_induction {motive : List Char → Prop} (nil : motive [])
    (gap : ∀ c cs, isGap c = true → motive cs → motive (c :: cs))
    (comment : ∀ cs, motive (cs.dropWhile (· ≠ '\n')) → motive ('#' :: cs))
    (error : ∀ c cs fault, isGap c = false → c ≠ '#' → Lexeme.read c cs = .error fault →
      motive (c :: cs))
    (lexeme : ∀ c cs (l : Lexeme (c :: cs)), isGap c = false → c ≠ '#' →
      Lexeme.read c cs = .ok l → motive l.rest → motive (c :: cs))
    (cs : List Char) : motive cs := by
  induction hn : cs.length using Nat.strongRecOn generalizing cs with
  | ind k ih =>
    subst hn
    match cs with
    | [] => exact nil
    | c :: cs =>
      rcases Bool.eq_false_or_eq_true (isGap c) with hgap | hgap
      · exact gap c cs hgap (ih _ (Nat.lt_succ_self _) _ rfl)
      · by_cases hc : c = '#'
        · subst hc
          have hle := (List.dropWhile_sublist (l := cs) (· ≠ '\n')).length_le
          exact comment cs (ih _ (Nat.lt_succ_of_le hle) _ rfl)
        · cases h : Lexeme.read c cs with
          | error fault => exact error c cs fault hgap hc h
          | ok l => exact lexeme c cs l hgap hc h (ih _ l.length_rest_lt _ rfl)

/-- The kinds do not depend on where the text stands. -/
theorem kindsFrom?_eq (m n : Nat) (cs : List Char) : kindsFrom? m cs = kindsFrom? n cs := by
  induction cs using cut_induction generalizing m n with
  | nil => simp only [kindsFrom?, tokensFrom]
  | gap c cs hgap ih =>
    rw [kindsFrom?_gap hgap, kindsFrom?_gap hgap]
    exact ih _ _
  | comment cs ih =>
    rw [kindsFrom?_comment, kindsFrom?_comment]
    exact ih _ _
  | error c cs fault hgap hc h => rw [kindsFrom?_error hgap hc h, kindsFrom?_error hgap hc h]
  | lexeme c cs l hgap hc h ih => rw [kindsFrom?_lexeme hgap hc h, kindsFrom?_lexeme hgap hc h, ih]

section Step

variable {c : Char} {cs : List Char}

@[simp] theorem kinds?_nil : kinds? [] = some [] := by
  simp [kinds?, kindsFrom?, tokensFrom, Except.toOption]

theorem kinds?_gap (h : isGap c = true) : kinds? (c :: cs) = kinds? cs :=
  (kindsFrom?_gap h).trans (kindsFrom?_eq _ _ _)

theorem kinds?_comment : kinds? ('#' :: cs) = kinds? (cs.dropWhile (· ≠ '\n')) :=
  kindsFrom?_comment.trans (kindsFrom?_eq _ _ _)

theorem kinds?_lexeme {l : Lexeme (c :: cs)} (hgap : isGap c = false) (hc : c ≠ '#')
    (h : Lexeme.read c cs = .ok l) :
    kinds? (c :: cs) = (kinds? l.rest).map fun ks => l.kind :: ks := by
  rw [kinds?, kindsFrom?_lexeme hgap hc h, kindsFrom?_eq]
  rfl

theorem kinds?_error {fault : LexicalFault} (hgap : isGap c = false) (hc : c ≠ '#')
    (h : Lexeme.read c cs = .error fault) : kinds? (c :: cs) = none :=
  kindsFrom?_error hgap hc h

end Step

/-- A line is read by its kinds alone. -/
theorem readLine_eq_ok_iff_kinds {scope : Scope} {text : String} {l : Line} :
    readLine scope text = .ok l ↔
      ∃ ks, kinds? text.toList = some ks ∧ Grammar.line scope ks = .ok l := by
  rw [readLine_eq_ok_iff, kinds?, kindsFrom?, tokenize]
  cases tokensFrom 0 text.toList with
  | error e => simp [Except.toOption]
  | ok ts => simp [Except.toOption]

/-! ## What a text can hold -/

/-- The kind carries what a text can hold. -/
def TokenKind.IsWritten : TokenKind → Prop
  | .integer n => n ≤ Lexeme.maxInteger
  | .real x => ∃ d : Decimal, d.toFloat = x
  | .identifier name => isIdentifier name = true ∧ keyword? name = none
  | _ => True

/-- What holds of a name that is no keyword, and of all keywords, holds of a word. -/
theorem TokenKind.ofWord_cases {P : TokenKind → Prop} {word : String}
    (hname : keyword? word = none → P (.identifier word)) (hkeyword : ∀ e ∈ keywords, P e.2) :
    P (.ofWord word) := by
  rw [TokenKind.ofWord]
  cases hk : keyword? word with
  | none => exact hname hk
  | some k =>
    obtain ⟨before, after, hsplit, -⟩ := List.lookup_eq_some_iff.1 hk
    exact hkeyword (word, k) (hsplit ▸ List.mem_append_right _ List.mem_cons_self)

theorem isWritten_ofWord {word : String} (h : isIdentifier word = true) :
    (TokenKind.ofWord word).IsWritten :=
  TokenKind.ofWord_cases (fun hk => ⟨h, hk⟩) (by simp [keywords, Sign.all, TokenKind.IsWritten])

/-- What holds of an integer that fits and of what is read from a decimal fraction holds of
    a number. -/
theorem numberKind_cases {P : TokenKind → Prop} (hinteger : ∀ n ≤ Lexeme.maxInteger, P (.integer n))
    (hreal : ∀ d : Decimal, P (.real d.toFloat)) (whole fraction : List Char) :
    P (Lexeme.numberKind whole fraction) := by
  rw [Lexeme.numberKind.eq_def]
  split
  · dsimp only
    split
    · exact hinteger _ ‹_›
    · exact hreal _
  · exact hreal _

theorem isWritten_numberKind (whole fraction : List Char) :
    (Lexeme.numberKind whole fraction).IsWritten :=
  numberKind_cases (fun _ h => h) (fun d => ⟨d, rfl⟩) whole fraction

theorem isWritten_withEquals {r : Relation} {fault : LexicalFault} {c : Char} {cs : List Char}
    {l : Lexeme (c :: cs)} (h : Lexeme.withEquals r fault c cs = .ok l) : l.kind.IsWritten := by
  rw [Lexeme.withEquals.eq_def] at h
  split at h
  · cases h
    exact trivial
  · cases h

/-- The kind of a lexeme carries what a text can hold. -/
theorem isWritten_read {c : Char} {cs : List Char} {l : Lexeme (c :: cs)}
    (h : Lexeme.read c cs = .ok l) : l.kind.IsWritten := by
  unfold Lexeme.read at h
  split at h
  · rename_i hc
    cases h
    refine isWritten_ofWord ?_
    rw [isIdentifier, String.toList_ofList, isWord, hc, Bool.true_and]
    exact List.all_takeWhile
  · split at h
    · rename_i number hnumber
      cases h
      rw [Lexeme.number?] at hnumber
      split at hnumber
      · cases hnumber
        exact isWritten_numberKind _ _
      · cases hnumber
    · split at h <;> first
        | exact isWritten_withEquals h
        | cases h <;> exact trivial

/-- The kinds of a text carry what a text can hold. -/
theorem isWritten_of_kinds? {cs : List Char} {ks : List TokenKind} (h : kinds? cs = some ks) :
    ∀ k ∈ ks, k.IsWritten := by
  induction cs using cut_induction generalizing ks with
  | nil =>
    obtain rfl : [] = ks := Option.some.inj (kinds?_nil.symm.trans h)
    exact fun _ hk => nomatch hk
  | gap c cs hgap ih => exact ih (kinds?_gap hgap ▸ h)
  | comment cs ih => exact ih (kinds?_comment ▸ h)
  | error c cs fault hgap hc hread =>
    rw [kinds?_error hgap hc hread] at h
    cases h
  | lexeme c cs l hgap hc hread ih =>
    rw [kinds?_lexeme hgap hc hread, Option.map_eq_some_iff] at h
    obtain ⟨ls, hls, rfl⟩ := h
    intro k hk
    rcases List.mem_cons.1 hk with rfl | hk
    · exact isWritten_read hread
    · exact ih hls k hk

end ConvexLang
