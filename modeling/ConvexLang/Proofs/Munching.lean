import ConvexLang.Proofs.Placement
import ConvexLang.Proofs.Spelling

/-!
# The longest lexeme

The lexer against the grammar of its tokens. A lexeme is a word, a run of digits, digits
around a point, a relation or a sign, and each stands for one kind of token (`Denotes`). Of
the lexemes with which a text begins the lexer takes the longest (`Munch`); between lexemes
there are blanks and comments. So a line is cut from left to right (`Cut`), each cut being
known by the bytes in front of it, until nothing remains or nothing can be cut off
(`IsStuck`).

* `Lexeme.exists_read`: where a text begins with a lexeme, the lexer reads one that is at
  least as long, and the same kind if it is no longer.
* `Lexeme.denotes_read`: what the lexer reads is a lexeme.
* `tokenize_cut`: the tokens of a line, and its first bad character, are those of its cut.
-/

namespace ConvexLang

/-! ## Lexemes -/

/-- The text is a lexeme and stands for a token of this kind. -/
inductive Denotes : List Char → TokenKind → Prop
  | keyword {cs : List Char} {k : TokenKind} :
    isWord cs = true → keyword? (String.ofList cs) = some k → Denotes cs k
  | name {cs : List Char} :
    isWord cs = true → keyword? (String.ofList cs) = none →
      Denotes cs (.identifier (String.ofList cs))
  | integer {ds : List Char} :
    ds ≠ [] → (∀ c ∈ ds, c.isDigit = true) → Decimal.value ds ≤ 2 ^ 63 - 1 →
      Denotes ds (.integer (Decimal.value ds))
  | wide {ds : List Char} {x : Float} :
    ds ≠ [] → (∀ c ∈ ds, c.isDigit = true) → 2 ^ 63 - 1 < Decimal.value ds →
      Decimal.readFloat? (String.ofList ds) = some x → Denotes ds (.real x)
  | fraction {ds fs : List Char} {x : Float} :
    (∀ c ∈ ds, c.isDigit = true) → fs ≠ [] → (∀ c ∈ fs, c.isDigit = true) →
      Decimal.readFloat? (String.ofList (ds ++ '.' :: fs)) = some x →
      Denotes (ds ++ '.' :: fs) (.real x)
  | relation {r : Relation} : Denotes r.symbol.toList (.relation r)
  | sign {c : Char} {k : TokenKind} : IsSign c k → Denotes [c] k

/-- The lexeme `text` of the kind `k` is cut off the front of `input`, and `rest` remains: no
    lexeme at the front of `input` is longer. -/
structure Munch (input text : List Char) (k : TokenKind) (rest : List Char) : Prop where
  /-- It is a lexeme of this kind. -/
  denotes : Denotes text k
  /-- With what remains it is the input. -/
  whole : text ++ rest = input
  /-- It is as long as possible. -/
  longest : ∀ text' k', Denotes text' k' → text' <+: input → text'.length ≤ text.length

/-! ## Numbers -/

namespace Decimal

/-- A text that begins with a digit or a point is no word, and has no sign. -/
theorem readFloat?_of_readNumeral? {c : Char} {cs : List Char} {d : Decimal}
    (hc : c.isDigit = true ∨ c = '.') (h : readNumeral? (c :: cs) = some d) :
    readFloat? (String.ofList (c :: cs)) = some d.toFloat := by
  have hfacts : c ≠ '-' ∧ c ≠ '+' ∧ Text.lowerChar c = c ∧ c ≠ 'i' ∧ c ≠ 'n' := by
    rcases hc with hc | rfl
    · refine ⟨?_, ?_, ?_, ?_, ?_⟩
      · rintro rfl; exact absurd hc (by decide)
      · rintro rfl; exact absurd hc (by decide)
      · rw [Text.lowerChar, if_neg]
        rintro ⟨hA, -⟩
        simp only [Char.isDigit, Bool.and_eq_true, decide_eq_true_eq] at hc
        exact absurd (hA.trans hc.2) (by decide)
      · rintro rfl; exact absurd hc (by decide)
      · rintro rfl; exact absurd hc (by decide)
    · decide
  obtain ⟨hminus, hplus, hlower, hi, hn⟩ := hfacts
  have hsign : splitSign (c :: cs) = (false, c :: cs) := by
    unfold splitSign
    split <;> simp_all
  have hfolded (word : String)
      (hword : word.toList.head? = some 'i' ∨ word.toList.head? = some 'n') :
      Text.lower (String.ofList (c :: cs)) ≠ word := by
    rintro rfl
    simp [Text.lower, hlower, hi, hn] at hword
  simp only [readFloat?, String.toList_ofList, hsign, readMagnitude?]
  rw [if_neg, if_neg, h]
  · rfl
  · exact hfolded _ (.inr rfl)
  · exact not_or.2 ⟨hfolded _ (.inl rfl), hfolded _ (.inl rfl)⟩

theorem readNumeral?_digits {ds : List Char} (hne : ds ≠ []) (hds : ∀ c ∈ ds, c.isDigit = true) :
    readNumeral? ds = some (ofParts ds []) := by
  have htake : ds.takeWhile Char.isDigit = ds := List.takeWhile_eq_self_iff.2 hds
  have hdrop : ds.dropWhile Char.isDigit = [] := List.dropWhile_eq_nil_iff.2 hds
  simp [readNumeral?, htake, hdrop, hne, readExponent?]

theorem readNumeral?_fraction {ds fs : List Char} (hds : ∀ c ∈ ds, c.isDigit = true)
    (hne : fs ≠ []) (hfs : ∀ c ∈ fs, c.isDigit = true) :
    readNumeral? (ds ++ '.' :: fs) = some (ofParts ds fs) := by
  obtain ⟨htake, hdrop⟩ : _ ∧ _ := takeWhile_append hds
    (fun c hc => Option.some.inj hc ▸ rfl : ∀ c, ('.' :: fs).head? = some c → _)
  have htake' : fs.takeWhile Char.isDigit = fs := List.takeWhile_eq_self_iff.2 hfs
  have hdrop' : fs.dropWhile Char.isDigit = [] := List.dropWhile_eq_nil_iff.2 hfs
  simp [readNumeral?, htake, hdrop, htake', hdrop', hne, readExponent?]

/-- Digits stand for a number. -/
theorem readFloat?_digits {ds : List Char} (hne : ds ≠ []) (hds : ∀ c ∈ ds, c.isDigit = true) :
    readFloat? (String.ofList ds) = some (ofParts ds []).toFloat := by
  have hnumeral := readNumeral?_digits hne hds
  obtain ⟨c, cs, rfl⟩ := List.exists_cons_of_ne_nil hne
  exact readFloat?_of_readNumeral? (.inl (hds c List.mem_cons_self)) hnumeral

/-- So do digits behind a point, with or without digits in front of it. -/
theorem readFloat?_fraction {ds fs : List Char} (hds : ∀ c ∈ ds, c.isDigit = true) (hne : fs ≠ [])
    (hfs : ∀ c ∈ fs, c.isDigit = true) :
    readFloat? (String.ofList (ds ++ '.' :: fs)) = some (ofParts ds fs).toFloat := by
  have hnumeral := readNumeral?_fraction hds hne hfs
  cases ds with
  | nil => exact readFloat?_of_readNumeral? (.inr rfl) hnumeral
  | cons c ds => exact readFloat?_of_readNumeral? (.inl (hds c List.mem_cons_self)) hnumeral

end Decimal

namespace Lexeme

variable {c : Char} {cs : List Char}

theorem read_of_isWordStart (h : isWordStart c = true) : read c cs = .ok (word c cs) := by
  rw [read.eq_def, if_pos h]

theorem exists_read_digits {ds : List Char} (hne : ds ≠ []) (hds : ∀ d ∈ ds, d.isDigit = true)
    (hfront : ds <+: c :: cs) :
    ∃ l, read c cs = .ok l ∧ ds <+: l.text ∧ (l.text = ds → l.kind = numberKind ds []) := by
  obtain ⟨rest, hrest⟩ := hfront
  have hstart : isWordStart c = false := by
    obtain ⟨d, ds, rfl⟩ := List.exists_cons_of_ne_nil hne
    obtain ⟨rfl, -⟩ := List.cons.inj hrest
    exact (isDigit_facts (hds _ List.mem_cons_self)).2.2.1
  obtain ⟨fs, r, hsplit⟩ : ∃ fs r,
      splitNumber (c :: cs) = (ds ++ rest.takeWhile Char.isDigit, fs, r) := by
    rw [← hrest, splitNumber.eq_def, List.takeWhile_append_of_pos hds]
    dsimp only
    split
    · split_ifs <;> exact ⟨_, _, rfl⟩
    · exact ⟨_, _, rfl⟩
  obtain ⟨l, hread, htext, hkind, -⟩ := read_of_splitNumber hstart hsplit (by simp [hne])
  refine ⟨l, hread, ⟨rest.takeWhile Char.isDigit ++ fs, ?_⟩, fun h => ?_⟩
  · rw [htext, List.append_assoc]
  rw [htext, List.append_assoc, List.append_right_eq_self, List.append_eq_nil_iff] at h
  rw [hkind, h.1, h.2, List.append_nil]

theorem exists_read_fraction {ds fs : List Char} (hds : ∀ d ∈ ds, d.isDigit = true) (hne : fs ≠ [])
    (hfs : ∀ d ∈ fs, d.isDigit = true) (hfront : ds ++ '.' :: fs <+: c :: cs) :
    ∃ l, read c cs = .ok l ∧ ds ++ '.' :: fs <+: l.text ∧
      (l.text = ds ++ '.' :: fs → l.kind = numberKind ds ('.' :: fs)) := by
  obtain ⟨rest, hrest⟩ := hfront
  have hstart : isWordStart c = false := by
    cases ds with
    | nil =>
      obtain ⟨rfl, -⟩ := List.cons.inj hrest
      rfl
    | cons d ds =>
      obtain ⟨rfl, -⟩ := List.cons.inj hrest
      exact (isDigit_facts (hds _ List.mem_cons_self)).2.2.1
  have hsplit : splitNumber (c :: cs) = (ds, '.' :: (fs ++ rest.takeWhile Char.isDigit),
      rest.dropWhile Char.isDigit) := by
    obtain ⟨f, fs, rfl⟩ := List.exists_cons_of_ne_nil hne
    obtain ⟨htake, hdrop⟩ : _ ∧ _ := takeWhile_append hds
      (fun c hc => Option.some.inj hc ▸ rfl : ∀ c, ('.' :: (f :: fs ++ rest)).head? = some c → _)
    rw [← hrest, List.append_assoc, List.cons_append, splitNumber, htake, hdrop]
    simp only [List.cons_append, hfs f List.mem_cons_self, if_true]
    rw [← List.cons_append, List.takeWhile_append_of_pos hfs, List.dropWhile_append_of_pos hfs,
      List.cons_append]
  obtain ⟨l, hread, htext, hkind, -⟩ := read_of_splitNumber hstart hsplit (by simp)
  refine ⟨l, hread, ⟨rest.takeWhile Char.isDigit, by rw [htext]; simp⟩, fun h => ?_⟩
  rw [htext, List.append_cancel_left_eq, List.cons.injEq, List.append_right_eq_self] at h
  rw [hkind, h.2, List.append_nil]

theorem exists_read_word {text : List Char} (h : isWord text = true) (hfront : text <+: c :: cs) :
    ∃ l, read c cs = .ok l ∧ text <+: l.text ∧
      (l.text = text → l.kind = .ofWord (String.ofList text)) := by
  obtain ⟨rest, hrest⟩ := hfront
  cases text with
  | nil => cases h
  | cons d ds =>
    rw [List.cons_append] at hrest
    obtain ⟨rfl, rfl⟩ := List.cons.inj hrest
    rw [isWord, Bool.and_eq_true, List.all_eq_true] at h
    refine ⟨_, read_of_isWordStart h.1, ⟨rest.takeWhile isWordChar, ?_⟩, fun htext => ?_⟩
    · exact congrArg (d :: ·) (List.takeWhile_append_of_pos h.2).symm
    · exact congrArg (fun t => TokenKind.ofWord (String.ofList t)) htext

/-- Where a text begins with a lexeme, a lexeme is read that is at least as long, and if it is
    no longer, it is of the same kind. -/
theorem exists_read {text : List Char} {k : TokenKind} (h : Denotes text k)
    (hfront : text <+: c :: cs) :
    ∃ l, read c cs = .ok l ∧ text <+: l.text ∧ (l.text = text → l.kind = k) := by
  cases h with
  | keyword hword hk =>
    obtain ⟨l, hread, hl, hkind⟩ := exists_read_word hword hfront
    exact ⟨l, hread, hl, fun h => by rw [hkind h, TokenKind.ofWord, hk, Option.getD_some]⟩
  | name hword hk =>
    obtain ⟨l, hread, hl, hkind⟩ := exists_read_word hword hfront
    exact ⟨l, hread, hl, fun h => by rw [hkind h, TokenKind.ofWord, hk, Option.getD_none]⟩
  | integer hne hds hvalue =>
    obtain ⟨l, hread, hl, hkind⟩ := exists_read_digits hne hds hfront
    exact ⟨l, hread, hl, fun h => (hkind h).trans (if_pos hvalue)⟩
  | @wide ds x hne hds hvalue hx =>
    obtain ⟨l, hread, hl, hkind⟩ := exists_read_digits hne hds hfront
    rw [Decimal.readFloat?_digits hne hds, Option.some.injEq] at hx
    subst hx
    exact ⟨l, hread, hl, fun h => (hkind h).trans (if_neg (Nat.not_le.2 hvalue))⟩
  | @fraction ds fs x hds hne hfs hx =>
    obtain ⟨l, hread, hl, hkind⟩ := exists_read_fraction hds hne hfs hfront
    rw [Decimal.readFloat?_fraction hds hne hfs, Option.some.injEq] at hx
    subst hx
    exact ⟨l, hread, hl, hkind⟩
  | @relation r =>
    obtain ⟨rest, hrest⟩ := hfront
    cases r <;> cases hrest <;> exact ⟨_, rfl, List.prefix_rfl, fun _ => rfl⟩
  | sign hsign =>
    obtain ⟨rest, hrest⟩ := hfront
    cases hsign <;> cases hrest <;> exact ⟨_, rfl, List.prefix_rfl, fun _ => rfl⟩

/-- The digits of a number and, if there are any, the digits behind its point. -/
theorem denotes_numberKind {ds fs : List Char} (hds : ∀ d ∈ ds, d.isDigit = true)
    (hfs : (fs = [] ∧ ds ≠ []) ∨
      ∃ fs', fs = '.' :: fs' ∧ fs' ≠ [] ∧ ∀ d ∈ fs', d.isDigit = true) :
    Denotes (ds ++ fs) (numberKind ds fs) := by
  rcases hfs with ⟨rfl, hne⟩ | ⟨fs', rfl, hne, hfs'⟩
  · rw [List.append_nil, numberKind.eq_def]
    dsimp only
    split_ifs with hvalue
    · exact .integer hne hds hvalue
    · exact .wide hne hds (Nat.not_le.1 hvalue) (Decimal.readFloat?_digits hne hds)
  · exact .fraction hds hne hfs' (Decimal.readFloat?_fraction hds hne hfs')

theorem splitNumber_cases (cs : List Char) :
    (∀ d ∈ (splitNumber cs).1, d.isDigit = true) ∧
      ((splitNumber cs).2.1 = [] ∨ ∃ fs, (splitNumber cs).2.1 = '.' :: fs ∧ fs ≠ [] ∧
        ∀ d ∈ fs, d.isDigit = true) := by
  have hall (cs : List Char) : ∀ d ∈ cs.takeWhile Char.isDigit, d.isDigit = true :=
    fun d hd => List.all_eq_true.1 List.all_takeWhile d hd
  rw [splitNumber.eq_def]
  dsimp only
  split
  · rename_i d r hd
    split_ifs with hdigit
    · exact ⟨hall cs, .inr ⟨_, rfl, by simp [hdigit], hall _⟩⟩
    · exact ⟨hall cs, .inl rfl⟩
  · exact ⟨hall cs, .inl rfl⟩

theorem denotes_withEquals {r : Relation} {fault : LexicalFault} {l : Lexeme (c :: cs)}
    (hr : r.symbol.toList = [c, '=']) (h : withEquals r fault c cs = .ok l) :
    Denotes l.text l.kind := by
  rw [withEquals.eq_def] at h
  have hrelation : Denotes r.symbol.toList (.relation r) := .relation
  rw [hr] at hrelation
  split at h <;> cases h
  exact hrelation

/-- What is read is a lexeme. -/
theorem denotes_read {l : Lexeme (c :: cs)} (h : read c cs = .ok l) : Denotes l.text l.kind := by
  unfold read at h
  split at h
  · rename_i hstart
    cases h
    have hword : isWord (word c cs).text = true := by
      rw [word, isWord, hstart, Bool.true_and]
      exact List.all_takeWhile
    change Denotes _ (TokenKind.ofWord (String.ofList (word c cs).text))
    rw [TokenKind.ofWord]
    cases hk : keyword? (String.ofList (word c cs).text) with
    | none => exact .name hword hk
    | some k => exact .keyword hword hk
  · split at h
    · rename_i number hnumber
      cases h
      rw [number?] at hnumber
      split at hnumber <;> cases hnumber
      rename_i hne
      obtain ⟨hds, hfs⟩ := splitNumber_cases (c :: cs)
      refine denotes_numberKind hds (hfs.imp (fun h => ⟨h, ?_⟩) id)
      rwa [h, List.append_nil] at hne
    · split at h <;> first
        | exact denotes_withEquals rfl h
        | cases h <;> exact .sign (by constructor)

/-- A lexeme is read where the text begins with one, and it is the longest. -/
theorem munch_of_read {l : Lexeme (c :: cs)} (h : read c cs = .ok l) :
    Munch (c :: cs) l.text l.kind l.rest where
  denotes := denotes_read h
  whole := l.whole
  longest text' k' hdenotes hfront := by
    obtain ⟨l', hread, hl', -⟩ := exists_read hdenotes hfront
    rw [h, Except.ok.injEq] at hread
    subst hread
    exact hl'.length_le

/-- A lexeme is not empty, and begins with neither a blank nor a comment. -/
theorem exists_cons_of_denotes {text : List Char} {k : TokenKind} (h : Denotes text k) :
    ∃ d ds, text = d :: ds ∧ isGap d = false ∧ d ≠ '#' := by
  have hdigits {ds : List Char} (hne : ds ≠ []) (hds : ∀ d ∈ ds, d.isDigit = true) :
      ∃ d ds', ds = d :: ds' ∧ isGap d = false ∧ d ≠ '#' := by
    obtain ⟨d, ds, rfl⟩ := List.exists_cons_of_ne_nil hne
    obtain ⟨hgap, hcomment, -⟩ := isDigit_facts (hds d List.mem_cons_self)
    exact ⟨d, ds, rfl, hgap, hcomment⟩
  have hword {cs : List Char} (hcs : isWord cs = true) :
      ∃ d ds, cs = d :: ds ∧ isGap d = false ∧ d ≠ '#' := by
    cases cs with
    | nil => cases hcs
    | cons d ds =>
      rw [isWord, Bool.and_eq_true] at hcs
      obtain ⟨hgap, hcomment⟩ := isWordStart_facts hcs.1
      exact ⟨d, ds, rfl, hgap, hcomment⟩
  cases h with
  | keyword hcs _ => exact hword hcs
  | name hcs _ => exact hword hcs
  | integer hne hds _ => exact hdigits hne hds
  | wide hne hds _ _ => exact hdigits hne hds
  | @fraction ds fs x hds hne hfs hx =>
    cases ds with
    | nil => exact ⟨'.', fs, rfl, by decide, by decide⟩
    | cons d ds =>
      obtain ⟨hgap, hcomment, -⟩ := isDigit_facts (hds d List.mem_cons_self)
      exact ⟨d, ds ++ '.' :: fs, rfl, hgap, hcomment⟩
  | @relation r => cases r <;> exact ⟨_, _, rfl, by decide, by decide⟩
  | sign hsign => cases hsign <;> exact ⟨_, _, rfl, by decide, by decide⟩

/-- The longest lexeme at the front of a text is the one that is read. -/
theorem exists_read_of_munch {input text rest : List Char} {k : TokenKind}
    (h : Munch input text k rest) :
    ∃ c cs, ∃ l : Lexeme (c :: cs), input = c :: cs ∧ isGap c = false ∧ c ≠ '#' ∧
      read c cs = .ok l ∧ l.text = text ∧ l.kind = k ∧ l.rest = rest := by
  obtain ⟨hdenotes, rfl, hlongest⟩ := h
  obtain ⟨d, ds, rfl, hgap, hcomment⟩ := exists_cons_of_denotes hdenotes
  obtain ⟨l, hread, hfront, hkind⟩ := exists_read hdenotes (List.prefix_append (d :: ds) rest)
  have hle : l.text.length ≤ (d :: ds).length :=
    hlongest _ _ (denotes_read hread) ⟨l.rest, l.whole⟩
  have htext : l.text = d :: ds := (hfront.eq_of_length_le hle).symm
  have hrest : l.rest = rest := by
    have hwhole := l.whole
    rw [htext] at hwhole
    exact List.append_cancel_left hwhole
  exact ⟨d, ds ++ rest, l, rfl, hgap, hcomment, hread, htext, hkind htext, hrest⟩

end Lexeme

/-! ## The front of a line -/

section Front

variable {m : Nat} {c : Char} {cs : List Char}

theorem tokensFrom_lexeme {l : Lexeme (c :: cs)} (hgap : isGap c = false) (hcomment : c ≠ '#')
    (h : Lexeme.read c cs = .ok l) :
    tokensFrom m (c :: cs) = (tokensFrom (m + Text.byteSize l.text) l.rest).map
      (⟨l.kind, ⟨m, m + Text.byteSize l.text⟩⟩ :: ·) := by
  rw [tokensFrom]
  simp only [hgap, Bool.false_eq_true, if_false, hcomment, h]
  cases tokensFrom (m + Text.byteSize l.text) l.rest <;> rfl

theorem tokensFrom_refused {fault : LexicalFault} (hgap : isGap c = false) (hcomment : c ≠ '#')
    (h : Lexeme.read c cs = .error fault) :
    tokensFrom m (c :: cs) = .error ⟨fault, ⟨m, m + c.utf8Size⟩⟩ := by
  rw [tokensFrom]
  simp only [hgap, Bool.false_eq_true, if_false, hcomment, h]

end Front

/-! ## Cuts -/

/-- Nothing can be cut off the front of the text: it begins with neither a blank nor a comment,
    and with no lexeme. -/
structure IsStuck (c : Char) (cs : List Char) : Prop where
  /-- It begins with no blank. -/
  notGap : isGap c = false
  /-- It begins with no comment. -/
  notComment : c ≠ '#'
  /-- It begins with no lexeme. -/
  notLexeme : ∀ text k, Denotes text k → ¬ text <+: c :: cs

/-- What is wrong with a character that begins no lexeme. -/
def LexicalFault.ofChar : Char → LexicalFault
  | '=' => .singleEquals
  | '<' => .strictLess
  | '>' => .strictGreater
  | '^' => .exponent
  | c => .illegalCharacter c

/-- A text is refused for its first character. -/
theorem Lexeme.fault_of_read {c : Char} {cs : List Char} {fault : LexicalFault}
    (h : read c cs = .error fault) : fault = .ofChar c := by
  unfold read at h
  split at h
  · cases h
  · split at h
    · cases h
    · split at h
      -- a relation that lacks its equals sign, then a caret, then what begins nothing at all
      case h_8 | h_9 | h_10 =>
        rw [withEquals.eq_def] at h
        split at h <;> cases h
        rfl
      case h_11 => cases h; rfl
      case h_12 =>
        cases h
        rw [LexicalFault.ofChar] <;> assumption
      all_goals cases h

/-- The texts that are refused are those off whose front nothing can be cut. -/
theorem Lexeme.read_eq_error_iff {c : Char} {cs : List Char} (hgap : isGap c = false)
    (hcomment : c ≠ '#') {fault : LexicalFault} :
    read c cs = .error fault ↔ IsStuck c cs ∧ fault = .ofChar c := by
  constructor
  · intro h
    refine ⟨⟨hgap, hcomment, fun text k hdenotes hfront => ?_⟩, fault_of_read h⟩
    obtain ⟨l, hread, -⟩ := exists_read hdenotes hfront
    rw [h] at hread
    cases hread
  · rintro ⟨hstuck, rfl⟩
    cases h : read c cs with
    | error fault => rw [fault_of_read h]
    | ok l => exact absurd ⟨l.rest, l.whole⟩ (hstuck.notLexeme l.text l.kind (denotes_read h))

/-- The text, whose first character has the offset `m`, is cut from the left, until `rest`
    remains, which has the offset `n`. Blanks and comments are dropped, and of lexemes a token
    is made. -/
inductive Cut : Nat → List Char → List Token → Nat → List Char → Prop
  | here {m : Nat} {cs : List Char} : Cut m cs [] m cs
  | blank {m n : Nat} {c : Char} {cs rest : List Char} {ts : List Token} :
    isGap c = true → Cut (m + 1) cs ts n rest → Cut m (c :: cs) ts n rest
  | comment {m n : Nat} {body after rest : List Char} {ts : List Token} :
    '\n' ∉ body → (after = [] ∨ after.head? = some '\n') →
      Cut (m + 1 + Text.byteSize body) after ts n rest →
      Cut m ('#' :: (body ++ after)) ts n rest
  | lexeme {m n : Nat} {cs text after rest : List Char} {k : TokenKind} {ts : List Token} :
    Munch cs text k after → Cut (m + Text.byteSize text) after ts n rest →
      Cut m cs (⟨k, ⟨m, m + Text.byteSize text⟩⟩ :: ts) n rest

namespace Cut

variable {m n : Nat} {cs rest : List Char} {ts : List Token}

/-- The tokens of a text are those that were cut off and those of what remains. -/
theorem tokensFrom_eq (h : Cut m cs ts n rest) :
    tokensFrom m cs = (tokensFrom n rest).map (ts ++ ·) := by
  induction h with
  | here => cases tokensFrom _ _ <;> rfl
  | blank hgap _ ih => rw [tokensFrom, if_pos hgap, ih]
  | @comment m n body after rest ts hbody hafter _ ih =>
    have htake : (body ++ after).takeWhile (· ≠ '\n') = body ∧
        (body ++ after).dropWhile (· ≠ '\n') = after := by
      refine takeWhile_append (fun c hc => decide_eq_true fun h => hbody (h ▸ hc)) fun c hc => ?_
      rcases hafter with rfl | hafter
      · cases hc
      · rw [hafter] at hc
        cases hc
        rfl
    rw [tokensFrom, if_neg (by decide), if_pos rfl, htake.1, htake.2, ih]
  | @lexeme m n cs text after rest k ts hmunch _ ih =>
    obtain ⟨c, cs, l, rfl, hgap, hcomment, hread, rfl, rfl, rfl⟩ :=
      Lexeme.exists_read_of_munch hmunch
    rw [tokensFrom_lexeme hgap hcomment hread, ih]
    cases tokensFrom n rest <;> rfl

/-- A part of the text was cut. It tells how far the cut went, and can be cut by itself. -/
theorem exists_front (h : Cut m cs ts n rest) :
    ∃ front, cs = front ++ rest ∧ n = m + Text.byteSize front ∧ Cut m front ts n [] := by
  induction h with
  | here => exact ⟨[], rfl, rfl, .here⟩
  | blank hgap _ ih =>
    obtain ⟨front, rfl, rfl, hcut⟩ := ih
    refine ⟨_ :: front, rfl, ?_, .blank hgap hcut⟩
    rw [Text.byteSize, utf8Size_of_isGap hgap, Nat.add_assoc]
  | @comment m n body after rest ts hbody hafter _ ih =>
    obtain ⟨front, rfl, rfl, hcut⟩ := ih
    refine ⟨'#' :: (body ++ front), by simp, ?_, .comment hbody ?_ hcut⟩
    · rw [Text.byteSize, Text.byteSize_append, show ('#' : Char).utf8Size = 1 from rfl]
      omega
    · -- the line end behind the comment is in front of what remains, unless nothing is
      cases front with
      | nil => exact .inl rfl
      | cons d front => exact .inr (hafter.resolve_left (by simp))
  | @lexeme m n cs text after rest k ts hmunch _ ih =>
    obtain ⟨front, rfl, rfl, hcut⟩ := ih
    obtain ⟨hdenotes, rfl, hlongest⟩ := hmunch
    refine ⟨text ++ front, (List.append_assoc ..).symm, ?_, .lexeme ⟨hdenotes, rfl, ?_⟩ hcut⟩
    · rw [Text.byteSize_append, Nat.add_assoc]
    · -- the front part begins the text, so a longer lexeme there would begin the text as well
      intro text' k' hdenotes' hfront
      refine hlongest text' k' hdenotes' (hfront.trans ?_)
      rw [← List.append_assoc]
      exact List.prefix_append _ _

/-- The bytes of a token that was cut off are those of a lexeme of its kind. -/
theorem exists_text (h : Cut m cs ts n rest) {t : Token} (ht : t ∈ ts) :
    ∃ before text after, cs = before ++ (text ++ after) ∧ Denotes text t.kind ∧
      t.span = ⟨m + Text.byteSize before, m + Text.byteSize (before ++ text)⟩ := by
  induction h with
  | here => cases ht
  | @blank m n c cs rest ts hgap _ ih =>
    obtain ⟨before, text, after, rfl, hdenotes, hspan⟩ := ih ht
    refine ⟨c :: before, text, after, rfl, hdenotes, hspan.trans ?_⟩
    simp only [List.cons_append, Text.byteSize, utf8Size_of_isGap hgap, Nat.add_assoc]
  | @comment m n body after rest ts _ _ _ ih =>
    obtain ⟨before, text, after, rfl, hdenotes, hspan⟩ := ih ht
    refine ⟨'#' :: (body ++ before), text, after, by simp, hdenotes, hspan.trans ?_⟩
    simp only [List.cons_append, Text.byteSize, Text.byteSize_append,
      show ('#' : Char).utf8Size = 1 from rfl, Nat.add_assoc]
  | @lexeme m n cs text after rest k ts hmunch _ ih =>
    rcases List.mem_cons.1 ht with rfl | ht
    · exact ⟨[], text, after, hmunch.whole.symm, hmunch.denotes, rfl⟩
    · obtain ⟨before, text', after', rfl, hdenotes, hspan⟩ := ih ht
      refine ⟨text ++ before, text', after', ?_, hdenotes, hspan.trans ?_⟩
      · rw [← hmunch.whole, List.append_assoc]
      · simp only [Text.byteSize_append, Nat.add_assoc]

end Cut

/-- Every text is cut until nothing remains off whose front anything can be cut. -/
theorem exists_cut (m : Nat) (cs : List Char) :
    ∃ ts n rest, Cut m cs ts n rest ∧ ∀ c after, rest = c :: after → IsStuck c after := by
  induction cs using cut_induction generalizing m with
  | nil => exact ⟨[], m, [], .here, fun _ _ h => nomatch h⟩
  | gap c cs hgap ih =>
    obtain ⟨ts, n, rest, hcut, hstuck⟩ := ih (m + 1)
    exact ⟨ts, n, rest, .blank hgap hcut, hstuck⟩
  | comment cs ih =>
    obtain ⟨ts, n, rest, hcut, hstuck⟩ := ih (m + 1 + Text.byteSize (cs.takeWhile (· ≠ '\n')))
    have hbody : '\n' ∉ cs.takeWhile (· ≠ '\n') := fun h => by
      simpa using List.all_eq_true.1 List.all_takeWhile _ h
    have hafter : cs.dropWhile (· ≠ '\n') = [] ∨ (cs.dropWhile (· ≠ '\n')).head? = some '\n' := by
      cases hd : cs.dropWhile (· ≠ '\n') with
      | nil => exact .inl rfl
      | cons d ds =>
        have h := List.head?_dropWhile_not (· ≠ '\n') cs
        rw [hd] at h
        exact .inr (congrArg some (by simpa using h))
    have h := Cut.comment hbody hafter hcut
    rw [List.takeWhile_append_dropWhile] at h
    exact ⟨ts, n, rest, h, hstuck⟩
  | error c cs fault hgap hcomment h =>
    refine ⟨[], m, c :: cs, .here, fun _ _ heq => ?_⟩
    cases heq
    exact ((Lexeme.read_eq_error_iff hgap hcomment).1 h).1
  | lexeme c cs l hgap hcomment h ih =>
    obtain ⟨ts, n, rest, hcut, hstuck⟩ := ih (m + Text.byteSize l.text)
    exact ⟨_, n, rest, .lexeme (Lexeme.munch_of_read h) hcut, hstuck⟩

/-- What remains stuck ends the reading. -/
theorem tokensFrom_of_isStuck {n : Nat} {c : Char} {cs : List Char} (h : IsStuck c cs) :
    tokensFrom n (c :: cs) = .error ⟨.ofChar c, ⟨n, n + c.utf8Size⟩⟩ :=
  tokensFrom_refused h.notGap h.notComment
    ((Lexeme.read_eq_error_iff h.notGap h.notComment).2 ⟨h, rfl⟩)

theorem tokensFrom_eq_ok_iff {m : Nat} {cs : List Char} {ts : List Token} :
    tokensFrom m cs = .ok ts ↔ Cut m cs ts (m + Text.byteSize cs) [] := by
  constructor
  · intro h
    obtain ⟨us, n, rest, hcut, hstuck⟩ := exists_cut m cs
    have heq := hcut.tokensFrom_eq
    cases rest with
    | nil =>
      rw [h, tokensFrom, Except.map, Except.ok.injEq, List.append_nil] at heq
      obtain ⟨front, rfl, rfl, -⟩ := hcut.exists_front
      rw [heq, List.append_nil]
      rwa [List.append_nil] at hcut
    | cons c after =>
      rw [h, tokensFrom_of_isStuck (hstuck c after rfl)] at heq
      cases heq
  · intro h
    rw [h.tokensFrom_eq, tokensFrom, Except.map, List.append_nil]

theorem tokensFrom_eq_error_iff {m : Nat} {cs : List Char} {e : LexicalError} :
    tokensFrom m cs = .error e ↔ ∃ ts n c after, Cut m cs ts n (c :: after) ∧ IsStuck c after ∧
      e = ⟨.ofChar c, ⟨n, n + c.utf8Size⟩⟩ := by
  constructor
  · intro h
    obtain ⟨ts, n, rest, hcut, hstuck⟩ := exists_cut m cs
    have heq := hcut.tokensFrom_eq
    cases rest with
    | nil =>
      rw [h, tokensFrom] at heq
      cases heq
    | cons c after =>
      rw [h, tokensFrom_of_isStuck (hstuck c after rfl), Except.map, Except.error.injEq] at heq
      exact ⟨ts, n, c, after, hcut, hstuck c after rfl, heq⟩
  · rintro ⟨ts, n, c, after, hcut, hstuck, rfl⟩
    rw [hcut.tokensFrom_eq, tokensFrom_of_isStuck hstuck]
    rfl

/-- The lexer and the grammar of its tokens. The tokens of a text are the lexemes that were cut
    off it, each with the bytes it covers, one behind the other. A text without tokens is one
    whose cut is stuck; it is refused for the first character that could not be cut off, and
    what stands in front of that has tokens. -/
theorem tokenize_cut (text : String) :
    (∀ ts, tokenize text = .ok ts ↔ Cut 0 text.toList ts text.utf8ByteSize []) ∧
    (∀ ts, tokenize text = .ok ts → Placed 0 text.utf8ByteSize ts) ∧
    ∀ e, tokenize text = .error e ↔
      ∃ front c after ts, text.toList = front ++ c :: after ∧
        Cut 0 text.toList ts (Text.byteSize front) (c :: after) ∧ IsStuck c after ∧
        tokenize (String.ofList front) = .ok ts ∧
        e = ⟨.ofChar c, ⟨Text.byteSize front, Text.byteSize front + c.utf8Size⟩⟩ := by
  refine ⟨fun ts => ?_, fun ts h => tokenize_placed h, fun e => ?_⟩
  · rw [tokenize, tokensFrom_eq_ok_iff, Nat.zero_add, byteSize_toList]
  · rw [tokenize, tokensFrom_eq_error_iff]
    constructor
    · rintro ⟨ts, n, c, after, hcut, hstuck, rfl⟩
      obtain ⟨front, htext, rfl, hfront⟩ := hcut.exists_front
      rw [Nat.zero_add] at hcut hfront ⊢
      refine ⟨front, c, after, ts, htext, hcut, hstuck, ?_, rfl⟩
      rwa [tokenize, String.toList_ofList, tokensFrom_eq_ok_iff, Nat.zero_add]
    · rintro ⟨front, c, after, ts, -, hcut, hstuck, -, rfl⟩
      exact ⟨ts, _, c, after, hcut, hstuck, rfl⟩

end ConvexLang
