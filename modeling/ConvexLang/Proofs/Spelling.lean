import ConvexLang.Proofs.Binary64.PlainText
import ConvexLang.Proofs.Lexing
import ConvexLang.Number

/-!
# Spelling

How a text is put together so that the lexer finds the intended kinds in it. A
lexeme is as long as it can be, so a piece of text has kinds of its own only in
front of what does not go on with its last lexeme: neither a letter, a digit, an
underscore nor a point (`Apart`). A text `Spells` kinds if it adds just these in
front of everything that stands apart.

* `Spells.append`: texts that stand apart spell one after the other.
* `Spells.gap`, `Spells.sign`: blanks and signs in front of a text;
  `spells_binary`, `spells_parens`: a sign between two texts, parentheses around one.
* `spells_word`, `spells_digits`, `spells_shows`: the lexemes whose end is not their
  own affair.
-/

namespace ConvexLang

/-! ## Pieces of text -/

/-- The text does not go on with a word or a number before it. -/
def Apart (cs : List Char) : Prop :=
  ∀ c, cs.head? = some c → isWordChar c = false ∧ c ≠ '.'

/-- The text adds these kinds in front of whatever stands apart. -/
def Spells (cs : List Char) (ks : List TokenKind) : Prop :=
  ∀ rest, Apart rest → kinds? (cs ++ rest) = (kinds? rest).map (ks ++ ·)

theorem apart_nil : Apart [] :=
  fun _ h => nomatch h

theorem apart_cons {c : Char} (h : isWordChar c = false ∧ c ≠ '.') (cs : List Char) :
    Apart (c :: cs) := by
  intro d hd
  obtain rfl := Option.some.inj hd
  exact h

theorem Apart.append {cs rest : List Char} (h : Apart cs) (hrest : Apart rest) :
    Apart (cs ++ rest) := by
  cases cs with
  | nil => exact hrest
  | cons c cs => exact h

theorem spells_nil : Spells [] [] :=
  fun _ _ => by simp

theorem Spells.append {cs ds : List Char} {ks ls : List TokenKind} (h : Spells cs ks)
    (hds : Apart ds) (h' : Spells ds ls) : Spells (cs ++ ds) (ks ++ ls) := by
  intro rest hrest
  rw [List.append_assoc, h _ (hds.append hrest), h' rest hrest, Option.map_map]
  congr 1
  funext ms
  exact (List.append_assoc ks ls ms).symm

/-- A text is what it spells. -/
theorem Spells.kinds? {cs : List Char} {ks : List TokenKind} (h : Spells cs ks) :
    kinds? cs = some ks := by
  have h := h [] apart_nil
  simpa using h

/-! ## Signs and blanks -/

theorem Spells.gap {c : Char} {cs : List Char} {ks : List TokenKind} (hc : isGap c = true)
    (h : Spells cs ks) : Spells (c :: cs) ks :=
  fun rest hrest => (kinds?_gap hc).trans (h rest hrest)

/-- A character that is a lexeme by itself. -/
theorem Spells.cons {c : Char} {k : TokenKind} {cs : List Char} {ks : List TokenKind}
    (hgap : isGap c = false) (hcomment : c ≠ '#')
    (hc : ∀ cs, ∃ l, Lexeme.read c cs = .ok l ∧ l.kind = k ∧ l.rest = cs) (h : Spells cs ks) :
    Spells (c :: cs) (k :: ks) := by
  intro rest hrest
  obtain ⟨l, hl, hkind, hl'⟩ := hc (cs ++ rest)
  rw [List.cons_append, kinds?_lexeme hgap hcomment hl, hkind, hl', h rest hrest, Option.map_map]
  rfl

/-- The signs that are lexemes by themselves. -/
inductive IsSign : Char → TokenKind → Prop
  | plus : IsSign '+' .plus
  | minus : IsSign '-' .minus
  | star : IsSign '*' .star
  | slash : IsSign '/' .slash
  | leftParen : IsSign '(' .leftParen
  | rightParen : IsSign ')' .rightParen
  | comma : IsSign ',' .comma

theorem Spells.sign {c : Char} {k : TokenKind} {cs : List Char} {ks : List TokenKind}
    (hc : IsSign c k) (h : Spells cs ks) : Spells (c :: cs) (k :: ks) := by
  cases hc <;> exact h.cons (by decide) (by decide) fun _ => ⟨_, rfl, rfl, rfl⟩

theorem IsSign.apart {c : Char} {k : TokenKind} (hc : IsSign c k) (cs : List Char) :
    Apart (c :: cs) := by
  cases hc <;> exact apart_cons (by decide) cs

/-- A sign between two texts, with a blank on either side. -/
theorem spells_binary {cs ds : List Char} {ks ls : List TokenKind} {c : Char} {k : TokenKind}
    (hc : IsSign c k) (h : Spells cs ks) (h' : Spells ds ls) :
    Spells (cs ++ ' ' :: c :: ' ' :: ds) (ks ++ k :: ls) :=
  h.append (apart_cons (by decide) _) (((h'.gap rfl).sign hc).gap rfl)

theorem spells_parens {cs : List Char} {ks : List TokenKind} (h : Spells cs ks) :
    Spells ('(' :: (cs ++ [')'])) (.leftParen :: (ks ++ [.rightParen])) :=
  (h.append (IsSign.rightParen.apart _) (spells_nil.sign .rightParen)).sign .leftParen

/-- A lexeme that ends where the text stands apart. -/
theorem spells_of_read {c : Char} {cs : List Char} {k : TokenKind} (hgap : isGap c = false)
    (hcomment : c ≠ '#')
    (h : ∀ rest, Apart rest →
      ∃ l, Lexeme.read c (cs ++ rest) = .ok l ∧ l.kind = k ∧ l.rest = rest) :
    Spells (c :: cs) [k] := by
  intro rest hrest
  obtain ⟨l, hl, hkind, hl'⟩ := h rest hrest
  rw [List.cons_append, kinds?_lexeme hgap hcomment hl, hkind, hl']
  rfl

theorem spells_relation (r : Relation) : Spells r.symbol.toList [.relation r] := by
  cases r <;> exact spells_of_read (by decide) (by decide) fun rest _ => ⟨_, rfl, rfl, rfl⟩

/-! ## Words -/

/-- A run of characters of one kind ends where the text stands apart. -/
theorem takeWhile_append {p : Char → Bool} {cs rest : List Char} (hcs : ∀ c ∈ cs, p c = true)
    (hrest : ∀ c, rest.head? = some c → p c = false) :
    (cs ++ rest).takeWhile p = cs ∧ (cs ++ rest).dropWhile p = rest := by
  rw [List.takeWhile_append_of_pos hcs, List.dropWhile_append_of_pos hcs]
  cases rest with
  | nil => simp
  | cons c rest => simp [hrest c rfl]

theorem isWordStart_facts {c : Char} (h : isWordStart c = true) : isGap c = false ∧ c ≠ '#' := by
  constructor
  · rw [Bool.eq_false_iff]
    intro hgap
    simp only [isGap, Bool.or_eq_true, decide_eq_true_eq] at hgap
    rcases hgap with ((rfl | rfl) | rfl) | rfl <;> exact absurd h (by decide)
  · rintro rfl
    exact absurd h (by decide)

theorem isWordChar_of_isWordStart {c : Char} (h : isWordStart c = true) :
    isWordChar c = true := by
  simp only [isWordStart, Bool.or_eq_true] at h
  rcases h with h | h <;> simp [isWordChar, Char.isAlphanum, h]

theorem isWordChar_of_isIdentifier {name : String} (h : isIdentifier name = true) :
    ∀ c ∈ name.toList, isWordChar c = true := by
  rw [isIdentifier, isWord.eq_def] at h
  split at h
  · cases h
  · rename_i c cs hword
    rw [Bool.and_eq_true, List.all_eq_true] at h
    rw [hword]
    exact List.forall_mem_cons.2 ⟨isWordChar_of_isWordStart h.1, h.2⟩

theorem spells_word {word : String} (h : isIdentifier word = true) :
    Spells word.toList [.ofWord word] := by
  rw [isIdentifier, isWord.eq_def] at h
  split at h
  · cases h
  · rename_i c cs hword
    rw [Bool.and_eq_true, List.all_eq_true] at h
    obtain ⟨hgap, hcomment⟩ := isWordStart_facts h.1
    rw [hword]
    refine spells_of_read hgap hcomment fun rest hrest => ?_
    obtain ⟨htake, hdrop⟩ := takeWhile_append h.2 fun c hc => (hrest c hc).1
    refine ⟨Lexeme.word c (cs ++ rest), ?_, ?_, ?_⟩
    · rw [Lexeme.read.eq_def, if_pos h.1]
    · simp only [Lexeme.word, htake, ← hword, String.ofList_toList]
    · exact hdrop

/-- A name that is no keyword. -/
theorem spells_identifier {name : String} (h : (TokenKind.identifier name).IsWritten) :
    Spells name.toList [.identifier name] := by
  have hword := spells_word h.1
  rwa [TokenKind.ofWord, h.2] at hword

/-! ## Numbers -/

theorem isDigit_facts {c : Char} (h : c.isDigit = true) :
    isGap c = false ∧ c ≠ '#' ∧ isWordStart c = false ∧ isWordChar c = true := by
  refine ⟨?_, ?_, ?_, ?_⟩
  · rw [Bool.eq_false_iff]
    intro hgap
    simp only [isGap, Bool.or_eq_true, decide_eq_true_eq] at hgap
    rcases hgap with ((rfl | rfl) | rfl) | rfl <;> exact absurd h (by decide)
  · rintro rfl
    exact absurd h (by decide)
  · simp only [Char.isDigit, Bool.and_eq_true, decide_eq_true_eq, ge_iff_le,
      UInt32.le_iff_toNat_le] at h
    have hc : c ≠ '_' := by
      rintro rfl
      exact absurd h (by decide)
    simp only [isWordStart, Char.isAlpha, Char.isUpper, Char.isLower, Bool.or_eq_false_iff,
      Bool.and_eq_false_iff, decide_eq_false_iff_not, ge_iff_le, UInt32.le_iff_toNat_le, hc,
      not_false_eq_true, and_true]
    -- the digits come before the letters
    have h9 : '9'.val.toNat = 57 := rfl
    have hA : 'A'.val.toNat = 65 := rfl
    have ha : 'a'.val.toNat = 97 := rfl
    omega
  · simp [isWordChar, Char.isAlphanum, h]

theorem isDigit_eq_false {c : Char} (h : isWordChar c = false) : c.isDigit = false := by
  rw [Bool.eq_false_iff]
  intro hc
  rw [(isDigit_facts hc).2.2.2] at h
  cases h

theorem splitNumber_digits {ds rest : List Char} (hds : ∀ c ∈ ds, c.isDigit = true)
    (hrest : Apart rest) : Lexeme.splitNumber (ds ++ rest) = (ds, [], rest) := by
  obtain ⟨htake, hdrop⟩ := takeWhile_append hds fun c hc => isDigit_eq_false (hrest c hc).1
  rw [Lexeme.splitNumber, htake, hdrop]
  split
  · exact absurd rfl (hrest '.' rfl).2
  · rfl

theorem splitNumber_point {whole fraction rest : List Char}
    (hwhole : ∀ c ∈ whole, c.isDigit = true) (hfraction : ∀ c ∈ fraction, c.isDigit = true)
    (hne : fraction ≠ []) (hrest : Apart rest) :
    Lexeme.splitNumber (whole ++ '.' :: (fraction ++ rest)) = (whole, '.' :: fraction, rest) := by
  obtain ⟨d, ds, rfl⟩ := List.exists_cons_of_ne_nil hne
  have hd : d.isDigit = true := hfraction d List.mem_cons_self
  obtain ⟨htake, hdrop⟩ : _ ∧ _ := takeWhile_append hwhole
    (fun c hc => Option.some.inj hc ▸ rfl : ∀ c, ('.' :: (d :: ds ++ rest)).head? = some c → _)
  obtain ⟨htake', hdrop'⟩ := takeWhile_append hfraction fun c hc =>
    isDigit_eq_false (hrest c hc).1
  simp only [List.cons_append] at htake hdrop htake' hdrop' ⊢
  simp only [Lexeme.splitNumber, htake, hdrop, hd, if_true, htake', hdrop']

/-- The number at the front of a text is read. -/
theorem Lexeme.read_of_splitNumber {c : Char} {cs ds fs rest : List Char}
    (hstart : isWordStart c = false) (h : splitNumber (c :: cs) = (ds, fs, rest))
    (hne : ds ++ fs ≠ []) :
    ∃ l, read c cs = .ok l ∧ l.text = ds ++ fs ∧ l.kind = numberKind ds fs ∧ l.rest = rest := by
  have hparts : (splitNumber (c :: cs)).1 ++ (splitNumber (c :: cs)).2.1 ≠ [] := by
    rw [h]
    exact hne
  obtain ⟨l, hnumber, htext, hkind, hrest⟩ : ∃ l, number? (c :: cs) = some l ∧
      l.text = ds ++ fs ∧ l.kind = numberKind ds fs ∧ l.rest = rest :=
    ⟨_, dif_pos hparts, by simp only [h], by simp only [h], by simp only [h]⟩
  refine ⟨l, ?_, htext, hkind, hrest⟩
  rw [read.eq_def, if_neg (by simp [hstart]), hnumber]

/-- A number whose text begins with its digits. -/
theorem spells_of_splitNumber {whole tail fraction : List Char} (hne : whole ≠ [])
    (hwhole : ∀ c ∈ whole, c.isDigit = true)
    (h : ∀ rest, Apart rest →
      Lexeme.splitNumber (whole ++ tail ++ rest) = (whole, fraction, rest)) :
    Spells (whole ++ tail) [Lexeme.numberKind whole fraction] := by
  obtain ⟨c, cs, rfl⟩ := List.exists_cons_of_ne_nil hne
  obtain ⟨hgap, hcomment, hstart, -⟩ := isDigit_facts (hwhole c List.mem_cons_self)
  refine spells_of_read hgap hcomment fun rest hrest => ?_
  have hsplit : Lexeme.splitNumber (c :: (cs ++ tail ++ rest)) = (c :: cs, fraction, rest) :=
    h rest hrest
  obtain ⟨l, hread, -, hkind, hl⟩ := Lexeme.read_of_splitNumber hstart hsplit (by simp)
  exact ⟨l, hread, hkind, hl⟩

/-- Digits, whether they fit into an integer or not. -/
theorem spells_numberKind {ds : List Char} (hne : ds ≠ []) (hds : ∀ c ∈ ds, c.isDigit = true) :
    Spells ds [Lexeme.numberKind ds []] := by
  have hspells : Spells (ds ++ []) [Lexeme.numberKind ds []] :=
    spells_of_splitNumber hne hds fun rest hrest => by
      rw [List.append_nil]
      exact splitNumber_digits hds hrest
  rwa [List.append_nil] at hspells

/-- The digits of an integer. -/
theorem spells_digits {n : Nat} (h : n ≤ Lexeme.maxInteger) :
    Spells (Decimal.digits n) [.integer n] := by
  have hspells := spells_numberKind (Decimal.digits_ne_nil n) fun _ hc =>
    Decimal.isDigit_of_mem_digits hc
  rwa [show Lexeme.numberKind (Decimal.digits n) [] = .integer n by
    simp [Lexeme.numberKind, h]] at hspells

/-- Digits, a point and digits. -/
theorem spells_shows {cs : List Char} {d : Decimal} (h : Binary64.Shows cs d) :
    Spells cs [.real d.toFloat] := by
  obtain ⟨whole, fraction, rfl, hwhole, hfraction, hdigits, rfl⟩ := h
  have hw : ∀ c ∈ whole, c.isDigit = true := fun c hc => hdigits c (List.mem_append_left _ hc)
  have hf : ∀ c ∈ fraction, c.isDigit = true := fun c hc => hdigits c (List.mem_append_right _ hc)
  have hsplit (rest) (hrest : Apart rest) :
      Lexeme.splitNumber (whole ++ '.' :: fraction ++ rest) = (whole, '.' :: fraction, rest) := by
    rw [List.append_assoc, List.cons_append]
    exact splitNumber_point hw hf hfraction hrest
  exact spells_of_splitNumber hwhole hw hsplit

/-- The plain text of a floating-point number that was read and is finite. -/
theorem spells_plainText {x : Float} (hx : (TokenKind.real x).IsWritten) (hfin : x.isInf = false) :
    Spells (Decimal.plainText x) [.real x] := by
  obtain ⟨d, rfl⟩ := hx
  obtain ⟨e, hshows, he⟩ := Binary64.plainText_reads (Binary64.unsigned_toFloat d) hfin
  have hspells := spells_shows hshows
  rwa [he] at hspells

end ConvexLang
