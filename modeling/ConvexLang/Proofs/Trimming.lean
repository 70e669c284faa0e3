import ConvexLang.Proofs.Spelling

/-!
# Texts that are joined and trimmed

The lexer looks one or two characters past a lexeme at most, and what it looks for
there are characters that go on with a word, a number or a relation. So the kinds
of a text do not depend on what is joined to it, as long as that is detached: as long
as it begins with no such character. A comment is the exception; it swallows what
is joined to it, up to the end of the line.

* `kinds?_append`: the kinds of a text without comments, with a detached text joined
  to it.
* `kinds?_code`: the kinds of a line are those of its code, which is all that stands
  before its first `#`.
* `kinds?_trim`: trimming a line that can be read leaves its kinds. Among the blanks
  that trimming takes away are some that no line may hold outside of comments.
* `kinds?_concat_gap`: a gap behind a line adds nothing to it, even if a comment swallows it.
-/

namespace ConvexLang

/-! ## Detached texts -/

/-- The text goes on with no lexeme before it: neither with a word or a number nor
    with a relation. -/
def Detached (cs : List Char) : Prop :=
  Apart cs ∧ cs.head? ≠ some '='

theorem detached_cons {c : Char} (h : isWordChar c = false ∧ c ≠ '.' ∧ c ≠ '=')
    (cs : List Char) : Detached (c :: cs) :=
  ⟨apart_cons ⟨h.1, h.2.1⟩ cs, fun hc => h.2.2 (Option.some.inj hc)⟩

/-- A run of characters ends where a text is joined that does not go on with it. -/
theorem span_append {p : Char → Bool} (cs : List Char) {ds : List Char}
    (h : ∀ c, ds.head? = some c → p c = false) :
    (cs ++ ds).takeWhile p = cs.takeWhile p ∧
      (cs ++ ds).dropWhile p = cs.dropWhile p ++ ds := by
  induction cs with
  | nil =>
    cases ds with
    | nil => exact ⟨rfl, rfl⟩
    | cons d ds => simp [h d rfl]
  | cons c cs ih =>
    cases hc : p c with
    | false => simp [hc]
    | true => simpa [hc] using ih

/-! ## One lexeme -/

namespace Lexeme

variable {c : Char} {cs ds : List Char}

theorem splitNumber_append (h : Detached ds) :
    splitNumber (cs ++ ds) =
      ((splitNumber cs).1, (splitNumber cs).2.1, (splitNumber cs).2.2 ++ ds) := by
  have hdigit : ∀ c, ds.head? = some c → c.isDigit = false := fun c hc =>
    isDigit_eq_false (h.1 c hc).1
  obtain ⟨htake, hdrop⟩ := span_append cs hdigit
  simp only [splitNumber, htake, hdrop]
  rcases cs.dropWhile Char.isDigit with _ | ⟨e, r⟩
  · cases ds with
    | nil => rfl
    | cons d ds =>
      have hpoint : d ≠ '.' := (h.1 d rfl).2
      simp [hpoint]
  · by_cases he : e = '.'
    · subst he
      rcases r with _ | ⟨d, r⟩
      · -- a point at the end stays apart from the digits, as no digit is joined to it
        cases ds with
        | nil => rfl
        | cons d ds => simp [hdigit d rfl]
      · cases hd : d.isDigit with
        | false => simp [hd]
        | true =>
          obtain ⟨htake', hdrop'⟩ := span_append (d :: r) hdigit
          rw [List.cons_append] at htake' hdrop'
          simp [hd, htake', hdrop']
    · simp [he]

theorem number?_append (cs : List Char) (h : Detached ds) :
    (number? (cs ++ ds)).map (fun l => (l.kind, l.rest)) =
      (number? cs).map fun l => (l.kind, l.rest ++ ds) := by
  simp only [number?, splitNumber_append h]
  split <;> rfl

theorem withEquals_eq_error {r : Relation} {fault : LexicalFault} (h : cs.head? ≠ some '=') :
    withEquals r fault c cs = .error fault := by
  rw [withEquals.eq_def]
  split
  · exact absurd rfl h
  · rfl

theorem withEquals_append {r : Relation} {fault : LexicalFault} (h : Detached ds) :
    (withEquals r fault c (cs ++ ds)).map (fun l => (l.kind, l.rest)) =
      (withEquals r fault c cs).map fun l => (l.kind, l.rest ++ ds) := by
  by_cases hcs : cs.head? = some '='
  · obtain ⟨cs, rfl⟩ := List.head?_eq_some_iff.1 hcs
    rfl
  · have happend : (cs ++ ds).head? ≠ some '=' := by
      cases cs with
      | nil => exact h.2
      | cons d cs => exact hcs
    rw [withEquals_eq_error hcs, withEquals_eq_error happend]
    rfl

/-- Reading a lexeme does not look past the text that it is read from, if what is
    joined to it is detached. -/
theorem read_append (c : Char) (cs : List Char) (h : Detached ds) :
    (read c (cs ++ ds)).map (fun l => (l.kind, l.rest)) =
      (read c cs).map fun l => (l.kind, l.rest ++ ds) := by
  have hnumber := number?_append (c :: cs) h
  simp only [List.cons_append] at hnumber
  unfold read
  split
  · obtain ⟨htake, hdrop⟩ := span_append cs fun d hd => (h.1 d hd).1
    simp only [word, Except.map, htake, hdrop]
  · cases hcs : number? (c :: cs) with
    | some l =>
      rw [hcs] at hnumber
      obtain ⟨l', hl', heq⟩ := Option.map_eq_some_iff.1 hnumber
      simp only [hl', Except.map, heq]
    | none =>
      rw [hcs, Option.map_none, Option.map_eq_none_iff] at hnumber
      simp only [hnumber]
      split <;> first | exact withEquals_append h | rfl

end Lexeme

/-! ## Kinds of joined texts -/

/-- The kinds of a text without comments and of a detached text behind it. -/
theorem kinds?_append {cs ds : List Char} (hcs : '#' ∉ cs) (hds : Detached ds) :
    kinds? (cs ++ ds) = (kinds? cs).bind fun ks => (kinds? ds).map (ks ++ ·) := by
  induction cs using cut_induction with
  | nil => simp
  | gap c cs hgap ih =>
    rw [List.cons_append, kinds?_gap hgap, kinds?_gap hgap]
    exact ih fun h => hcs (List.mem_cons_of_mem c h)
  | comment cs ih => exact absurd List.mem_cons_self hcs
  | error c cs fault hgap hc hread =>
    have happend := Lexeme.read_append c cs hds
    rw [hread] at happend
    cases hread' : Lexeme.read c (cs ++ ds) with
    | ok l =>
      rw [hread'] at happend
      cases happend
    | error fault' =>
      rw [List.cons_append, kinds?_error hgap hc hread', kinds?_error hgap hc hread]
      rfl
  | lexeme c cs l hgap hc hread ih =>
    have happend := Lexeme.read_append c cs hds
    rw [hread] at happend
    cases hread' : Lexeme.read c (cs ++ ds) with
    | error fault' =>
      rw [hread'] at happend
      cases happend
    | ok l' =>
      rw [hread'] at happend
      simp only [Except.map, Except.ok.injEq, Prod.mk.injEq] at happend
      obtain ⟨hkind, hrest⟩ := happend
      have hmem : '#' ∉ l.rest := fun h => hcs (l.whole ▸ List.mem_append_right _ h)
      rw [List.cons_append, kinds?_lexeme hgap hc hread', kinds?_lexeme hgap hc hread, hkind,
        hrest, ih hmem]
      cases kinds? l.rest <;> simp [Function.comp_def]

/-! ## Comments -/

/-- What stands before the first `#` of a line. -/
def codeOf (cs : List Char) : List Char :=
  cs.takeWhile (· ≠ '#')

theorem hash_not_mem_codeOf (cs : List Char) : '#' ∉ codeOf cs := by
  intro h
  simpa using List.all_eq_true.1 List.all_takeWhile _ h

theorem codeOf_eq_self {cs : List Char} (h : '#' ∉ cs) : codeOf cs = cs :=
  List.takeWhile_eq_self_iff.2 fun _ hc => decide_eq_true fun heq => h (heq ▸ hc)

/-- A comment hides what is joined to it. -/
theorem codeOf_append (cs ds : List Char) :
    codeOf (cs ++ ds) = if '#' ∈ cs then codeOf cs else cs ++ codeOf ds := by
  induction cs with
  | nil => simp
  | cons c cs ih =>
    by_cases hc : c = '#'
    · subst hc
      simp [codeOf]
    · have hcons (es : List Char) : codeOf (c :: es) = c :: codeOf es := by simp [codeOf, hc]
      rw [List.cons_append, hcons, hcons, ih]
      have hmem : '#' ∈ c :: cs ↔ '#' ∈ cs := by simp [Ne.symm hc]
      simp only [hmem]
      split <;> rfl

/-- Behind the code of a line there is nothing or a comment. -/
theorem exists_comment (cs : List Char) :
    ∃ comment, cs = codeOf cs ++ comment ∧ (comment = [] ∨ ∃ r, comment = '#' :: r) := by
  refine ⟨cs.dropWhile (· ≠ '#'), List.takeWhile_append_dropWhile.symm, ?_⟩
  cases h : cs.dropWhile (· ≠ '#') with
  | nil => exact .inl rfl
  | cons c r =>
    have hc := List.head?_dropWhile_not (· ≠ '#') cs
    rw [h] at hc
    obtain rfl : c = '#' := by simpa using hc
    exact .inr ⟨r, rfl⟩

theorem detached_hash (cs : List Char) : Detached ('#' :: cs) :=
  detached_cons (by decide) cs

theorem kinds?_comment_append {r : List Char} (hr : '\n' ∉ r) (ds : List Char) :
    kinds? ('#' :: (r ++ ds)) = kinds? (ds.dropWhile (· ≠ '\n')) := by
  rw [kinds?_comment, List.dropWhile_append_of_pos]
  intro c hc
  exact decide_eq_true fun h => hr (h ▸ hc)

/-- The kinds of a line are those of its code. -/
theorem kinds?_code {cs : List Char} (h : '\n' ∉ cs) : kinds? cs = kinds? (codeOf cs) := by
  obtain ⟨comment, hcs, rfl | ⟨r, rfl⟩⟩ := exists_comment cs
  · rw [List.append_nil] at hcs
    rw [← hcs]
  · have hr : '\n' ∉ r := fun hr => h (hcs ▸ List.mem_append_right _ (List.mem_cons_of_mem _ hr))
    have hcomment := kinds?_comment_append hr []
    rw [List.append_nil, List.dropWhile_nil, kinds?_nil] at hcomment
    calc kinds? cs = kinds? (codeOf cs ++ '#' :: r) := congrArg kinds? hcs
      _ = kinds? (codeOf cs) := by
        rw [kinds?_append (hash_not_mem_codeOf cs) (detached_hash r), hcomment]
        cases kinds? (codeOf cs) <;> simp

/-! ## Blanks -/

/-- A blank begins no lexeme. -/
theorem read_blank {c : Char} (h : Text.isBlank c = true) (cs : List Char) :
    ∃ fault, Lexeme.read c cs = .error fault := by
  simp only [Text.isBlank, Text.blanks, List.contains_eq_mem, decide_eq_true_eq, List.mem_cons,
    List.not_mem_nil, or_false] at h
  rcases h with rfl | rfl | rfl | rfl | rfl | rfl | rfl | rfl | rfl | rfl | rfl | rfl | rfl | rfl |
    rfl | rfl | rfl | rfl | rfl | rfl | rfl | rfl | rfl | rfl | rfl <;>
  exact ⟨_, rfl⟩

/-- Blanks in front of a text add no kinds to it, if it can be read behind them. -/
theorem kinds?_of_blanks {bs cs : List Char} {ks : List TokenKind}
    (hbs : ∀ c ∈ bs, Text.isBlank c = true) (h : kinds? (bs ++ cs) = some ks) :
    kinds? cs = some ks := by
  induction bs with
  | nil => exact h
  | cons c bs ih =>
    have hbs' := fun d hd => hbs d (List.mem_cons_of_mem c hd)
    rw [List.cons_append] at h
    cases hgap : isGap c with
    | true =>
      rw [kinds?_gap hgap] at h
      exact ih hbs' h
    | false =>
      have hblank := hbs c List.mem_cons_self
      have hc : c ≠ '#' := by
        rintro rfl
        exact absurd hblank (by decide)
      obtain ⟨fault, hread⟩ := read_blank hblank (bs ++ cs)
      rw [kinds?_error hgap hc hread] at h
      cases h

/-- Blanks alone have no kinds. -/
theorem eq_nil_of_blanks {bs : List Char} {ks : List TokenKind}
    (hbs : ∀ c ∈ bs, Text.isBlank c = true) (h : kinds? bs = some ks) : ks = [] := by
  rw [← List.append_nil bs] at h
  have hnil := kinds?_of_blanks hbs h
  rw [kinds?_nil] at hnil
  exact (Option.some.inj hnil).symm

/-- A blank goes on with no lexeme, and it is no sign of the language. -/
theorem isBlank_facts {c : Char} (h : Text.isBlank c = true) :
    isWordChar c = false ∧ c ∉ ['.', '=', '(', ')'] := by
  have hall : (Text.blanks.all fun c =>
      !isWordChar c && decide (c ∉ ['.', '=', '(', ')'])) = true := by decide +kernel
  rw [Text.isBlank, List.contains_iff_mem] at h
  have hc := List.all_eq_true.1 hall c h
  rwa [Bool.and_eq_true, Bool.not_eq_true', decide_eq_true_eq] at hc

/-- A gap is blank. Not all blanks are gaps. -/
theorem isBlank_of_isGap {c : Char} (h : isGap c = true) : Text.isBlank c = true := by
  simp only [isGap, Bool.or_eq_true, decide_eq_true_eq] at h
  rcases h with ((rfl | rfl) | rfl) | rfl <;> decide +kernel

theorem hash_not_mem_of_blanks {bs : List Char} (h : ∀ c ∈ bs, Text.isBlank c = true) :
    '#' ∉ bs := fun hmem =>
  absurd (h '#' hmem) (by decide)

theorem detached_of_blanks {bs : List Char} (h : ∀ c ∈ bs, Text.isBlank c = true) :
    Detached bs := by
  cases bs with
  | nil => exact ⟨apart_nil, nofun⟩
  | cons c bs =>
    obtain ⟨hword, hsigns⟩ := isBlank_facts (h c List.mem_cons_self)
    simp only [List.mem_cons, not_or] at hsigns
    exact detached_cons ⟨hword, hsigns.1, hsigns.2.1⟩ bs

/-! ## Trimming -/

/-- Trimming takes blanks away from either end. -/
theorem exists_blanks_trim (cs : List Char) : ∃ as bs, cs = as ++ (Text.trimChars cs ++ bs) ∧
    (∀ c ∈ as, Text.isBlank c = true) ∧ ∀ c ∈ bs, Text.isBlank c = true := by
  have hend (ds : List Char) : ds = Text.trimEnd ds ++ (ds.reverse.takeWhile Text.isBlank).reverse := by
    rw [Text.trimEnd, Text.trimStart, ← List.reverse_append, List.takeWhile_append_dropWhile,
      List.reverse_reverse]
  refine ⟨cs.takeWhile Text.isBlank, ((Text.trimStart cs).reverse.takeWhile Text.isBlank).reverse,
    ?_, fun c => ?_, fun c hc => ?_⟩
  · rw [Text.trimChars, ← hend, Text.trimStart, List.takeWhile_append_dropWhile]
  · exact List.all_eq_true.1 List.all_takeWhile c
  · exact List.all_eq_true.1 List.all_takeWhile c (List.mem_reverse.1 hc)

/-- A comment is not trimmed away. -/
theorem hash_mem_trim_iff {cs : List Char} : '#' ∈ Text.trimChars cs ↔ '#' ∈ cs := by
  obtain ⟨as, bs, hcs, has, hbs⟩ := exists_blanks_trim cs
  constructor
  · intro h
    rw [hcs]
    exact List.mem_append_right _ (List.mem_append_left _ h)
  · intro h
    rw [hcs] at h
    simpa [hash_not_mem_of_blanks has, hash_not_mem_of_blanks hbs] using h

/-- Trimming a line that can be read leaves its kinds. -/
theorem kinds?_trim {cs : List Char} {ks : List TokenKind} (hline : '\n' ∉ Text.trimChars cs)
    (h : kinds? cs = some ks) : kinds? (Text.trimChars cs) = some ks := by
  obtain ⟨as, bs, hcs, has, hbs⟩ := exists_blanks_trim cs
  rw [hcs] at h
  have h := kinds?_of_blanks has h
  generalize Text.trimChars cs = ts at h hline
  rw [kinds?_code hline]
  obtain ⟨comment, hts, hcomment⟩ := exists_comment ts
  rw [hts, List.append_assoc] at h
  -- what stands behind the code, comment and blanks, adds nothing
  have hbehind : Detached (comment ++ bs) ∧ ∀ ls, kinds? (comment ++ bs) = some ls → ls = [] := by
    rcases hcomment with rfl | ⟨r, rfl⟩
    · exact ⟨detached_of_blanks hbs, fun ls hls => eq_nil_of_blanks hbs hls⟩
    · refine ⟨detached_hash _, fun ls hls => ?_⟩
      have hr : '\n' ∉ r := fun hr =>
        hline (hts ▸ List.mem_append_right _ (List.mem_cons_of_mem _ hr))
      rw [List.cons_append, kinds?_comment_append hr] at hls
      exact eq_nil_of_blanks (fun c hc => hbs c ((List.dropWhile_sublist _).subset hc)) hls
  obtain ⟨hdetached, hnil⟩ := hbehind
  rw [kinds?_append (hash_not_mem_codeOf ts) hdetached] at h
  obtain ⟨ks', hks', h⟩ := Option.bind_eq_some_iff.1 h
  obtain ⟨ls, hls, rfl⟩ := Option.map_eq_some_iff.1 h
  rw [hnil ls hls, List.append_nil]
  exact hks'

/-- A gap at the end of a line adds no kinds, even behind a comment. -/
theorem kinds?_concat_gap {c : Char} {cs : List Char} (hc : isGap c = true)
    (hline : '\n' ∉ cs ++ [c]) : kinds? (cs ++ [c]) = kinds? cs := by
  by_cases hcomment : '#' ∈ cs
  · have hcs : '\n' ∉ cs := fun h => hline (List.mem_append_left _ h)
    rw [kinds?_code hline, codeOf_append, if_pos hcomment, ← kinds?_code hcs]
  · have hblank : ∀ d ∈ [c], Text.isBlank d = true := fun d hd =>
      isBlank_of_isGap (List.mem_singleton.1 hd ▸ hc)
    rw [kinds?_append hcomment (detached_of_blanks hblank), kinds?_gap hc, kinds?_nil]
    cases kinds? cs <;> simp

end ConvexLang
