import ConvexLang.Proofs.Checked.Basic
import ConvexLang.Proofs.Munching
import ConvexLang.Proofs.Trimming
import ConvexLang.Session

/-!
# Spacing

The gaps in a line part its lexemes and mean nothing else. A lexeme holds neither a gap nor
a `#`. So in front of a gap, a comment or the end of the line it is the longest one that
stands there, whatever it touched in the line that it was taken from: `1x` is a number and a
name and `1.5.5` is two numbers, and so are `1 x` and `1.5 .5`. The grammar does not even know
that there are gaps, since it reads kinds; places come in when a line is refused.

* `LaidOut`: the tokens of a line, as they are written there, with other gaps around them.
* `kinds?_of_denotes`: a lexeme by itself is one token.
* `LaidOut.kinds?_eq`: what is laid out anew has the kinds that it had.
* `Session.readLine_laidOut`: it is read alike, and refused alike.
-/

namespace ConvexLang

/-- Tokens of a line laid out anew, each as it is written in the line. Gaps may be anywhere
    except inside of a token; between neighbours there is one at least, and behind the last
    token there may be a comment that ends the text. -/
inductive LaidOut (line : List Char) : List Token → List Char → Prop
  | nil : LaidOut line [] []
  | comment {body : List Char} : '\n' ∉ body → LaidOut line [] ('#' :: body)
  | gap {c : Char} {ts : List Token} {cs : List Char} : isGap c = true →
    LaidOut line ts cs → LaidOut line ts (c :: cs)
  | last {t : Token} {text cs : List Char} : slice? t.span.first t.span.past line = some text →
    LaidOut line [] cs → LaidOut line [t] (text ++ cs)
  | next {t : Token} {text : List Char} {c : Char} {ts : List Token} {cs : List Char} :
    slice? t.span.first t.span.past line = some text → isGap c = true →
      LaidOut line ts cs → LaidOut line (t :: ts) (text ++ c :: cs)

/-! ## One lexeme -/

/-- A lexeme goes on past no `#`. -/
theorem hash_not_mem_of_denotes {text : List Char} {k : TokenKind} (h : Denotes text k) :
    '#' ∉ text := by
  have hword {cs : List Char} (hcs : isWord cs = true) : '#' ∉ cs := by
    rw [← String.toList_ofList (l := cs)] at hcs ⊢
    exact fun hmem => absurd (isWordChar_of_isIdentifier hcs _ hmem) (by decide)
  have hdigits {ds : List Char} (hds : ∀ c ∈ ds, c.isDigit = true) : '#' ∉ ds :=
    fun hmem => absurd (hds _ hmem) (by decide)
  cases h with
  | keyword hcs _ => exact hword hcs
  | name hcs _ => exact hword hcs
  | integer _ hds _ => exact hdigits hds
  | wide _ hds _ _ => exact hdigits hds
  | fraction hds _ hfs _ => simp [hdigits hds, hdigits hfs]
  | @relation r => cases r <;> decide
  | sign hsign => cases hsign <;> decide

/-- A lexeme by itself is one token. -/
theorem kinds?_of_denotes {text : List Char} {k : TokenKind} (h : Denotes text k) :
    kinds? text = some [k] := by
  obtain ⟨c, cs, rfl, hgap, hcomment⟩ := Lexeme.exists_cons_of_denotes h
  obtain ⟨l, hread, hfront, hkind⟩ := Lexeme.exists_read h (List.prefix_refl (c :: cs))
  -- what is read off the lexeme is as long as all of it
  have hle : l.text.length ≤ (c :: cs).length := List.IsPrefix.length_le ⟨l.rest, l.whole⟩
  have htext : l.text = c :: cs := (hfront.eq_of_length_le hle).symm
  have hrest : l.rest = [] := by
    have hwhole := l.whole
    rw [htext] at hwhole
    exact List.append_right_eq_self.1 hwhole
  rw [kinds?_lexeme hgap hcomment hread, hrest, kinds?_nil, hkind htext]
  rfl

/-- A lexeme with a text behind it that does not go on with it. -/
theorem kinds?_denotes_append {text cs : List Char} {k : TokenKind} (h : Denotes text k)
    (hcs : Detached cs) : kinds? (text ++ cs) = (kinds? cs).map (k :: ·) := by
  rw [kinds?_append (hash_not_mem_of_denotes h) hcs, kinds?_of_denotes h]
  rfl

/-- What the lexer takes off a line for a token is a lexeme of its kind. -/
theorem exists_slice? {line : String} {ts : List Token} (h : tokenize line = .ok ts)
    {t : Token} (ht : t ∈ ts) :
    ∃ text, slice? t.span.first t.span.past line.toList = some text ∧ Denotes text t.kind := by
  obtain ⟨before, text, after, hline, hdenotes, hspan⟩ :=
    (tokensFrom_eq_ok_iff.1 h).exists_text ht
  rw [hspan, hline, Nat.zero_add, Nat.zero_add]
  exact ⟨text, slice?_append before text after, hdenotes⟩

theorem denotes_of_slice? {line : String} {ts : List Token} (h : tokenize line = .ok ts)
    {t : Token} (ht : t ∈ ts) {text : List Char}
    (htext : slice? t.span.first t.span.past line.toList = some text) : Denotes text t.kind := by
  obtain ⟨text', htext', hdenotes⟩ := exists_slice? h ht
  obtain rfl := Option.some.inj (htext.symm.trans htext')
  exact hdenotes

/-! ## A line laid out anew -/

theorem detached_gap {c : Char} (h : isGap c = true) (cs : List Char) : Detached (c :: cs) := by
  obtain ⟨hword, hsigns⟩ := isBlank_facts (isBlank_of_isGap h)
  simp only [List.mem_cons, not_or] at hsigns
  exact detached_cons ⟨hword, hsigns.1, hsigns.2.1⟩ cs

namespace LaidOut

variable {line : List Char} {ts : List Token} {cs : List Char}

/-- What may stand behind the last token goes on with no lexeme. -/
theorem detached (h : LaidOut line [] cs) : Detached cs := by
  cases h with
  | nil => exact detached_of_blanks (by simp)
  | comment _ => exact detached_hash _
  | gap hc _ => exact detached_gap hc _

/-- Tokens that are laid out anew have the kinds that they had. -/
theorem kinds?_eq (h : LaidOut line ts cs)
    (hts : ∀ t ∈ ts, ∀ text, slice? t.span.first t.span.past line = some text →
      Denotes text t.kind) : kinds? cs = some (ts.map Token.kind) := by
  induction h with
  | nil => exact kinds?_nil
  | @comment body hbody =>
    have hcomment := kinds?_comment_append hbody []
    rwa [List.append_nil, List.dropWhile_nil, kinds?_nil] at hcomment
  | gap hc _ ih => rw [kinds?_gap hc, ih hts]
  | @last t text cs htext hcs ih =>
    have hdenotes := hts t List.mem_cons_self text htext
    rw [kinds?_denotes_append hdenotes hcs.detached, ih (by simp)]
    rfl
  | @next t text c ts cs htext hc _ ih =>
    have hdenotes := hts t List.mem_cons_self text htext
    rw [kinds?_denotes_append hdenotes (detached_gap hc cs), kinds?_gap hc,
      ih fun u hu => hts u (List.mem_cons_of_mem t hu)]
    rfl

end LaidOut

/-- The kinds of a text are those of its tokens. -/
theorem exists_tokenize_of_kinds? {text : String} {ks : List TokenKind}
    (h : kinds? text.toList = some ks) :
    ∃ ts, tokenize text = .ok ts ∧ ts.map Token.kind = ks := by
  obtain ⟨ts, hts, hks⟩ := Option.map_eq_some_iff.1 h
  rw [tokenize]
  cases hread : tokensFrom 0 text.toList with
  | error e =>
    rw [hread] at hts
    cases hts
  | ok us =>
    rw [hread] at hts
    cases hts
    exact ⟨_, rfl, hks⟩

/-- Each of the kinds of a text is denoted by a lexeme. -/
theorem exists_denotes_of_kinds? {text : String} {ks : List TokenKind}
    (h : kinds? text.toList = some ks) : ∀ k ∈ ks, ∃ lexeme, Denotes lexeme k := by
  obtain ⟨ts, hts, rfl⟩ := exists_tokenize_of_kinds? h
  refine List.forall_mem_map.2 fun t ht => ?_
  obtain ⟨-, lexeme, -, -, hdenotes, -⟩ := (tokensFrom_eq_ok_iff.1 hts).exists_text ht
  exact ⟨lexeme, hdenotes⟩

/-- Lexemes can be written one behind the other, whatever they are. -/
theorem exists_kinds?_of_denotes {ks : List TokenKind} (h : ∀ k ∈ ks, ∃ lexeme, Denotes lexeme k) :
    ∃ text : String, kinds? text.toList = some ks := by
  induction ks with
  | nil => exact ⟨"", kinds?_nil⟩
  | cons k ks ih =>
    obtain ⟨lexeme, hdenotes⟩ := h k List.mem_cons_self
    obtain ⟨text, htext⟩ := ih fun l hl => h l (List.mem_cons_of_mem k hl)
    refine ⟨String.ofList (lexeme ++ ' ' :: text.toList), ?_⟩
    rw [String.toList_ofList, kinds?_denotes_append hdenotes (detached_gap rfl _),
      kinds?_gap rfl, htext]
    rfl

/-! ## Reading it -/

/-- A line laid out anew is read alike: it has the same kinds, it turns out to be the same, and
    the session after it is the same. If it is refused, then for the same problem and with the
    same hint, except that a line that is no expression is quoted as it is laid out; what is
    pointed at are the same tokens, where they stand now. -/
theorem Session.readLine_laidOut {line line' : String} {ts : List Token}
    (h : tokenize line = .ok ts) (hlaid : LaidOut line.toList ts line'.toList) (s : Session) :
    ∃ ts', tokenize line' = .ok ts' ∧ ts'.map Token.kind = ts.map Token.kind ∧
      match s.readLine line with
      | (s', .ok l) => s.readLine line' = (s', .ok l)
      | (s', .error d) => ∃ problem, ∃ site : Site,
        d.span = some (site.span ts line.utf8ByteSize) ∧
        s.readLine line' = (s', .error { d with
          problem := problem
          span := some (site.span ts' line'.utf8ByteSize) }) ∧
        (problem = d.problem ∨ d.problem = .grammatical (.invalidExpression line) ∧
          problem = .grammatical (.invalidExpression line')) := by
  obtain ⟨ts', h', hkinds⟩ := exists_tokenize_of_kinds?
    (hlaid.kinds?_eq fun t ht text htext => denotes_of_slice? h ht htext)
  refine ⟨ts', h', hkinds, ?_⟩
  simp only [readLine, ConvexLang.readLine, h, h', hkinds]
  cases Grammar.line s.scope (ts.map Token.kind) with
  | ok l => rfl
  | error stop =>
    cases stop with
    | unexpected rest => exact ⟨_, _, rfl, rfl, .inr ⟨rfl, rfl⟩⟩
    | settled problem site => exact ⟨_, site, rfl, rfl, .inl rfl⟩

/-- In `1x` a number touches a name. With a line end between them and a comment behind the
    name there is still too much behind the number. -/
theorem Session.readLine_laidOut_touching :
    let ts : List Token := [⟨.integer 1, ⟨0, 1⟩⟩, ⟨.identifier "x", ⟨1, 2⟩⟩]
    tokenize "1x" = .ok ts ∧ LaidOut "1x".toList ts " 1\nx# two".toList ∧
      ∃ span, Session.standard.readLine " 1\nx# two" =
        (Session.standard, .error (.atSpan (.grammatical (.trailingInput "1")) span)) := by
  intro ts
  have htokens : tokenize "1x" = .ok ts := by cbv
  have hlaid : LaidOut "1x".toList ts " 1\nx# two".toList := by
    have htext : slice? 0 1 "1x".toList = some ['1'] := by decide +kernel
    have htext' : slice? 1 2 "1x".toList = some ['x'] := by decide +kernel
    have hline : " 1\nx# two".toList =
        ' ' :: (['1'] ++ '\n' :: (['x'] ++ '#' :: [' ', 't', 'w', 'o'])) := by decide +kernel
    rw [hline]
    exact .gap rfl (.next htext rfl (.last htext' (.comment (by decide))))
  refine ⟨htokens, hlaid, ?_⟩
  have hread : Session.standard.readLine "1x" =
      (Session.standard, .error (.atSpan (.grammatical (.trailingInput "1")) ⟨1, 2⟩)) := by
    cbv
  obtain ⟨ts', -, -, houtcome⟩ := Session.readLine_laidOut htokens hlaid .standard
  rw [hread] at houtcome
  obtain ⟨problem, site, -, hread', rfl | ⟨hquote, -⟩⟩ := houtcome
  · exact ⟨_, hread'⟩
  · cases hquote

end ConvexLang
