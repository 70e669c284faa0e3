import ConvexLang.Proofs.Checked.Basic
import ConvexLang.Proofs.Munching

/-!
# The lexer by positions

The lexer, reading a line in place. It knows the line and the offset it has come to, and
looks at the line only by cutting it at that offset (`peek`), or between two offsets for the
text of a word or a number (`slice?`). All that can go wrong there is checked: that the line
can be cut, that digits can be read as a number, and that each round of a loop goes on in the
line.

* `Checked.tokenize_eq`: no check fails, and the tokens are those of the lexer that takes
  the line apart as a list of characters.
-/

namespace ConvexLang.Checked

/-- A reader of a line by the offset it has come to. -/
abbrev Lexing (α : Type) : Type :=
  Checked Nat LexicalError α

section Line

variable (line : List Char)

/-- How many bytes of the line remain behind an offset. -/
def bytesLeft (pos : Nat) : Nat :=
  Text.byteSize line - pos

/-- The next character. -/
def peek : Lexing (Option Char) := do
  let pos ← state
  let cs ← check (behind? pos line)
  return cs.head?

/-- The character behind the next one. -/
def peekSecond : Lexing (Option Char) := do
  let pos ← state
  let cs ← check (behind? pos line)
  return cs[1]?

/-- Goes past the next character, if there is one. -/
def advance : Lexing Unit := do
  match ← peek line with
  | some c =>
    let pos ← state
    goTo (pos + c.utf8Size)
  | none => return ()

/-- Goes past the next character, if `p` holds of it. -/
def eatOne (p : Char → Bool) : Lexing (ForInStep Unit) := do
  match ← peek line with
  | some c =>
    if p c then
      advance line
      return .yield ()
    else return .done ()
  | none => return .done ()

/-- Goes past the characters that `p` holds of. -/
def eatWhile (p : Char → Bool) : Lexing Unit :=
  loop (bytesLeft line) (fun _ => eatOne line p) ()

/-- A token of one character. -/
def single (kind : TokenKind) : Lexing Token := do
  let start ← state
  advance line
  let past ← state
  return ⟨kind, ⟨start, past⟩⟩

/-- A relation: a character with an equals sign behind it. -/
def withEquals (r : Relation) (fault : LexicalFault) : Lexing Token := do
  let start ← state
  advance line
  let c? ← peek line
  if c? = some '=' then
    advance line
    let past ← state
    return ⟨.relation r, ⟨start, past⟩⟩
  else
    let past ← state
    fail ⟨fault, ⟨start, past⟩⟩

/-- A word. -/
def word : Lexing Token := do
  let start ← state
  eatWhile line isWordChar
  let past ← state
  let text ← check (slice? start past line)
  return ⟨.ofWord (String.ofList text), ⟨start, past⟩⟩

/-- Goes past a point and the digits behind it, if there are any, and tells whether there
    were. -/
def fraction : Lexing Bool := do
  let first? ← peek line
  let second? ← peekSecond line
  if first? = some '.' ∧ second?.any Char.isDigit = true then
    advance line
    eatWhile line Char.isDigit
    return true
  else return false

/-- The integer a text stands for, if it is one and fits into 63 bits. -/
def integer? (text : List Char) : Option Nat :=
  (Decimal.readNat? text).filter (· ≤ Lexeme.maxInteger)

/-- The kind of a number. What is no integer must be a floating-point number. -/
def magnitude (isFraction : Bool) (text : List Char) : Lexing TokenKind :=
  match if isFraction then none else integer? text with
  | some n => return .integer n
  | none => do
    let x ← check (Decimal.readFloat? (String.ofList text))
    return .real x

/-- A number. -/
def number : Lexing Token := do
  let start ← state
  eatWhile line Char.isDigit
  let isFraction ← fraction line
  let past ← state
  let text ← check (slice? start past line)
  let kind ← magnitude isFraction text
  return ⟨kind, ⟨start, past⟩⟩

/-- Goes past a blank or a comment, if there is one. -/
def skipGap : Lexing (ForInStep Unit) := do
  match ← peek line with
  | some c =>
    if isGap c then
      advance line
      return .yield ()
    else if c = '#' then
      eatWhile line (· ≠ '\n')
      return .yield ()
    else return .done ()
  | none => return .done ()

/-- Goes past blanks and comments. -/
def skipGaps : Lexing Unit :=
  loop (bytesLeft line) (fun _ => skipGap line) ()

/-- The token that begins at `start` with the character `c`, which begins no word and no
    number. -/
def mark (start : Nat) (c : Char) : Lexing Token :=
  match c with
  | '+' => single line .plus
  | '-' => single line .minus
  | '*' => single line .star
  | '/' => single line .slash
  | '(' => single line .leftParen
  | ')' => single line .rightParen
  | ',' => single line .comma
  | '=' => withEquals line .equal .singleEquals
  | '<' => withEquals line .lessEqual .strictLess
  | '>' => withEquals line .greaterEqual .strictGreater
  | '^' => fail ⟨.exponent, ⟨start, start + 1⟩⟩
  | c => fail ⟨.illegalCharacter c, ⟨start, start + c.utf8Size⟩⟩

/-- The token that begins with the character `c`. -/
def token (c : Char) : Lexing Token := do
  let start ← state
  let second? ← peekSecond line
  if isWordStart c then word line
  else if c.isDigit ∨ c = '.' ∧ second?.any Char.isDigit = true then number line
  else mark line start c

/-- The next token, if there is one. -/
def next : Lexing (Option Token) := do
  skipGaps line
  match ← peek line with
  | some c =>
    let t ← token line c
    return some t
  | none => return none

/-- Puts the next token, if there is one, behind those that were read. -/
def nextToken (ts : List Token) : Lexing (ForInStep (List Token)) := do
  match ← next line with
  | some t => return .yield (ts ++ [t])
  | none => return .done ts

/-- The tokens that were read and those that are still to come. -/
def moreTokens : List Token → Lexing (List Token) :=
  loop (bytesLeft line) (nextToken line)

end Line

/-- The tokens of a line. -/
def tokenize (line : String) : Option (Except LexicalError (List Token)) :=
  ((moreTokens line.toList []).run 0).map Prod.fst

/-! ## Looking at the line -/

section Steps

variable {line front cs : List Char} {c : Char}

theorem run_peek (h : line = front ++ cs) :
    (peek line).run (Text.byteSize front) = some (.ok cs.head?, Text.byteSize front) := by
  rw [peek, run_bind_ok run_state, h, behind?_append]
  rfl

theorem run_peekSecond (h : line = front ++ cs) :
    (peekSecond line).run (Text.byteSize front) = some (.ok cs[1]?, Text.byteSize front) := by
  rw [peekSecond, run_bind_ok run_state, h, behind?_append]
  rfl

theorem run_advance (h : line = front ++ c :: cs) :
    (advance line).run (Text.byteSize front) = some (.ok (), Text.byteSize (front ++ [c])) := by
  rw [advance, run_bind_ok (run_peek h), Text.byteSize_append]
  rfl

/-- Less of the line remains behind characters than in front of them. -/
theorem bytesLeft_lt {text : List Char} (h : line = front ++ (text ++ cs)) (hne : text ≠ []) :
    bytesLeft line (Text.byteSize (front ++ text)) < bytesLeft line (Text.byteSize front) := by
  have := byteSize_pos hne
  simp only [h, bytesLeft, Text.byteSize_append]
  omega

theorem run_eatWhile (p : Char → Bool) (h : line = front ++ cs) :
    (eatWhile line p).run (Text.byteSize front) =
      some (.ok (), Text.byteSize (front ++ cs.takeWhile p)) := by
  induction cs generalizing front with
  | nil =>
    rw [List.takeWhile_nil, List.append_nil]
    exact run_loop_done (run_bind_ok (run_peek h))
  | cons c cs ih =>
    rw [List.takeWhile_cons]
    cases hc : p c with
    | true =>
      have hround : (eatOne line p).run (Text.byteSize front) =
          some (.ok (.yield ()), Text.byteSize (front ++ [c])) := by
        rw [eatOne, run_bind_ok (run_peek h)]
        simp only [List.head?_cons, hc, if_true]
        exact run_bind_ok (run_advance h)
      refine (run_loop_yield hround (bytesLeft_lt h (List.cons_ne_nil c []))).trans ?_
      rw [if_pos rfl, show front ++ c :: cs.takeWhile p = _ from List.append_cons ..]
      exact ih (h.trans (List.append_cons ..))
    | false =>
      have hround : (eatOne line p).run (Text.byteSize front) =
          some (.ok (.done ()), Text.byteSize front) := by
        rw [eatOne, run_bind_ok (run_peek h)]
        simp only [List.head?_cons, hc]
        rfl
      rw [if_neg Bool.false_ne_true, List.append_nil]
      exact run_loop_done hround

/-! ## Lexemes -/

/-- The token of a lexeme behind `front`. -/
def tokenOf (front : List Char) (l : Lexeme cs) : Token :=
  ⟨l.kind, ⟨Text.byteSize front, Text.byteSize (front ++ l.text)⟩⟩

theorem run_word (hc : isWordStart c = true) (h : line = front ++ c :: cs) :
    (word line).run (Text.byteSize front) =
      some (.ok (tokenOf front (.word c cs)),
        Text.byteSize (front ++ (Lexeme.word c cs).text)) := by
  have htake : (c :: cs).takeWhile isWordChar = (Lexeme.word c cs).text :=
    List.takeWhile_cons_of_pos (isWordChar_of_isWordStart hc)
  have hslice := slice?_append front (Lexeme.word c cs).text (Lexeme.word c cs).rest
  rw [(Lexeme.word c cs).whole, ← h] at hslice
  rw [word, run_bind_ok run_state, run_bind_ok (run_eatWhile isWordChar h), htake,
    run_bind_ok run_state, hslice]
  rfl

theorem integer?_digits {ds : List Char} (hne : ds ≠ []) (hds : ∀ d ∈ ds, d.isDigit = true) :
    integer? ds =
      if Decimal.value ds ≤ Lexeme.maxInteger then some (Decimal.value ds) else none := by
  have hnat : Decimal.readNat? ds = some (Decimal.value ds) :=
    if_pos ⟨hne, List.all_eq_true.2 hds⟩
  rw [integer?, hnat, Option.filter]
  simp only [decide_eq_true_eq]

/-- Every run of digits is a number, with a point and digits behind it or without. -/
theorem run_magnitude {ds fs : List Char} (hds : ∀ d ∈ ds, d.isDigit = true)
    (hfs : (fs = [] ∧ ds ≠ []) ∨
      ∃ fs', fs = '.' :: fs' ∧ fs' ≠ [] ∧ ∀ d ∈ fs', d.isDigit = true) {pos : Nat} :
    (magnitude (!fs.isEmpty) (ds ++ fs)).run pos =
      some (.ok (Lexeme.numberKind ds fs), pos) := by
  rcases hfs with ⟨rfl, hne⟩ | ⟨fs', rfl, hne, hfs'⟩
  · rw [List.append_nil, magnitude, Lexeme.numberKind.eq_def]
    simp only [List.isEmpty_nil, Bool.not_true, Bool.false_eq_true, if_false,
      integer?_digits hne hds, Decimal.readFloat?_digits hne hds]
    split_ifs
    · rfl
    · rfl
  · rw [magnitude, Lexeme.numberKind.eq_def]
    simp only [List.isEmpty_cons, Bool.not_false, if_true,
      Decimal.readFloat?_fraction hds hne hfs']
    rfl

theorem run_fraction_of_point {d : Char} {ds : List Char} (hd : d.isDigit = true)
    (h : line = front ++ '.' :: d :: ds) :
    (fraction line).run (Text.byteSize front) =
      some (.ok true, Text.byteSize (front ++ '.' :: (d :: ds).takeWhile Char.isDigit)) := by
  rw [fraction, run_bind_ok (run_peek h), run_bind_ok (run_peekSecond h), if_pos ⟨rfl, hd⟩,
    run_bind_ok (run_advance h), run_bind_ok (run_eatWhile _ (h.trans (List.append_cons ..))),
    ← List.append_cons, run_pure]

theorem run_fraction_of_no_point (hno : ∀ d ds, cs = '.' :: d :: ds → d.isDigit = false)
    (h : line = front ++ cs) :
    (fraction line).run (Text.byteSize front) = some (.ok false, Text.byteSize front) := by
  rw [fraction, run_bind_ok (run_peek h), run_bind_ok (run_peekSecond h), if_neg, run_pure]
  rintro ⟨hpoint, hdigit⟩
  match cs with
  | [] => cases hpoint
  | [c] => cases hdigit
  | c :: d :: ds =>
    obtain rfl := Option.some.inj hpoint
    rw [show ('.' :: d :: ds)[1]?.any Char.isDigit = d.isDigit from rfl, hno d ds rfl] at hdigit
    cases hdigit

theorem run_fraction {input : List Char} (h : line = front ++ input) :
    (fraction line).run (Text.byteSize (front ++ (Lexeme.splitNumber input).1)) =
      some (.ok (!(Lexeme.splitNumber input).2.1.isEmpty), Text.byteSize
        (front ++ ((Lexeme.splitNumber input).1 ++ (Lexeme.splitNumber input).2.1))) := by
  rw [← List.takeWhile_append_dropWhile (p := Char.isDigit) (l := input), ← List.append_assoc] at h
  rw [Lexeme.splitNumber.eq_def]
  dsimp only
  split
  · rename_i d ds hdrop
    rw [hdrop] at h
    split_ifs with hd
    · rw [run_fraction_of_point hd h, List.append_assoc]
      rfl
    · rw [List.append_nil, run_fraction_of_no_point _ h]
      · rfl
      · rintro _ _ ⟨⟩
        exact Bool.eq_false_iff.2 hd
  · rename_i hdrop
    rw [List.append_nil, run_fraction_of_no_point (fun d ds heq => absurd heq (hdrop d ds)) h]
    rfl

theorem splitNumber_fst (input : List Char) :
    (Lexeme.splitNumber input).1 = input.takeWhile Char.isDigit := by
  rw [Lexeme.splitNumber.eq_def]
  dsimp only
  split
  · split_ifs <;> rfl
  · rfl

theorem run_number {input : List Char} {l : Lexeme input} (hl : Lexeme.number? input = some l)
    (h : line = front ++ input) :
    (number line).run (Text.byteSize front) =
      some (.ok (tokenOf front l), Text.byteSize (front ++ l.text)) := by
  rw [Lexeme.number?] at hl
  split at hl <;> cases hl
  rename_i hne
  obtain ⟨hds, hfs⟩ := Lexeme.splitNumber_cases input
  have hslice := slice?_append front
    ((Lexeme.splitNumber input).1 ++ (Lexeme.splitNumber input).2.1) (Lexeme.splitNumber input).2.2
  rw [List.append_assoc, Lexeme.splitNumber_whole, ← h] at hslice
  rw [number, run_bind_ok run_state, run_bind_ok (run_eatWhile Char.isDigit h),
    ← splitNumber_fst, run_bind_ok (run_fraction h), run_bind_ok run_state, hslice,
    run_bind_ok run_check, run_bind_ok (run_magnitude hds ?_), run_pure]
  · rfl
  · refine hfs.imp (fun hnil => ⟨hnil, ?_⟩) id
    rwa [hnil, List.append_nil] at hne

/-- The result of reading a lexeme that begins with `c`, behind `front`. -/
inductive Reads (front : List Char) (c : Char) :
    Except LexicalFault (Lexeme (c :: cs)) → Option (Except LexicalError Token × Nat) → Prop
  | token {l : Lexeme (c :: cs)} :
    Reads front c (.ok l) (some (.ok (tokenOf front l), Text.byteSize (front ++ l.text)))
  | fault {fault : LexicalFault} {pos : Nat} :
    Reads front c (.error fault)
      (some (.error ⟨fault, ⟨Text.byteSize front, Text.byteSize front + c.utf8Size⟩⟩, pos))

theorem single_reads (k : TokenKind) (h : line = front ++ c :: cs) :
    Reads front c (.ok (.single k c cs)) ((single line k).run (Text.byteSize front)) := by
  rw [single, run_bind_ok run_state, run_bind_ok (run_advance h)]
  exact .token

theorem withEquals_reads (r : Relation) (fault : LexicalFault) (h : line = front ++ c :: cs) :
    Reads front c (Lexeme.withEquals r fault c cs)
      ((withEquals line r fault).run (Text.byteSize front)) := by
  have hbehind := h.trans (List.append_cons ..)
  rw [withEquals, run_bind_ok run_state, run_bind_ok (run_advance h),
    run_bind_ok (run_peek hbehind), Lexeme.withEquals.eq_def]
  split
  · rename_i rest
    rw [List.head?_cons, if_pos rfl, run_bind_ok (run_advance hbehind), run_bind_ok run_state,
      run_pure, List.append_assoc]
    exact .token
  · rename_i hno
    rw [if_neg, run_bind_ok run_state, run_fail, Text.byteSize_append]
    · exact .fault
    · intro hequals
      obtain ⟨rest, rfl⟩ := List.head?_eq_some_iff.1 hequals
      exact hno rest rfl

/-- A number begins with a digit, or with a point in front of one. -/
theorem number?_ne_none_iff :
    Lexeme.number? (c :: cs) ≠ none ↔
      c.isDigit = true ∨ c = '.' ∧ (c :: cs)[1]?.any Char.isDigit = true := by
  have hparts : Lexeme.number? (c :: cs) ≠ none ↔
      (Lexeme.splitNumber (c :: cs)).1 ++ (Lexeme.splitNumber (c :: cs)).2.1 ≠ [] := by
    rw [Lexeme.number?]
    split <;> simp_all
  rw [hparts, Lexeme.splitNumber.eq_def]
  cases hc : c.isDigit with
  | true =>
    simp only [List.takeWhile_cons, hc, if_true, true_or, iff_true]
    split
    · split_ifs <;> simp
    · simp
  | false =>
    simp only [List.takeWhile_cons, List.dropWhile_cons, hc, Bool.false_eq_true, if_false,
      false_or]
    split
    · rename_i d ds heq
      cases heq
      cases hd : d.isDigit <;> simp [hd]
    · rename_i hno
      refine iff_of_false (fun h => h rfl) ?_
      rintro ⟨hpoint, hdigit⟩
      cases cs with
      | nil => cases hdigit
      | cons d ds => exact hno d ds (by rw [hpoint])

/-- The lexeme is read that stands there, or the character refused that begins none. -/
theorem token_reads (h : line = front ++ c :: cs) :
    Reads front c (Lexeme.read c cs) ((token line c).run (Text.byteSize front)) := by
  rw [token, run_bind_ok run_state, run_bind_ok (run_peekSecond h), Lexeme.read.eq_def]
  split_ifs with hword hnumber
  · rw [run_word hword h]
    exact .token
  · rw [← number?_ne_none_iff, Option.ne_none_iff_exists'] at hnumber
    obtain ⟨l, hl⟩ := hnumber
    rw [hl, run_number hl h]
    exact .token
  · rw [← number?_ne_none_iff, not_not] at hnumber
    rw [hnumber]
    dsimp only
    split <;> first
      | exact single_reads _ h
      | exact withEquals_reads _ _ h
      | exact .fault
      | rw [mark.eq_def]
        split <;> first | contradiction | exact .fault

/-! ## Gaps -/

theorem skipGaps_blank (hc : isGap c = true) (h : line = front ++ c :: cs) :
    (skipGaps line).run (Text.byteSize front) =
      (skipGaps line).run (Text.byteSize (front ++ [c])) := by
  refine run_loop_yield ?_ (bytesLeft_lt h (List.cons_ne_nil c []))
  rw [skipGap, run_bind_ok (run_peek h)]
  simp only [List.head?_cons, hc, if_true]
  exact run_bind_ok (run_advance h)

theorem skipGaps_comment (h : line = front ++ '#' :: cs) :
    (skipGaps line).run (Text.byteSize front) =
      (skipGaps line).run (Text.byteSize (front ++ '#' :: cs.takeWhile (· ≠ '\n'))) := by
  have hcomment : ('#' :: cs).takeWhile (· ≠ '\n') = '#' :: cs.takeWhile (· ≠ '\n') :=
    List.takeWhile_cons_of_pos (by decide)
  have hwhole := h
  rw [← List.takeWhile_append_dropWhile (p := (· ≠ '\n')) (l := '#' :: cs), hcomment] at hwhole
  refine run_loop_yield ?_ (bytesLeft_lt hwhole (List.cons_ne_nil _ _))
  rw [skipGap, run_bind_ok (run_peek h)]
  simp only [List.head?_cons, show isGap '#' = false from rfl, Bool.false_eq_true, if_false,
    if_true]
  rw [run_bind_ok (run_eatWhile _ h), hcomment, run_pure]

theorem skipGaps_done (hstop : ∀ c, cs.head? = some c → isGap c = false ∧ c ≠ '#')
    (h : line = front ++ cs) :
    (skipGaps line).run (Text.byteSize front) = some (.ok (), Text.byteSize front) := by
  refine run_loop_done ?_
  rw [skipGap, run_bind_ok (run_peek h)]
  cases cs with
  | nil => rfl
  | cons c cs =>
    obtain ⟨hgap, hcomment⟩ := hstop c rfl
    simp only [List.head?_cons, hgap, Bool.false_eq_true, if_false, hcomment, run_pure]

/-! ## A whole line -/

/-- The result of going on to the next token behind `front`, where `result` are the tokens
    of `cs`, which stand there. -/
inductive Takes (front cs : List Char) :
    Except LexicalError (List Token) → Option (Except LexicalError (Option Token) × Nat) → Prop
  | none {pos : Nat} : Takes front cs (.ok []) (some (.ok none, pos))
  | some {text rest : List Char} {t : Token} : cs = text ++ rest → text ≠ [] →
    Takes front cs ((tokensFrom (Text.byteSize (front ++ text)) rest).map (t :: ·))
      (some (.ok (some t), Text.byteSize (front ++ text)))
  | error {e : LexicalError} {pos : Nat} : Takes front cs (.error e) (some (.error e, pos))

/-- Going past a gap leads to the same token. -/
theorem Takes.behind {gap : List Char} {result : Except LexicalError (List Token)}
    {answer : Option (Except LexicalError (Option Token) × Nat)}
    (h : Takes (front ++ gap) cs result answer) : Takes front (gap ++ cs) result answer := by
  cases h with
  | none => exact .none
  | @some text rest t hcs hne =>
    rw [List.append_assoc]
    exact .some (by rw [hcs, List.append_assoc]) fun h => hne (List.append_eq_nil_iff.1 h).2
  | error => exact .error

theorem run_next_congr {pos pos' : Nat}
    (h : (skipGaps line).run pos = (skipGaps line).run pos') :
    (next line).run pos = (next line).run pos' := by
  simp only [next, bind, h]

theorem next_takes (h : line = front ++ cs) :
    Takes front cs (tokensFrom (Text.byteSize front) cs)
      ((next line).run (Text.byteSize front)) := by
  induction cs using cut_induction generalizing front with
  | nil =>
    rw [next, run_bind_ok (skipGaps_done (by simp) h), run_bind_ok (run_peek h), tokensFrom]
    exact .none
  | gap c cs hgap ih =>
    have hpast : Text.byteSize front + 1 = Text.byteSize (front ++ [c]) := by
      rw [Text.byteSize_append, Text.byteSize, utf8Size_of_isGap hgap]
      rfl
    rw [run_next_congr (skipGaps_blank hgap h), tokensFrom, if_pos hgap, hpast]
    exact (ih (h.trans (List.append_cons ..))).behind
  | comment cs ih =>
    have hpast : Text.byteSize front + 1 + Text.byteSize (cs.takeWhile (· ≠ '\n')) =
        Text.byteSize (front ++ '#' :: cs.takeWhile (· ≠ '\n')) := by
      rw [Text.byteSize_append, Text.byteSize, Nat.add_assoc]
      rfl
    have hwhole : '#' :: cs = '#' :: cs.takeWhile (· ≠ '\n') ++ cs.dropWhile (· ≠ '\n') :=
      congrArg ('#' :: ·) List.takeWhile_append_dropWhile.symm
    rw [run_next_congr (skipGaps_comment h), tokensFrom, if_neg (by decide), if_pos rfl, hpast]
    rw [hwhole, ← List.append_assoc] at h
    rw [hwhole]
    exact (ih h).behind
  | error c cs fault hgap hcomment hread =>
    have hreads := token_reads h
    rw [hread] at hreads
    rw [next, run_bind_ok (skipGaps_done (by simp [hgap, hcomment]) h), run_bind_ok (run_peek h),
      tokensFrom_refused hgap hcomment hread]
    generalize hresult : (token line c).run (Text.byteSize front) = result at hreads
    cases hreads
    rw [List.head?_cons, run_bind_error hresult]
    exact .error
  | lexeme c cs l hgap hcomment hread ih =>
    -- the token itself, behind which `Takes` leaves the others to the next round
    have hreads := token_reads h
    rw [hread] at hreads
    rw [next, run_bind_ok (skipGaps_done (by simp [hgap, hcomment]) h), run_bind_ok (run_peek h),
      tokensFrom_lexeme hgap hcomment hread, ← Text.byteSize_append]
    generalize hresult : (token line c).run (Text.byteSize front) = result at hreads
    cases hreads
    rw [List.head?_cons, run_bind_ok hresult, run_pure]
    exact .some l.whole.symm l.text_ne_nil

/-- The tokens behind those that were read are those of what is left of the line. -/
theorem run_moreTokens {ts : List Token} (h : line = front ++ cs) :
    ∃ pos, (moreTokens line ts).run (Text.byteSize front) =
      some ((tokensFrom (Text.byteSize front) cs).map (ts ++ ·), pos) := by
  -- by the number of characters that are left, of which a token takes one at least
  induction hn : cs.length using Nat.strongRecOn generalizing cs front ts with
  | ind n ih =>
    have htakes := next_takes h
    generalize hresult : tokensFrom (Text.byteSize front) cs = result at htakes ⊢
    generalize hnext : (next line).run (Text.byteSize front) = answer at htakes
    cases htakes with
    | none =>
      rw [Except.map, List.append_nil]
      exact ⟨_, run_loop_done (run_bind_ok hnext)⟩
    | @some text rest t hcs hne =>
      subst hcs
      have hlt : rest.length < n := by
        have := List.length_pos_iff.2 hne
        rw [← hn, List.length_append]
        omega
      obtain ⟨pos, hmore⟩ := ih _ hlt (h.trans (List.append_assoc ..).symm) rfl
      refine ⟨pos, (run_loop_yield (run_bind_ok hnext) (bytesLeft_lt h hne)).trans
        (hmore.trans ?_)⟩
      cases tokensFrom (Text.byteSize (front ++ text)) rest <;> simp [Except.map]
    | error => exact ⟨_, run_loop_error (run_bind_error hnext)⟩

end Steps

/-- Reading a line in place, no check fails, and the tokens are the same. -/
theorem tokenize_eq (line : String) : tokenize line = some (ConvexLang.tokenize line) := by
  obtain ⟨pos, h⟩ : ∃ pos, (moreTokens line.toList []).run (Text.byteSize []) =
      some ((tokensFrom (Text.byteSize []) line.toList).map ([] ++ ·), pos) :=
    run_moreTokens (List.nil_append line.toList).symm
  rw [tokenize, show (0 : Nat) = Text.byteSize [] from rfl, h, ConvexLang.tokenize, Option.map_some,
    Text.byteSize]
  cases tokensFrom 0 line.toList <;> rfl

end ConvexLang.Checked
