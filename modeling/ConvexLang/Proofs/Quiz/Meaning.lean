import ConvexLang.Proofs.Extension
import ConvexLang.Proofs.Meaning
import ConvexLang.Proofs.Quiz.Drawing
import ConvexLang.Proofs.Spelling
import ConvexLang.Quiz.Game
import ConvexLang.Quiz.Xoshiro

/-!
# What questions mean

A tree that the quiz draws has a value once its variables have one and the atoms are
functions: a sum adds, a difference takes away, a call applies its atom, and a terminal
means the expression that it is. Its text is put together from pieces that spell sums.
Sums may be added as they stand, and a sum or a difference that is taken away stands in
parentheses. So the text is read as an expression that has the value of the tree.

There is one exception. The terminal `y - 42` is a difference too, but gets no
parentheses: behind a minus sign it takes `42` away where the tree gives it back, and
`84` of the value is lost.

* `Tree.Fits.spelled`: the text of a tree that fits spells a sum with the value of the
  tree, less what is lost.
* `Tree.Fits.readLine_text`: that is what a line with the text is read as.
* `drawTree_meaning`: what holds of each tree that is drawn, also where a rule was
  broken in it.
* `drawTree_meaning_lost`: such a tree, with a value other than that of its text.
-/

namespace ConvexLang.Quiz

open Grammar

variable {scope : Scope} {n : Nat} {cs ds : List Char}

/-! ## Texts with a meaning -/

/-- The text spells an operand of a kind, with a value under each interpretation or
    with none. -/
def Means (IsOperand : List TokenKind → Expr → Prop) (cs : List Char)
    (value : Interpretation → Option ℚ) : Prop :=
  ∃ ks e, Spells cs ks ∧ IsOperand ks e ∧ ∀ m, e.meaning? m = value m

variable {v w : Interpretation → Option ℚ}

theorem Means.mono {P Q : List TokenKind → Expr → Prop} (hPQ : ∀ {ks e}, P ks e → Q ks e)
    (h : Means P cs v) : Means Q cs v := by
  obtain ⟨ks, e, hks, he, hvalue⟩ := h
  exact ⟨ks, e, hks, hPQ he, hvalue⟩

theorem Means.congr {P : List TokenKind → Expr → Prop} (h : Means P cs v)
    (hvalue : ∀ m, v m = w m) : Means P cs w := by
  obtain ⟨ks, e, hks, he, hv⟩ := h
  exact ⟨ks, e, hks, he, fun m => (hv m).trans (hvalue m)⟩

theorem Means.product (h : Means (IsSigned scope n) cs v) : Means (IsProduct scope n) cs v :=
  h.mono .signed

theorem Means.sum (h : Means (IsProduct scope n) cs v) : Means (IsSum scope n) cs v :=
  h.mono .product

theorem Means.parens (h : Means (IsSum scope n) cs v) :
    Means (IsProduct scope (n + 1)) ('(' :: (cs ++ [')'])) v := by
  obtain ⟨ks, e, hks, he, hvalue⟩ := h
  exact ⟨_, _, spells_parens hks, .signed (.parens he), fun m => by
    rw [Expr.meaning?_inParens, hvalue]⟩

theorem Means.plus (h : Means (IsSum scope n) cs v) (h' : Means (IsSum scope n) ds w) :
    Means (IsSum scope n) (cs ++ ' ' :: '+' :: ' ' :: ds) fun m =>
      Option.map₂ (· + ·) (v m) (w m) := by
  obtain ⟨ks, a, hks, ha, hv⟩ := h
  obtain ⟨ls, b, hls, hb, hw⟩ := h'
  obtain ⟨e, he, hvalue⟩ := ha.plus_sum hb
  exact ⟨_, e, spells_binary .plus hks hls, he, fun m => by rw [hvalue, hv, hw]⟩

theorem Means.minus (h : Means (IsSum scope n) cs v) (h' : Means (IsProduct scope n) ds w) :
    Means (IsSum scope n) (cs ++ ' ' :: '-' :: ' ' :: ds) fun m =>
      Option.map₂ (· - ·) (v m) (w m) := by
  obtain ⟨ks, a, hks, ha, hv⟩ := h
  obtain ⟨ls, b, hls, hb, hw⟩ := h'
  exact ⟨_, _, spells_binary .minus hks hls, ha.minus hb, fun m => by
    rw [Expr.meaning?_minus, hv, hw]⟩

theorem Means.multiplicative {c : Char} {k : TokenKind} {name : String} (hc : IsSign c k)
    (hk : multiplicative? k = some name) (h : Means (IsProduct scope n) cs v)
    (h' : Means (IsSigned scope n) ds w) :
    Means (IsProduct scope n) (cs ++ ' ' :: c :: ' ' :: ds) fun m =>
      (v m).bind fun a => (w m).bind fun b => m.combine? name [a, b] := by
  obtain ⟨ks, a, hks, ha, hv⟩ := h
  obtain ⟨ls, b, hls, hb, hw⟩ := h'
  exact ⟨_, _, spells_binary hc hks hls, ha.multiplicative hk hb, fun m => by
    rw [Expr.meaning?_operator, hv, hw]⟩

/-- The text spells `count` slots of a call, with values under each interpretation. -/
def MeansSlots (scope : Scope) (n count : Nat) (cs : List Char)
    (values : Interpretation → Option (List ℚ)) : Prop :=
  ∃ ks os, Spells cs ks ∧ IsSlots scope n ks os ∧ os.length = count ∧
    ∀ m, Expr.meanings? m os = values m

theorem Means.slot (h : Means (IsSum scope n) cs v) :
    MeansSlots scope n 1 cs fun m => Option.map₂ List.cons (v m) (some []) := by
  obtain ⟨ks, e, hks, he, hvalue⟩ := h
  exact ⟨ks, _, hks, .last (.expr he), rfl, fun m => by
    rw [Expr.meanings?, Expr.meanings?, hvalue]⟩

theorem Means.slots {count : Nat} {vs : Interpretation → Option (List ℚ)}
    (h : Means (IsSum scope n) cs v) (h' : MeansSlots scope n count ds vs) :
    MeansSlots scope n (count + 1) (cs ++ ',' :: ' ' :: ds) fun m =>
      Option.map₂ List.cons (v m) (vs m) := by
  obtain ⟨ks, e, hks, he, hvalue⟩ := h
  obtain ⟨ls, os, hls, hos, hcount, hvalues⟩ := h'
  exact ⟨_, _, hks.append (IsSign.comma.apart _) ((hls.gap rfl).sign .comma),
    .cons (.expr he) hos, congrArg (· + 1) hcount, fun m => by
      rw [Expr.meanings?, hvalue, hvalues]⟩

theorem MeansSlots.call {count : Nat} {vs : Interpretation → Option (List ℚ)} {name : String}
    {p : Profile} (hname : (TokenKind.identifier name).IsWritten)
    (hp : scope.atoms.get? name = some p) (hcount : p.accepts count = true)
    (h : MeansSlots scope n count cs vs) :
    Means (IsProduct scope (n + 2)) (name.toList ++ '(' :: (cs ++ [')'])) fun m =>
      (vs m).map (m.atom name) := by
  obtain ⟨ks, os, hks, hos, rfl, hvalues⟩ := h
  refine ⟨_, _, (spells_identifier hname).append (IsSign.leftParen.apart _) (spells_parens hks),
    .signed (.call hos hp hcount), fun m => ?_⟩
  dsimp only
  rw [Expr.meaning?, hvalues]
  cases vs m with
  | none => rfl
  | some values => exact m.combine?_atom hname.1 values

/-! ## Entries of the table -/

namespace Operator

/-- The terms that stand for more than a variable. -/
def compoundTerms : List String :=
  ["x / 2", "y - 42", "364 * z"]

/-- What a terminal means. -/
def term? (m : Interpretation) : String → Option ℚ
  | "x / 2" => some (m.symbol "x" / 2)
  | "y - 42" => some (m.symbol "y" - 42)
  | "364 * z" => some (364 * m.symbol "z")
  | name => if name ∈ variableNames then some (m.symbol name) else none

theorem term?_variable {m : Interpretation} {name : String} (h : name ∈ variableNames) :
    term? m name = some (m.symbol name) := by
  unfold term?
  split <;> first | exact absurd h (by decide) | exact if_pos h

theorem exists_term {m : Interpretation} {text : String}
    (h : text ∈ variableNames ++ compoundTerms) : ∃ v, term? m text = some v := by
  rcases List.mem_append.1 h with h | h
  · exact ⟨_, term?_variable h⟩
  · simp only [compoundTerms, List.mem_cons, List.not_mem_nil, or_false] at h
    rcases h with rfl | rfl | rfl <;> exact ⟨_, rfl⟩

/-- The name of the atom that an entry calls. -/
def atomName (op : Operator) : String :=
  String.ofList op.opening.toList.dropLast

/-- What a function of two values makes of a list of them. -/
def ofTwo? (f : ℚ → ℚ → ℚ) : List ℚ → Option ℚ
  | [v, w] => some (f v w)
  | _ => none

/-- What an entry makes of the values of its operands. -/
def combine? (m : Interpretation) (op : Operator) (vs : List ℚ) : Option ℚ :=
  if op.terminal then term? m op.opening
  else if op.separator = plusSign then ofTwo? (· + ·) vs
  else if op.separator = minusSign then ofTwo? (· - ·) vs
  else some (m.atom op.atomName vs)

/-- The forms of the entries of the table. -/
inductive Form (op : Operator) : Prop
  | term : op.opening ∈ variableNames ++ compoundTerms → op.separator = "" → op.closing = "" →
    op.terminal = true → op.arity = 0 → Form op
  | plus : op.opening = "" → op.separator = plusSign → op.closing = "" →
    op.terminal = false → op.arity = 2 → Form op
  | minus : op.opening = "" → op.separator = minusSign → op.closing = "" →
    op.terminal = false → op.arity = 2 → Form op
  | call {name : String} {p : Profile} : op.opening = name ++ "(" → op.separator = ", " →
    op.closing = ")" → op.terminal = false → 0 < op.arity →
    (TokenKind.identifier name).IsWritten → Registry.standard.get? name = some p →
    p.accepts op.arity = true → Form op

theorem form_of_mem {op : Operator} (h : op ∈ table) : op.Form := by
  rw [table, List.mem_append, List.mem_append] at h
  rcases h with (h | h) | h
  · obtain ⟨ho, hs, hc, ht, ha⟩ := (by decide +kernel : ∀ op ∈ terminals,
      op.opening ∈ variableNames ++ compoundTerms ∧ op.separator = "" ∧ op.closing = "" ∧
        op.terminal = true ∧ op.arity = 0) op h
    exact .term ho hs hc ht ha
  · obtain ⟨ho, hs | hs, hc, ht, ha⟩ := (by decide +kernel : ∀ op ∈ signs,
      op.opening = "" ∧ (op.separator = plusSign ∨ op.separator = minusSign) ∧
        op.closing = "" ∧ op.terminal = false ∧ op.arity = 2) op h
    · exact .plus ho hs hc ht ha
    · exact .minus ho hs hc ht ha
  · obtain ⟨e, -, ho, hs, hc, ht, hpos, hid, hkey, hp, hcount⟩ :=
      (by decide +kernel : ∀ op ∈ calls,
        ∃ e ∈ Registry.standardEntries, op.opening = e.1 ++ "(" ∧ op.separator = ", " ∧
          op.closing = ")" ∧ op.terminal = false ∧ 0 < op.arity ∧ isIdentifier e.1 = true ∧
          keyword? e.1 = none ∧ Registry.standard.get? e.1 = some e.2 ∧
          e.2.accepts op.arity = true) op h
    exact .call ho hs hc ht hpos ⟨hid, hkey⟩ hp hcount

variable {op : Operator} {m : Interpretation} {vs : List ℚ}

theorem combine?_term (h : op.terminal = true) : op.combine? m vs = term? m op.opening := by
  rw [combine?, if_pos h]

theorem combine?_plus (hterminal : op.terminal = false) (h : op.separator = plusSign) :
    op.combine? m vs = ofTwo? (· + ·) vs := by
  simp only [combine?, hterminal, Bool.false_eq_true, if_false, h, if_true]

theorem combine?_minus (hterminal : op.terminal = false) (h : op.separator = minusSign) :
    op.combine? m vs = ofTwo? (· - ·) vs := by
  have hne : minusSign ≠ plusSign := by decide
  simp only [combine?, hterminal, Bool.false_eq_true, if_false, h, hne, if_true]

theorem combine?_call {name : String} (hterminal : op.terminal = false) (h : op.separator = ", ")
    (hopening : op.opening = name ++ "(") : op.combine? m vs = some (m.atom name vs) := by
  have hplus : ", " ≠ plusSign := by decide
  have hminus : ", " ≠ minusSign := by decide
  have hname : op.atomName = name := by simp [atomName, hopening]
  simp only [combine?, hterminal, Bool.false_eq_true, if_false, h, hplus, hminus, hname]

end Operator

/-- The scope knows the names that questions are made of. -/
structure KnowsNames (scope : Scope) : Prop where
  /-- The variables are declared. -/
  symbols : ∀ name ∈ Operator.variableNames, ∃ role sign,
    scope.symbols.get? name = some (.ofSymbol role name sign)
  /-- The standard atoms are known. -/
  atoms : ∀ name p, Registry.standard.get? name = some p → scope.atoms.get? name = some p

theorem isWritten_variable {name : String} (h : name ∈ Operator.variableNames) :
    (TokenKind.identifier name).IsWritten :=
  (by decide : ∀ name ∈ Operator.variableNames, isIdentifier name = true ∧ keyword? name = none)
    name h

theorem KnowsNames.means_variable (hs : KnowsNames scope) {name : String}
    (h : name ∈ Operator.variableNames) :
    Means (IsSigned scope (n + 1)) name.toList fun m => some (m.symbol name) := by
  obtain ⟨role, sign, hsymbol⟩ := hs.symbols name h
  exact ⟨_, _, spells_identifier (isWritten_variable h), .symbol hsymbol, fun _ =>
    Expr.meaning?_ofSymbol role name sign⟩

theorem means_digits {k : Nat} (h : k ≤ Lexeme.maxInteger) :
    Means (IsSigned scope (n + 1)) (Decimal.digits k) fun _ => some (k : ℚ) :=
  ⟨_, _, spells_digits h, .integer, fun _ => Expr.meaning?_ofNumber k⟩

/-- The term that is a difference. -/
theorem KnowsNames.means_difference (hs : KnowsNames scope) :
    Means (IsSum scope (n + 1)) "y - 42".toList (Operator.term? · "y - 42") := by
  have hy : "y" ∈ Operator.variableNames := by decide
  exact (hs.means_variable hy).product.sum.minus (means_digits (by decide : 42 ≤ _)).product

/-- Each of the other terms is a product. -/
theorem KnowsNames.means_product (hs : KnowsNames scope) {text : String}
    (h : text ∈ Operator.variableNames ++ Operator.compoundTerms) (hne : text ≠ "y - 42") :
    Means (IsProduct scope (n + 1)) text.toList (Operator.term? · text) := by
  rcases List.mem_append.1 h with h | h
  · simp only [Operator.term?_variable h]
    exact (hs.means_variable h).product
  · simp only [Operator.compoundTerms, List.mem_cons, List.not_mem_nil, or_false] at h
    rcases h with rfl | rfl | rfl
    · have hx : "x" ∈ Operator.variableNames := by decide
      exact (hs.means_variable hx).product.multiplicative .slash rfl
        (means_digits (by decide : 2 ≤ _))
    · exact absurd rfl hne
    · have hz : "z" ∈ Operator.variableNames := by decide
      exact (means_digits (by decide : 364 ≤ _)).product.multiplicative .star rfl
        (hs.means_variable hz)

/-! ## Texts of trees -/

namespace Tree

theorem isGrouped_zero (separator : String) (operand : Operator) :
    isGrouped separator 0 operand = false := by
  simp [isGrouped]

theorem isGrouped_comma (position : Nat) (operand : Operator) :
    isGrouped ", " position operand = false := by
  simp [isGrouped, Operator.minusSign]

theorem isGrouped_plus (position : Nat) (operand : Operator) :
    isGrouped Operator.plusSign position operand = false := by
  simp [isGrouped, Operator.minusSign, Operator.plusSign]

theorem textChars_term {op : Operator} {cs : List Tree} (hseparator : op.separator = "")
    (hclosing : op.closing = "") : (node op cs).textChars = op.opening.toList := by
  simp [textChars, hseparator, hclosing]

theorem textChars_between {op : Operator} {a b : Tree} (hopening : op.opening = "")
    (hseparator : op.separator ≠ "") (hclosing : op.closing = "") :
    (node op [a, b]).textChars = a.textChars ++ (op.separator.toList ++
      if isGrouped op.separator 1 b.operator then '(' :: (b.textChars ++ [')'])
      else b.textChars) := by
  simp [textChars, operandChars, hopening, hseparator, hclosing, isGrouped_zero]

theorem textChars_call {op : Operator} {name : String} {c : Tree} {cs : List Tree}
    (hopening : op.opening = name ++ "(") (hseparator : op.separator = ", ")
    (hclosing : op.closing = ")") : (node op (c :: cs)).textChars =
      name.toList ++ '(' :: (c.textChars ++ operandChars ", " 1 cs ++ [')']) := by
  simp [textChars, operandChars, hopening, hseparator, hclosing, isGrouped_zero]

/-! ## Values of trees -/

section Value

variable (m : Interpretation) (loss : Operator → List Tree → ℚ)

mutual

/-- The value of a tree, where each node is worth less by a loss of its own. -/
def value? : Tree → Option ℚ
  | node op cs => (values? cs).bind fun vs => (op.combine? m vs).map (· - loss op cs)

/-- The values of several trees. -/
def values? : List Tree → Option (List ℚ)
  | [] => some []
  | t :: ts => Option.map₂ List.cons (value? t) (values? ts)

end

/-- What a tree means: its value where nothing is lost. -/
def meaning? (t : Tree) : Option ℚ :=
  t.value? m fun _ _ => 0

end Value

/-- What the text of a tree loses of its value at a node: behind a minus sign, `y - 42`
    takes `42` away that it should give back. -/
def lost (op : Operator) (cs : List Tree) : ℚ :=
  if op.separator = Operator.minusSign ∧ cs[1]?.any (·.operator.opening = "y - 42") then 84
  else 0

variable {m : Interpretation} {op : Operator} {a b : Tree} {ts : List Tree}

theorem lost_eq_zero (h : op.separator ≠ Operator.minusSign) : lost op ts = 0 :=
  if_neg fun h' => h h'.1

theorem value?_term (hterminal : op.terminal = true) (h : op.separator = "") :
    (node op []).value? m lost = Operator.term? m op.opening := by
  have hlost : lost op [] = 0 := lost_eq_zero (h ▸ by decide)
  rw [value?, values?, Option.bind_some, Operator.combine?_term hterminal, hlost]
  simp

theorem value?_plus (hterminal : op.terminal = false) (h : op.separator = Operator.plusSign) :
    (node op [a, b]).value? m lost =
      Option.map₂ (· + ·) (a.value? m lost) (b.value? m lost) := by
  have hlost : lost op [a, b] = 0 := lost_eq_zero (h ▸ by decide)
  simp only [value?, values?, Operator.combine?_plus hterminal h, hlost, sub_zero, Option.map_id']
  cases a.value? m lost <;> cases b.value? m lost <;> rfl

theorem value?_minus (hterminal : op.terminal = false) (h : op.separator = Operator.minusSign) :
    (node op [a, b]).value? m lost =
      (Option.map₂ (· - ·) (a.value? m lost) (b.value? m lost)).map (· - lost op [a, b]) := by
  simp only [value?, values?, Operator.combine?_minus hterminal h]
  cases a.value? m lost <;> cases b.value? m lost <;> rfl

theorem value?_call {name : String} (hterminal : op.terminal = false) (h : op.separator = ", ")
    (hopening : op.opening = name ++ "(") :
    (node op ts).value? m lost = (values? m lost ts).map (m.atom name) := by
  have hlost : lost op ts = 0 := lost_eq_zero (h ▸ by decide)
  simp only [value?, Operator.combine?_call hterminal h hopening, hlost, sub_zero, Option.map_id']
  cases values? m lost ts <;> rfl

/-! ## What texts of trees mean -/

/-- The operands of a call are its slots. -/
theorem meansSlots_operandChars {t : Tree} (h : Means (IsSum scope n) t.textChars (t.value? · lost))
    (hts : ∀ t ∈ ts, Means (IsSum scope n) t.textChars (t.value? · lost)) (position : Nat) :
    MeansSlots scope n (ts.length + 1) (t.textChars ++ operandChars ", " (position + 1) ts)
      fun m => values? m lost (t :: ts) := by
  -- the first operand stands apart from the list, since no separator is in front of it
  induction ts generalizing t position with
  | nil =>
    rw [operandChars, List.append_nil]
    simp only [values?]
    exact h.slot
  | cons t' ts ih =>
    have hrest := ih (hts t' List.mem_cons_self)
      (fun t ht => hts t (List.mem_cons_of_mem _ ht)) (position + 1)
    rw [operandChars, isGrouped_comma]
    simp only [values?] at hrest ⊢
    exact h.slots hrest

/-- The text of a tree spells a sum, or a product if its root makes none of its own,
    with the value of the tree less what is lost. -/
structure Spelled (scope : Scope) (n : Nat) (t : Tree) : Prop where
  /-- It spells a sum. -/
  sum : Means (IsSum scope n) t.textChars (t.value? · lost)
  /-- It spells a product unless there is an additive sign at the root. -/
  product : t.operator.separator ≠ Operator.plusSign → t.operator.separator ≠ Operator.minusSign →
    t.operator.opening ≠ "y - 42" → Means (IsProduct scope n) t.textChars (t.value? · lost)

theorem spelled_of_product {t : Tree}
    (h : Means (IsProduct scope n) t.textChars (t.value? · lost)) : Spelled scope n t :=
  ⟨h.sum, fun _ _ _ => h⟩

/-- What is taken away is a product: it is one as it stands, or stands in parentheses,
    unless it is the term that is a difference. -/
theorem Spelled.taken {t : Tree} (h : Spelled scope n t) (hne : t.operator.opening ≠ "y - 42") :
    Means (IsProduct scope (n + 1))
      (if isGrouped Operator.minusSign 1 t.operator then '(' :: (t.textChars ++ [')'])
        else t.textChars) (t.value? · lost) := by
  split
  · exact h.sum.parens
  · rename_i hgrouped
    simp only [isGrouped, decide_true, Bool.true_and, Bool.or_eq_true, decide_eq_true_eq,
      not_or] at hgrouped
    exact (h.product hgrouped.2 hgrouped.1 hne).mono fun d => d.mono (Nat.le_succ n)

/-- The only entry with this opening is the term that is a difference. -/
theorem Fits.eq_difference {t : Tree} (h : t.Fits n) (ht : t.operator.opening = "y - 42") :
    ∃ op, t = Tree.node op [] ∧ op.opening = "y - 42" ∧ op.separator = "" ∧ op.closing = "" ∧
      op.terminal = true := by
  obtain @⟨n, op, cs, hop, hlength, -⟩ := h
  change op.opening = "y - 42" at ht
  cases Operator.form_of_mem hop with
  | term hopening hseparator hclosing hterminal harity =>
    obtain rfl := List.length_eq_zero_iff.1 (hlength.trans harity)
    exact ⟨op, rfl, ht, hseparator, hclosing, hterminal⟩
  | plus hopening => exact absurd (hopening.symm.trans ht) (by decide)
  | minus hopening => exact absurd (hopening.symm.trans ht) (by decide)
  | @call name p hopening =>
    have hlast := congrArg (fun s : String => s.toList.getLast?) (hopening.symm.trans ht)
    simp at hlast

/-- A tree is taken away as its text stands behind the minus sign, in parentheses or
    not. -/
theorem Fits.means_minus (hs : KnowsNames scope) {a b : Tree} {op : Operator}
    (hterminal : op.terminal = false) (hop : op.separator = Operator.minusSign)
    (ha : Spelled scope n a) (hb : Spelled scope n b) {k : Nat} (hfits : b.Fits k) :
    Means (IsSum scope (n + 1)) (a.textChars ++ (Operator.minusSign.toList ++
      if isGrouped Operator.minusSign 1 b.operator then '(' :: (b.textChars ++ [')'])
        else b.textChars)) ((Tree.node op [a, b]).value? · lost) := by
  have ha := ha.sum.mono fun d => d.mono (Nat.le_succ n)
  simp only [value?_minus hterminal hop]
  by_cases hne : b.operator.opening = "y - 42"
  · -- the term that is a difference gets no parentheses, and no other entry has its opening
    have hlost : lost op [a, b] = 84 := if_pos ⟨hop, by simpa using hne⟩
    obtain ⟨difference, rfl, hopening, hseparator, hclosing, hterminal'⟩ :=
      hfits.eq_difference hne
    have hgrouped : isGrouped Operator.minusSign 1 difference = false := by
      simp [isGrouped, hseparator, Operator.minusSign, Operator.plusSign]
    have hy : "y" ∈ Operator.variableNames := by decide
    -- read from the left, `y` is taken away first and `42` from what is left of it
    have hmeans := (ha.minus (hs.means_variable hy).product).minus
      (means_digits (by decide : 42 ≤ _)).product
    simp only [operator, hgrouped, Bool.false_eq_true, if_false,
      textChars_term hseparator hclosing, value?_term hterminal' hseparator, hopening, hlost]
    rw [List.append_assoc] at hmeans
    refine hmeans.congr fun m => ?_
    cases a.value? m lost with
    | none => rfl
    | some v =>
      have hregrouped : v - m.symbol "y" - (42 : ℕ) = v - (m.symbol "y" - 42) - 84 := by
        push_cast
        ring
      exact congrArg some hregrouped
  · have hlost : lost op [a, b] = 0 := if_neg fun h => hne (by simpa using h.2)
    simp only [hlost, sub_zero, Option.map_id']
    exact ha.minus (hb.taken hne)

/-- The text of a tree that fits within `n` levels spells a sum within `2 n` levels of
    nesting, with the value of the tree less what is lost. -/
theorem Fits.spelled (hs : KnowsNames scope) {t : Tree} (h : t.Fits n) :
    Spelled scope (2 * n) t := by
  induction h with
  | @node n op cs hop hlength hcs ih =>
    rw [Nat.mul_succ]
    cases Operator.form_of_mem hop with
    | term hopening hseparator hclosing hterminal harity =>
      obtain rfl := List.length_eq_zero_iff.1 (hlength.trans harity)
      have htext : (Tree.node op []).textChars = op.opening.toList :=
        textChars_term hseparator hclosing
      have hvalue (m : Interpretation) : Operator.term? m op.opening =
          (Tree.node op []).value? m lost := (value?_term hterminal hseparator).symm
      by_cases hne : op.opening = "y - 42"
      · refine ⟨?_, fun _ _ h => absurd hne h⟩
        rw [htext]
        exact (hne ▸ hs.means_difference).congr hvalue
      · refine spelled_of_product ?_
        rw [htext]
        exact (hs.means_product hopening hne).congr hvalue
    | plus hopening hseparator hclosing hterminal harity =>
      obtain ⟨a, b, rfl⟩ := List.length_eq_two.1 (hlength.trans harity)
      have hsum := ((ih a (by simp)).sum.plus (ih b (by simp)).sum).mono fun d =>
        d.mono (Nat.le_add_right _ 2)
      -- what is added needs no parentheses: the sum is grouped anew
      refine ⟨?_, fun h => absurd hseparator h⟩
      rw [textChars_between hopening (hseparator ▸ by decide) hclosing, hseparator,
        isGrouped_plus]
      exact hsum.congr fun m => (value?_plus hterminal hseparator).symm
    | minus hopening hseparator hclosing hterminal harity =>
      obtain ⟨a, b, rfl⟩ := List.length_eq_two.1 (hlength.trans harity)
      have hsum := Fits.means_minus hs hterminal hseparator (ih a (by simp)) (ih b (by simp))
        (hcs b (by simp))
      refine ⟨?_, fun _ h => absurd hseparator h⟩
      rw [textChars_between hopening (hseparator ▸ by decide) hclosing, hseparator]
      exact hsum.mono fun d => d.mono (Nat.le_succ _)
    | @call name p hopening hseparator hclosing hterminal hpos hname hp hcount =>
      cases cs with
      | nil => exact absurd hlength hpos.ne -- a call has operands
      | cons c cs =>
        have hslots := meansSlots_operandChars (ih c List.mem_cons_self).sum
          (fun t ht => (ih t (List.mem_cons_of_mem _ ht)).sum) 0
        rw [← List.length_cons, hlength] at hslots
        refine spelled_of_product ?_
        simp only [textChars_call hopening hseparator hclosing,
          value?_call hterminal hseparator hopening]
        exact hslots.call hname (hs.atoms name p hp) hcount

/-! ## Values exist -/

section Exists

variable (m : Interpretation) (loss : Operator → List Tree → ℚ)

theorem exists_values (h : ∀ t ∈ ts, ∃ v, t.value? m loss = some v) :
    ∃ vs, values? m loss ts = some vs ∧ vs.length = ts.length := by
  induction ts with
  | nil => exact ⟨[], by rw [values?], rfl⟩
  | cons t ts ih =>
    obtain ⟨v, hv⟩ := h t List.mem_cons_self
    obtain ⟨vs, hvs, hlength⟩ := ih fun t ht => h t (List.mem_cons_of_mem _ ht)
    exact ⟨v :: vs, by rw [values?, hv, hvs]; rfl, congrArg (· + 1) hlength⟩

/-- A tree that fits has a value under each interpretation. -/
theorem Fits.exists_value {t : Tree} (h : t.Fits n) : ∃ v, t.value? m loss = some v := by
  induction h with
  | @node n op cs hop hlength _ ih =>
    obtain ⟨vs, hvs, hcount⟩ := exists_values m loss ih
    have happly : ∃ v, op.combine? m vs = some v := by
      cases Operator.form_of_mem hop with
      | term hopening _ _ hterminal _ =>
        rw [Operator.combine?_term hterminal]
        exact Operator.exists_term hopening
      | plus _ hseparator _ hterminal harity =>
        obtain ⟨v, w, rfl⟩ := List.length_eq_two.1 (hcount.trans (hlength.trans harity))
        exact ⟨v + w, Operator.combine?_plus hterminal hseparator⟩
      | minus _ hseparator _ hterminal harity =>
        obtain ⟨v, w, rfl⟩ := List.length_eq_two.1 (hcount.trans (hlength.trans harity))
        exact ⟨v - w, Operator.combine?_minus hterminal hseparator⟩
      | call hopening hseparator _ hterminal =>
        exact ⟨_, Operator.combine?_call hterminal hseparator hopening⟩
    obtain ⟨v, hv⟩ := happly
    exact ⟨v - loss op cs, by rw [value?, hvs, Option.bind_some, hv]; rfl⟩

end Exists

/-! ## Trees that lose nothing -/

/-- No difference in the tree takes `y - 42` away. -/
inductive Separated : Tree → Prop
  | node {op : Operator} {cs : List Tree} :
    (op.separator = Operator.minusSign → ∀ right ∈ cs[1]?, right.operator.opening ≠ "y - 42") →
    (∀ c ∈ cs, Separated c) → Separated (.node op cs)

theorem values?_congr {loss loss' : Operator → List Tree → ℚ}
    (h : ∀ t ∈ ts, t.value? m loss = t.value? m loss') :
    values? m loss ts = values? m loss' ts := by
  induction ts with
  | nil => rw [values?, values?]
  | cons t ts ih =>
    rw [values?, values?, h t List.mem_cons_self, ih fun t ht => h t (List.mem_cons_of_mem _ ht)]

/-- Where no difference takes `y - 42` away, nothing is lost. -/
theorem Separated.value?_eq {t : Tree} (h : t.Separated) : t.value? m lost = t.meaning? m := by
  rw [meaning?]
  induction h with
  | @node op cs hseparated _ ih =>
    have hlost : lost op cs = 0 := by
      refine if_neg fun ⟨hseparator, hright⟩ => ?_
      obtain ⟨right, hmem, hopening⟩ := (Option.any_eq_true _ _).1 hright
      exact hseparated hseparator right hmem (of_decide_eq_true hopening)
    rw [value?, value?, values?_congr ih, hlost]

end Tree

/-! ## Lines -/

/-- A text that spells a sum is read as it. -/
theorem readLine_of_spells {ks : List TokenKind} {e : Expr} (hks : Spells cs ks)
    (he : IsSum scope n ks e) (hn : n ≤ maxNesting) :
    readLine scope (String.ofList cs) = .ok (.statement (.expr e)) := by
  refine readLine_eq_ok_iff_kinds.2 ⟨ks, ?_, line_eq_ok_statement_iff.2 (.expr (he.mono hn))⟩
  rw [String.toList_ofList]
  exact hks.kinds?

/-- The text of a tree that is drawn is read as an expression, which has the value of
    the tree less what is lost. -/
theorem Tree.Fits.readLine_text (hs : KnowsNames scope) {t : Tree} (h : t.Fits maxDepth) :
    ∃ e, readLine scope t.text = .ok (.statement (.expr e)) ∧
      ∀ m, e.meaning? m = t.value? m lost := by
  obtain ⟨ks, e, hks, he, hvalue⟩ := (h.spelled hs).sum
  exact ⟨e, readLine_of_spells hks he (by decide), hvalue⟩

theorem get?_variableSymbols {name : String} (h : name ∈ Operator.variableNames) :
    variableSymbols.get? name = some (.ofSymbol .decision name .unknown) := by
  simp only [Operator.variableNames, List.mem_cons, List.not_mem_nil, or_false] at h
  rcases h with rfl | rfl | rfl | rfl | rfl | rfl <;> rfl

theorem knowsNames_of_extend {atoms : Registry} {extra : List Atom}
    (h : Registry.standard.extend extra = .ok atoms) : KnowsNames ⟨variableSymbols, atoms⟩ where
  symbols _ hname := ⟨.decision, .unknown, get?_variableSymbols hname⟩
  atoms _ _ hp := Registry.get?_of_extend h hp

/-! ## Trees that are drawn -/

section Drawn

variable {ρ : Type} [RandomSource ρ]

/-- Whatever tree is drawn, over a registry that extends the standard one, and also
    after a rule was broken in it: its text is read as an expression; the tree and the
    expression have values under each interpretation; and these are the same unless a
    difference in the tree takes `y - 42` away. In any case the value of the expression
    is that of the tree less what is lost. -/
theorem drawTree_meaning {atoms : Registry} {extra : List Atom}
    (h : Registry.standard.extend extra = .ok atoms) (wanted : List Shape)
    (likelihood growth : Float) (rules : Bool) :
    Draw.Always (do
        let t ← drawTree wanted likelihood growth
        if rules then return t else t.breakRule : Draw ρ Tree)
      fun t => ∃ e, readLine ⟨variableSymbols, atoms⟩ t.text = .ok (.statement (.expr e)) ∧
        ∀ m, ∃ v w, t.meaning? m = some v ∧ e.meaning? m = some w ∧
          t.value? m Tree.lost = some w ∧ (t.Separated → v = w) := by
  have hs := knowsNames_of_extend h
  have hfits : Draw.Always (do
      let t ← drawTree wanted likelihood growth
      if rules then return t else t.breakRule : Draw ρ Tree) (Tree.Fits maxDepth) := by
    refine (drawTree_fits wanted likelihood growth).bind fun t ht => ?_
    split
    · exact Draw.always_pure ht
    · exact Tree.breakRule_fits ht
  intro source
  obtain ⟨e, he, hvalue⟩ := (hfits source).readLine_text hs
  refine ⟨e, he, fun m => ?_⟩
  obtain ⟨v, hv⟩ := (hfits source).exists_value m fun _ _ => 0
  obtain ⟨w, hw⟩ := (hfits source).exists_value m Tree.lost
  refine ⟨v, w, hv, (hvalue m).trans hw, hw, fun hseparated => ?_⟩
  exact Option.some.inj (hv.symm.trans (hseparated.value?_eq.symm.trans hw))

end Drawn

/-- A tree in which a rule was broken: its second difference was a maximum. -/
theorem drawTree_meaning_broken :
    let cube : Atom := { curvature := .convex, sign := .positive, arity := some 1, name := "cube" }
    let atoms := Registry.standard.insert cube.name cube.toProfile
    let drawn : Draw Xoshiro Tree := do
      let t ← drawTree [.ofConcave] 0.1 2
      if false then return t else t.breakRule
    let t := (drawn.run (Xoshiro.ofSeed 140)).1
    Registry.standard.extend [cube] = .ok atoms ∧ t.text = "z - (z - 364 * z)" ∧
      ∃ e, readLine ⟨variableSymbols, atoms⟩ t.text = .ok (.statement (.expr e)) ∧
        ∀ m, ∃ v w, t.meaning? m = some v ∧ e.meaning? m = some w ∧
          t.value? m Tree.lost = some w ∧ (t.Separated → v = w) := by
  intro cube atoms drawn t
  have hcube : Registry.standard.extend [cube] = .ok atoms := by
    have hone : Registry.standard.extendOne cube = .ok atoms :=
      Registry.extendOne_eq_ok_iff.2 ⟨by decide, by decide, by decide +kernel, rfl⟩
    rw [Registry.extend, hone]
    rfl
  have htext : t.text = "z - (z - 364 * z)" := by decide +kernel
  exact ⟨hcube, htext, drawTree_meaning hcube [.ofConcave] 0.1 2 false (Xoshiro.ofSeed 140)⟩

/-- A tree that is drawn and takes `y - 42` away. Where all variables are zero its value
    is `42`, and that of its text is `-42`. -/
theorem drawTree_meaning_lost :
    let t := ((drawTree [.ofConvex] 0.05 20 : Draw Xoshiro Tree).run (Xoshiro.ofSeed 40)).1
    let m : Interpretation := { symbol := fun _ => 0, atom := fun _ _ => 0 }
    ∃ e, readLine ⟨variableSymbols, .standard⟩ t.text = .ok (.statement (.expr e)) ∧
      t.meaning? m = some 42 ∧ e.meaning? m = some (-42) := by
  intro t m
  have htext : t.text = "z - y - 42" := by decide +kernel
  have hread : readLine ⟨variableSymbols, .standard⟩ "z - y - 42" =
      .ok (.statement (.expr (.operator "-" [.operator "-" [.ofSymbol .decision "z" .unknown,
        .ofSymbol .decision "y" .unknown], .ofNumber (.whole 42)]))) := by
    cbv
  have hmeaning : t.meaning? m = some 42 := by decide +kernel
  refine ⟨_, htext ▸ hread, hmeaning, ?_⟩
  simp only [Expr.meaning?_minus, Expr.meaning?_ofSymbol, Expr.meaning?_ofNumber]
  decide +kernel

end ConvexLang.Quiz
