import ConvexLang.Proofs.Blame

/-!
# Where a reading fails

A reading fails where an operand is due and none begins, or where something else than a
comma or a closing parenthesis stands behind a whole argument or a whole sum in
parentheses. By then some calls are open.

* `FailsInSigned`, `FailsInProduct`, `FailsInSum`, `FailsInSlots`, `FailsInStatement`: the
  reading of the kinds `ks` and the rest behind them fails in front of the rest, with the
  calls `calls` open, the innermost first. What was read is kept as derivations.
* `Stop.blaming`: why a reader stops that fails so, by asking each of the open calls whether
  it takes the blame.
* The readers fail so (`FailsInStatement.eq_error`), and they stop for nothing else but the
  meaning of a name or what stands behind a whole statement (`statement_refuses`).

A sum is read up to where it cannot go on, and only so far (`reads_sum_iff`): in front of no
operator, and of no parenthesis that makes a call of the name behind which it is opened.
-/

namespace ConvexLang.Grammar

variable {scope : Scope}

/-! ## Where a sum ends -/

/-- The kinds are the end of the input, and do not open the call of a name in front of
    them. -/
def IsRest (input rest : List TokenKind) : Prop :=
  rest <:+ input ∧ (rest.head? = some .leftParen → ∀ name, ¬ (.identifier name :: rest) <:+ input)

theorem IsRest.keepsName {input ks rest : List TokenKind} (h : IsRest input rest)
    (hinput : input = ks ++ rest) : KeepsName ks rest := by
  intro hrest name hname
  obtain ⟨ks, rfl⟩ := List.getLast?_eq_some_iff.1 hname
  exact h.2 hrest name ⟨ks, by simp [hinput]⟩

/-- Behind a kind that is no name no call is opened. -/
theorem isRest_of_eq {input ks rest : List TokenKind} {k : TokenKind}
    (hinput : input = ks ++ k :: rest) (hk : ∀ name, k ≠ .identifier name) :
    IsRest input rest := by
  refine ⟨⟨ks ++ [k], by simp [hinput]⟩, ?_⟩
  rintro - name ⟨ls, hls⟩
  rw [hinput] at hls
  obtain ⟨-, h⟩ := List.append_inj' hls rfl
  exact hk name (List.cons_eq_cons.1 h).1.symm

theorem IsRest.of_suffix {input input' rest : List TokenKind} (h : IsRest input' rest)
    (hsuffix : input' <:+ input) (hlt : rest.length < input'.length) : IsRest input rest :=
  ⟨h.1.trans hsuffix, fun hrest name hname =>
    h.2 hrest name (List.suffix_of_suffix_length_le hname hsuffix (by simpa using hlt))⟩

/-- The reader answers with a rest of its input. -/
def LeavesRest {α : Type} (read : Reader α) : Prop :=
  ∀ {input : List TokenKind} {p : Parsed α input.length}, read input = .ok p →
    IsRest input p.rest

section Loops

variable {operator? : TokenKind → Option String} {operand : Reader Expr} {bound : Nat}
  {left p : Parsed Expr bound}

/-- A loop answers in front of no operator, with a rest as its operands leave it. -/
theorem chain_rest {E : List TokenKind → Prop}
    (hoperand : ∀ {k : TokenKind} {rest : List TokenKind} {p : Parsed Expr rest.length},
      E (k :: rest) → operand rest = .ok p → E p.rest)
    (h : chain operator? operand left = .ok p) (hleft : E left.rest) :
    E p.rest ∧ ∀ k, p.rest.head? = some k → operator? k = none := by
  -- every operand shortens what is left, so the induction is on its length
  induction hn : left.rest.length using Nat.strongRecOn generalizing left with
  | ind n ih =>
    rw [chain] at h
    split at h
    · rename_i hrest
      cases h
      rw [hrest]
      exact ⟨hrest ▸ hleft, nofun⟩
    · rename_i k rest hrest
      rw [hrest] at hleft
      split at h
      · rename_i hk
        cases h
        rw [hrest]
        exact ⟨hleft, by simpa using hk⟩
      · split at h
        · cases h
        · rename_i right hright
          have hlt : right.rest.length < n := by
            have := right.shorter
            rw [← hn, hrest, List.length_cons]
            omega
          exact ih _ hlt h (hoperand hleft hright) rfl

theorem chain_isRest {input : List TokenKind} (hoperand : LeavesRest operand)
    (h : chain operator? operand left = .ok p) (hleft : IsRest input left.rest) :
    IsRest input p.rest :=
  (chain_rest (fun hrest hread =>
    (hoperand hread).of_suffix ((List.suffix_cons _ _).trans hrest.1) (Parsed.shorter _))
    h hleft).1

theorem product_leavesRest (hoperand : LeavesRest operand) : LeavesRest (product operand) := by
  intro input p h
  rw [product] at h
  split at h
  · cases h
  · exact chain_isRest hoperand h (hoperand ‹_›)

theorem sum_leavesRest (hoperand : LeavesRest operand) : LeavesRest (sum operand) := by
  intro input p h
  rw [sum] at h
  split at h
  · cases h
  · exact chain_isRest (product_leavesRest hoperand) h (product_leavesRest hoperand ‹_›)

/-- A sum is read up to a kind that is no operator. -/
theorem sum_ends {input : List TokenKind} {p : Parsed Expr input.length}
    (h : sum operand input = .ok p) :
    (∀ k, p.rest.head? = some k → multiplicative? k = none) ∧
      ∀ k, p.rest.head? = some k → additive? k = none := by
  have hproduct : ∀ {input : List TokenKind} {p : Parsed Expr input.length},
      product operand input = .ok p → ∀ k, p.rest.head? = some k → multiplicative? k = none := by
    intro input p h
    rw [product] at h
    split at h
    · cases h
    · exact (chain_rest (E := fun _ => True) (fun _ _ => trivial) h trivial).2
  rw [sum] at h
  split at h
  · cases h
  · exact chain_rest (E := fun rest => ∀ k, rest.head? = some k → multiplicative? k = none)
      (fun _ => hproduct) h (hproduct ‹_›)

end Loops

theorem signedBy_leavesRest {n : Nat} (h : LeavesRest (signed scope n)) :
    LeavesRest (signedBy scope (signed scope n) (deepest? scope n)) := by
  intro input p hp
  rw [signedBy.eq_def] at hp
  split at hp
  · -- a sign +
    split at hp
    · cases hp
    · rename_i q hq
      cases hp
      exact (h hq).of_suffix (List.suffix_cons _ _) q.shorter
  · -- a sign -
    split at hp
    · cases hp
    · rename_i q hq
      cases hp
      exact (h hq).of_suffix (List.suffix_cons _ _) q.shorter
  · cases hp
    exact isRest_of_eq (List.nil_append _).symm fun _ => by simp
  · cases hp
    exact isRest_of_eq (List.nil_append _).symm fun _ => by simp
  · -- a call
    split at hp
    · cases hp
    · rename_i hdeep
      cases n with
      | zero => cases hdeep
      | succ m =>
        cases hdeep
        split at hp
        · cases hp
        · rename_i q hq
          cases hp
          obtain ⟨_, hks, ls, rfl, -⟩ := call_sound (sum_sound (signed_sound m)) hq
          rw [List.append_assoc] at hks
          exact (isRest_of_eq hks fun _ => by simp).of_suffix
            ((List.suffix_cons _ _).trans (List.suffix_cons _ _)) q.shorter
  · -- a bare name, which a parenthesis would have made a call
    rename_i name rest hrest
    split at hp
    · cases hp
    · cases hp
      refine ⟨List.suffix_cons _ _, fun hhead => ?_⟩
      obtain ⟨after, rfl⟩ := List.head?_eq_some_iff.1 hhead
      exact absurd rfl (hrest _)
  · -- a sum in parentheses
    split at hp
    · cases hp
    · rename_i q hq
      obtain ⟨ks, hks, -⟩ := sum_sound (signed_sound n) hq
      split at hp
      · rename_i after hafter
        cases hp
        have hlt := q.length_succ_lt hafter
        rw [hafter] at hks
        exact (isRest_of_eq hks fun _ => by simp).of_suffix (List.suffix_cons _ _) (by omega)
      · cases hp
  · cases hp

theorem signed_leavesRest : ∀ n : Nat, LeavesRest (signed scope n)
  | 0 => fun h => by cases h
  | 1 => signedBy_leavesRest (signed_leavesRest 0)
  | n + 2 => signedBy_leavesRest (signed_leavesRest (n + 1))

/-- Reading a sum takes as much as can be a sum, and no more. -/
theorem reads_sum_iff {n : Nat} {input rest : List TokenKind} {e : Expr} :
    Reads (sum (signed scope n)) input e rest ↔
      ∃ ks, input = ks ++ rest ∧ IsSum scope n ks e ∧ StopsSum ks rest := by
  refine ⟨fun ⟨_, h⟩ => ?_, fun ⟨ks, hks, d, hrest⟩ => hks ▸ d.reads_of_stops hrest⟩
  obtain ⟨ks, hks, d⟩ := sum_sound (signed_sound n) h
  obtain ⟨hproduct, hsum⟩ := sum_ends h
  have hrest := sum_leavesRest (signed_leavesRest n) h
  exact ⟨ks, hks, d, ⟨hrest.keepsName hks, hproduct⟩, hsum⟩

/-! ## Failures -/

/-- A call whose slots are being read. -/
structure OpenCall where
  /-- The name of the call. -/
  name : String
  /-- What was read behind its opening parenthesis. -/
  inside : List TokenKind

/-- Whether an operand within `n` levels may begin with the kinds. It takes a level, and a
    call takes two. -/
def mayBegin : Nat → List TokenKind → Bool
  | 0, _ => false
  | _, [] => false
  | 1, .identifier _ :: .leftParen :: _ => false
  | _, k :: _ => beginsOperand k

theorem mayBegin_eq_false {n : Nat} {k : TokenKind} {rest : List TokenKind}
    (h : beginsOperand k = false) : mayBegin n (k :: rest) = false := by
  rw [mayBegin.eq_def]
  split
  · rfl
  · rfl
  · rfl
  · rename_i hks
    rwa [← (List.cons_eq_cons.1 hks).1]

mutual

/-- The reading of a signed operand of `n` levels fails behind the kinds, in front of the
    rest, with the calls open. -/
inductive FailsInSigned (scope : Scope) :
    Nat → List TokenKind → List TokenKind → List OpenCall → Prop
  | here {n : Nat} {rest : List TokenKind} : mayBegin n rest = false →
    FailsInSigned scope n [] rest []
  | plus {n : Nat} {ks rest : List TokenKind} {calls : List OpenCall} :
    FailsInSigned scope n ks rest calls → FailsInSigned scope (n + 1) (.plus :: ks) rest calls
  | minus {n : Nat} {ks rest : List TokenKind} {calls : List OpenCall} :
    FailsInSigned scope n ks rest calls → FailsInSigned scope (n + 1) (.minus :: ks) rest calls
  | call {n : Nat} {name : String} {ks rest : List TokenKind} {calls : List OpenCall} :
    FailsInSlots scope n ks rest calls →
      FailsInSigned scope (n + 2) (.identifier name :: .leftParen :: ks) rest
        (calls ++ [⟨name, ks⟩])
  | parens {n : Nat} {ks rest : List TokenKind} {calls : List OpenCall} :
    FailsInSum scope n ks rest calls → FailsInSigned scope (n + 1) (.leftParen :: ks) rest calls
  /-- Behind a whole sum its parenthesis is not closed. -/
  | unclosed {n : Nat} {ks rest : List TokenKind} {e : Expr} :
    IsSum scope n ks e → StopsSum ks rest → rest.head? ≠ some .rightParen →
      FailsInSigned scope (n + 1) (.leftParen :: ks) rest []

/-- The reading of a product fails so. -/
inductive FailsInProduct (scope : Scope) :
    Nat → List TokenKind → List TokenKind → List OpenCall → Prop
  | first {n : Nat} {ks rest : List TokenKind} {calls : List OpenCall} :
    FailsInSigned scope n ks rest calls → FailsInProduct scope n ks rest calls
  | next {n : Nat} {ks ls rest : List TokenKind} {calls : List OpenCall} {a : Expr}
    {k : TokenKind} {name : String} :
    IsProduct scope n ks a → multiplicative? k = some name →
      FailsInSigned scope n ls rest calls → FailsInProduct scope n (ks ++ k :: ls) rest calls

/-- The reading of a sum fails so. -/
inductive FailsInSum (scope : Scope) :
    Nat → List TokenKind → List TokenKind → List OpenCall → Prop
  | first {n : Nat} {ks rest : List TokenKind} {calls : List OpenCall} :
    FailsInProduct scope n ks rest calls → FailsInSum scope n ks rest calls
  | next {n : Nat} {ks ls rest : List TokenKind} {calls : List OpenCall} {a : Expr}
    {k : TokenKind} {name : String} :
    IsSum scope n ks a → additive? k = some name →
      FailsInProduct scope n ls rest calls → FailsInSum scope n (ks ++ k :: ls) rest calls

/-- The reading of the slots of a call fails so. -/
inductive FailsInSlots (scope : Scope) :
    Nat → List TokenKind → List TokenKind → List OpenCall → Prop
  | first {n : Nat} {ks rest : List TokenKind} {calls : List OpenCall} :
    FailsInSum scope n ks rest calls →
      (∀ k, (ks ++ rest).head? = some k → k ≠ .comma ∧ k ≠ .rightParen ∧ k ≠ .infinity) →
        FailsInSlots scope n ks rest calls
  | next {n : Nat} {ks ls rest : List TokenKind} {calls : List OpenCall} {o : Operand} :
    IsSlot scope n ks o → FailsInSlots scope n ls rest calls →
      FailsInSlots scope n (ks ++ .comma :: ls) rest calls
  /-- Behind the word `Inf` the slot does not end. -/
  | word {n : Nat} {rest : List TokenKind} :
    (∀ k, rest.head? = some k → k ≠ .comma ∧ k ≠ .rightParen) →
      FailsInSlots scope n [.infinity] rest []
  /-- Behind a whole sum the slot does not end. -/
  | expr {n : Nat} {ks rest : List TokenKind} {e : Expr} :
    IsSum scope n ks e → StopsSum ks rest →
      (∀ k, rest.head? = some k → k ≠ .comma ∧ k ≠ .rightParen) →
        FailsInSlots scope n ks rest []

end

/-- The reading of a statement fails so. -/
inductive FailsInStatement (scope : Scope) :
    List TokenKind → List TokenKind → List OpenCall → Prop
  | left {ks rest : List TokenKind} {calls : List OpenCall} :
    FailsInSum scope maxNesting ks rest calls → FailsInStatement scope ks rest calls
  | right {ks ls rest : List TokenKind} {calls : List OpenCall} {a : Expr} {r : Relation} :
    IsSum scope maxNesting ks a → FailsInSum scope maxNesting ls rest calls →
      FailsInStatement scope (ks ++ .relation r :: ls) rest calls

/-! ### What a failure leaves -/

theorem FailsInSigned.nil_or_begins {n : Nat} {ks rest : List TokenKind} {calls : List OpenCall}
    (h : FailsInSigned scope n ks rest calls) : ks = [] ∨ Begins ks := by
  cases h with
  | here => exact .inl rfl
  | _ => exact .inr ⟨_, _, rfl, rfl⟩

theorem FailsInProduct.nil_or_begins {n : Nat} {ks rest : List TokenKind}
    {calls : List OpenCall} : FailsInProduct scope n ks rest calls → ks = [] ∨ Begins ks
  | .first d => d.nil_or_begins
  | .next d _ _ => .inr (d.begins.append _)

theorem FailsInSum.nil_or_begins {n : Nat} {ks rest : List TokenKind} {calls : List OpenCall} :
    FailsInSum scope n ks rest calls → ks = [] ∨ Begins ks
  | .first d => d.nil_or_begins
  | .next d _ _ => .inr (d.begins.append _)

/-- What was read of a statement, if anything, begins as an operand. -/
theorem FailsInStatement.nil_or_begins {ks rest : List TokenKind} {calls : List OpenCall} :
    FailsInStatement scope ks rest calls → ks = [] ∨ Begins ks
  | .left d => d.nil_or_begins
  | .right d _ => .inr (d.begins.append _)

/-! ## Readers fail so -/

/-- Why a reader stops that fails in front of the rest with the calls open: from the
    innermost call outwards, each is asked whether it takes the blame. -/
def Stop.blaming (rest : List TokenKind) (calls : List OpenCall) : Stop :=
  calls.foldl (fun stop c => stop.inCall c.name ((c.inside ++ rest).length + 2)) (.unexpected rest)

@[simp] theorem Stop.blaming_nil (rest : List TokenKind) : blaming rest [] = .unexpected rest :=
  rfl

theorem Stop.blaming_concat (rest : List TokenKind) (calls : List OpenCall) (c : OpenCall) :
    blaming rest (calls ++ [c]) =
      (blaming rest calls).inCall c.name ((c.inside ++ rest).length + 2) := by
  rw [blaming, List.foldl_append]
  rfl

theorem chain_eq_error {operator? : TokenKind → Option String} {operand : Reader Expr} {bound : Nat}
    {a : Expr} {k : TokenKind} {name : String} {ks : List TokenKind} {stop : Stop}
    {result : Except Stop (Parsed Expr bound)} (hk : operator? k = some name)
    (h : ∃ h, result = chain operator? operand ⟨a, k :: ks, h⟩)
    (hoperand : operand ks = .error stop) : result = .error stop := by
  obtain ⟨hlt, h⟩ := h
  rw [h, chain]
  simp only [hk, hoperand]

theorem signed_of_mayBegin {n : Nat} {rest : List TokenKind} (h : mayBegin n rest = false) :
    signed scope n rest = .error (.unexpected rest) := by
  cases n with
  | zero => rfl
  | succ n =>
    rw [signed_succ]
    cases rest with
    | nil => rfl
    | cons k ks =>
      by_cases hcall : ∃ name after, n = 0 ∧ k = .identifier name ∧ ks = .leftParen :: after
      · obtain ⟨name, after, rfl, rfl, rfl⟩ := hcall
        rfl
      · have hk : beginsOperand k = false := by
          rw [mayBegin] at h
          · exact h
          · exact n.succ_ne_zero
          · exact fun name after hn hname hafter =>
              hcall ⟨name, after, Nat.succ.inj hn, hname, hafter⟩
        cases k <;> first | rfl | cases hk

theorem keepsName_multiplicative {ks rest : List TokenKind} {k : TokenKind} {name : String}
    (hk : multiplicative? k = some name) : KeepsName ks (k :: rest) := by
  cases k <;> cases hk <;> simp

theorem stopsProduct_additive {ks rest : List TokenKind} {k : TokenKind} {name : String}
    (hk : additive? k = some name) : StopsProduct ks (k :: rest) := by
  cases k <;> cases hk <;> simp [multiplicative?]

theorem slot_eq_error {argument : Reader Expr} {input : List TokenKind} {stop : Stop}
    (hinput : ∀ k, input.head? = some k → k ≠ .comma ∧ k ≠ .rightParen ∧ k ≠ .infinity)
    (h : argument input = .error stop) : slot argument input = .error stop := by
  rw [slot.eq_def]
  split
  · exact absurd rfl (hinput _ rfl).1
  · exact absurd rfl (hinput _ rfl).2.1
  · exact absurd rfl (hinput _ rfl).2.2
  · rw [h]

theorem slots_eq_error {argument : Reader Expr} {input rest : List TokenKind} {o : Operand}
    (h : ∃ h, slot argument input = .ok ⟨o, rest, h⟩)
    (hrest : ∀ k, rest.head? = some k → k ≠ .comma ∧ k ≠ .rightParen) :
    slots argument input = .error (.unexpected rest) := by
  obtain ⟨_, h⟩ := h
  rw [slots]
  simp only [h]
  split
  · exact absurd rfl (hrest _ rfl).1
  · exact absurd rfl (hrest _ rfl).2
  · rfl

mutual

theorem FailsInSigned.eq_error {n : Nat} {ks rest : List TokenKind} {calls : List OpenCall}
    {input : List TokenKind} (hi : input = ks ++ rest) :
    FailsInSigned scope n ks rest calls →
      signed scope n input = .error (.blaming rest calls)
  | .here h => hi ▸ signed_of_mayBegin h
  | .plus d => by
    rw [hi, signed_succ]
    simp only [List.cons_append, signedBy, d.eq_error rfl]
  | .minus d => by
    rw [hi, signed_succ]
    simp only [List.cons_append, signedBy, d.eq_error rfl]
  | .call d => by
    rw [hi, signed_succ]
    simp only [List.cons_append, signedBy, deepest?, call, d.eq_error rfl, Stop.blaming_concat]
  | .parens d => by
    rw [hi, signed_succ]
    simp only [List.cons_append, signedBy, d.eq_error rfl]
  | .unclosed d hstops hrest => by
    rw [hi, signed_succ]
    obtain ⟨_, h⟩ := d.reads_of_stops hstops
    simp only [List.cons_append, signedBy, h]
    split
    · exact absurd rfl hrest
    · rfl

theorem FailsInProduct.eq_error {n : Nat} {ks rest : List TokenKind} {calls : List OpenCall}
    {input : List TokenKind} (hi : input = ks ++ rest) :
    FailsInProduct scope n ks rest calls →
      product (signed scope n) input = .error (.blaming rest calls)
  | .first d => by rw [product, d.eq_error hi]
  | .next d hk d' =>
    chain_eq_error hk (d.reaches (hi.trans (append_cons_append ..)) (keepsName_multiplicative hk))
      (d'.eq_error rfl)

theorem FailsInSum.eq_error {n : Nat} {ks rest : List TokenKind} {calls : List OpenCall}
    {input : List TokenKind} (hi : input = ks ++ rest) :
    FailsInSum scope n ks rest calls →
      sum (signed scope n) input = .error (.blaming rest calls)
  | .first d => by rw [sum, d.eq_error hi]
  | .next d hk d' =>
    chain_eq_error hk (d.reaches (hi.trans (append_cons_append ..)) (stopsProduct_additive hk))
      (d'.eq_error rfl)

theorem FailsInSlots.eq_error {n : Nat} {ks rest : List TokenKind} {calls : List OpenCall}
    {input : List TokenKind} (hi : input = ks ++ rest) :
    FailsInSlots scope n ks rest calls →
      slots (sum (signed scope n)) input = .error (.blaming rest calls)
  | .first d hrest => by
    rw [slots]
    simp only [slot_eq_error (hi ▸ hrest) (d.eq_error hi)]
  | .next d d' => by
    obtain ⟨_, h⟩ := d.reads (hi.trans (append_cons_append ..)) (.inl rfl)
    rw [slots]
    simp only [h, d'.eq_error rfl]
  | .word hrest => by
    subst hi
    exact slots_eq_error ⟨_, rfl⟩ hrest
  | .expr d hstops hrest => by
    subst hi
    exact slots_eq_error (slot_of_reads (d.reads_of_stops hstops) (d.begins.append _)) hrest

end

theorem FailsInStatement.eq_error {ks rest : List TokenKind} {calls : List OpenCall} :
    FailsInStatement scope ks rest calls →
      statement (signed scope maxNesting) (ks ++ rest) = .error (.blaming rest calls)
  | .left d => by rw [statement, d.eq_error rfl]
  | @FailsInStatement.right _ _ ls _ _ _ r d d' => by
    obtain ⟨_, h⟩ := d.reads (endsSum_relation : EndsSum (.relation r :: (ls ++ rest)))
    rw [append_cons_append]
    simp only [statement, h, d'.eq_error rfl]

/-! ## Readers fail in no other way -/

/-- Why a reader may stop: it fails, or a name is not known or not called as it must be. -/
inductive IsRefused (fails : List TokenKind → List TokenKind → List OpenCall → Prop)
    (input : List TokenKind) : Stop → Prop
  | failure {ks rest : List TokenKind} {calls : List OpenCall} : input = ks ++ rest →
    fails ks rest calls → IsRefused fails input (.blaming rest calls)
  | semantic {fault : SemanticFault} {site : Site} :
    IsRefused fails input (.settled (.semantic fault) site)

theorem IsRefused.unexpected {fails : List TokenKind → List TokenKind → List OpenCall → Prop}
    {input ks rest : List TokenKind} (hinput : input = ks ++ rest) (hfails : fails ks rest []) :
    IsRefused fails input (.unexpected rest) :=
  .failure hinput hfails

/-- What fails behind other kinds fails in the reader that took these. -/
theorem IsRefused.behind {fails fails' : List TokenKind → List TokenKind → List OpenCall → Prop}
    {input : List TokenKind} {stop : Stop} (h : IsRefused fails input stop)
    (front : List TokenKind)
    (hfails : ∀ {ks rest : List TokenKind} {calls : List OpenCall}, input = ks ++ rest →
      fails ks rest calls → fails' (front ++ ks) rest calls) :
    IsRefused fails' (front ++ input) stop := by
  cases h with
  | failure hinput hf => exact .failure (by rw [hinput, List.append_assoc]) (hfails hinput hf)
  | semantic => exact .semantic

/-- The reader stops for nothing else. -/
def Refuses {α : Type} (read : Reader α)
    (fails : List TokenKind → List TokenKind → List OpenCall → Prop) : Prop :=
  ∀ {input : List TokenKind} {stop : Stop}, read input = .error stop → IsRefused fails input stop

/-- A loop refuses its input for what its operand refuses it for. -/
theorem chain_isRefused {operator? : TokenKind → Option String} {operand : Reader Expr}
    {P Q : List TokenKind → Expr → Prop}
    {fails fails' : List TokenKind → List TokenKind → List OpenCall → Prop}
    (hP : Sound operand P) (hoperand : Refuses operand fails)
    (hQ : ∀ {ks ls : List TokenKind} {a b : Expr} {k : TokenKind} {name : String},
      Q ks a → operator? k = some name → P ls b → Q (ks ++ k :: ls) (.operator name [a, b]))
    (hfails : ∀ {ks ls rest : List TokenKind} {calls : List OpenCall} {a : Expr} {k : TokenKind}
      {name : String}, Q ks a → operator? k = some name → fails ls rest calls →
        fails' (ks ++ k :: ls) rest calls)
    {bound : Nat} {left : Parsed Expr bound} {stop : Stop}
    (h : chain operator? operand left = .error stop) {ks : List TokenKind}
    (hks : Q ks left.value) : IsRefused fails' (ks ++ left.rest) stop := by
  refine chain_stops hP hoperand hQ (fun {ks input _ k _ stop} hks hk hrefused => ?_) h hks
  have hbehind : IsRefused fails' ((ks ++ [k]) ++ input) stop :=
    hrefused.behind (ks ++ [k]) fun _ hf => by
      rw [List.append_assoc]
      exact hfails hks hk hf
  rwa [List.append_assoc] at hbehind

/-- Where a slot is followed by something that does not end it, the reading fails. -/
theorem failsInSlots_of_slot {n : Nat} {input : List TokenKind} {p : Parsed Operand (input.length + 1)}
    (hp : slot (sum (signed scope n)) input = .ok p)
    (hrest : ∀ k, p.rest.head? = some k → k ≠ .comma ∧ k ≠ .rightParen) :
    ∃ ks, input = ks ++ p.rest ∧ FailsInSlots scope n ks p.rest [] := by
  rw [slot.eq_def] at hp
  split at hp
  · cases hp
    exact absurd rfl (hrest _ rfl).1
  · cases hp
    exact absurd rfl (hrest _ rfl).2
  · cases hp
    exact ⟨[.infinity], rfl, .word hrest⟩
  · split at hp
    · cases hp
    · rename_i q hq
      cases hp
      obtain ⟨ks, hks, d, hstops⟩ := reads_sum_iff.1 ⟨q.shorter, hq⟩
      exact ⟨ks, hks, .expr d hstops hrest⟩

section Level

variable {n : Nat} (h : Refuses (signed scope n) (FailsInSigned scope n))
include h

theorem product_refuses : Refuses (product (signed scope n)) (FailsInProduct scope n) := by
  intro input stop hstop
  rw [product] at hstop
  split at hstop
  · rename_i hread
    cases hstop
    exact (h hread).behind [] fun _ => .first
  · rename_i left hleft
    obtain ⟨ks, hks, ha⟩ := signed_sound n hleft
    rw [hks]
    exact chain_isRefused (Q := IsProduct scope n) (signed_sound n) h IsProduct.multiplicative
      .next hstop (.signed ha)

theorem sum_refuses : Refuses (sum (signed scope n)) (FailsInSum scope n) := by
  intro input stop hstop
  rw [sum] at hstop
  split at hstop
  · rename_i hread
    cases hstop
    exact (product_refuses h hread).behind [] fun _ => .first
  · rename_i left hleft
    obtain ⟨ks, hks, ha⟩ := product_sound (signed_sound n) hleft
    rw [hks]
    exact chain_isRefused (Q := IsSum scope n) (product_sound (signed_sound n))
      (product_refuses h) IsSum.additive .next hstop (.product ha)

theorem slot_isRefused {input : List TokenKind} {stop : Stop}
    (hstop : slot (sum (signed scope n)) input = .error stop) :
    IsRefused (FailsInSlots scope n) input stop := by
  rw [slot.eq_def] at hstop
  split at hstop
  · cases hstop
  · cases hstop
  · cases hstop
  · rename_i hcomma hparen hinfinity
    split at hstop
    · rename_i hread
      cases hstop
      refine (sum_refuses h hread).behind [] fun hinput hf => .first hf fun k hk => ?_
      rw [List.nil_append, ← hinput] at hk
      obtain ⟨after, rfl⟩ := List.head?_eq_some_iff.1 hk
      refine ⟨?_, ?_, ?_⟩ <;> rintro rfl
      · exact hcomma _ rfl
      · exact hparen _ rfl
      · exact hinfinity _ rfl
    · cases hstop

theorem slots_refuses : Refuses (slots (sum (signed scope n))) (FailsInSlots scope n) := by
  intro input stop hstop
  rw [slots] at hstop
  split at hstop
  · rename_i hread
    cases hstop
    exact slot_isRefused h hread
  · rename_i first hfirst
    obtain ⟨ks, hks, hs⟩ := slot_sound (sum_sound (signed_sound n)) hfirst
    split at hstop
    · rename_i rest hrest
      split at hstop
      · rename_i hread
        cases hstop
        have hlt : rest.length < input.length :=
          Nat.lt_of_succ_lt_succ (first.length_succ_lt hrest)
        have hbehind : IsRefused (FailsInSlots scope n) ((ks ++ [.comma]) ++ rest) _ :=
          (slots_refuses hread).behind (ks ++ [.comma]) fun _ hf => by
            rw [List.append_assoc]
            exact .next hs hf
        rw [hks, hrest]
        rwa [List.append_assoc] at hbehind
      · cases hstop
    · cases hstop
    · -- neither a comma nor a parenthesis is behind the slot
      rename_i hcomma hparen
      cases hstop
      obtain ⟨ks', hks', hf⟩ := failsInSlots_of_slot hfirst fun k hk => by
        obtain ⟨after, hafter⟩ := List.head?_eq_some_iff.1 hk
        refine ⟨?_, ?_⟩ <;> rintro rfl
        · exact hcomma _ hafter
        · exact hparen _ hafter
      exact .unexpected hks' hf
termination_by input => input.length

theorem call_isRefused {name : String} {input : List TokenKind} {stop : Stop}
    (hstop : call scope (sum (signed scope n)) name input = .error stop) :
    IsRefused (FailsInSigned scope (n + 2)) (.identifier name :: .leftParen :: input) stop := by
  rw [call] at hstop
  split at hstop
  · rename_i hslots
    cases hstop
    cases slots_refuses h hslots with
    | failure hinput hf =>
      rw [hinput, ← Stop.blaming_concat _ _ ⟨name, _⟩]
      exact .failure rfl (.call hf)
    | semantic => exact .semantic
  · split at hstop
    · rename_i happly
      cases hstop
      rcases apply_eq_error happly with ⟨-, rfl⟩ | ⟨_, _, -, -, -, rfl⟩ <;> exact .semantic
    · cases hstop

end Level

theorem signedBy_refuses {n : Nat} (h : Refuses (signed scope n) (FailsInSigned scope n))
    (hdeepest : ∀ m, n = m + 1 → Refuses (signed scope m) (FailsInSigned scope m)) :
    Refuses (signedBy scope (signed scope n) (deepest? scope n)) (FailsInSigned scope (n + 1)) := by
  intro input stop hstop
  rw [signedBy.eq_def] at hstop
  split at hstop
  · -- a sign +
    split at hstop
    · cases hstop
      exact (h ‹_›).behind [.plus] fun _ => .plus
    · cases hstop
  · -- a sign -
    split at hstop
    · cases hstop
      exact (h ‹_›).behind [.minus] fun _ => .minus
    · cases hstop
  · cases hstop
  · cases hstop
  · -- a call
    split at hstop
    · -- no level is left for the slots
      rename_i hnone
      cases hstop
      cases n with
      | zero => exact .unexpected (List.nil_append _).symm (.here rfl)
      | succ m => cases hnone
    · rename_i hdeep
      cases n with
      | zero => cases hdeep
      | succ m =>
        cases hdeep
        split at hstop
        · cases hstop
          exact call_isRefused (hdeepest m rfl) ‹_›
        · cases hstop
  · -- a bare name
    rw [resolve] at hstop
    split at hstop
    · rename_i hread
      cases hstop
      split at hread
      · cases hread
      · cases hread
        exact .semantic
    · cases hstop
  · -- a sum in parentheses
    split at hstop
    · cases hstop
      exact (sum_refuses h ‹_›).behind [.leftParen] fun _ => .parens
    · rename_i p hp
      split at hstop
      · cases hstop
      · rename_i hopen
        cases hstop
        obtain ⟨ks, hks, d, hstops⟩ := reads_sum_iff.1 ⟨p.shorter, hp⟩
        have hinput := congrArg (List.cons TokenKind.leftParen) hks
        rw [← List.cons_append] at hinput
        refine .unexpected hinput (.unclosed d hstops fun hk => ?_)
        obtain ⟨after, hafter⟩ := List.head?_eq_some_iff.1 hk
        exact hopen after hafter
  · -- none of these, so no operand begins here
    rename_i hplus hminus hinteger hreal hcall hname hparen
    cases hstop
    refine .unexpected (List.nil_append _).symm (.here ?_)
    cases input with
    | nil => cases n <;> rfl
    | cons k rest =>
      refine mayBegin_eq_false ?_
      cases k with
      | plus => exact (hplus _ rfl).elim
      | minus => exact (hminus _ rfl).elim
      | integer n => exact (hinteger _ _ rfl).elim
      | real x => exact (hreal _ _ rfl).elim
      | identifier name => exact (hname _ _ rfl).elim
      | leftParen => exact (hparen _ rfl).elim
      | _ => rfl

theorem signed_refuses : ∀ n : Nat, Refuses (signed scope n) (FailsInSigned scope n)
  | 0 => fun h => by
    cases h
    exact .unexpected (List.nil_append _).symm (.here rfl)
  | 1 => signedBy_refuses (signed_refuses 0) nofun
  | n + 2 => signedBy_refuses (signed_refuses (n + 1)) fun m hm => by
    cases hm
    exact signed_refuses n

/-- A statement is refused for a failure or for a name, or for what stands behind a whole
    statement. -/
theorem statement_refuses {input : List TokenKind} {stop : Stop}
    (h : statement (signed scope maxNesting) input = .error stop) :
    IsRefused (FailsInStatement scope) input stop ∨
      (∃ site, stop = .settled (.grammatical .chainedConstraint) site) ∨
      ∃ text site, stop = .settled (.grammatical (.trailingInput text)) site := by
  have hsum : Refuses (sum (signed scope maxNesting)) (FailsInSum scope maxNesting) :=
    sum_refuses (signed_refuses maxNesting)
  have hcomplete : ∀ {s : Statement} {rest : List TokenKind}, complete s rest = .error stop →
      ∃ text site, stop = .settled (.grammatical (.trailingInput text)) site := by
    intro s rest h
    cases rest with
    | nil => cases h
    | cons k ks =>
      cases h
      exact ⟨_, _, rfl⟩
  rw [statement] at h
  split at h
  · rename_i hread
    cases h
    exact .inl ((hsum hread).behind [] fun _ => .left)
  · rename_i left hleft
    obtain ⟨ks, hks, ha⟩ := sum_sound (signed_sound _) hleft
    split at h
    · rename_i r rest hrest
      rw [hrest] at hks
      split at h
      · rename_i hread
        cases h
        rw [hks, List.append_cons]
        refine .inl ((hsum hread).behind _ fun _ hf => ?_)
        rw [List.append_assoc]
        exact .right ha hf
      · split at h
        · cases h
          exact .inr (.inl ⟨_, rfl⟩)
        · exact .inr (.inr (hcomplete h))
    · exact .inr (.inr (hcomplete h))

end ConvexLang.Grammar
