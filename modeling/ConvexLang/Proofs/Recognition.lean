import ConvexLang.Proofs.Derivation

/-!
# The readers recognise the grammar

The readers of `ConvexLang.Grammar` go through the kinds once, from the left,
and decide by the next kind or two. This module shows that they accept what the
grammar derives, with the same tree, and nothing else.

* `Sound`: what a reader took off the input derives the value it answers with.
  The loops keep that up from operand to operand, since a chain is closed under
  one more operator (`chain_sound`).
* `Reads`: a reader answers with a value and leaves a rest. A derivation is read
  in front of any rest that cannot go on with it (`IsSum.reads`). The left
  recursion of the grammar meets the loop in `IsProduct.reaches` and
  `IsSum.reaches`: after the kinds of a left operand the loop stands at that
  operand.
* `line_eq_ok_statement_iff`, `line_eq_ok_declaration_iff`: whole lines.
-/

namespace ConvexLang

namespace Grammar

variable {scope : Scope}

/-! ## Soundness -/

/-- The kinds that the reader takes off its input derive the value. -/
def Sound {α : Type} (read : Reader α) (P : List TokenKind → α → Prop) : Prop :=
  ∀ {input : List TokenKind} {p : Parsed α input.length}, read input = .ok p →
    ∃ ks, input = ks ++ p.rest ∧ P ks p.value

/-- A loop keeps what it has derived, as long as one more operator and operand
    keep it. -/
theorem chain_sound {operator? : TokenKind → Option String} {operand : Reader Expr}
    {P Q : List TokenKind → Expr → Prop} (hP : Sound operand P)
    (hQ : ∀ {ks ls : List TokenKind} {a b : Expr} {k : TokenKind} {name : String},
      Q ks a → operator? k = some name → P ls b → Q (ks ++ k :: ls) (.operator name [a, b]))
    {bound : Nat} {left p : Parsed Expr bound} (h : chain operator? operand left = .ok p)
    {ks : List TokenKind} (hks : Q ks left.value) :
    ∃ ls, ks ++ left.rest = ls ++ p.rest ∧ Q ls p.value := by
  induction hn : left.rest.length using Nat.strongRecOn generalizing left ks with
  | ind n ih =>
    rw [chain] at h
    split at h
    · cases h
      exact ⟨ks, rfl, hks⟩
    · rename_i k rest hrest
      split at h
      · cases h
        exact ⟨ks, rfl, hks⟩
      · rename_i name hname
        split at h
        · cases h
        · rename_i right hright
          obtain ⟨ls, hls, hb⟩ := hP hright
          have hlt : right.rest.length < n := by
            have := right.shorter
            rw [← hn, hrest, List.length_cons]
            omega
          obtain ⟨ms, hms, hp⟩ := ih _ hlt h (hQ hks hname hb) rfl
          refine ⟨ms, ?_, hp⟩
          calc ks ++ left.rest
              = ks ++ k :: (ls ++ right.rest) := by rw [hrest, ← hls]
            _ = (ks ++ k :: ls) ++ right.rest := by simp
            _ = ms ++ p.rest := hms

theorem product_sound {n : Nat} {operand : Reader Expr} (h : Sound operand (IsSigned scope n)) :
    Sound (product operand) (IsProduct scope n) := by
  intro input p hp
  rw [product] at hp
  split at hp
  · cases hp
  · rename_i left hleft
    obtain ⟨ks, hks, ha⟩ := h hleft
    obtain ⟨ls, hls, hb⟩ := chain_sound (Q := IsProduct scope n) h
      IsProduct.multiplicative hp (.signed ha)
    exact ⟨ls, hks.trans hls, hb⟩

theorem sum_sound {n : Nat} {operand : Reader Expr} (h : Sound operand (IsSigned scope n)) :
    Sound (sum operand) (IsSum scope n) := by
  intro input p hp
  rw [sum] at hp
  split at hp
  · cases hp
  · rename_i left hleft
    obtain ⟨ks, hks, ha⟩ := product_sound h hleft
    obtain ⟨ls, hls, hb⟩ := chain_sound (Q := IsSum scope n) (product_sound h)
      IsSum.additive hp (.product ha)
    exact ⟨ls, hks.trans hls, hb⟩

theorem slot_sound {n : Nat} {argument : Reader Expr} (h : Sound argument (IsSum scope n))
    {input : List TokenKind} {p : Parsed Operand (input.length + 1)}
    (hp : slot argument input = .ok p) :
    ∃ ks, input = ks ++ p.rest ∧ IsSlot scope n ks p.value := by
  rw [slot.eq_def] at hp
  split at hp
  · cases hp
    exact ⟨[], rfl, .absent⟩
  · cases hp
    exact ⟨[], rfl, .absent⟩
  · cases hp
    exact ⟨[.infinity], rfl, .infinity⟩
  · split at hp
    · cases hp
    · rename_i q hq
      cases hp
      obtain ⟨ks, hks, he⟩ := h hq
      exact ⟨ks, hks, .expr he⟩

/-- The slots of a call, with the parenthesis that closes it. -/
theorem slots_sound {n : Nat} {argument : Reader Expr} (h : Sound argument (IsSum scope n))
    {input : List TokenKind} {p : Parsed (List Operand) input.length}
    (hp : slots argument input = .ok p) :
    ∃ ks, input = ks ++ .rightParen :: p.rest ∧ IsSlots scope n ks p.value := by
  rw [slots] at hp
  split at hp
  · cases hp
  · rename_i first hfirst
    obtain ⟨ks, hks, hs⟩ := slot_sound h hfirst
    split at hp
    · rename_i rest hrest
      split at hp
      · cases hp
      · rename_i others hothers
        cases hp
        have hlt : rest.length < input.length :=
          Nat.lt_of_succ_lt_succ (first.length_succ_lt hrest)
        obtain ⟨ls, hls, hos⟩ := slots_sound h hothers
        refine ⟨ks ++ .comma :: ls, ?_, .cons hs hos⟩
        calc input = ks ++ first.rest := hks
          _ = ks ++ .comma :: (ls ++ .rightParen :: others.rest) := by rw [hrest, ← hls]
          _ = (ks ++ .comma :: ls) ++ .rightParen :: others.rest := by simp
    · rename_i rest hrest
      cases hp
      exact ⟨ks, hks.trans (congrArg _ hrest), .last hs⟩
    · cases hp
termination_by input.length

/-- What `apply` builds is a call of a known atom that takes the operands. -/
theorem apply_eq_ok {name : String} {opening closing : Nat} {os : List Operand} {e : Expr}
    (h : apply scope name opening closing os = .ok e) :
    ∃ p, scope.atoms.get? name = some p ∧ p.accepts os.length = true ∧
      e = .compound name p.sign p.curvature os false := by
  rw [apply] at h
  split at h
  · cases h
  · rename_i p hp
    split at h
    · rename_i ha
      cases h
      exact ⟨p, hp, ha, rfl⟩
    · cases h

theorem call_sound {n : Nat} {argument : Reader Expr} (h : Sound argument (IsSum scope n))
    {name : String} :
    Sound (call scope argument name) fun ks e =>
      ∃ ls, ks = ls ++ [.rightParen] ∧
        IsSigned scope (n + 2) (.identifier name :: .leftParen :: ks) e := by
  intro input p hp
  rw [call] at hp
  split at hp
  · cases hp
  · rename_i operands hoperands
    obtain ⟨ks, hks, hos⟩ := slots_sound h hoperands
    split at hp
    · cases hp
    · rename_i e he
      cases hp
      obtain ⟨q, hq, ha, rfl⟩ := apply_eq_ok he
      exact ⟨ks ++ [.rightParen], hks.trans (by simp [Parsed.withValue]), ks, rfl,
        .call hos hq ha⟩

/-- One level of operands: `inner` reads what lies one level deeper, and the
    reader for two levels deeper is there only if there are two. -/
theorem signedBy_sound {n : Nat} {inner : Reader Expr} {deepest? : Option (Reader Expr)}
    (hinner : Sound inner (IsSigned scope n))
    (hdeepest : ∀ deepest, deepest? = some deepest →
      ∃ m, n = m + 1 ∧ Sound deepest (IsSigned scope m)) :
    Sound (signedBy scope inner deepest?) (IsSigned scope (n + 1)) := by
  intro input p hp
  rw [signedBy.eq_def] at hp
  split at hp
  · -- a sign `+`
    split at hp
    · cases hp
    · rename_i q hq
      cases hp
      obtain ⟨ks, hks, he⟩ := hinner hq
      exact ⟨.plus :: ks, congrArg _ hks, .plus he⟩
  · -- a sign `-`
    split at hp
    · cases hp
    · rename_i q hq
      cases hp
      obtain ⟨ks, hks, he⟩ := hinner hq
      exact ⟨.minus :: ks, congrArg _ hks, .minus he⟩
  · cases hp
    exact ⟨[_], rfl, .integer⟩
  · cases hp
    exact ⟨[_], rfl, .real⟩
  · -- a call
    split at hp
    · cases hp
    · rename_i deepest
      obtain ⟨m, rfl, hm⟩ := hdeepest deepest rfl
      split at hp
      · cases hp
      · rename_i q hq
        cases hp
        obtain ⟨_, hks, ls, rfl, he⟩ := call_sound (sum_sound hm) hq
        exact ⟨_, congrArg _ (congrArg _ hks), he⟩
  · -- a bare name
    rename_i name rest _
    rw [resolve] at hp
    split at hp
    · cases hp
    · rename_i e he
      cases hp
      split at he
      · rename_i e' hname
        cases he
        exact ⟨[_], rfl, .symbol hname⟩
      · cases he
  · -- a sum in parentheses
    split at hp
    · cases hp
    · rename_i q hq
      obtain ⟨ks, hks, he⟩ := sum_sound hinner hq
      split at hp
      · rename_i after hafter
        cases hp
        refine ⟨.leftParen :: (ks ++ [.rightParen]), ?_, .parens he⟩
        simpa using hks.trans (congrArg _ hafter)
      · cases hp
  · cases hp

theorem signed_sound : ∀ n : Nat, Sound (signed scope n) (IsSigned scope n)
  | 0 => fun h => by cases h
  | 1 => signedBy_sound (signed_sound 0) (by nofun)
  | n + 2 => signedBy_sound (signed_sound (n + 1)) fun _ h => by
    cases h
    exact ⟨n, rfl, signed_sound n⟩

/-! ## Completeness -/

/-- The reader takes `a` off the input and leaves `rest`. -/
def Reads {α : Type} (read : Reader α) (input : List TokenKind) (a : α)
    (rest : List TokenKind) : Prop :=
  ∃ h, read input = .ok ⟨a, rest, h⟩

/-- A bare name in front of the kinds stays one: they open no parenthesis. -/
def EndsName (rest : List TokenKind) : Prop :=
  ∀ k, rest.head? = some k → k ≠ .leftParen

/-- A product in front of the kinds ends there. -/
def EndsProduct (rest : List TokenKind) : Prop :=
  ∀ k, rest.head? = some k → k ≠ .leftParen ∧ multiplicative? k = none

/-- A sum in front of the kinds ends there. -/
def EndsSum (rest : List TokenKind) : Prop :=
  ∀ k, rest.head? = some k → k ≠ .leftParen ∧ multiplicative? k = none ∧ additive? k = none

theorem EndsProduct.endsName {rest : List TokenKind} (h : EndsProduct rest) : EndsName rest :=
  fun k hk => (h k hk).1

theorem EndsProduct.multiplicative {rest : List TokenKind} (h : EndsProduct rest) :
    ∀ k, rest.head? = some k → multiplicative? k = none :=
  fun k hk => (h k hk).2

theorem EndsSum.endsProduct {rest : List TokenKind} (h : EndsSum rest) : EndsProduct rest :=
  fun k hk => ⟨(h k hk).1, (h k hk).2.1⟩

theorem EndsSum.additive {rest : List TokenKind} (h : EndsSum rest) :
    ∀ k, rest.head? = some k → additive? k = none :=
  fun k hk => (h k hk).2.2

@[simp] theorem endsName_cons {k : TokenKind} {rest : List TokenKind} :
    EndsName (k :: rest) ↔ k ≠ .leftParen := by
  simp [EndsName]

@[simp] theorem endsProduct_cons {k : TokenKind} {rest : List TokenKind} :
    EndsProduct (k :: rest) ↔ k ≠ .leftParen ∧ multiplicative? k = none := by
  simp [EndsProduct]

@[simp] theorem endsSum_cons {k : TokenKind} {rest : List TokenKind} :
    EndsSum (k :: rest) ↔ k ≠ .leftParen ∧ multiplicative? k = none ∧ additive? k = none := by
  simp [EndsSum]

theorem endsSum_nil : EndsSum [] := nofun

/-- A bare name at the end of the kinds stays one in front of the rest, though a
    parenthesis may be opened behind anything else. -/
def KeepsName (ks rest : List TokenKind) : Prop :=
  rest.head? = some .leftParen → ∀ name, ks.getLast? ≠ some (.identifier name)

/-- A product of the kinds ends in front of the rest. -/
def StopsProduct (ks rest : List TokenKind) : Prop :=
  KeepsName ks rest ∧ ∀ k, rest.head? = some k → multiplicative? k = none

/-- A sum of the kinds ends in front of the rest. -/
def StopsSum (ks rest : List TokenKind) : Prop :=
  StopsProduct ks rest ∧ ∀ k, rest.head? = some k → additive? k = none

@[simp] theorem keepsName_cons {ks rest : List TokenKind} {k : TokenKind} :
    KeepsName ks (k :: rest) ↔ (k = .leftParen → ∀ name, ks.getLast? ≠ some (.identifier name)) := by
  simp [KeepsName]

@[simp] theorem stopsProduct_cons {ks rest : List TokenKind} {k : TokenKind} :
    StopsProduct ks (k :: rest) ↔ KeepsName ks (k :: rest) ∧ multiplicative? k = none := by
  simp [StopsProduct]

/-- What is kept of the end of some kinds is kept of the end of their last ones. -/
theorem KeepsName.of_append_cons {ks ls rest : List TokenKind} {k : TokenKind}
    (h : KeepsName (ks ++ k :: ls) rest) : KeepsName ls rest := by
  intro hrest name hname
  refine h hrest name ?_
  rw [List.getLast?_append, List.getLast?_cons, hname]
  rfl

theorem KeepsName.of_cons {ks rest : List TokenKind} {k : TokenKind}
    (h : KeepsName (k :: ks) rest) : KeepsName ks rest :=
  (show KeepsName ([] ++ k :: ks) rest from h).of_append_cons

theorem KeepsName.endsName {name : String} {rest : List TokenKind}
    (h : KeepsName [.identifier name] rest) : EndsName rest := by
  rintro k hk rfl
  exact h hk name rfl

theorem EndsName.keepsName {ks rest : List TokenKind} (h : EndsName rest) : KeepsName ks rest :=
  fun hk => absurd rfl (h _ hk)

theorem EndsProduct.stopsProduct {ks rest : List TokenKind} (h : EndsProduct rest) :
    StopsProduct ks rest :=
  ⟨h.endsName.keepsName, h.multiplicative⟩

theorem EndsSum.stopsSum {ks rest : List TokenKind} (h : EndsSum rest) : StopsSum ks rest :=
  ⟨h.endsProduct.stopsProduct, h.additive⟩

/-! ### Loops -/

section Loops

variable {operator? : TokenKind → Option String} {operand : Reader Expr} {bound : Nat}
  {a b : Expr} {ks rest : List TokenKind}

/-- A loop stops in front of what is no operator. -/
theorem chain_stop (h : rest.length < bound)
    (hrest : ∀ k, rest.head? = some k → operator? k = none) :
    chain operator? operand ⟨a, rest, h⟩ = .ok ⟨a, rest, h⟩ := by
  rw [chain]
  split
  · rfl
  · rename_i k ks hk
    rw [hrest k (by rw [show rest = k :: ks from hk]; rfl)]

/-- What stands at a left operand with an operator behind it takes one more
    operand. -/
theorem chain_step {k : TokenKind} {name : String} {result : Except Stop (Parsed Expr bound)}
    (hk : operator? k = some name)
    (h : ∃ h, result = chain operator? operand ⟨a, k :: ks, h⟩) (hb : Reads operand ks b rest) :
    ∃ h, result = chain operator? operand ⟨.operator name [a, b], rest, h⟩ := by
  obtain ⟨hbound, h⟩ := h
  obtain ⟨hlt, hb⟩ := hb
  refine ⟨by simp only [List.length_cons] at hbound; omega, h.trans ?_⟩
  rw [chain]
  simp only [hk, hb]

/-- What stands at a value in front of no operator answers with it. -/
theorem reads_of_eq_chain {read : Reader Expr} {input : List TokenKind}
    (hrest : ∀ k, rest.head? = some k → operator? k = none)
    (h : ∃ h, read input = chain operator? operand ⟨a, rest, h⟩) : Reads read input a rest := by
  obtain ⟨hlt, h⟩ := h
  exact ⟨hlt, h.trans (chain_stop hlt hrest)⟩

end Loops

/-! ### One level -/

section Level

variable {inner : Reader Expr} {deepest? : Option (Reader Expr)} {ks rest : List TokenKind}
  {e : Expr}

theorem Reads.plus (h : Reads inner ks e rest) :
    Reads (signedBy scope inner deepest?) (.plus :: ks) e rest := by
  obtain ⟨_, h⟩ := h
  exact ⟨_, by simp only [signedBy, h]; rfl⟩

theorem Reads.minus (h : Reads inner ks e rest) :
    Reads (signedBy scope inner deepest?) (.minus :: ks) (.operator "-" [e]) rest := by
  obtain ⟨_, h⟩ := h
  exact ⟨_, by simp only [signedBy, h]; rfl⟩

theorem Reads.parens (h : Reads (sum inner) ks e (.rightParen :: rest)) :
    Reads (signedBy scope inner deepest?) (.leftParen :: ks) e.inParens rest := by
  obtain ⟨hlt, h⟩ := h
  refine ⟨by simp only [List.length_cons] at hlt ⊢; omega, ?_⟩
  simp only [signedBy, h]

theorem Reads.symbol {name : String} (h : scope.symbols.get? name = some e)
    (hrest : EndsName rest) :
    Reads (signedBy scope inner deepest?) (.identifier name :: rest) e rest := by
  refine ⟨Nat.lt_succ_self _, ?_⟩
  cases rest with
  | nil => simp only [signedBy, resolve, Symbols.node?, h]
  | cons k ks =>
    have hk := endsName_cons.1 hrest
    cases k <;> first | exact absurd rfl hk | simp only [signedBy, resolve, Symbols.node?, h]

theorem Reads.call {deepest : Reader Expr} {name : String} {p : Profile} {os : List Operand}
    (h : Reads (slots (sum deepest)) ks os rest) (hp : scope.atoms.get? name = some p)
    (ha : p.accepts os.length = true) :
    Reads (signedBy scope inner (some deepest)) (.identifier name :: .leftParen :: ks)
      (.compound name p.sign p.curvature os false) rest := by
  obtain ⟨hlt, h⟩ := h
  refine ⟨by simp only [List.length_cons]; omega, ?_⟩
  simp only [signedBy, Grammar.call, h, apply, hp, ha, if_true]
  rfl

end Level

/-! ### Derivations -/

/-- The reader for two levels deeper, if there is one more level. -/
def deepest? (scope : Scope) : Nat → Option (Reader Expr)
  | 0 => none
  | n + 1 => some (signed scope n)

theorem signed_succ (n : Nat) :
    signed scope (n + 1) = signedBy scope (signed scope n) (deepest? scope n) := by
  cases n <;> rfl

theorem append_cons_append (ks : List TokenKind) (k : TokenKind) (ls rest : List TokenKind) :
    (ks ++ k :: ls) ++ rest = ks ++ k :: (ls ++ rest) := by
  simp

theorem slot_of_reads {argument : Reader Expr} {ks rest : List TokenKind} {e : Expr}
    (h : Reads argument ks e rest) (hks : Begins ks) :
    ∃ h', slot argument ks = .ok ⟨.expr e, rest, h'⟩ := by
  obtain ⟨hlt, h⟩ := h
  obtain ⟨k, ks, rfl, hk⟩ := hks
  refine ⟨Nat.lt_succ_of_lt hlt, ?_⟩
  cases k <;> first | exact absurd hk (by decide) | (simp only [slot, h]; rfl)

mutual

/-- A signed operand is read in front of what leaves its last name a name. -/
theorem IsSigned.reads {n : Nat} {ks : List TokenKind} {e : Expr} {input rest : List TokenKind}
    (hi : input = ks ++ rest) (hrest : KeepsName ks rest) :
    IsSigned scope n ks e → Reads (signed scope n) input e rest
  | .plus d => by
    rw [hi, signed_succ]
    exact .plus (d.reads rfl hrest.of_cons)
  | .minus d => by
    rw [hi, signed_succ]
    exact .minus (d.reads rfl hrest.of_cons)
  | .integer => by
    rw [hi, signed_succ]
    exact ⟨Nat.lt_succ_self _, rfl⟩
  | .real => by
    rw [hi, signed_succ]
    exact ⟨Nat.lt_succ_self _, rfl⟩
  | .symbol he => by
    rw [hi, signed_succ]
    exact .symbol he hrest.endsName
  | .call d hp ha => by
    rw [hi, signed_succ]
    exact .call (d.reads (by simp)) hp ha
  | .parens d => by
    rw [hi, signed_succ]
    -- the closing parenthesis goes on with no sum
    exact .parens (reads_of_eq_chain (by simp [additive?])
      (d.reaches (append_cons_append ..) (by simp [multiplicative?])))

/-- After the kinds of a product, the loop stands at that product. -/
theorem IsProduct.reaches {n : Nat} {ks : List TokenKind} {e : Expr}
    {input rest : List TokenKind} (hi : input = ks ++ rest) (hrest : KeepsName ks rest) :
    IsProduct scope n ks e →
      ∃ h, product (signed scope n) input = chain multiplicative? (signed scope n) ⟨e, rest, h⟩
  | .signed d => by
    obtain ⟨hlt, h⟩ := d.reads hi hrest
    exact ⟨hlt, by rw [product, h]⟩
  -- the left operand is read up to its operator, the right one up to the rest
  | .times d d' =>
    chain_step rfl (d.reaches (hi.trans (append_cons_append ..)) (by simp))
      (d'.reads rfl hrest.of_append_cons)
  | .over d d' =>
    chain_step rfl (d.reaches (hi.trans (append_cons_append ..)) (by simp))
      (d'.reads rfl hrest.of_append_cons)

/-- After the kinds of a sum, the loop stands at that sum. -/
theorem IsSum.reaches {n : Nat} {ks : List TokenKind} {e : Expr}
    {input rest : List TokenKind} (hi : input = ks ++ rest) (hrest : StopsProduct ks rest) :
    IsSum scope n ks e →
      ∃ h, sum (signed scope n) input = chain additive? (product (signed scope n)) ⟨e, rest, h⟩
  | .product d => by
    obtain ⟨hlt, h⟩ := reads_of_eq_chain hrest.2 (d.reaches hi hrest.1)
    exact ⟨hlt, by rw [sum, h]⟩
  | .plus d d' =>
    chain_step rfl (d.reaches (hi.trans (append_cons_append ..)) (by simp [multiplicative?]))
      (reads_of_eq_chain hrest.2 (d'.reaches rfl hrest.1.of_append_cons))
  | .minus d d' =>
    chain_step rfl (d.reaches (hi.trans (append_cons_append ..)) (by simp [multiplicative?]))
      (reads_of_eq_chain hrest.2 (d'.reaches rfl hrest.1.of_append_cons))

/-- A slot is read in front of what ends it. -/
theorem IsSlot.reads {n : Nat} {ks : List TokenKind} {o : Operand} {k : TokenKind}
    {input rest : List TokenKind} (hi : input = ks ++ k :: rest)
    (hk : k = .comma ∨ k = .rightParen) :
    IsSlot scope n ks o → ∃ h, slot (sum (signed scope n)) input = .ok ⟨o, k :: rest, h⟩
  | .absent => by
    subst hi
    rcases hk with rfl | rfl <;> exact ⟨Nat.lt_succ_self _, rfl⟩
  | .infinity => by
    subst hi
    exact ⟨Nat.lt_succ_of_lt (Nat.lt_succ_self _), rfl⟩
  | .expr d => by
    subst hi
    refine slot_of_reads (reads_of_eq_chain ?_ (d.reaches rfl ?_)) (d.begins.append _) <;>
      rcases hk with rfl | rfl <;> simp [multiplicative?, additive?]

/-- The slots of a call are read with the parenthesis that closes it. -/
theorem IsSlots.reads {n : Nat} {ks : List TokenKind} {os : List Operand}
    {input rest : List TokenKind} (hi : input = ks ++ .rightParen :: rest) :
    IsSlots scope n ks os → Reads (slots (sum (signed scope n))) input os rest
  | .last d => by
    obtain ⟨hlt, h⟩ := d.reads hi (.inr rfl)
    refine ⟨by simp only [List.length_cons] at hlt; omega, ?_⟩
    rw [slots]
    simp only [h]
  | .cons d d' => by
    obtain ⟨hlt, h⟩ := d.reads (hi.trans (append_cons_append ..)) (.inl rfl)
    obtain ⟨hlt', h'⟩ : Reads _ (_ ++ .rightParen :: rest) _ rest := d'.reads rfl
    refine ⟨by simp only [List.length_cons] at hlt; omega, ?_⟩
    rw [slots]
    simp only [h, h']
    rfl

end

/-- A sum is read in front of what cannot go on with it. -/
theorem IsSum.reads_of_stops {n : Nat} {ks : List TokenKind} {e : Expr} (d : IsSum scope n ks e)
    {rest : List TokenKind} (hrest : StopsSum ks rest) :
    Reads (sum (signed scope n)) (ks ++ rest) e rest :=
  reads_of_eq_chain hrest.2 (d.reaches rfl hrest.1)

theorem IsSum.reads {n : Nat} {ks : List TokenKind} {e : Expr} (d : IsSum scope n ks e)
    {rest : List TokenKind} (hrest : EndsSum rest) :
    Reads (sum (signed scope n)) (ks ++ rest) e rest :=
  d.reads_of_stops hrest.stopsSum

theorem IsSum.reads_all {n : Nat} {ks : List TokenKind} {e : Expr} (d : IsSum scope n ks e) :
    Reads (sum (signed scope n)) ks e [] :=
  reads_of_eq_chain endsSum_nil.additive
    (d.reaches ks.append_nil.symm endsSum_nil.endsProduct.stopsProduct)

/-! ## Statements -/

theorem endsSum_relation {r : Relation} {rest : List TokenKind} :
    EndsSum (.relation r :: rest) := by
  simp [multiplicative?, additive?]

theorem complete_eq_ok {s t : Statement} {rest : List TokenKind} (h : complete s rest = .ok t) :
    rest = [] ∧ s = t := by
  cases rest with
  | nil => exact ⟨rfl, Except.ok.inj h⟩
  | cons k ks => cases h

theorem isStatement_of_statement {ks : List TokenKind} {s : Statement}
    (h : statement (signed scope maxNesting) ks = .ok s) : IsStatement scope ks s := by
  rw [statement] at h
  split at h
  · cases h
  · rename_i left hleft
    obtain ⟨ls, hls, ha⟩ := sum_sound (signed_sound _) hleft
    obtain ⟨a, rest, _⟩ := left
    dsimp only at hls ha h
    subst hls
    split at h
    · split at h
      · cases h
      · rename_i right hright
        obtain ⟨ms, hms, hb⟩ := sum_sound (signed_sound _) hright
        split at h
        · cases h
        · obtain ⟨hnil, rfl⟩ := complete_eq_ok h
          rw [hnil, List.append_nil] at hms
          subst hms
          exact .constraint ha hb
    · obtain ⟨hnil, rfl⟩ := complete_eq_ok h
      obtain rfl : rest = [] := hnil
      rw [List.append_nil]
      exact .expr ha

/-- Reading a whole line as a statement succeeds on the statements. -/
theorem statement_eq_ok_iff {ks : List TokenKind} {s : Statement} :
    statement (signed scope maxNesting) ks = .ok s ↔ IsStatement scope ks s := by
  refine ⟨isStatement_of_statement, fun h => ?_⟩
  cases h with
  | expr d =>
    obtain ⟨_, h⟩ := d.reads_all
    simp only [statement, h, complete]
  | @constraint _ ls r _ _ d d' =>
    obtain ⟨_, h⟩ := d.reads (endsSum_relation : EndsSum (.relation r :: ls))
    obtain ⟨_, h'⟩ := d'.reads_all
    simp only [statement, h, h', complete]

theorem IsStatement.begins {ks : List TokenKind} {s : Statement} :
    IsStatement scope ks s → Begins ks
  | .expr d => d.begins
  | .constraint d _ => d.begins.append _

/-! ## Declarations -/

theorem names_eq_ok_iff {ks : List TokenKind} {ns : List String} :
    names ks = .ok ns ↔ ks = ns.map .identifier := by
  induction ks generalizing ns with
  | nil => cases ns <;> simp [names]
  | cons k ks ih =>
    cases k with
    | identifier name =>
      simp only [names]
      cases h : names ks with
      | error stop =>
        simp only [reduceCtorEq, false_iff]
        intro hns
        cases ns with
        | nil => cases hns
        | cons n ns =>
          rw [List.map_cons, List.cons.injEq] at hns
          rw [ih.2 hns.2] at h
          cases h
      | ok ms =>
        rw [ih.1 h]
        cases ns with
        | nil => simp
        | cons n ns =>
          simp only [Except.ok.injEq, List.cons.injEq, List.map_cons, TokenKind.identifier.injEq]
          refine and_congr_right fun _ => ?_
          exact (List.map_inj_right fun _ _ => TokenKind.identifier.inj).symm
    | _ => cases ns <;> simp [names]

theorem isDeclaration_of_declaration {role : Role} {ks : List TokenKind} {d : Declared}
    {ns : List String} (h : declaration role ks = .ok (d, ns)) :
    IsDeclaration (.declare role :: ks) d ns := by
  simp only [declaration] at h
  split at h
  · cases h
  · cases h
  · rename_i ms hne hms
    cases h
    rw [declaredSign.eq_def] at hms ⊢
    split at hms
    · obtain rfl := names_eq_ok_iff.1 (show names _ = .ok ns from hms)
      exact .signed hne
    · obtain rfl : ks = ns.map .identifier := names_eq_ok_iff.1 hms
      exact .unsigned hne

/-- Reading behind the word for a declaration succeeds on the declarations. -/
theorem declaration_eq_ok_iff {role : Role} {ks : List TokenKind} {d : Declared}
    {ns : List String} :
    declaration role ks = .ok (d, ns) ↔ IsDeclaration (.declare role :: ks) d ns := by
  refine ⟨isDeclaration_of_declaration, fun h => ?_⟩
  cases h with
  | signed hne =>
    obtain ⟨n, ns, rfl⟩ := List.exists_cons_of_ne_nil hne
    simp only [declaration, declaredSign, names_eq_ok_iff.2 rfl]
  | unsigned hne =>
    obtain ⟨n, ns, rfl⟩ := List.exists_cons_of_ne_nil hne
    simp only [declaration, List.map_cons, declaredSign]
    rw [← List.map_cons, names_eq_ok_iff.2 rfl]

/-! ## Lines -/

theorem line_eq_ok_empty_iff {ks : List TokenKind} :
    line scope ks = .ok .empty ↔ ks = [] := by
  rw [line.eq_def]
  split
  · simp
  · split <;> simp
  · rename_i hne _
    refine ⟨fun h => ?_, fun h => absurd h hne⟩
    split at h <;> cases h

theorem line_eq_ok_declaration_iff {ks : List TokenKind} {d : Declared} {ns : List String} :
    line scope ks = .ok (.declaration d ns) ↔ IsDeclaration ks d ns := by
  rw [line.eq_def]
  split
  · exact ⟨nofun, nofun⟩
  · rename_i role rest
    rw [← declaration_eq_ok_iff]
    cases declaration role rest with
    | error stop => simp
    | ok p => cases p; simp
  · rename_i hne
    refine ⟨fun h => ?_, fun h => ?_⟩
    · split at h <;> cases h
    · cases h <;> exact absurd rfl (hne _ _)

theorem line_eq_ok_statement_iff {ks : List TokenKind} {s : Statement} :
    line scope ks = .ok (.statement s) ↔ IsStatement scope ks s := by
  rw [line.eq_def]
  split
  · refine ⟨nofun, fun h => ?_⟩
    obtain ⟨_, _, hk, _⟩ := h.begins
    cases hk
  · refine ⟨fun h => ?_, fun h => ?_⟩
    · split at h <;> cases h
    · obtain ⟨_, _, hk, hb⟩ := h.begins
      cases hk
      cases hb
  · rw [← statement_eq_ok_iff]
    cases statement (signed scope maxNesting) ks <;> simp

end Grammar

/-- A line is read as something exactly if it is cut into tokens whose kinds are
    read so. -/
theorem readLine_eq_ok_iff {scope : Scope} {text : String} {l : Line} :
    readLine scope text = .ok l ↔
      ∃ tokens, tokenize text = .ok tokens ∧
        Grammar.line scope (tokens.map Token.kind) = .ok l := by
  rw [readLine]
  cases tokenize text with
  | error e => simp
  | ok tokens =>
    dsimp only
    cases h : Grammar.line scope (tokens.map Token.kind) <;> simp [h]

open Grammar in
/-- A line is read as what the grammar makes of all its tokens: as empty if it has
    none, as a declaration of names if they declare these names, and as a
    statement if they are that statement and begin with no word for a
    declaration. -/
theorem readLine_recognises (scope : Scope) (text : String) :
    (readLine scope text = .ok .empty ↔ tokenize text = .ok []) ∧
    (∀ d names, readLine scope text = .ok (.declaration d names) ↔
      ∃ tokens, tokenize text = .ok tokens ∧ IsDeclaration (tokens.map Token.kind) d names) ∧
    (∀ s, readLine scope text = .ok (.statement s) ↔
      ∃ tokens, tokenize text = .ok tokens ∧
        (∀ role, (tokens.map Token.kind).head? ≠ some (.declare role)) ∧
        IsStatement scope (tokens.map Token.kind) s) := by
  refine ⟨?_, fun d names => ?_, fun s => ?_⟩
  · rw [readLine_eq_ok_iff]
    simp only [line_eq_ok_empty_iff, List.map_eq_nil_iff, exists_eq_right]
  · rw [readLine_eq_ok_iff]
    simp only [line_eq_ok_declaration_iff]
  · rw [readLine_eq_ok_iff]
    simp only [line_eq_ok_statement_iff]
    refine exists_congr fun tokens => and_congr_right fun _ => ⟨fun h => ?_, And.right⟩
    -- a statement begins with an operand, so with no word for a declaration
    refine ⟨fun role hrole => ?_, h⟩
    obtain ⟨k, _, hks, hk⟩ := h.begins
    rw [hks, List.head?_cons, Option.some.injEq] at hrole
    rw [hrole] at hk
    cases hk

end ConvexLang
