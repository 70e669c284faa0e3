import ConvexLang.Proofs.Blame
import ConvexLang.Session
import Mathlib

/-!
# Continuations of refused lines

A line that is refused at one of its tokens cannot be mended behind that token:
whatever follows it instead, the line is refused as well. This is about what is wrong
with the line as a whole (`Problem.BlamesLine`); a name that nothing is known of, or a
call with malformed slots, may be blamed though what comes later decides.

The argument goes from an acceptable line to the refused one. The acceptable line has a
derivation, and the kind `k` stands at one place in it. Reading any line that has the
same kinds up to `k` follows that derivation up to `k` and takes `k` as well, so what is
blamed lies behind it:

* `Stop.IsWithin`, `GoesPast`: what is blamed, or what is left, lies among the last
  kinds of the input.
* `IsSum.goesPast`, `IsSlots.goesPast` and the others: by induction on the derivation,
  wherever `k` stands in it. Up to an operator the loop is known to stand at a left
  operand (`IsSum.reaches`).
* `IsLine.isWithin`, `readLine_refuses`: whole lines.

The readers look one kind ahead in a single case: a name with a parenthesis behind it is
a call, and a call takes two levels where a name takes one. On the last level the name
of a call is refused, and may stand if no parenthesis follows it
(`exists_readLine_accepts`). There the parenthesis has to stay, too (`StaysCall`).
-/

namespace ConvexLang

/-- The problem lies in how the line as a whole goes on, and not in a name or a call. -/
def Problem.BlamesLine : Problem → Prop
  | .grammatical (.invalidExpression _) | .grammatical (.trailingInput _)
  | .grammatical .chainedConstraint => True
  | _ => False

namespace Grammar

variable {scope : Scope}

/-! ## What is left to blame -/

/-- What is blamed for the whole line, if anything, lies among the last `bound` kinds. -/
def Stop.IsWithin (bound : Nat) : Stop → Prop
  | .unexpected rest => rest.length ≤ bound
  | .settled problem site => problem.BlamesLine → site.opening ≤ bound

/-- What remains, or what is blamed for the whole line, lies among the last `bound`
    kinds. -/
def GoesPast {α : Type} {n : Nat} (bound : Nat) : Except Stop (Parsed α n) → Prop
  | .ok p => p.rest.length ≤ bound
  | .error stop => stop.IsWithin bound

theorem OperandFault.not_blamesLine {due : Nat → Prop} {problem : Problem}
    {run after : List TokenKind} (h : OperandFault scope due problem run after) :
    ¬problem.BlamesLine := by
  cases h <;> exact id

theorem Blames.isWithin {due : List TokenKind → Nat → Prop} {input : List TokenKind}
    {stop : Stop} (h : Blames scope due input stop) : stop.IsWithin input.length := by
  cases h with
  | unexpected hi =>
    rw [hi, Stop.IsWithin, List.length_append]
    exact Nat.le_add_left _ _
  | settled _ _ hf => exact fun hline => absurd hline hf.not_blamesLine

theorem Stop.IsWithin.mono {m n : Nat} {stop : Stop} (h : stop.IsWithin m) (hmn : m ≤ n) :
    stop.IsWithin n := by
  cases stop with
  | unexpected => exact Nat.le_trans h hmn
  | settled => exact fun hline => Nat.le_trans (h hline) hmn

theorem GoesPast.mono {α : Type} {l m n : Nat} {result : Except Stop (Parsed α l)}
    (h : GoesPast m result) (hmn : m ≤ n) : GoesPast n result := by
  cases result with
  | ok => exact Nat.le_trans h hmn
  | error => exact Stop.IsWithin.mono h hmn

/-- A reader that tells rightly why it stops stops within its input. -/
theorem goesPast_of_explained {α : Type} {read : Reader α} {due : List TokenKind → Nat → Prop}
    (h : Explained scope read due) (input : List TokenKind) :
    GoesPast input.length (read input) := by
  cases hread : read input with
  | ok p => exact Nat.le_of_lt p.shorter
  | error => exact (h hread).isWithin

/-! ## What a reader does behind a kind -/

section Loops

variable {operator? : TokenKind → Option String} {operand : Reader Expr} {bound m : Nat}
  (h : ∀ input, GoesPast input.length (operand input))
include h

/-- A loop goes past what its left operand goes past. -/
theorem chain_goesPast (left : Parsed Expr m) (hleft : left.rest.length ≤ bound) :
    GoesPast bound (chain operator? operand left) := by
  induction hn : left.rest.length using Nat.strongRecOn generalizing left with
  | ind n ih =>
    rw [chain]
    split
    · exact hleft
    · rename_i k rest hrest
      split
      · exact hleft
      · have hpast := h rest
        have hlt : rest.length < left.rest.length := by
          rw [hrest, List.length_cons]
          exact Nat.lt_succ_self _
        split
        · rename_i hread
          rw [hread] at hpast
          exact hpast.mono (hlt.le.trans hleft)
        · rename_i right hread
          rw [hread] at hpast
          have hright : right.rest.length ≤ rest.length := hpast
          exact ih _ (by dsimp only; omega) _ (by dsimp only; omega) rfl

/-- A loop in front of an operator goes past what the operand behind that goes past. -/
theorem chain_goesPast_of_operand {a : Expr} {k : TokenKind} {rest : List TokenKind}
    {name : String} (hk : operator? k = some name) (hlt : (k :: rest).length < m)
    (hoperand : GoesPast bound (operand rest)) :
    GoesPast bound (chain operator? operand ⟨a, k :: rest, hlt⟩) := by
  rw [chain]
  simp only [hk]
  split
  · rename_i hread
    rwa [hread] at hoperand
  · rename_i right hread
    rw [hread] at hoperand
    exact chain_goesPast h _ hoperand

theorem product_goesPast {input : List TokenKind} (hread : GoesPast bound (operand input)) :
    GoesPast bound (product operand input) := by
  rw [product]
  split
  · rename_i heq
    rwa [heq] at hread
  · rename_i left heq
    rw [heq] at hread
    exact chain_goesPast h left hread

end Loops

theorem sum_goesPast {operand : Reader Expr} {bound : Nat}
    (h : ∀ input, GoesPast input.length (product operand input)) {input : List TokenKind}
    (hread : GoesPast bound (product operand input)) : GoesPast bound (sum operand input) := by
  rw [sum]
  split
  · rename_i heq
    rwa [heq] at hread
  · rename_i left heq
    rw [heq] at hread
    exact chain_goesPast h left hread

section Calls

variable {n bound : Nat}

/-- The slots of a call go past what their first slot goes past. -/
theorem slots_goesPast_of_slot {input : List TokenKind}
    (hslot : GoesPast bound (slot (sum (signed scope n)) input)) :
    GoesPast bound (slots (sum (signed scope n)) input) := by
  rw [slots]
  split
  · rename_i hread
    rwa [hread] at hslot
  · rename_i first hread
    rw [hread] at hslot
    have hfirst : first.rest.length ≤ bound := hslot
    split
    · rename_i rest hrest
      rw [hrest, List.length_cons] at hfirst
      split
      · rename_i hread'
        have := (slots_explained (signed_explained n) hread').isWithin
        exact this.mono (by omega)
      · rename_i others _
        have : others.rest.length ≤ bound := others.shorter.le.trans (by omega)
        exact this
    · rename_i rest hrest
      rw [hrest, List.length_cons] at hfirst
      exact (Nat.le_succ _).trans hfirst
    · exact hfirst

/-- The slots of a call go past what those behind a first one go past. -/
theorem slots_goesPast_of_comma {ks rest : List TokenKind} {o : Operand} (d : IsSlot scope n ks o)
    (hslots : GoesPast bound (slots (sum (signed scope n)) rest)) :
    GoesPast bound (slots (sum (signed scope n)) (ks ++ .comma :: rest)) := by
  obtain ⟨_, hread⟩ := d.reads (rfl : _ = ks ++ .comma :: rest) (.inl rfl)
  rw [slots]
  simp only [hread]
  split
  · rename_i hread'
    rwa [hread'] at hslots
  · rename_i hread'
    rwa [hread'] at hslots

/-- A call goes past what its slots go past; when it takes the blame, nothing is left
    for the line. -/
theorem call_goesPast {argument : Reader Expr} {name : String} {input : List TokenKind}
    (hslots : GoesPast bound (slots argument input)) :
    GoesPast bound (call scope argument name input) := by
  rw [call]
  split
  · rename_i stop hread
    rw [hread] at hslots
    cases stop with
    | settled => exact hslots
    | unexpected rest =>
      rw [Stop.inCall]
      split
      · exact False.elim
      · exact hslots
  · rename_i operands hread
    rw [hread] at hslots
    split
    · rename_i happly
      rcases apply_eq_error happly with ⟨-, rfl⟩ | ⟨_, _, -, -, -, rfl⟩ <;> exact False.elim
    · exact hslots

end Calls

/-! ### Operands of a level -/

theorem signed_goesPast (n : Nat) (input : List TokenKind) :
    GoesPast input.length (signed scope n input) :=
  goesPast_of_explained (signed_explained n) input

theorem product_signed_goesPast (n : Nat) (input : List TokenKind) :
    GoesPast input.length (product (signed scope n) input) :=
  goesPast_of_explained (product_explained (signed_explained n)) input

theorem sum_signed_goesPast (n : Nat) (input : List TokenKind) :
    GoesPast input.length (sum (signed scope n) input) :=
  goesPast_of_explained (sum_explained (signed_explained n)) input

theorem slots_signed_goesPast (n : Nat) (input : List TokenKind) :
    GoesPast input.length (slots (sum (signed scope n)) input) :=
  goesPast_of_explained (slots_explained (signed_explained n)) input

section Level

variable {inner : Reader Expr} {deepest? : Option (Reader Expr)} {bound : Nat}
  {rest : List TokenKind}

theorem signedBy_plus_goesPast (h : GoesPast bound (inner rest)) :
    GoesPast bound (signedBy scope inner deepest? (.plus :: rest)) := by
  simp only [signedBy]
  split
  · rename_i hread
    rwa [hread] at h
  · rename_i hread
    rwa [hread] at h

theorem signedBy_minus_goesPast (h : GoesPast bound (inner rest)) :
    GoesPast bound (signedBy scope inner deepest? (.minus :: rest)) := by
  simp only [signedBy]
  split
  · rename_i hread
    rwa [hread] at h
  · rename_i hread
    rwa [hread] at h

theorem signedBy_parens_goesPast (h : GoesPast bound (sum inner rest)) :
    GoesPast bound (signedBy scope inner deepest? (.leftParen :: rest)) := by
  simp only [signedBy]
  split
  · rename_i hread
    rwa [hread] at h
  · rename_i p hread
    rw [hread] at h
    have hp : p.rest.length ≤ bound := h
    split
    · rename_i hafter
      rw [hafter, List.length_cons] at hp
      exact (Nat.le_succ _).trans hp
    · exact hp

theorem signedBy_call_goesPast {deepest : Reader Expr} {name : String}
    (h : GoesPast bound (slots (sum deepest) rest)) :
    GoesPast bound
      (signedBy scope inner (some deepest) (.identifier name :: .leftParen :: rest)) := by
  have hcall : GoesPast bound (call scope (sum deepest) name rest) := call_goesPast h
  simp only [signedBy]
  split
  · rename_i hread
    rwa [hread] at hcall
  · rename_i hread
    rwa [hread] at hcall

theorem signedBy_unknownSymbol {name : String} (hname : scope.symbols.get? name = none)
    (hrest : EndsName rest) :
    signedBy scope inner deepest? (.identifier name :: rest) =
      .error (.settled (.semantic (.unknownSymbol name)) ⟨rest.length + 1, rest.length⟩) := by
  cases rest with
  | nil => simp only [signedBy, resolve, Symbols.node?, hname]
  | cons k ks =>
    have hk := endsName_cons.1 hrest
    cases k <;> first | exact absurd rfl hk | simp only [signedBy, resolve, Symbols.node?, hname]

theorem signedBy_name_goesPast {name : String} (hrest : EndsName rest) :
    GoesPast rest.length (signedBy scope inner deepest? (.identifier name :: rest)) := by
  cases hname : scope.symbols.get? name with
  | none =>
    rw [signedBy_unknownSymbol hname hrest]
    exact False.elim
  | some e =>
    obtain ⟨_, hread⟩ : Reads (signedBy scope inner deepest?) (.identifier name :: rest) e rest :=
      .symbol hname hrest
    rw [hread]
    exact Nat.le_refl _

/-- A name is taken unless it names a call and only one level is left. -/
theorem signedBy_identifier_goesPast {n : Nat} {name : String}
    (hcall : n = 0 → rest.head? ≠ some .leftParen) :
    GoesPast rest.length
      (signedBy scope inner (Grammar.deepest? scope n) (.identifier name :: rest)) := by
  by_cases hopens : rest.head? = some .leftParen
  · obtain ⟨ks, rfl⟩ := List.head?_eq_some_iff.1 hopens
    cases n with
    | zero => exact absurd hopens (hcall rfl)
    | succ n =>
      exact (signedBy_call_goesPast (slots_signed_goesPast n ks)).mono (Nat.le_succ _)
  · exact signedBy_name_goesPast fun k hk hparen => hopens (hparen ▸ hk)

end Level

/-! ## Derivations -/

/-- Where a kind stands in a list that is cut in two by another. -/
theorem append_cons_cases {ks ls pre s : List TokenKind} {c k : TokenKind}
    (h : ks ++ c :: ls = pre ++ k :: s) :
    (∃ s', ks = pre ++ k :: s' ∧ s = s' ++ c :: ls) ∨ (pre = ks ∧ k = c ∧ s = ls) ∨
      ∃ pre', pre = ks ++ c :: pre' ∧ ls = pre' ++ k :: s := by
  rcases List.append_eq_append_iff.1 h with ⟨as, rfl, has⟩ | ⟨as, rfl, has⟩
  · cases as with
    | nil =>
      cases has
      exact .inr (.inl ⟨by simp, rfl, rfl⟩)
    | cons a as =>
      cases has
      exact .inr (.inr ⟨as, rfl, rfl⟩)
  · cases as with
    | nil =>
      cases has
      exact .inr (.inl ⟨by simp, rfl, rfl⟩)
    | cons a as =>
      cases has
      exact .inl ⟨as, rfl, rfl⟩

theorem eq_of_singleton {pre s : List TokenKind} {c k : TokenKind} (h : [c] = pre ++ k :: s) :
    pre = [] ∧ k = c ∧ s = [] := by
  cases pre with
  | nil =>
    cases h
    exact ⟨rfl, rfl, rfl⟩
  | cons p pre =>
    obtain ⟨-, h⟩ := List.cons.inj h
    simp at h

/-- Where `due` holds, a kind that names a call in front of `t` does so in front of
    `t'`. -/
def StaysCall (due : Prop) (k : TokenKind) (t t' : List TokenKind) : Prop :=
  due → ∀ name, k = .identifier name → t.head? = some .leftParen → t'.head? = some .leftParen

theorem StaysCall.mono {due due' : Prop} {k : TokenKind} {t t' : List TokenKind}
    (h : StaysCall due k t t') (hdue : due' → due) : StaysCall due' k t t' :=
  fun hd => h (hdue hd)

/-- What begins an operand decides that one is read. -/
theorem slot_goesPast_of_begins {argument : Reader Expr} {input : List TokenKind} {bound : Nat}
    (hinput : Begins input) (h : GoesPast bound (argument input)) :
    GoesPast bound (slot argument input) := by
  obtain ⟨_, _, hks, hk⟩ := hinput
  rw [slot.eq_def]
  split
  · cases hks
    cases hk
  · cases hks
    cases hk
  · cases hks
    cases hk
  · split
    · rename_i hread
      rwa [hread] at h
    · rename_i hread
      rwa [hread] at h

theorem begins_of_append {pre s t : List TokenKind} {k : TokenKind} (h : Begins (pre ++ k :: s)) :
    Begins (pre ++ k :: t) := by
  obtain ⟨k', rest, heq, hk'⟩ := h
  cases pre with
  | nil =>
    cases heq
    exact ⟨k, t, rfl, hk'⟩
  | cons p pre =>
    cases heq
    exact ⟨_, _, rfl, hk'⟩

section Operators

variable {operator? : TokenKind → Option String} {operand read : Reader Expr} {a : Expr}
  {due : Prop} {ks ls pre s rest t : List TokenKind} {c k : TokenKind} {name : String}

/-- Where `k` may stand in a left operand, an operator `c` and a right operand: reading
    takes it if it takes it in either operand. -/
theorem goesPast_of_operator (h : ∀ input, GoesPast input.length (operand input))
    (hc : operator? c = some name) (hks : ks ++ c :: ls = pre ++ k :: s)
    (hcall : StaysCall due k t (s ++ rest))
    (hleft : ∀ s', ks = pre ++ k :: s' → StaysCall due k t (s' ++ c :: (ls ++ rest)) →
      GoesPast t.length (read (pre ++ k :: t)))
    (hreaches : ∀ rest, ∃ h, read (ks ++ c :: rest) = chain operator? operand ⟨a, c :: rest, h⟩)
    (hright : ∀ pre', pre = ks ++ c :: pre' → ls = pre' ++ k :: s →
      GoesPast t.length (operand (pre' ++ k :: t))) :
    GoesPast t.length (read (pre ++ k :: t)) := by
  obtain ⟨s', hks', rfl⟩ | ⟨rfl, rfl, rfl⟩ | ⟨pre', rfl, hls⟩ := append_cons_cases hks
  · rw [append_cons_append] at hcall
    exact hleft s' hks' hcall
  · obtain ⟨hlt, hread⟩ := hreaches t
    rw [hread]
    exact chain_goesPast_of_operand h hc hlt (h t)
  · obtain ⟨hlt, hread⟩ := hreaches (pre' ++ k :: t)
    rw [append_cons_append, hread]
    exact chain_goesPast_of_operand h hc hlt (hright pre' rfl hls)

end Operators

section Derivations

variable {k : TokenKind} {t : List TokenKind}

mutual

/-- Reading takes the kind `k` of a signed operand, if it takes what stands before it
    and what follows does not turn a name into a call that nests too deep. -/
theorem IsSigned.goesPast {n : Nat} {ks pre s rest : List TokenKind} {e : Expr}
    (hks : ks = pre ++ k :: s) (hrest : EndsName rest)
    (hcall : StaysCall (DueInSigned scope n pre 1) k t (s ++ rest)) :
    IsSigned scope n ks e → GoesPast t.length (signed scope n (pre ++ k :: t))
  | .plus (n := n) d => by
    rw [signed_succ]
    cases pre with
    | nil =>
      cases hks
      exact signedBy_plus_goesPast (signed_goesPast n t)
    | cons p pre =>
      obtain ⟨rfl, hks'⟩ := List.cons_eq_cons.1 hks
      exact signedBy_plus_goesPast (d.goesPast hks' hrest (hcall.mono .plus))
  | .minus (n := n) d => by
    rw [signed_succ]
    cases pre with
    | nil =>
      cases hks
      exact signedBy_minus_goesPast (signed_goesPast n t)
    | cons p pre =>
      obtain ⟨rfl, hks'⟩ := List.cons_eq_cons.1 hks
      exact signedBy_minus_goesPast (d.goesPast hks' hrest (hcall.mono .minus))
  | .integer => by
    obtain ⟨rfl, rfl, -⟩ := eq_of_singleton hks
    rw [signed_succ]
    exact Nat.le_refl _
  | .real => by
    obtain ⟨rfl, rfl, -⟩ := eq_of_singleton hks
    rw [signed_succ]
    exact Nat.le_refl _
  | .symbol (n := n) _ => by
    obtain ⟨rfl, rfl, rfl⟩ := eq_of_singleton hks
    rw [signed_succ]
    refine signedBy_identifier_goesPast fun hn hopens => ?_
    -- on the last level the name would be a call in front of `rest`, too
    subst hn
    exact hrest _ (hcall .here _ rfl hopens) rfl
  | .call (n := n) d _ _ => by
    rw [signed_succ]
    rcases pre with - | ⟨p, - | ⟨q, pre⟩⟩
    · cases hks
      exact signedBy_identifier_goesPast nofun
    · cases hks
      exact signedBy_call_goesPast (slots_signed_goesPast n t)
    · simp only [List.cons_append, List.cons.injEq] at hks
      obtain ⟨rfl, rfl, hks⟩ := hks
      exact signedBy_call_goesPast (d.goesPast hks (hcall.mono .call))
  | .parens (n := n) d => by
    rw [signed_succ]
    cases pre with
    | nil =>
      cases hks
      exact signedBy_parens_goesPast (sum_signed_goesPast n t)
    | cons p pre =>
      obtain ⟨rfl, hks'⟩ := List.cons_eq_cons.1 hks
      obtain ⟨s', h, rfl⟩ | ⟨rfl, rfl, rfl⟩ | ⟨_, -, h⟩ := append_cons_cases hks'
      · rw [append_cons_append] at hcall
        exact signedBy_parens_goesPast (d.goesPast h (by simp) (hcall.mono .parens))
      · -- the closing parenthesis itself
        have hsum : Reads (sum (signed scope n)) (pre ++ .rightParen :: t) _ (.rightParen :: t) :=
          d.reads (by simp [multiplicative?, additive?])
        obtain ⟨_, hread⟩ : Reads (signedBy scope (signed scope n) (deepest? scope n))
          (.leftParen :: (pre ++ .rightParen :: t)) _ t := hsum.parens
        rw [List.cons_append, hread]
        exact Nat.le_refl _
      · simp at h

theorem IsProduct.goesPast {n : Nat} {ks pre s rest : List TokenKind} {e : Expr}
    (hks : ks = pre ++ k :: s) (hrest : EndsName rest)
    (hcall : StaysCall (DueInProduct scope n pre 1) k t (s ++ rest)) :
    IsProduct scope n ks e → GoesPast t.length (product (signed scope n) (pre ++ k :: t))
  | .signed d =>
    product_goesPast (signed_goesPast n) (d.goesPast hks hrest (hcall.mono .first))
  | .times d d' =>
    goesPast_of_operator (signed_goesPast n) rfl hks hcall
      (fun _ h hcall => d.goesPast h (by simp) hcall)
      (fun _ => d.reaches rfl (by simp))
      fun pre' h hls => d'.goesPast hls hrest (hcall.mono (h ▸ .next d rfl))
  | .over d d' =>
    goesPast_of_operator (signed_goesPast n) rfl hks hcall
      (fun _ h hcall => d.goesPast h (by simp) hcall)
      (fun _ => d.reaches rfl (by simp))
      fun pre' h hls => d'.goesPast hls hrest (hcall.mono (h ▸ .next d rfl))

/-- Reading takes the kind `k` of a sum. -/
theorem IsSum.goesPast {n : Nat} {ks pre s rest : List TokenKind} {e : Expr}
    (hks : ks = pre ++ k :: s) (hrest : EndsName rest)
    (hcall : StaysCall (DueInSum scope n pre 1) k t (s ++ rest)) :
    IsSum scope n ks e → GoesPast t.length (sum (signed scope n) (pre ++ k :: t))
  | .product d =>
    sum_goesPast (product_signed_goesPast n) (d.goesPast hks hrest (hcall.mono .first))
  | .plus d d' =>
    goesPast_of_operator (product_signed_goesPast n) rfl hks hcall
      (fun _ h hcall => d.goesPast h (by simp) hcall)
      (fun _ => d.reaches rfl (by simp [multiplicative?]))
      fun pre' h hls => d'.goesPast hls hrest (hcall.mono (h ▸ .next d rfl))
  | .minus d d' =>
    goesPast_of_operator (product_signed_goesPast n) rfl hks hcall
      (fun _ h hcall => d.goesPast h (by simp) hcall)
      (fun _ => d.reaches rfl (by simp [multiplicative?]))
      fun pre' h hls => d'.goesPast hls hrest (hcall.mono (h ▸ .next d rfl))

theorem IsSlot.goesPast {n : Nat} {ks pre s rest : List TokenKind} {o : Operand}
    (hks : ks = pre ++ k :: s) (hrest : EndsName rest)
    (hcall : StaysCall (DueInSum scope n pre 1) k t (s ++ rest)) :
    IsSlot scope n ks o → GoesPast t.length (slot (sum (signed scope n)) (pre ++ k :: t))
  | .absent => by simp at hks
  | .infinity => by
    obtain ⟨rfl, rfl, -⟩ := eq_of_singleton hks
    exact Nat.le_refl _
  | .expr d =>
    slot_goesPast_of_begins (begins_of_append (hks ▸ d.begins)) (d.goesPast hks hrest hcall)

/-- Reading takes the kind `k` of the slots of a call, or of the parenthesis behind
    them. -/
theorem IsSlots.goesPast {n : Nat} {ks pre s rest : List TokenKind} {os : List Operand}
    (hks : ks ++ [.rightParen] = pre ++ k :: s)
    (hcall : StaysCall (DueInSlots scope n pre 1) k t (s ++ rest)) :
    IsSlots scope n ks os → GoesPast t.length (slots (sum (signed scope n)) (pre ++ k :: t))
  | .last d => by
    obtain ⟨s', h, rfl⟩ | ⟨rfl, rfl, rfl⟩ | ⟨_, -, h⟩ := append_cons_cases hks
    · rw [append_cons_append] at hcall
      exact slots_goesPast_of_slot (d.goesPast h (by simp) (hcall.mono .first))
    · obtain ⟨_, hread⟩ := (IsSlots.last d).reads (rfl : _ = pre ++ .rightParen :: t)
      rw [hread]
      exact Nat.le_refl _
    · simp at h
  | .cons d d' => by
    rw [append_cons_append] at hks
    obtain ⟨s', h, rfl⟩ | ⟨rfl, rfl, rfl⟩ | ⟨pre', rfl, hls⟩ := append_cons_cases hks
    · rw [append_cons_append] at hcall
      exact slots_goesPast_of_slot (d.goesPast h (by simp) (hcall.mono .first))
    · exact slots_goesPast_of_comma d (slots_signed_goesPast n t)
    · rw [append_cons_append]
      exact slots_goesPast_of_comma d (d'.goesPast hls (hcall.mono (.next d)))

end

/-! ## Statements -/

theorem complete_isWithin {st : Statement} {rest : List TokenKind} {stop : Stop} {bound : Nat}
    (hrest : rest.length ≤ bound) (h : complete st rest = .error stop) : stop.IsWithin bound := by
  cases rest with
  | nil => cases h
  | cons =>
    cases h
    exact fun _ => hrest

/-- A statement stops within the last kinds if its left side is read up to them, or up to
    a relation behind which its right side is. -/
theorem statement_isWithin {input : List TokenKind} {stop : Stop} {bound : Nat}
    (hleft : ∀ stop, sum (signed scope maxNesting) input = .error stop → stop.IsWithin bound)
    (hright : ∀ left, sum (signed scope maxNesting) input = .ok left →
      left.rest.length ≤ bound ∨ ∃ r rest, left.rest = .relation r :: rest ∧
        GoesPast bound (sum (signed scope maxNesting) rest))
    (h : statement (signed scope maxNesting) input = .error stop) : stop.IsWithin bound := by
  rw [statement] at h
  split at h
  · rename_i hread
    cases h
    exact hleft _ hread
  · rename_i left hread
    have hrest := hright left hread
    split at h
    · rename_i r rest hafter
      have hpast : GoesPast bound (sum (signed scope maxNesting) rest) := by
        rcases hrest with hrest | ⟨_, _, hafter', hpast⟩
        · rw [hafter, List.length_cons] at hrest
          exact (sum_signed_goesPast _ rest).mono (by omega)
        · rw [hafter] at hafter'
          cases hafter'
          exact hpast
      split at h
      · rename_i hread'
        cases h
        rwa [hread'] at hpast
      · rename_i right hread'
        rw [hread'] at hpast
        have hrest' : right.rest.length ≤ bound := hpast
        split at h
        · rename_i hafter'
          cases h
          rw [hafter'] at hrest'
          exact fun _ => hrest'
        · exact complete_isWithin hrest' h
    · rename_i hne
      rcases hrest with hrest | ⟨r, rest, hafter, -⟩
      · exact complete_isWithin hrest h
      · exact absurd hafter (hne r rest)

/-- A left side that goes past leaves a statement that does. -/
theorem statement_isWithin_of_left {input : List TokenKind} {stop : Stop} {bound : Nat}
    (hleft : GoesPast bound (sum (signed scope maxNesting) input))
    (h : statement (signed scope maxNesting) input = .error stop) : stop.IsWithin bound := by
  refine statement_isWithin (fun stop hread => ?_) (fun left hread => .inl ?_) h
  · rwa [hread] at hleft
  · rwa [hread] at hleft

/-- Behind a left side and a relation, a right side that goes past leaves a statement that
    does. -/
theorem statement_isWithin_of_right {ks rest : List TokenKind} {a : Expr} {r : Relation}
    {stop : Stop} {bound : Nat} (d : IsSum scope maxNesting ks a)
    (hright : GoesPast bound (sum (signed scope maxNesting) rest))
    (h : statement (signed scope maxNesting) (ks ++ .relation r :: rest) = .error stop) :
    stop.IsWithin bound := by
  obtain ⟨_, hread⟩ := d.reads (endsSum_relation : EndsSum (.relation r :: rest))
  refine statement_isWithin (fun stop hread' => ?_) (fun left hread' => .inr ?_) h
  · rw [hread] at hread'
    cases hread'
  · rw [hread] at hread'
    cases hread'
    exact ⟨r, rest, rfl, hright⟩

/-- Reading takes the kind `k` of a statement, so what is blamed lies behind it. -/
theorem IsStatement.isWithin {ks pre s : List TokenKind} {st : Statement} {stop : Stop}
    (hks : ks = pre ++ k :: s) (hcall : StaysCall (DueInStatement scope pre 1) k t s)
    (h : statement (signed scope maxNesting) (pre ++ k :: t) = .error stop) :
    IsStatement scope ks st → stop.IsWithin t.length
  | .expr d =>
    statement_isWithin_of_left
      (d.goesPast hks endsSum_nil.endsProduct.endsName ((s.append_nil.symm ▸ hcall).mono .left)) h
  | .constraint d d' => by
    obtain ⟨s', hks', rfl⟩ | ⟨rfl, rfl, rfl⟩ | ⟨pre', rfl, hls⟩ := append_cons_cases hks
    · exact statement_isWithin_of_left (d.goesPast hks' (by simp) (hcall.mono .left)) h
    · exact statement_isWithin_of_right d (sum_signed_goesPast _ t) h
    · rw [append_cons_append] at h
      exact statement_isWithin_of_right d (d'.goesPast hls endsSum_nil.endsProduct.endsName
        ((s.append_nil.symm ▸ hcall).mono (.right d))) h

/-! ## Declarations -/

theorem names_isWithin {ks : List TokenKind} {stop : Stop} (h : names ks = .error stop) :
    stop.IsWithin ks.length := by
  obtain ⟨before, rest, rfl, rfl⟩ := names_eq_error h
  rw [Stop.IsWithin, List.length_append]
  exact Nat.le_add_left _ _

/-- Names are read up to `k`, so what is no name lies behind it. -/
theorem names_isWithin_of_append {pre s : List TokenKind} {ns : List String} {stop : Stop}
    (hks : ns.map .identifier = pre ++ k :: s) (h : names (pre ++ k :: t) = .error stop) :
    stop.IsWithin t.length := by
  induction pre generalizing ns with
  | nil =>
    obtain ⟨name, ns, rfl, hk, -⟩ := List.map_eq_cons_iff.1 hks
    rw [← hk, List.nil_append, names] at h
    split at h
    · rename_i hread
      cases h
      exact names_isWithin hread
    · cases h
  | cons p pre ih =>
    obtain ⟨name, ns, rfl, hp, hks⟩ := List.map_eq_cons_iff.1 hks
    rw [← hp, List.cons_append, names] at h
    split at h
    · rename_i hread
      cases h
      exact ih hks hread
    · cases h

theorem declaration_isWithin {role : Role} {input : List TokenKind} {stop : Stop} {bound : Nat}
    (hnames : ∀ stop, names (declaredSign input).2 = .error stop → stop.IsWithin bound)
    (h : declaration role input = .error stop) : stop.IsWithin bound := by
  simp only [declaration] at h
  split at h
  · rename_i hread
    cases h
    exact hnames _ hread
  · cases h
    exact Nat.zero_le _
  · cases h

/-- The sign of a declaration is no name. -/
theorem declaredSign_of_names {pre s : List TokenKind} {ns : List String}
    (hks : ns.map .identifier = pre ++ k :: s) :
    declaredSign (pre ++ k :: t) = (.unknown, pre ++ k :: t) := by
  cases pre with
  | nil =>
    obtain ⟨name, ns, rfl, rfl, -⟩ := List.map_eq_cons_iff.1 hks
    rfl
  | cons p pre =>
    obtain ⟨name, ns, rfl, rfl, -⟩ := List.map_eq_cons_iff.1 hks
    rfl

theorem line_declare_isWithin {role : Role} {input : List TokenKind} {stop : Stop} {bound : Nat}
    (hnames : ∀ stop, names (declaredSign input).2 = .error stop → stop.IsWithin bound)
    (h : line scope (.declare role :: input) = .error stop) : stop.IsWithin bound := by
  rw [line] at h
  split at h
  · rename_i hread
    cases h
    exact declaration_isWithin hnames hread
  · cases h

theorem declaredSign_names_isWithin {ks : List TokenKind} {stop : Stop}
    (h : names (declaredSign ks).2 = .error stop) : stop.IsWithin ks.length := by
  obtain ⟨before, hbefore⟩ := declaredSign_rest ks
  refine (names_isWithin h).mono ?_
  rw [congrArg List.length hbefore, List.length_append]
  exact Nat.le_add_left _ _

/-- Reading takes the kind `k` of a declaration, so what is blamed lies behind it. -/
theorem IsDeclaration.isWithin {ks pre s : List TokenKind} {d : Declared} {ns : List String}
    {stop : Stop} (hks : ks = pre ++ k :: s) (h : line scope (pre ++ k :: t) = .error stop)
    (hd : IsDeclaration ks d ns) : stop.IsWithin t.length := by
  cases hd with
  | signed =>
    rcases pre with - | ⟨p, - | ⟨q, pre⟩⟩
    · cases hks
      exact line_declare_isWithin (fun _ => declaredSign_names_isWithin) h
    · cases hks
      exact line_declare_isWithin (fun _ => names_isWithin) h
    · simp only [List.cons_append, List.cons.injEq] at hks
      obtain ⟨rfl, rfl, hks⟩ := hks
      refine line_declare_isWithin (fun stop hread => ?_) h
      exact names_isWithin_of_append hks hread
  | unsigned =>
    cases pre with
    | nil =>
      cases hks
      exact line_declare_isWithin (fun _ => declaredSign_names_isWithin) h
    | cons p pre =>
      obtain ⟨rfl, hks'⟩ := List.cons_eq_cons.1 hks
      rw [List.cons_append] at h
      refine line_declare_isWithin (fun stop hread => ?_) h
      rw [declaredSign_of_names hks'] at hread
      exact names_isWithin_of_append hks' hread

/-! ## Lines -/

/-- Reading takes the kind `k` of an acceptable line, if it takes what stands before it,
    so what is blamed lies behind `k`. -/
theorem IsLine.isWithin {pre t' : List TokenKind} {stop : Stop}
    (hcall : StaysCall (DueInStatement scope pre 1) k t t')
    (h : line scope (pre ++ k :: t) = .error stop) (hline : IsLine scope (pre ++ k :: t')) :
    stop.IsWithin t.length := by
  generalize hks : pre ++ k :: t' = ks at hline
  cases hline with
  | empty => simp at hks
  | declaration d => exact d.isWithin hks.symm h
  | statement d =>
    exact d.isWithin hks.symm hcall ((line_eq_error_iff (begins_of_append (hks ▸ d.begins))).1 h)

end Derivations

/-- A diagnostic that blames the line at a token blames no later one. -/
theorem Explains.not_isWithin {text : String} {tokens : List Token} {stop : Stop}
    (htokens : tokenize text = .ok tokens)
    (h : Explains (StatementFault scope) (tokens.map Token.kind) stop)
    (hproblem : (stop.toDiagnostic text tokens).problem.BlamesLine) {span : Span} {i : Nat}
    {t : Token} (hspan : (stop.toDiagnostic text tokens).span = some span)
    (ht : tokens[i]? = some t) (hfirst : span.first = t.span.first) :
    ¬stop.IsWithin (tokens.length - (i + 1)) := by
  have hplaced := tokenize_placed htokens
  have hi : i < tokens.length := (List.getElem?_eq_some_iff.1 ht).1
  cases h with
  | @unexpected _ ks hks =>
    obtain ⟨before, rest, rfl, -, rfl⟩ := List.map_eq_append_iff.1 hks
    intro hwithin
    rw [Stop.IsWithin, List.length_map] at hwithin
    rw [Stop.toDiagnostic, Diagnostic.atSpan, Option.some.injEq, List.length_map] at hspan
    rw [← hspan] at hfirst
    cases rest with
    | nil =>
      -- the end of the line, behind which no token begins
      have hpast := (hplaced.within t (List.mem_of_getElem? ht)).2
      simp only [List.length_nil, Site.span, Nat.sub_zero,
        List.getElem?_eq_none (Nat.le_refl _)] at hfirst
      omega
    | cons u after =>
      have hlength := hplaced.length_of_site (List.cons_ne_nil u []) rfl ht hfirst
      rw [List.singleton_append] at hlength
      omega
  | settled hks hrun _ =>
    obtain ⟨before, rest, rfl, -, hrest⟩ := List.map_eq_append_iff.1 hks
    obtain ⟨run, after, rfl, rfl, rfl⟩ := List.map_eq_append_iff.1 hrest
    intro hwithin
    rw [← List.map_append, List.length_map] at hwithin
    have hopening : (run ++ after).length ≤ _ := hwithin hproblem
    rw [Stop.toDiagnostic, Diagnostic.atSpan, Option.some.injEq, ← List.map_append,
      List.length_map, List.length_map] at hspan
    rw [← hspan] at hfirst
    have hlength :=
      hplaced.length_of_site (fun hnil => hrun (List.map_eq_nil_iff.2 hnil)) rfl ht hfirst
    omega

end Grammar

open Grammar in
/-- A line that is refused as a whole at its token `i` is refused with any other tokens
    behind that one. Only where the token names a call and one level is left for the
    operand due there, the parenthesis behind the name has to stay. -/
theorem readLine_refuses {scope : Scope} {text text' : String} {tokens tokens' : List Token}
    {d : Diagnostic} {span : Span} {i : Nat} {t : Token} (htokens : tokenize text = .ok tokens)
    (hread : readLine scope text = .error d) (hproblem : d.problem.BlamesLine)
    (hspan : d.span = some span) (ht : tokens[i]? = some t) (hfirst : span.first = t.span.first)
    (htokens' : tokenize text' = .ok tokens')
    (hsame : (tokens'.map Token.kind).take (i + 1) = (tokens.map Token.kind).take (i + 1))
    (hcall : StaysCall (DueInStatement scope ((tokens.map Token.kind).take i) 1) t.kind
      ((tokens.map Token.kind).drop (i + 1)) ((tokens'.map Token.kind).drop (i + 1))) :
    ∃ d', readLine scope text' = .error d' := by
  have hi : (tokens.map Token.kind)[i]? = some t.kind := by
    rw [List.getElem?_map, ht]
    rfl
  have htake := List.take_add_one (l := tokens.map Token.kind) (i := i)
  rw [hi] at htake
  have hks : tokens.map Token.kind =
      (tokens.map Token.kind).take i ++ t.kind :: (tokens.map Token.kind).drop (i + 1) := by
    conv_lhs => rw [← List.take_append_drop (i + 1) (tokens.map Token.kind), htake]
    simp
  have hks' : tokens'.map Token.kind =
      (tokens.map Token.kind).take i ++ t.kind :: (tokens'.map Token.kind).drop (i + 1) := by
    conv_lhs => rw [← List.take_append_drop (i + 1) (tokens'.map Token.kind), hsame, htake]
    simp
  obtain ⟨stop, hstop, rfl⟩ := (readLine_eq_error_iff htokens).1 hread
  cases hread' : readLine scope text' with
  | error d' => exact ⟨d', rfl⟩
  | ok l =>
    -- an acceptable line, whose derivation the refused one follows past token `i`
    obtain ⟨_, htokens'', hline⟩ := readLine_eq_ok_iff.1 hread'
    rw [htokens', Except.ok.injEq] at htokens''
    rw [← htokens'', hks'] at hline
    have hwithin := (isLine_iff.2 ⟨l, hline⟩).isWithin hcall (hks ▸ hstop)
    rw [List.length_drop, List.length_map] at hwithin
    exact absurd hwithin
      ((line_explained hstop).not_isWithin htokens hproblem hspan ht hfirst)

/-- An operator behind another is refused with any operand behind it. -/
theorem readLine_refuses_star :
    let scope := (Session.run { atoms := .standard } [.line "variable x"]).scope
    let d := Diagnostic.atSpan (.grammatical (.invalidExpression "x+*2")) ⟨2, 3⟩
    let before : List Token :=
      [⟨.identifier "x", ⟨0, 1⟩⟩, ⟨.plus, ⟨1, 2⟩⟩, ⟨.star, ⟨2, 3⟩⟩]
    tokenize "x+*2" = .ok (before ++ [⟨.integer 2, ⟨3, 4⟩⟩]) ∧
      readLine scope "x+*2" = .error d ∧
      tokenize "x+*x" = .ok (before ++ [⟨.identifier "x", ⟨3, 4⟩⟩]) ∧
      ∃ d', readLine scope "x+*x" = .error d' := by
  intro scope d before
  have htokens : tokenize "x+*2" = .ok (before ++ [⟨.integer 2, ⟨3, 4⟩⟩]) := by cbv
  have hread : readLine scope "x+*2" = .error d := by cbv
  have htokens' : tokenize "x+*x" = .ok (before ++ [⟨.identifier "x", ⟨3, 4⟩⟩]) := by cbv
  refine ⟨htokens, hread, htokens', ?_⟩
  refine readLine_refuses (i := 2) htokens hread trivial rfl rfl rfl htokens' rfl ?_
  intro _ _ hname
  cases hname

/-- A text behind 127 minus signs. -/
def behindSigns (text : List Char) : String :=
  String.ofList (List.replicate 127 '-' ++ text)

/-- Behind 127 signs a call nests too deep, and its name is refused; the name alone may
    stand there. -/
theorem exists_readLine_accepts :
    let scope := (Session.run { atoms := .standard } [.line "variable x"]).scope
    let refused := behindSigns ['x', '(', ')']
    let accepted := behindSigns ['x']
    let before : List Token :=
      (List.range 127).map (fun i => ⟨.minus, ⟨i, i + 1⟩⟩) ++ [⟨.identifier "x", ⟨127, 128⟩⟩]
    let after : List Token := [⟨.leftParen, ⟨128, 129⟩⟩, ⟨.rightParen, ⟨129, 130⟩⟩]
    tokenize refused = .ok (before ++ after) ∧
      readLine scope refused =
        .error (.atSpan (.grammatical (.invalidExpression refused)) ⟨127, 128⟩) ∧
      tokenize accepted = .ok before ∧ ∃ l, readLine scope accepted = .ok l := by
  intro scope refused accepted before after
  have hrefused : tokenize refused = .ok (before ++ after) :=
    (congrArg (tokensFrom 0) String.toList_ofList).trans (by decide +kernel)
  have haccepted : tokenize accepted = .ok before :=
    (congrArg (tokensFrom 0) String.toList_ofList).trans (by decide +kernel)
  have hstop : Grammar.line scope ((before ++ after).map Token.kind) =
      .error (.unexpected [.identifier "x", .leftParen, .rightParen]) := by cbv
  have hspan : ∀ size, Site.span ⟨3, 2⟩ (before ++ after) size = ⟨127, 128⟩ := fun _ => rfl
  have hread : (Grammar.line scope (before.map Token.kind)).isOk = true := by decide +kernel
  refine ⟨hrefused, (readLine_eq_error_iff hrefused).2 ⟨_, hstop, ?_⟩, haccepted, ?_⟩
  · exact congrArg (Diagnostic.atSpan _) (hspan _).symm
  · cases hline : Grammar.line scope (before.map Token.kind) with
    | ok l => exact ⟨l, readLine_eq_ok_iff.2 ⟨before, haccepted, hline⟩⟩
    | error stop =>
      rw [hline] at hread
      cases hread

end ConvexLang
