import ConvexLang.Proofs.Quiz.Composition
import ConvexLang.Proofs.Quiz.Question

/-!
# The right answers

The grammar leaves the curvature of an operator unknown and takes that of a call from the
registry, so the right answer to a question hangs on the root of what its text is read as.
That need not be the root of the tree that was drawn: a term such as `x / 2` is an operator
to the grammar, and behind a sign the operands of a sum are grouped anew from the left, so
that a sign from further down in the tree may come to stand at the root. But then the root
of the tree is a sign too, or a term, and an operator is an operator: nothing is known of
it (`IsSum.exists_operator`).

* `Operator.curvature`: the curvature that an entry of the table gives to what it is the
  root of.
* `Tree.Fits.hasCurvature`: the text of a tree spells a sum of this curvature.
* `Draft`: what is drawn for a question, with the tree before a rule is broken in it and
  after that; its text is what the game reads (`drawExpression_eq`).
* `Game.curvature_run`: the right answer is the curvature of the root, and agrees with the
  kind of the question.
-/

namespace ConvexLang.Quiz

open Grammar

variable {n : Nat}

/-! ## Roots -/

namespace Operator

/-- The curvature of what is read where an entry is the root: a call has that of its flag, a
    variable is affine, and of sums, differences and the other terms nothing is known. -/
def curvature (op : Operator) : Curvature :=
  if op ∈ calls then
    if op.shape.convex then .convex else if op.shape.concave then .concave else .unknown
  else if op.terminal && variableNames.contains op.opening then .affine
  else .unknown

variable {op : Operator}

theorem curvature_call (hop : op ∈ table) (h : op.separator = ", ") :
    (Registry.standard.get? op.atomName).map Profile.curvature = some op.curvature :=
  (by decide +kernel : ∀ op ∈ table, op.separator = ", " →
    (Registry.standard.get? op.atomName).map Profile.curvature = some op.curvature) op hop h

theorem curvature_sign (hop : op ∈ table)
    (h : op.separator = plusSign ∨ op.separator = minusSign) : op.curvature = .unknown :=
  (by decide +kernel : ∀ op ∈ table, op.separator = plusSign ∨ op.separator = minusSign →
    op.curvature = .unknown) op hop h

theorem curvature_variable (hop : op ∈ table) (h : op.opening ∈ variableNames) :
    op.curvature = .affine :=
  (by decide +kernel : ∀ op ∈ table, op.opening ∈ variableNames → op.curvature = .affine) op hop h

theorem curvature_compoundTerm (hop : op ∈ table) (h : op.opening ∈ compoundTerms) :
    op.curvature = .unknown :=
  (by decide +kernel : ∀ op ∈ table, op.opening ∈ compoundTerms → op.curvature = .unknown)
    op hop h

theorem curvature_of_satisfies (hop : op ∈ table) :
    (op.shape.satisfies .ofConvex = true → op.curvature ≠ .concave ∧ op.curvature ≠ .constant) ∧
    (op.shape.satisfies .ofConcave = true → op.curvature ≠ .convex ∧ op.curvature ≠ .constant) :=
  (by decide +kernel : ∀ op ∈ table,
    (op.shape.satisfies .ofConvex = true → op.curvature ≠ .concave ∧ op.curvature ≠ .constant) ∧
    (op.shape.satisfies .ofConcave = true → op.curvature ≠ .convex ∧ op.curvature ≠ .constant))
    op hop

end Operator

/-! ## Texts with a curvature -/

variable {scope : Scope} {cs ds : List Char} {c : Char} {k : TokenKind} {name : String}

/-- The text spells a sum of this curvature. -/
def HasCurvature (scope : Scope) (n : Nat) (cs : List Char) (curvature : Curvature) : Prop :=
  ∃ ks e, Spells cs ks ∧ IsSum scope n ks e ∧ e.curvature = curvature

theorem HasCurvature.mono {m : Nat} {curvature : Curvature} (hle : m ≤ n)
    (h : HasCurvature scope m cs curvature) : HasCurvature scope n cs curvature := by
  obtain ⟨ks, e, hks, he, hcurvature⟩ := h
  exact ⟨ks, e, hks, he.mono hle, hcurvature⟩

section Values

variable {v w : Interpretation → Option ℚ}

theorem Means.hasCurvature_sign (hc : IsSign c k) (hk : additive? k = some name)
    (h : Means (IsSum scope n) cs v) (h' : Means (IsSum scope n) ds w) :
    HasCurvature scope n (cs ++ ' ' :: c :: ' ' :: ds) .unknown := by
  obtain ⟨ks, a, hks, ha, -⟩ := h
  obtain ⟨ls, b, hls, hb, -⟩ := h'
  obtain ⟨root, args, he⟩ := ha.exists_operator hk hb
  exact ⟨_, _, spells_binary hc hks hls, he, rfl⟩

theorem MeansSlots.hasCurvature_call {count : Nat} {vs : Interpretation → Option (List ℚ)}
    {p : Profile} (hname : (TokenKind.identifier name).IsWritten)
    (hp : scope.atoms.get? name = some p) (hcount : p.accepts count = true)
    (h : MeansSlots scope n count cs vs) :
    HasCurvature scope (n + 2) (name.toList ++ '(' :: (cs ++ [')'])) p.curvature := by
  obtain ⟨ks, os, hks, hos, rfl, -⟩ := h
  exact ⟨_, _, (spells_identifier hname).append (IsSign.leftParen.apart _) (spells_parens hks),
    .product (.signed (.call hos hp hcount)), rfl⟩

/-- What stands behind a sign is a sum, in parentheses or not. -/
theorem Tree.Spelled.operand {t : Tree} (h : t.Spelled scope n) (separator : String) :
    Means (IsSum scope (n + 1))
      (if isGrouped separator 1 t.operator then '(' :: (t.textChars ++ [')']) else t.textChars)
      (t.value? · lost) := by
  split
  · exact h.sum.parens.sum
  · exact h.sum.mono fun d => d.mono (Nat.le_succ n)

theorem Tree.Spelled.hasCurvature_sign {a b : Tree} (ha : a.Spelled scope n)
    (hb : b.Spelled scope n) {separator : String} (hseparator : separator.toList = [' ', c, ' '])
    (hc : IsSign c k) (hk : additive? k = some name) :
    HasCurvature scope (n + 1) (a.textChars ++ (separator.toList ++
      if isGrouped separator 1 b.operator then '(' :: (b.textChars ++ [')']) else b.textChars))
      .unknown := by
  have ha := ha.sum.mono fun d => d.mono (Nat.le_succ n)
  rw [hseparator]
  exact ha.hasCurvature_sign hc hk (hb.operand separator)

end Values

/-! ## Terminals -/

section Terminals

variable {atoms : Registry}

theorem hasCurvature_variable (h : name ∈ Operator.variableNames) :
    HasCurvature ⟨variableSymbols, atoms⟩ (n + 1) name.toList .affine :=
  ⟨_, _, spells_identifier (isWritten_variable h),
    .product (.signed (.symbol (get?_variableSymbols h))), rfl⟩

theorem hasCurvature_compoundTerm (h : name ∈ Operator.compoundTerms) :
    HasCurvature ⟨variableSymbols, atoms⟩ (n + 1) name.toList .unknown := by
  have hspells (name : String) (h : name ∈ Operator.variableNames) :
      Spells name.toList [.identifier name] := spells_identifier (isWritten_variable h)
  have hsymbol (name : String) (h : name ∈ Operator.variableNames) :
      IsSigned ⟨variableSymbols, atoms⟩ (n + 1) [.identifier name]
        (.ofSymbol .decision name .unknown) := .symbol (get?_variableSymbols h)
  simp only [Operator.compoundTerms, List.mem_cons, List.not_mem_nil, or_false] at h
  rcases h with rfl | rfl | rfl
  · have hx : "x" ∈ Operator.variableNames := by decide
    have htwo : Spells "2".toList [.integer 2] := spells_digits (by decide : 2 ≤ _)
    exact ⟨_, _, spells_binary .slash (hspells "x" hx) htwo,
      .product (.over (.signed (hsymbol "x" hx)) .integer), rfl⟩
  · have hy : "y" ∈ Operator.variableNames := by decide
    have hforty : Spells "42".toList [.integer 42] := spells_digits (by decide : 42 ≤ _)
    exact ⟨_, _, spells_binary .minus (hspells "y" hy) hforty,
      .minus (.product (.signed (hsymbol "y" hy))) (.signed .integer), rfl⟩
  · have hz : "z" ∈ Operator.variableNames := by decide
    have hfactor : Spells "364".toList [.integer 364] := spells_digits (by decide : 364 ≤ _)
    exact ⟨_, _, spells_binary .star hfactor (hspells "z" hz),
      .product (.times (.signed .integer) (hsymbol "z" hz)), rfl⟩

/-! ## Trees -/

theorem Tree.Fits.operator_mem {t : Tree} (h : t.Fits n) : t.operator ∈ Operator.table := by
  cases h
  assumption

/-- The text of a tree has the curvature of its root. -/
theorem Tree.Fits.hasCurvature (hs : KnowsNames ⟨variableSymbols, atoms⟩) {t : Tree}
    (h : t.Fits n) :
    HasCurvature ⟨variableSymbols, atoms⟩ (2 * n) t.textChars t.operator.curvature := by
  obtain @⟨n, op, cs, hop, hlength, hcs⟩ := h
  have hspelled (c : Tree) (hc : c ∈ cs) := (hcs c hc).spelled hs
  rw [Nat.mul_succ]
  change HasCurvature _ _ _ op.curvature
  cases Operator.form_of_mem hop with
  | term hopening hseparator hclosing hterminal harity =>
    rw [textChars_term hseparator hclosing]
    rcases List.mem_append.1 hopening with hvariable | hcompound
    · rw [Operator.curvature_variable hop hvariable]
      exact hasCurvature_variable hvariable
    · rw [Operator.curvature_compoundTerm hop hcompound]
      exact hasCurvature_compoundTerm hcompound
  | plus hopening hseparator hclosing hterminal harity =>
    obtain ⟨a, b, rfl⟩ := List.length_eq_two.1 (hlength.trans harity)
    -- an operator from further down may come to stand at the root, but no call or variable
    rw [textChars_between hopening (hseparator ▸ by decide) hclosing,
      Operator.curvature_sign hop (.inl hseparator)]
    exact ((hspelled a (by simp)).hasCurvature_sign (hspelled b (by simp))
      (hseparator ▸ rfl) .plus rfl).mono (Nat.le_succ _)
  | minus hopening hseparator hclosing hterminal harity =>
    obtain ⟨a, b, rfl⟩ := List.length_eq_two.1 (hlength.trans harity)
    rw [textChars_between hopening (hseparator ▸ by decide) hclosing,
      Operator.curvature_sign hop (.inr hseparator)]
    exact ((hspelled a (by simp)).hasCurvature_sign (hspelled b (by simp))
      (hseparator ▸ rfl) .minus rfl).mono (Nat.le_succ _)
  | @call name p hopening hseparator hclosing hterminal hpos hname hp hcount =>
    cases cs with
    | nil => exact absurd hlength hpos.ne -- a call has operands
    | cons c cs =>
      have hslots := meansSlots_operandChars (hspelled c List.mem_cons_self).sum
        (fun t ht => (hspelled t (List.mem_cons_of_mem _ ht)).sum) 0
      rw [← List.length_cons, hlength] at hslots
      -- the entry has the flag of its atom
      have hcurvature := Operator.curvature_call hop hseparator
      have hatom : op.atomName = name := by simp [Operator.atomName, hopening]
      rw [hatom, hp, Option.map_some, Option.some.injEq] at hcurvature
      rw [textChars_call hopening hseparator hclosing, ← hcurvature]
      exact hslots.hasCurvature_call hname (hs.atoms name p hp) hcount

/-- The text of a tree that is drawn is read as an expression with the curvature of the root. -/
theorem Tree.Fits.readLine_curvature (hs : KnowsNames ⟨variableSymbols, atoms⟩) {t : Tree}
    (h : t.Fits maxDepth) :
    ∃ e, readLine ⟨variableSymbols, atoms⟩ t.text = .ok (.statement (.expr e)) ∧
      e.curvature = t.operator.curvature := by
  obtain ⟨ks, e, hks, he, hcurvature⟩ := h.hasCurvature hs
  exact ⟨e, readLine_of_spells hks he (by decide), hcurvature⟩

end Terminals

/-! ## Questions -/

theorem Tree.Replaced.operator_eq {op op' : Operator} {i : Nat} {address : List Nat} {t t' : Tree}
    (h : Replaced op op' (i :: address) t t') : t'.operator = t.operator := by
  cases h
  rfl

variable {ρ : Type} [RandomSource ρ]

open Draw

/-- The tree that is asked about: one in which a rule is broken, unless they are kept. -/
def Tree.toAsk (rules : Bool) (t : Tree) : Draw ρ Tree :=
  if rules then pure t else t.breakRule

/-- Breaking a rule leaves the root as it is. -/
theorem Tree.always_toAsk {n : Nat} {t : Tree} (h : t.Fits n) (rules : Bool) :
    Always (t.toAsk rules : Draw ρ _) fun t' => t'.Fits n ∧ t'.operator = t.operator := by
  rw [toAsk]
  split
  · exact always_pure ⟨h, rfl⟩
  · intro source
    refine ⟨breakRule_fits h source, ?_⟩
    obtain ⟨hsame, hbroken⟩ := always_breakRule t source
    by_cases hcount : t.innerCount ≤ 1
    · rw [hsame hcount]
    · obtain ⟨_, _, _, _, -, hreplaced⟩ := hbroken (Nat.lt_of_not_le hcount)
      exact hreplaced.operator_eq

theorem drawText_eq (wanted : List Shape) (likelihood growth : Float) (rules : Bool) :
    (drawText wanted likelihood growth rules : Draw ρ _) =
      do return (← (← drawTree wanted likelihood growth).toAsk rules).text := by
  rw [drawText]
  refine bind_congr fun t => ?_
  rw [Tree.toAsk]
  split
  · rw [pure_bind]
  · rfl

namespace Game

/-- What is drawn for a question. -/
structure Draft where
  /-- Its kind: the shape that is wanted, and whether the composition rules are kept. -/
  kind : Shape × Bool
  /-- A tree that makes the shape and keeps the rules. -/
  tree : Tree
  /-- The tree whose text is asked about: the same, or one in which a rule is broken. -/
  asked : Tree

theorem length_kinds_pos : 0 < kinds.length := by decide

/-- Draws a question as a tree. -/
def drawDraft (difficulty : Difficulty) : Draw ρ Draft := do
  let kind := kinds.get (← Draw.index kinds.length length_kinds_pos)
  let tree ← drawTree [kind.1] difficulty.likelihood difficulty.growth
  let asked ← tree.toAsk kind.2
  return { kind, tree, asked }

/-- The text that is drawn for a question is that of the tree. -/
theorem drawExpression_eq (difficulty : Difficulty) :
    (drawExpression difficulty : Draw ρ String) =
      do return (← drawDraft difficulty).asked.text := by
  rw [drawExpression, drawDraft, bind_assoc]
  refine bind_congr fun i => ?_
  simp only [drawText_eq, bind_assoc, pure_bind, List.get_eq_getElem]
  rfl

/-- What holds of every draft: a rule may be broken in it, but not at the root. -/
structure Draft.IsFit (d : Draft) : Prop where
  /-- The root makes the shape that the kind asks for. -/
  shape : d.tree.operator.shape.satisfies d.kind.1 = true
  /-- The tree fits within the levels. -/
  tree : d.tree.Fits maxDepth
  /-- So does the one that is asked about. -/
  asked : d.asked.Fits maxDepth
  /-- Both have the same root. -/
  root : d.asked.operator = d.tree.operator

theorem always_drawDraft (difficulty : Difficulty) :
    Always (drawDraft difficulty : Draw ρ _) Draft.IsFit := by
  refine (always_true _).bind fun i _ => ?_
  have hkind : kinds.get i ∈ kinds := List.get_mem _ _
  have htree : Always (drawTree [(kinds.get i).1] difficulty.likelihood difficulty.growth :
      Draw ρ _) fun t => t.operator.shape.satisfies (kinds.get i).1 = true ∧ t.Fits maxDepth :=
    fun source =>
      ⟨(drawTree_keepsRules _ _ _ source).2.2.2 _ hkind rfl, drawTree_fits _ _ _ source⟩
  refine htree.bind fun t ⟨hshape, ht⟩ => ?_
  exact (Tree.always_toAsk ht _).bind fun t' ⟨ht', hroot⟩ =>
    always_pure ⟨hshape, ht, ht', hroot⟩

/-- What is asked about a draft has the curvature of its root, as its tree has. -/
theorem next_of_isFit {g : Game ρ} {d : Draft} {source : ρ}
    (hdraw : (drawDraft g.standing.difficulty).run g.source = (d, source)) (hd : d.IsFit)
    (hnames : KnowsNames ⟨variableSymbols, g.atoms⟩)
    (hscope : g.scope = ⟨variableSymbols, g.atoms⟩) :
    ∃ q, g.next.2 = .ok q ∧ q.expression = d.asked.text ∧
      q.curvature = d.tree.operator.curvature ∧
      ∃ e, readLine g.scope d.tree.text = .ok (.statement (.expr e)) ∧
        e.curvature = q.curvature := by
  obtain ⟨e, he, hcurvature⟩ := hd.tree.readLine_curvature hnames
  obtain ⟨e', he', hcurvature'⟩ := hd.asked.readLine_curvature hnames
  rw [hd.root] at hcurvature'
  rw [← hscope] at he he'
  have hdrawn : (drawExpression g.standing.difficulty).run g.source = (d.asked.text, source) := by
    rw [drawExpression_eq, StateT.run_bind, hdraw]
    rfl
  have hnext : g.next = ({ g with source }, .ok ⟨d.asked.text, .expr e'⟩) := by
    rw [next_of_draw hdrawn, pose_of_statement (g := { g with source }) he']
  rw [hnext]
  exact ⟨_, rfl, rfl, hcurvature', e, he, hcurvature.trans hcurvature'.symm⟩

/-- Whatever was asked of a game before, at any difficulty and over a registry that extends
    the standard one, the right answer to the next question is the curvature of the root of
    the tree that is drawn. Breaking a rule in the tree changes neither its root nor the
    curvature that its text is read with. So the answer to a convex question is never concave
    or constant, and that to a concave one never convex or constant. -/
theorem curvature_run {atoms : Registry} {extra : List Atom}
    (h : Registry.standard.extend extra = .ok atoms) (source : ρ) (standing : Standing)
    (calls : List Call) :
    let g := Game.run { source, atoms, standing } calls
    let d := ((drawDraft g.standing.difficulty).run g.source).1
    ∃ q, g.next.2 = .ok q ∧ q.expression = d.asked.text ∧ d.asked.operator = d.tree.operator ∧
      q.curvature = d.tree.operator.curvature ∧
      (∃ e, readLine g.scope d.tree.text = .ok (.statement (.expr e)) ∧
        e.curvature = q.curvature) ∧
      (d.kind.1 = .ofConvex → q.curvature ≠ .concave ∧ q.curvature ≠ .constant) ∧
      (d.kind.1 = .ofConcave → q.curvature ≠ .convex ∧ q.curvature ≠ .constant) := by
  intro g d
  have hnames : KnowsNames ⟨variableSymbols, atoms⟩ := knowsNames_of_extend h
  have hscope : g.scope = ⟨variableSymbols, atoms⟩ :=
    scope_run (g := { source, atoms, standing }) hnames calls
  have hd : d.IsFit := always_drawDraft g.standing.difficulty g.source
  have hatoms : g.atoms = atoms := congrArg Scope.atoms hscope
  obtain ⟨q, hq, htext, hcurvature, htree⟩ :=
    next_of_isFit (d := d) rfl hd (hatoms ▸ hnames) (hatoms ▸ hscope)
  obtain ⟨hconvex, hconcave⟩ := Operator.curvature_of_satisfies hd.tree.operator_mem
  rw [← hcurvature] at hconvex hconcave
  exact ⟨q, hq, htext, hd.root, hcurvature, htree, fun hkind => hconvex (hkind ▸ hd.shape),
    fun hkind => hconcave (hkind ▸ hd.shape)⟩

/-- A rule is broken in a convex call, which stays one. -/
theorem curvature_run_broken :
    let cube : Atom := { curvature := .convex, sign := .positive, arity := some 1, name := "cube" }
    let atoms := Registry.standard.insert cube.name cube.toProfile
    let g := Game.run
      { source := Xoshiro.ofSeed 6, atoms, standing := { difficulty := .medium } } []
    let d := ((drawDraft g.standing.difficulty).run g.source).1
    Registry.standard.extend [cube] = .ok atoms ∧ d.tree.text = "pos(abs(x))" ∧
      ∃ q, g.next.2 = .ok q ∧ q.expression = "pos(log(x))" ∧ q.curvature = .convex := by
  intro cube atoms g d
  have hcube : Registry.standard.extend [cube] = .ok atoms :=
    Registry.extend_singleton (by decide) (by decide) (by decide +kernel)
  obtain ⟨q, hq, htext, -, hcurvature, -⟩ :=
    curvature_run hcube (Xoshiro.ofSeed 6) { difficulty := .medium } []
  have hasked : d.asked.text = "pos(log(x))" := by decide +kernel
  have hroot : d.tree.operator.curvature = .convex := by decide +kernel
  exact ⟨hcube, by decide +kernel, q, hq, htext.trans hasked, hcurvature.trans hroot⟩

end Game

end ConvexLang.Quiz
