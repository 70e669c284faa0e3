import ConvexLang.Proofs.Quiz.Drawing
import ConvexLang.Quiz.Game
import ConvexLang.Quiz.Xoshiro

/-!
# The composition rules of trees

The table says what an operator may be composed of: how many operands it takes, and which
shapes are admitted for each of them. A tree keeps the rules if that holds of all its nodes
(`Tree.KeepsRules`).

Every tree that is drawn keeps the rules, whatever is drawn for it. Where a node has to be a
terminal, that is no exception, since at every position some shape is admitted that an affine
term has (`Operator.makes_shapesAt`).

To break the rules in one place it is enough to exchange convex and concave below the root.
An operator that is no terminal is either convex or concave, and none is known not to be
positive. At one position, shapes of both curvatures are admitted by the even atoms only, and
by these the concave ones only where they are not positive. So what is admitted at a position
is never admitted there with the opposite curvature (`Operator.IsOpposite.not_makes`).

* `drawTree_keepsRules`: trees that are drawn.
* `breakRule_breaks`: the one node at which a broken tree differs, and the rule it breaks.
-/

namespace ConvexLang.Quiz

open Draw

variable {op op' parent : Operator}

/-! ## Shapes -/

/-- What is asked for has to be known; what is known besides does no harm. -/
theorem Shape.satisfies_iff {s wanted : Shape} : s.satisfies wanted = true ↔
    (wanted.positive = true → s.positive = true) ∧ (wanted.negative = true → s.negative = true) ∧
      (wanted.convex = true → s.convex = true) ∧ (wanted.concave = true → s.concave = true) := by
  obtain ⟨p, n, v, c⟩ := s
  obtain ⟨p', n', v', c'⟩ := wanted
  revert p n v c p' n' v' c'
  decide

/-! ## Entries of the table -/

namespace Operator

theorem mem_shapesAt {position : Nat} {shape : Shape} :
    shape ∈ op.shapesAt position ↔ ⟨position, shape⟩ ∈ op.admitted := by
  rw [shapesAt, List.mem_map]
  constructor
  · rintro ⟨a, ha, rfl⟩
    obtain ⟨ha, hposition⟩ := List.mem_filter.1 ha
    exact of_decide_eq_true hposition ▸ ha
  · intro h
    exact ⟨_, List.mem_filter.2 ⟨h, decide_eq_true rfl⟩, rfl⟩

theorem arity_eq_zero_iff (hop : op ∈ table) : op.arity = 0 ↔ op.terminal = true :=
  (by decide +kernel : ∀ op ∈ table, (op.arity = 0 ↔ op.terminal = true)) op hop

theorem shape_of_terminal (hop : op ∈ table) (h : op.terminal = true) : op.shape = .ofAffine :=
  (by decide +kernel : ∀ op ∈ table, op.terminal = true → op.shape = .ofAffine) op hop h

/-- At each position of an entry stands an affine term by right. -/
theorem makes_shapesAt (hparent : parent ∈ table) {position : Nat}
    (hposition : position < parent.arity) (hop : op ∈ table) (h : op.terminal = true) :
    op.Makes (parent.shapesAt position) := by
  have haffine : ∃ shape ∈ parent.shapesAt position, Shape.ofAffine.satisfies shape = true :=
    (by decide +kernel : ∀ op ∈ table, ∀ position < op.arity,
      ∃ shape ∈ op.shapesAt position, Shape.ofAffine.satisfies shape = true)
      parent hparent position hposition
  rwa [Makes, shape_of_terminal hop h]

/-- An entry with operands is either convex or concave, and never known not to be
    positive. -/
theorem curvature_of_inner (hop : op ∈ table) (h : op.terminal = false) :
    op.shape.concave = !op.shape.convex ∧ op.shape.negative = false :=
  (by decide +kernel : ∀ op ∈ table, op.terminal = false →
    op.shape.concave = !op.shape.convex ∧ op.shape.negative = false) op hop h

/-- What an entry with operands makes, among shapes that an entry admits, has its own
    curvature and may be positive. -/
theorem exists_admitted_of_makes (hparent : parent ∈ table) {position : Nat} (hop : op ∈ table)
    (hinner : op.terminal = false) (h : op.Makes (parent.shapesAt position)) :
    ∃ shape, ⟨position, shape⟩ ∈ parent.admitted ∧ shape.negative = false ∧
      shape.convex = op.shape.convex ∧ shape.concave = op.shape.concave := by
  obtain ⟨shape, hshape, hsatisfies⟩ := h
  rw [mem_shapesAt] at hshape
  obtain ⟨-, hnegative, hconvex, hconcave⟩ := Shape.satisfies_iff.1 hsatisfies
  obtain ⟨hcurvature, hnever⟩ := curvature_of_inner hop hinner
  -- a curvature is always asked for, and an operator with operands has no more than one
  have hasked : shape.convex = true ∨ shape.concave = true :=
    (by decide +kernel : ∀ op ∈ table, ∀ a ∈ op.admitted,
      a.shape.convex = true ∨ a.shape.concave = true) parent hparent _ hshape
  refine ⟨shape, hshape, ?_, ?_⟩
  · rw [← Bool.not_eq_true]
    intro hasks
    rw [hnegative hasks] at hnever
    cases hnever
  · cases hshapes : op.shape.convex <;> cases hasks : shape.convex <;>
      cases hasks' : shape.concave <;> simp_all

/-- The second operator takes as many operands as the first, and is convex and concave where
    that is concave and convex. -/
structure IsOpposite (op op' : Operator) : Prop where
  /-- It is in the table. -/
  mem : op' ∈ table
  /-- It takes as many operands. -/
  arity : op'.arity = op.arity
  /-- It is convex where the other is concave. -/
  convex : op'.shape.convex = op.shape.concave
  /-- It is concave where the other is convex. -/
  concave : op'.shape.concave = op.shape.convex

theorem mem_opposites_iff : op' ∈ opposites op ↔ op.IsOpposite op' := by
  rw [opposites, List.mem_filter]
  simp only [Bool.and_eq_true, decide_eq_true_eq]
  constructor
  · rintro ⟨hmem, ⟨harity, hconvex⟩, hconcave⟩
    exact ⟨hmem, harity, hconvex, hconcave⟩
  · rintro ⟨hmem, harity, hconvex, hconcave⟩
    exact ⟨hmem, ⟨harity, hconvex⟩, hconcave⟩

/-- Where an entry is admitted, one of the opposite curvature is not. -/
theorem IsOpposite.not_makes (hopposite : op.IsOpposite op') (hparent : parent ∈ table)
    {position : Nat} (hop : op ∈ table) (hinner : op.terminal = false)
    (h : op.Makes (parent.shapesAt position)) : ¬op'.Makes (parent.shapesAt position) := by
  intro h'
  obtain ⟨hop', harity, hconvex', -⟩ := hopposite
  have hinner' : op'.terminal = false := by
    rw [← Bool.not_eq_true, ← arity_eq_zero_iff hop', harity, arity_eq_zero_iff hop, hinner]
    exact Bool.false_ne_true
  obtain ⟨shape, hshape, hnegative, hconvex, -⟩ :=
    exists_admitted_of_makes hparent hop hinner h
  obtain ⟨shape', hshape', hnegative', hconvex'', -⟩ :=
    exists_admitted_of_makes hparent hop' hinner' h'
  -- both shapes are admitted at the position, and neither only where nothing is positive
  have hsame : shape.convex = shape'.convex :=
    (by decide +kernel : ∀ op ∈ table, ∀ a ∈ op.admitted, ∀ b ∈ op.admitted,
      a.position = b.position → a.shape.negative = false → b.shape.negative = false →
        a.shape.convex = b.shape.convex)
      parent hparent _ hshape _ hshape' rfl hnegative hnegative'
  rw [hconvex, hconvex'', hconvex', (curvature_of_inner hop hinner).1] at hsame
  cases hcurvature : op.shape.convex <;> simp [hcurvature] at hsame

/-- There is an entry of the opposite curvature for each one with operands, so one takes
    its place. -/
theorem MayReplace.isOpposite (h : op.MayReplace op') (hop : op ∈ table)
    (hinner : op.terminal = false) : op.IsOpposite op' := by
  rcases h with h | hnone
  · exact mem_opposites_iff.1 h
  · have hsome : opposites op ≠ [] :=
      (by decide +kernel : ∀ op ∈ table, op.terminal = false → opposites op ≠ []) op hop hinner
    exact absurd hnone hsome

/-- What may stand where a tree is wanted makes what is wanted, if some terminal does: all
    terminals have the same shape. -/
theorem MayStand.makes_of_terminal {wanted : List Shape} (h : op.MayStand wanted)
    (hterminal : ∃ op' ∈ table, op'.terminal = true ∧ op'.Makes wanted) : op.Makes wanted := by
  obtain ⟨op', hop', hterminal', hmakes⟩ := hterminal
  rcases h.makes with hterminal | hroot
  · rw [Makes, shape_of_terminal hop' hterminal'] at hmakes
    rwa [Makes, shape_of_terminal h.mem hterminal]
  · exact hroot

/-- The operator may be composed of the operands: it takes so many, none if it is a
    terminal, and each of them makes a shape that is admitted at its position. -/
structure Takes (op : Operator) (operands : List Operator) : Prop where
  /-- It is in the table. -/
  mem : op ∈ table
  /-- There are as many operands as it takes. -/
  length : operands.length = op.arity
  /-- There are none exactly if it is a terminal. -/
  eq_nil_iff : operands = [] ↔ op.terminal = true
  /-- Each operand is admitted at its position. -/
  makes : ∀ (i : Nat) (operand : Operator), operands[i]? = some operand →
    operand.Makes (op.shapesAt i)

end Operator

/-! ## Trees that keep the rules -/

namespace Tree

variable {t : Tree} {n : Nat}

/-- Every node of the tree may be composed of its operands. -/
def KeepsRules (t : Tree) : Prop :=
  ∀ address op cs, t.at? address = some (.node op cs) → op.Takes (cs.map operator)

theorem keepsRules_node {cs : List Tree} (hop : op.Takes (cs.map operator))
    (hcs : ∀ c ∈ cs, c.KeepsRules) : (node op cs).KeepsRules := by
  intro address op' ds h
  rcases address with _ | ⟨i, rest⟩
  · cases h
    exact hop
  · rw [at?_cons, Option.bind_eq_some_iff] at h
    obtain ⟨c, hc, h⟩ := h
    exact hcs c (List.mem_of_getElem? hc) rest op' ds h

/-- In a tree that keeps the rules, the operator of each node below the root is admitted by
    the operator above it. -/
theorem KeepsRules.makes (h : t.KeepsRules) {address : List Nat} {i : Nat}
    (hparent : t.operator? address = some parent) (hop : t.operator? (address ++ [i]) = some op) :
    op.Makes (parent.shapesAt i) := by
  obtain ⟨s, hs, rfl⟩ := Option.map_eq_some_iff.1 hparent
  obtain ⟨c, hc, rfl⟩ := Option.map_eq_some_iff.1 hop
  obtain ⟨s', hs', hchild⟩ := at?_concat_eq_some_iff.1 hc
  obtain rfl : s = s' := Option.some.inj (hs.symm.trans hs')
  obtain ⟨_, cs⟩ := s
  refine (h _ _ _ hs).makes i c.operator ?_
  rw [List.getElem?_map, Option.map_eq_some_iff]
  exact ⟨c, hchild, rfl⟩

theorem depthAll_le {ts : List Tree} (h : ∀ t ∈ ts, t.depth ≤ n) : depthAll ts ≤ n := by
  induction ts with
  | nil => exact Nat.zero_le n
  | cons t ts ih =>
    rw [depthAll]
    exact Nat.max_le.2 ⟨h t List.mem_cons_self, ih fun t ht => h t (List.mem_cons_of_mem _ ht)⟩

theorem Fits.depth_le (h : t.Fits n) : t.depth ≤ n := by
  induction h with
  | node _ _ _ ih =>
    rw [depth, Nat.add_comm]
    exact Nat.succ_le_succ (depthAll_le ih)

end Tree

/-! ## Trees that are drawn -/

section Drawn

variable {ρ σ : Type} [RandomSource ρ] [RandomSource σ]

/-- The operator of a node that has grown may be composed of what has grown below it. -/
theorem takes_of_hasGrown {wanted : List Shape} {cs : List Tree} (hop : op.MayStand wanted)
    (h : HasGrown (fun shapes c => c.operator.MayStand shapes) op cs) :
    op.Takes (cs.map Tree.operator) where
  mem := hop.mem
  length := by rw [List.length_map, h.length]
  eq_nil_iff := by
    rw [← Operator.arity_eq_zero_iff hop.mem, ← h.length, List.map_eq_nil_iff,
      List.length_eq_zero_iff]
  makes i operand hi := by
    rw [List.getElem?_map, Option.map_eq_some_iff] at hi
    obtain ⟨c, hc, rfl⟩ := hi
    obtain ⟨hmem, hterminal | hmakes⟩ := h.operands i c hc
    · obtain ⟨hlt, -⟩ := List.getElem?_eq_some_iff.1 hc
      exact Operator.makes_shapesAt hop.mem (h.length ▸ hlt) hmem hterminal
    · exact hmakes

/-- A tree that grows keeps the rules, and its root may stand where it was wanted. -/
theorem grow_keepsRules (growth : Float) (levels : Nat) (wanted : List Shape)
    (likelihood : Float) : Always (grow growth levels wanted likelihood : Draw ρ _) fun t =>
      t.operator.MayStand wanted ∧ t.KeepsRules :=
  always_grow (P := fun _ wanted t => t.operator.MayStand wanted ∧ t.KeepsRules)
    (fun hop h => ⟨hop, Tree.keepsRules_node
      (takes_of_hasGrown hop ⟨h.length, fun i c hc => (h.operands i c hc).1⟩)
      (h.forall_mem And.right)⟩) growth levels wanted likelihood

/-- Whatever is drawn for it, a tree has at most sixteen levels and keeps the composition
    rules of the table. Its root makes one of the wanted shapes whenever some terminal does;
    so it always makes the shape that a question asks for. -/
theorem drawTree_keepsRules (wanted : List Shape) (likelihood growth : Float) :
    Always (drawTree wanted likelihood growth : Draw ρ _) fun t =>
      t.depth ≤ 16 ∧ t.KeepsRules ∧
        ((∃ op ∈ Operator.table, op.terminal = true ∧ op.Makes wanted) →
          t.operator.Makes wanted) ∧
        ∀ kind ∈ Game.kinds, wanted = [kind.1] → t.operator.shape.satisfies kind.1 = true := by
  intro source
  have hfits := drawTree_fits (ρ := ρ) wanted likelihood growth source
  obtain ⟨hroot, hrules⟩ := grow_keepsRules (ρ := ρ) growth (maxDepth - 1) wanted likelihood source
  refine ⟨hfits.depth_le, hrules, hroot.makes_of_terminal, fun kind hkind hwanted => ?_⟩
  -- a variable makes what any question asks for
  have haffine : firstOperator.shape.satisfies kind.1 = true :=
    (by decide : ∀ kind ∈ Game.kinds, firstOperator.shape.satisfies kind.1 = true) kind hkind
  obtain ⟨shape, hshape, hsatisfies⟩ := hroot.makes_of_terminal
    ⟨firstOperator, firstOperator_mem, rfl, kind.1, by simp [hwanted], haffine⟩
  rw [hwanted, List.mem_singleton] at hshape
  exact hshape ▸ hsatisfies

/-- A concave tree with a convex operand behind its minus sign. -/
theorem drawTree_keepsRules_concave :
    let t := ((drawTree [.ofConcave] 0.1 2 : Draw Xoshiro Tree).run (.ofSeed 140)).1
    t.text = "z - max(z, 364 * z)" ∧ t.KeepsRules ∧
      t.operator.shape.satisfies .ofConcave = true := by
  intro t
  obtain ⟨-, hrules, -, hkind⟩ := drawTree_keepsRules [.ofConcave] 0.1 2 (Xoshiro.ofSeed 140)
  exact ⟨by decide +kernel, hrules, hkind (.ofConcave, true) (by decide) rfl⟩

/-! ## Trees that are broken -/

/-- Another operator breaks a rule wherever it takes the place of one below the root. -/
theorem Tree.KeepsRules.broken {t t' : Tree} (h : t.KeepsRules) {address : List Nat} {i : Nat}
    (hdiffers : t.DiffersAt t' (address ++ [i]) op op') (hreplace : op.MayReplace op') :
    op.IsOpposite op' ∧ op' ≠ op ∧ ∃ parent, t.operator? address = some parent ∧
      ¬op'.Makes (parent.shapesAt i) ∧ ¬t'.KeepsRules := by
  obtain ⟨c, cs, hold⟩ := hdiffers.old
  obtain ⟨⟨parent, ds⟩, hs, -⟩ := Tree.at?_concat_eq_some_iff.1 hold
  have hparent : t.operator? address = some parent := congrArg (Option.map Tree.operator) hs
  have htakes := h _ _ _ hold
  have hinner : op.terminal = false := by
    rw [← Bool.not_eq_true, ← htakes.eq_nil_iff]
    exact List.cons_ne_nil _ _
  have hopposite := hreplace.isOpposite htakes.mem hinner
  have hmakes : op.Makes (parent.shapesAt i) :=
    h.makes hparent (congrArg (Option.map Tree.operator) hold)
  have hnot : ¬op'.Makes (parent.shapesAt i) :=
    hopposite.not_makes (h _ _ _ hs).mem htakes.mem hinner hmakes
  refine ⟨hopposite, ?_, parent, hparent, hnot, fun hkeeps => ?_⟩
  · rintro rfl
    exact hnot hmakes
  · -- the operator above the node is still the same
    have habove : address ≠ address ++ [i] := by simp
    exact hnot (hkeeps.makes ((hdiffers.elsewhere address habove).trans hparent) hdiffers.new)

/-- In a tree that was drawn, a rule is broken by another operator at one inner node below
    the root, if there is one: an operator of the opposite curvature, which makes none of the
    shapes that are admitted where it stands. Nothing else changes, and a tree without such a
    node stays as it is. -/
theorem breakRule_breaks (wanted : List Shape) (likelihood growth : Float) :
    Always (drawTree wanted likelihood growth : Draw ρ _) fun t =>
      Always (t.breakRule : Draw σ _) fun t' =>
        (t.innerCount ≤ 1 → t' = t) ∧
        (1 < t.innerCount → ∃ address i op op', t.DiffersAt t' (address ++ [i]) op op' ∧
          op.IsOpposite op' ∧ op' ≠ op ∧ ∃ parent, t.operator? address = some parent ∧
            ¬op'.Makes (parent.shapesAt i) ∧ ¬t'.KeepsRules) := by
  intro source source'
  obtain ⟨-, hrules⟩ := grow_keepsRules (ρ := ρ) growth (maxDepth - 1) wanted likelihood source
  obtain ⟨hsame, hbroken⟩ := Tree.always_breakRule (ρ := σ)
    ((drawTree wanted likelihood growth).run source).1 source'
  refine ⟨hsame, fun hcount => ?_⟩
  obtain ⟨first, rest, op, op', hreplace, hreplaced⟩ := hbroken hcount
  obtain ⟨address, i, haddress⟩ : ∃ address i, first :: rest = address ++ [i] :=
    ⟨_, _, (List.dropLast_concat_getLast (List.cons_ne_nil first rest)).symm⟩
  have hdiffers := hreplaced.differsAt
  rw [haddress] at hdiffers
  exact ⟨address, i, op, op', hdiffers, hrules.broken hdiffers hreplace⟩

/-- A difference takes the place of the greatest value behind a minus sign. -/
theorem breakRule_breaks_max :
    let drawn := (drawTree [.ofConcave] 0.1 2 : Draw Xoshiro Tree).run (.ofSeed 140)
    let t' := (drawn.1.breakRule.run drawn.2).1
    drawn.1.text = "z - max(z, 364 * z)" ∧ t'.text = "z - (z - 364 * z)" ∧ ¬t'.KeepsRules := by
  intro drawn t'
  obtain ⟨-, hbroken⟩ := breakRule_breaks [.ofConcave] 0.1 2 (Xoshiro.ofSeed 140) drawn.2
  obtain ⟨_, _, _, _, -, -, -, _, -, -, hrules⟩ := hbroken (by decide +kernel)
  exact ⟨by decide +kernel, by decide +kernel, hrules⟩

end Drawn

end ConvexLang.Quiz
