import ConvexLang.Proofs.Quiz.Address
import ConvexLang.Quiz.Generator

/-!
# Trees that are drawn

What holds of every tree that the quiz draws, from whatever source: a fraction is
any floating-point number and an index any in its range, so nothing depends on
which draws are made. `Draw.Always` says that a property holds of all that may be
drawn.

* `always_grow`: what holds of each node over operands that have grown for it holds of
  every tree that grows.
* `Tree.always_replaceInner`: the count of inner nodes that is handed from operand to
  operand is the number of the node in preorder, so the node with the chosen number is
  the one whose operator is replaced, and nothing else changes (`Tree.IsAltered`).
* `Tree.always_breakRule`: that node is not the root.

A tree fits within `n` levels (`Tree.Fits`) if no path in it is longer, all of its
operators are in the table, and each has as many operands as it takes. A tree that grows
fits within the levels it is given (`drawTree_fits`), and still does after an operator was
replaced (`Tree.breakRule_fits`).
-/

namespace ConvexLang.Quiz

variable {ρ α β : Type}

/-! ## All that may be drawn -/

namespace Draw

/-- Whatever is drawn has the property. -/
def Always (d : Draw ρ α) (P : α → Prop) : Prop :=
  ∀ s, P (d.run s).1

theorem always_true (d : Draw ρ α) : Always d fun _ => True :=
  fun _ => trivial

theorem always_pure {a : α} {P : α → Prop} (h : P a) : Always (pure a : Draw ρ α) P :=
  fun _ => h

theorem Always.bind {d : Draw ρ α} {f : α → Draw ρ β} {P : α → Prop} {Q : β → Prop}
    (h : Always d P) (hf : ∀ a, P a → Always (f a) Q) : Always (d >>= f) Q :=
  fun s => hf _ (h s) (d.run s).2

/-- One draw for each entry of a list, which stays in its place. -/
theorem always_mapM {f : α → Draw ρ β} {P : α → β → Prop} {as : List α}
    (hf : ∀ a ∈ as, Always (f a) (P a)) :
    Always (as.mapM f) fun bs => bs.length = as.length ∧
      ∀ (i : Nat) (b : β), bs[i]? = some b → ∃ a, as[i]? = some a ∧ P a b := by
  induction as with
  | nil =>
    rw [List.mapM_nil]
    exact always_pure ⟨rfl, nofun⟩
  | cons a as ih =>
    rw [List.mapM_cons]
    refine (hf a List.mem_cons_self).bind fun b hb => ?_
    refine (ih fun a' ha' => hf a' (List.mem_cons_of_mem _ ha')).bind fun bs ⟨hlength, hbs⟩ =>
      always_pure ⟨congrArg (· + 1) hlength, fun i b' hb' => ?_⟩
    rcases i with _ | i
    · cases hb'
      exact ⟨a, rfl, hb⟩
    · exact hbs i b' hb'

end Draw

open Draw

/-! ## Operators that are drawn -/

theorem pick_mem {left : Float} {ops : List Operator} {op : Operator}
    (h : pick left ops = some op) : op ∈ ops := by
  fun_induction pick left ops with
  | case1 => cases h
  | case2 left op' =>
    cases h
    exact List.mem_singleton_self _
  | case3 left op' ops _ _ =>
    cases h
    exact List.mem_cons_self
  | case4 left op' ops _ _ ih => exact List.mem_cons_of_mem _ (ih h)

variable [RandomSource ρ]

theorem pick_eq_none {left : Float} {ops : List Operator} (h : pick left ops = none) :
    ops = [] := by
  fun_induction pick left ops with
  | case1 => rfl
  | case2 => cases h
  | case3 => cases h
  | case4 left op' ops hne _ ih => exact absurd (ih h) hne

/-- An operator that is drawn is one of those to choose from, if there are any,
    and otherwise the one that stands in. -/
theorem always_weightedChoice {ops : List Operator} {standIn : Operator} {P : Operator → Prop}
    (hops : ∀ op ∈ ops, P op) (hstandIn : ops = [] → P standIn) :
    Always (weightedChoice ops : Draw ρ _) fun op? => P (op?.getD standIn) := by
  refine (always_true _).bind fun x _ => always_pure ?_
  cases h : pick (totalWeight ops * x) ops with
  | none => exact hstandIn (pick_eq_none h)
  | some op => exact hops op (pick_mem h)

theorem firstOperator_mem : firstOperator ∈ Operator.table :=
  List.mem_cons_self

/-- The operator makes one of the wanted shapes. -/
def Operator.Makes (op : Operator) (wanted : List Shape) : Prop :=
  ∃ shape ∈ wanted, op.shape.satisfies shape = true

/-- An operator that may stand where a tree is wanted: it makes one of the wanted shapes,
    or is a terminal. -/
structure Operator.MayStand (op : Operator) (wanted : List Shape) : Prop where
  /-- It is in the table. -/
  mem : op ∈ table
  /-- It makes what is wanted, unless it is a terminal. -/
  makes : op.terminal = true ∨ op.Makes wanted

theorem mayStand_of_mem_candidates {terminal : Bool} {wanted : List Shape} {op : Operator}
    (h : op ∈ candidates terminal wanted) :
    op.MayStand wanted ∧ (terminal = true → op.terminal = true) := by
  rw [candidates] at h
  split at h
  · -- nothing fits, so all terminals are candidates
    obtain ⟨hop, hterminal⟩ := List.mem_filter.1 h
    exact ⟨⟨hop, .inl hterminal⟩, fun _ => hterminal⟩
  · obtain ⟨shape, hshape, h⟩ := List.mem_flatMap.1 h
    obtain ⟨hop, hfit⟩ := List.mem_filter.1 h
    rw [Bool.and_eq_true, decide_eq_true_eq] at hfit
    exact ⟨⟨hop, .inr ⟨shape, hshape, hfit.2⟩⟩, fun hterminal => hfit.1.trans hterminal⟩

theorem always_drawOperator (terminal : Bool) (wanted : List Shape) :
    Always (drawOperator terminal wanted : Draw ρ _) fun op =>
      op.MayStand wanted ∧ (terminal = true → op.terminal = true) :=
  (always_weightedChoice (fun _ => mayStand_of_mem_candidates)
    fun _ => ⟨⟨firstOperator_mem, .inl rfl⟩, fun _ => rfl⟩).bind fun _ => always_pure

/-! ## Trees that grow -/

theorem arity_of_terminal {op : Operator} (hop : op ∈ Operator.table) (h : op.terminal = true) :
    op.arity = 0 :=
  (by decide +kernel : ∀ op ∈ Operator.table, op.terminal = true → op.arity = 0) op hop h

/-- Every operand position of an operator admits some shape. -/
theorem operandShapes_eq {op : Operator} (hop : op ∈ Operator.table) :
    op.operandShapes = (List.range op.arity).map op.shapesAt :=
  (by decide +kernel : ∀ op ∈ Operator.table,
    op.operandShapes = (List.range op.arity).map op.shapesAt) op hop

theorem length_operandShapes {op : Operator} (hop : op ∈ Operator.table) :
    op.operandShapes.length = op.arity := by
  rw [operandShapes_eq hop, List.length_map, List.length_range]

/-- What grows for a node: one operand for each position, which holds what the shapes
    admitted there ask for. -/
structure HasGrown (P : List Shape → Tree → Prop) (op : Operator) (cs : List Tree) : Prop where
  /-- There are as many operands as the operator takes. -/
  length : cs.length = op.arity
  /-- Each has grown for the shapes admitted at its position. -/
  operands : ∀ i c, cs[i]? = some c → P (op.shapesAt i) c

theorem HasGrown.forall_mem {P : List Shape → Tree → Prop} {Q : Tree → Prop} {op : Operator}
    {cs : List Tree} (h : HasGrown P op cs) (hQ : ∀ {shapes c}, P shapes c → Q c) :
    ∀ c ∈ cs, Q c := by
  intro c hc
  obtain ⟨i, hi⟩ := List.mem_iff_getElem?.1 hc
  exact hQ (h.operands i c hi)

/-- A property of trees that grow within some levels for some wanted shapes, if each node
    has it whose operands have it: the likelihoods play no part. -/
theorem always_grow {P : Nat → List Shape → Tree → Prop}
    (hnode : ∀ {levels : Nat} {wanted : List Shape} {op : Operator} {cs : List Tree},
      op.MayStand wanted → HasGrown (P levels) op cs → P (levels + 1) wanted (.node op cs))
    (growth : Float) (levels : Nat) (wanted : List Shape) (likelihood : Float) :
    Always (grow growth levels wanted likelihood : Draw ρ _) (P (levels + 1) wanted) := by
  induction levels generalizing wanted likelihood with
  | zero =>
    refine (always_drawOperator true wanted).bind fun op ⟨hop, hterminal⟩ => always_pure ?_
    exact hnode hop ⟨(arity_of_terminal hop.mem (hterminal rfl)).symm, nofun⟩
  | succ levels ih =>
    refine (always_true _).bind fun x _ => ?_
    refine (always_drawOperator _ wanted).bind fun op ⟨hop, _⟩ => ?_
    refine (always_mapM fun shapes _ => ih shapes (likelihood * growth)).bind
      fun cs ⟨hlength, hcs⟩ => always_pure (hnode hop ⟨?_, fun i c hc => ?_⟩)
    · exact hlength.trans (length_operandShapes hop.mem)
    · obtain ⟨shapes, hshapes, hgrown⟩ := hcs i c hc
      rw [operandShapes_eq hop.mem, List.getElem?_map, Option.map_eq_some_iff] at hshapes
      obtain ⟨j, hj, rfl⟩ := hshapes
      obtain ⟨_, rfl⟩ := List.getElem?_eq_some_iff.1 hj
      rwa [List.getElem_range] at hgrown

/-! ## Operators that are replaced -/

/-- What may take the place of an operator: one of the opposite curvature, or the operator
    itself if there is none. -/
inductive Operator.MayReplace (op : Operator) : Operator → Prop
  | opposite {op' : Operator} : op' ∈ opposites op → MayReplace op op'
  | none : opposites op = [] → MayReplace op op

theorem always_drawOpposite (op : Operator) :
    Always (drawOpposite op : Draw ρ _) op.MayReplace :=
  (always_weightedChoice (fun _ => .opposite) .none).bind fun _ => always_pure

namespace Tree

/-- What became of a tree in which the inner node number `chosen` was to get another
    operator, where `seen` inner nodes were counted in front of the tree. -/
structure IsAltered (chosen seen : Nat) (t t' : Tree) : Prop where
  /-- The node stands in front of the tree. -/
  early : chosen ≤ seen → t' = t
  /-- The node stands behind the tree. -/
  late : seen + t.innerCount < chosen → t' = t
  /-- The node stands in the tree. -/
  hit : ∀ k address, chosen = seen + 1 + k → t.innerAddresses[k]? = some address →
    ∃ op op', op.MayReplace op' ∧ Replaced op op' address t t'

/-- The same for several operands of one node. -/
structure AreAltered (chosen seen : Nat) (ts ts' : List Tree) : Prop where
  /-- The node stands in front of all of them. -/
  early : chosen ≤ seen → ts' = ts
  /-- The node stands behind all of them. -/
  late : seen + innerCountAll ts < chosen → ts' = ts
  /-- The node stands in one of them. -/
  hit : ∀ k address, chosen = seen + 1 + k → (innerAddressesAll ts)[k]? = some address →
    ∃ before c c' after rest op op', ts = before ++ c :: after ∧ ts' = before ++ c' :: after ∧
      address = before.length :: rest ∧ op.MayReplace op' ∧ Replaced op op' rest c c'

theorem isAltered_leaf (chosen seen : Nat) (op : Operator) :
    IsAltered chosen seen (.node op []) (.node op []) where
  early _ := rfl
  late _ := rfl
  hit _ _ _ h := by cases h

/-- The root of the tree is counted in front of its operands. -/
theorem AreAltered.isAltered {chosen seen : Nat} {op op' : Operator} {c : Tree} {cs cs' : List Tree}
    (hop : seen + 1 = chosen → op.MayReplace op') (hop' : seen + 1 ≠ chosen → op' = op)
    (h : AreAltered chosen (seen + 1) (c :: cs) cs') :
    IsAltered chosen seen (.node op (c :: cs)) (.node op' cs') where
  early hle := by
    rw [hop' (by omega), h.early (by omega)]
  late hlt := by
    rw [innerCount] at hlt
    rw [hop' (by omega), h.late (by omega)]
  hit k address hk haddress := by
    rcases k with _ | k
    · cases haddress
      rw [h.early (by omega)]
      exact ⟨op, op', hop (by omega), .here⟩
    · rw [innerAddresses, List.getElem?_cons_succ] at haddress
      obtain ⟨before, d, d', after, rest, old, new, hcs, rfl, rfl, hnew, hreplaced⟩ :=
        h.hit k address (by omega) haddress
      rw [hcs, hop' (by omega)]
      exact ⟨old, new, hnew, .inside hreplaced⟩

/-- The operands are counted one after the other. -/
theorem IsAltered.cons {chosen seen : Nat} {t t' : Tree} {ts ts' : List Tree}
    (h : IsAltered chosen seen t t') (hs : AreAltered chosen (seen + t.innerCount) ts ts') :
    AreAltered chosen seen (t :: ts) (t' :: ts') where
  early hle := by
    rw [h.early hle, hs.early (by omega)]
  late hlt := by
    rw [innerCountAll] at hlt
    rw [h.late (by omega), hs.late (by omega)]
  hit k address hk haddress := by
    rw [innerAddressesAll, List.getElem?_append, List.length_map, length_innerAddresses] at haddress
    split at haddress
    · -- the node stands in the first operand
      rename_i hlt
      rw [List.getElem?_map, Option.map_eq_some_iff] at haddress
      obtain ⟨rest, hrest, rfl⟩ := haddress
      obtain ⟨op, op', hop, hreplaced⟩ := h.hit k rest hk hrest
      rw [hs.early (by omega)]
      exact ⟨[], t, t', ts, rest, op, op', rfl, rfl, rfl, hop, hreplaced⟩
    · -- the node stands in a later operand, one position further on
      rename_i hge
      rw [List.getElem?_map, Option.map_eq_some_iff] at haddress
      obtain ⟨later, hlater, rfl⟩ := haddress
      obtain ⟨before, d, d', after, rest, op, op', rfl, rfl, rfl, hop, hreplaced⟩ :=
        hs.hit (k - t.innerCount) later (by omega) hlater
      rw [h.late (by omega)]
      exact ⟨t :: before, d, d', after, rest, op, op', rfl, rfl, rfl, hop, hreplaced⟩

mutual

/-- The operator that is replaced is the one of the node with the chosen number, and the
    count goes on behind the tree by the number of its inner nodes. -/
theorem always_replaceInner (chosen : Nat) : ∀ (t : Tree) (seen : Nat),
    Always (t.replaceInner chosen seen : Draw ρ _) fun p =>
      p.2 = seen + t.innerCount ∧ IsAltered chosen seen t p.1
  | .node op [], seen => by
    rw [replaceInner]
    exact always_pure ⟨rfl, isAltered_leaf chosen seen op⟩
  | .node op (c :: cs), seen => by
    rw [replaceInner]
    -- the operands are drawn in the same way, whether the operator stays or not
    have hnode : ∀ op' : Operator, (seen + 1 = chosen → op.MayReplace op') →
        (seen + 1 ≠ chosen → op' = op) → Always (do
          let p ← replaceInnerAll chosen (c :: cs) (seen + 1)
          return (node op' p.1, p.2) : Draw ρ _) fun p =>
            p.2 = seen + (node op (c :: cs)).innerCount ∧
              IsAltered chosen seen (.node op (c :: cs)) p.1 := by
      intro op' hop hop'
      refine (always_replaceInnerAll chosen (c :: cs) (seen + 1)).bind fun p ⟨hseen, hp⟩ =>
        always_pure ⟨?_, hp.isAltered hop hop'⟩
      rw [innerCount, hseen, Nat.add_assoc]
    split
    · rename_i hchosen
      exact (always_drawOpposite op).bind fun op' hop' =>
        hnode op' (fun _ => hop') fun hne => absurd hchosen hne
    · rename_i hchosen
      exact (always_pure (P := (· = op)) rfl).bind fun op' hop' =>
        hnode op' (fun h => absurd h hchosen) fun _ => hop'

theorem always_replaceInnerAll (chosen : Nat) : ∀ (ts : List Tree) (seen : Nat),
    Always (replaceInnerAll chosen ts seen : Draw ρ _) fun p =>
      p.2 = seen + innerCountAll ts ∧ AreAltered chosen seen ts p.1
  | [], seen => by
    rw [replaceInnerAll]
    exact always_pure ⟨rfl, fun _ => rfl, fun _ => rfl, nofun⟩
  | t :: ts, seen => by
    rw [replaceInnerAll]
    refine (always_replaceInner chosen t seen).bind fun p ⟨hseen, hp⟩ => ?_
    refine (always_replaceInnerAll chosen ts p.2).bind fun q ⟨hseen', hq⟩ =>
      always_pure ⟨?_, ?_⟩
    · rw [hseen', hseen, innerCountAll, Nat.add_assoc]
    · rw [hseen] at hq
      exact hp.cons hq

end

/-- A tree without an inner node below the root stays as it is. In any other, an operator
    takes the place of that of one such node. -/
theorem always_breakRule (t : Tree) :
    Always (t.breakRule : Draw ρ _) fun t' =>
      (t.innerCount ≤ 1 → t' = t) ∧
      (1 < t.innerCount → ∃ i address op op', op.MayReplace op' ∧
        Replaced op op' (i :: address) t t') := by
  rw [breakRule]
  split
  · rename_i hcount
    refine (always_true _).bind fun i _ => (always_replaceInner _ t 0).bind fun p ⟨_, hp⟩ =>
      always_pure ⟨fun hle => absurd hcount (Nat.not_lt.2 hle), fun _ => ?_⟩
    obtain ⟨address, haddress⟩ : ∃ address, t.innerAddresses[i.val + 1]? = some address := by
      refine ⟨_, List.getElem?_eq_getElem ?_⟩
      rw [length_innerAddresses]
      omega
    obtain ⟨op, op', hop, hreplaced⟩ := hp.hit (i.val + 1) address (by omega) haddress
    -- only the first inner node is the root
    obtain ⟨j, rest, rfl⟩ : ∃ j rest, address = j :: rest := by
      rcases t with ⟨root, _ | ⟨c, cs⟩⟩
      · cases haddress
      · rw [innerAddresses, List.getElem?_cons_succ] at haddress
        exact exists_cons_of_mem_innerAddressesAll (List.mem_of_getElem? haddress)
    exact ⟨j, rest, op, op', hop, hreplaced⟩
  · rename_i hcount
    exact always_pure ⟨fun _ => rfl, fun hlt => absurd hlt hcount⟩

end Tree

/-! ## Trees that fit -/

/-- The tree has at most `n` levels, of operators of the table that have as many
    operands as they take. -/
inductive Tree.Fits : Nat → Tree → Prop
  | node {n : Nat} {op : Operator} {cs : List Tree} : op ∈ Operator.table →
    cs.length = op.arity → (∀ c ∈ cs, Fits n c) → Fits (n + 1) (.node op cs)

theorem drawTree_fits (wanted : List Shape) (likelihood growth : Float) :
    Always (drawTree wanted likelihood growth : Draw ρ _) (Tree.Fits maxDepth) :=
  always_grow (P := fun n _ t => t.Fits n)
    (fun hop h => .node hop.mem h.length (h.forall_mem id)) growth _ wanted likelihood

theorem Operator.MayReplace.fits {op op' : Operator} (h : op.MayReplace op')
    (hop : op ∈ Operator.table) : op' ∈ Operator.table ∧ op'.arity = op.arity := by
  cases h with
  | opposite h =>
    obtain ⟨hop', hfit⟩ := List.mem_filter.1 h
    simp only [Bool.and_eq_true, decide_eq_true_eq] at hfit
    exact ⟨hop', hfit.1.1⟩
  | none => exact ⟨hop, rfl⟩

theorem Tree.Replaced.fits {op op' : Operator} {address : List Nat} {t t' : Tree}
    (h : Replaced op op' address t t') (hop : op.MayReplace op') {n : Nat} (ht : t.Fits n) :
    t'.Fits n := by
  induction h generalizing n with
  | here =>
    cases ht with
    | node hmem hlength hcs =>
      obtain ⟨hmem', harity⟩ := hop.fits hmem
      exact .node hmem' (hlength.trans harity.symm) hcs
  | inside _ ih =>
    cases ht with
    | node hmem hlength hcs =>
      refine .node hmem ?_ fun d hd => ?_
      · simpa using hlength
      · rcases List.mem_append.1 hd with hd | hd
        · exact hcs d (List.mem_append_left _ hd)
        · rcases List.mem_cons.1 hd with rfl | hd
          · exact ih (hcs _ (by simp))
          · exact hcs d (List.mem_append_right _ (List.mem_cons_of_mem _ hd))

theorem Tree.breakRule_fits {n : Nat} {t : Tree} (h : t.Fits n) :
    Always (t.breakRule : Draw ρ _) (Fits n) := by
  intro s
  obtain ⟨hsame, hbroken⟩ := always_breakRule t s
  by_cases hcount : t.innerCount ≤ 1
  · rw [hsame hcount]
    exact h
  · obtain ⟨_, _, _, _, hop, hreplaced⟩ := hbroken (Nat.lt_of_not_le hcount)
    exact hreplaced.fits hop h

/-- What is drawn as a text is the text of a tree that fits. -/
theorem always_drawText (wanted : List Shape) (likelihood growth : Float) (rules : Bool) :
    Always (drawText wanted likelihood growth rules : Draw ρ _) fun text =>
      ∃ t : Tree, t.Fits maxDepth ∧ text = t.text := by
  refine (drawTree_fits wanted likelihood growth).bind fun t ht => ?_
  split
  · exact always_pure ⟨t, ht, rfl⟩
  · exact (Tree.breakRule_fits ht).bind fun t' ht' => always_pure ⟨t', ht', rfl⟩

end ConvexLang.Quiz
