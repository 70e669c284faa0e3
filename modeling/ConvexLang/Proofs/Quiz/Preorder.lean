import ConvexLang.Proofs.Quiz.Composition
import Mathlib

/-!
# Numbers of inner nodes

The inner node whose operator is replaced is chosen by a number, and found by counting on the
way through the tree: the count is handed from operand to operand, and goes on behind the node
that was found. What the numbers mean can be said without a count. Addresses are ordered like
words in a dictionary, which puts a node in front of its operands, and an operand with all that
is below it in front of those to the right of it. The number of a node is how many inner nodes
stand at its address or in front of it (`Tree.number`).

The numbers are those from one on, each of one inner node, and the root has the first
(`Tree.bijOn_number`). So the numbers from two on are those of the inner nodes below the root.

* `Tree.pairwise_innerAddresses`: inner nodes are listed in the order of their addresses.
* `Tree.getElem?_innerAddresses_iff`: the place in that list is the number.
* `Tree.replaceInner_number`: which node gets another operator, for each number.
-/

namespace ConvexLang.Quiz

open Draw

/-! ## Lists in order -/

/-- In a list in order, as many entries as its place tells are no greater than an entry. -/
theorem ncard_le_getElem {α : Type} [LinearOrder α] {as : List α} (h : as.Pairwise (· < ·))
    {k : Nat} (hk : k < as.length) : {a | a ∈ as ∧ a ≤ as[k]}.ncard = k + 1 := by
  have hmono : StrictMono as.get := List.pairwise_iff_get.1 h
  have himage : {a | a ∈ as ∧ a ≤ as[k]} = as.get '' Set.Iic ⟨k, hk⟩ := by
    ext a
    constructor
    · rintro ⟨ha, hle⟩
      obtain ⟨i, rfl⟩ := List.get_of_mem ha
      exact ⟨i, hmono.le_iff_le.1 hle, rfl⟩
    · rintro ⟨i, hi, rfl⟩
      exact ⟨List.get_mem as i, hmono.monotone hi⟩
  rw [himage, Set.ncard_image_of_injective _ hmono.injective, Set.ncard_eq_toFinset_card',
    Set.toFinset_Iic, Fin.card_Iic]

namespace Tree

variable {t : Tree} {address : List Nat}

/-! ## Inner nodes -/

/-- An inner node stands at the address. -/
def IsInner (t : Tree) (address : List Nat) : Prop :=
  ∃ op c cs, t.at? address = some (.node op (c :: cs))

theorem isInner_nil_iff : t.IsInner [] ↔ t.children ≠ [] := by
  rcases t with ⟨op, _ | ⟨c, cs⟩⟩ <;> simp [IsInner, children]

theorem isInner_cons_iff {i : Nat} :
    t.IsInner (i :: address) ↔ ∃ c, t.children[i]? = some c ∧ c.IsInner address := by
  simp only [IsInner, at?_cons, Option.bind_eq_some_iff]
  constructor
  · rintro ⟨op, d, ds, c, hc, hd⟩
    exact ⟨c, hc, op, d, ds, hd⟩
  · rintro ⟨c, hc, op, d, ds, hd⟩
    exact ⟨op, d, ds, c, hc, hd⟩

mutual

/-- All inner nodes are listed, and nothing else. -/
theorem mem_innerAddresses_iff : ∀ (t : Tree) (address : List Nat),
    address ∈ t.innerAddresses ↔ t.IsInner address
  | node op [], address => by
    rcases address with _ | ⟨i, rest⟩
    · simp [innerAddresses, isInner_nil_iff, children]
    · simp [innerAddresses, isInner_cons_iff, children]
  | node op (c :: cs), address => by
    rw [innerAddresses, List.mem_cons, mem_innerAddressesAll_iff]
    rcases address with _ | ⟨i, rest⟩
    · simp [isInner_nil_iff, children]
    · simp [isInner_cons_iff, children]

theorem mem_innerAddressesAll_iff : ∀ (ts : List Tree) (address : List Nat),
    address ∈ innerAddressesAll ts ↔
      ∃ i rest c, address = i :: rest ∧ ts[i]? = some c ∧ c.IsInner rest
  | [], address => by simp [innerAddressesAll]
  | t :: ts, address => by
    rw [innerAddressesAll, List.mem_append, List.mem_map, List.mem_map]
    simp only [mem_innerAddresses_iff, mem_innerAddressesAll_iff]
    constructor
    · rintro (⟨rest, hrest, rfl⟩ | ⟨_, ⟨i, rest, c, rfl, hc, hrest⟩, rfl⟩)
      · exact ⟨0, rest, t, rfl, rfl, hrest⟩
      · exact ⟨i + 1, rest, c, rfl, hc, hrest⟩
    · rintro ⟨_ | i, rest, c, rfl, hc, hrest⟩
      · cases hc
        exact .inl ⟨rest, hrest, rfl⟩
      · exact .inr ⟨i :: rest, ⟨i, rest, c, rfl, hc, hrest⟩, rfl⟩

end

mutual

/-- A node is listed in front of its operands. -/
theorem pairwise_innerAddresses : ∀ t : Tree, t.innerAddresses.Pairwise (· < ·)
  | node _ [] => .nil
  | node _ (c :: cs) => by
    rw [innerAddresses, List.pairwise_cons]
    refine ⟨fun address haddress => ?_, pairwise_innerAddressesAll (c :: cs)⟩
    obtain ⟨i, rest, rfl⟩ := exists_cons_of_mem_innerAddressesAll haddress
    exact List.nil_lt_cons i rest

/-- Operands are listed from left to right. -/
theorem pairwise_innerAddressesAll : ∀ ts : List Tree, (innerAddressesAll ts).Pairwise (· < ·)
  | [] => .nil
  | t :: ts => by
    rw [innerAddressesAll, List.pairwise_append, List.pairwise_map, List.pairwise_map]
    refine ⟨(pairwise_innerAddresses t).imp List.cons_lt_cons_self.2, ?_, ?_⟩
    · refine (pairwise_innerAddressesAll ts).imp_of_mem fun ha hb hlt => ?_
      obtain ⟨i, rest, rfl⟩ := exists_cons_of_mem_innerAddressesAll ha
      obtain ⟨j, rest', rfl⟩ := exists_cons_of_mem_innerAddressesAll hb
      rw [List.cons_lt_cons_iff] at hlt
      simpa [List.cons_lt_cons_iff] using hlt
    · intro a ha b hb
      obtain ⟨rest, -, rfl⟩ := List.mem_map.1 ha
      obtain ⟨address, haddress, rfl⟩ := List.mem_map.1 hb
      obtain ⟨i, rest', rfl⟩ := exists_cons_of_mem_innerAddressesAll haddress
      exact List.cons_lt_cons_iff.2 (.inl (Nat.succ_pos i))

end

/-! ## Numbers -/

/-- The number of a node, counted in preorder: how many inner nodes stand at its address or in
    front of it. -/
noncomputable def number (t : Tree) (address : List Nat) : Nat :=
  {other | t.IsInner other ∧ other ≤ address}.ncard

/-- The place of an inner node in the list is its number. -/
theorem getElem?_innerAddresses_iff {k : Nat} :
    t.innerAddresses[k]? = some address ↔ t.IsInner address ∧ t.number address = k + 1 := by
  have hnumber {k : Nat} (h : t.innerAddresses[k]? = some address) :
      t.IsInner address ∧ t.number address = k + 1 := by
    obtain ⟨hk, rfl⟩ := List.getElem?_eq_some_iff.1 h
    refine ⟨(mem_innerAddresses_iff t _).1 (List.getElem_mem hk), ?_⟩
    simp only [number, ← mem_innerAddresses_iff]
    exact ncard_le_getElem (pairwise_innerAddresses t) hk
  refine ⟨hnumber, fun ⟨hinner, hk⟩ => ?_⟩
  obtain ⟨j, hj⟩ := List.mem_iff_getElem?.1 ((mem_innerAddresses_iff t address).2 hinner)
  obtain rfl : j = k := by
    have := (hnumber hj).2
    omega
  exact hj

/-- The numbers are those from one on. -/
theorem exists_number_eq (h : t.IsInner address) :
    ∃ k, t.number address = k + 1 ∧ k < t.innerCount := by
  obtain ⟨k, hk⟩ := List.mem_iff_getElem?.1 ((mem_innerAddresses_iff t address).2 h)
  refine ⟨k, (getElem?_innerAddresses_iff.1 hk).2, ?_⟩
  rw [← length_innerAddresses]
  exact (List.getElem?_eq_some_iff.1 hk).1

/-- The root has the first number. -/
theorem number_nil (h : t.IsInner []) : t.number [] = 1 := by
  have hfirst : t.innerAddresses[0]? = some [] := by
    obtain ⟨op, c, cs, ht⟩ := h
    cases ht
    rfl
  exact (getElem?_innerAddresses_iff.1 hfirst).2

/-- Each number up to the count of the inner nodes is that of exactly one of them. -/
theorem bijOn_number (t : Tree) :
    Set.BijOn t.number {address | t.IsInner address} (Set.Icc 1 t.innerCount) := by
  refine ⟨fun address haddress => ?_, fun address haddress other hother heq => ?_, fun k hk => ?_⟩
  · obtain ⟨k, hk, hlt⟩ := exists_number_eq haddress
    exact ⟨by omega, by omega⟩
  · obtain ⟨k, hk, -⟩ := exists_number_eq haddress
    have hget := getElem?_innerAddresses_iff.2 ⟨haddress, hk⟩
    rw [getElem?_innerAddresses_iff.2 ⟨hother, heq.symm.trans hk⟩] at hget
    exact (Option.some.inj hget).symm
  · obtain ⟨k, rfl⟩ := Nat.exists_eq_add_of_le' hk.1
    have hlt : k < t.innerAddresses.length := by
      rw [length_innerAddresses]
      exact hk.2
    exact ⟨_, getElem?_innerAddresses_iff.1 (List.getElem?_eq_getElem hlt)⟩

/-- Each number from two on is that of exactly one inner node below the root. -/
theorem bijOn_number_below (t : Tree) :
    Set.BijOn t.number {address | t.IsInner address ∧ address ≠ []} (Set.Icc 2 t.innerCount) := by
  have hall := t.bijOn_number
  refine ⟨fun address haddress => ?_, hall.injOn.mono fun _ h => h.1, fun k hk => ?_⟩
  · obtain ⟨hinner, hne⟩ := haddress
    obtain ⟨hpos, hle⟩ := hall.mapsTo hinner
    have hroot : t.IsInner [] := by
      obtain ⟨i, rest, rfl⟩ := List.exists_cons_of_ne_nil hne
      obtain ⟨c, hc, -⟩ := isInner_cons_iff.1 hinner
      exact isInner_nil_iff.2 (List.ne_nil_of_mem (List.mem_of_getElem? hc))
    have hnot : t.number address ≠ 1 := fun h =>
      hne (hall.injOn hinner hroot (h.trans (number_nil hroot).symm))
    exact ⟨by omega, hle⟩
  · obtain ⟨address, hinner, rfl⟩ := hall.surjOn ⟨Nat.le_of_succ_le hk.1, hk.2⟩
    refine ⟨address, ⟨hinner, fun hnil => ?_⟩, rfl⟩
    subst hnil
    have hfirst := number_nil hinner
    have := hk.1
    omega

/-! ## The node that is found -/

/-- The operators of the inner nodes are entries of the table with operands. -/
def InnerInTable (t : Tree) : Prop :=
  ∀ address op c cs, t.at? address = some (.node op (c :: cs)) →
    op ∈ Operator.table ∧ op.terminal = false

theorem KeepsRules.innerInTable (h : t.KeepsRules) : t.InnerInTable := by
  intro address op c cs hop
  have htakes := h _ _ _ hop
  refine ⟨htakes.mem, ?_⟩
  rw [← Bool.not_eq_true, ← htakes.eq_nil_iff]
  exact List.cons_ne_nil _ _

/-- In place of an entry with operands there is one of the opposite curvature, hence another
    one. -/
theorem InnerInTable.isOpposite (h : t.InnerInTable) {t' : Tree} {op op' : Operator}
    (hdiffers : t.DiffersAt t' address op op') (hreplace : op.MayReplace op') :
    op.IsOpposite op' ∧ op' ≠ op := by
  obtain ⟨c, cs, hold⟩ := hdiffers.old
  obtain ⟨hmem, hinner⟩ := h _ _ _ _ hold
  have hopposite := hreplace.isOpposite hmem hinner
  refine ⟨hopposite, ?_⟩
  rintro rfl
  have hconvex := hopposite.convex
  rw [(Operator.curvature_of_inner hmem hinner).1] at hconvex
  cases hcurvature : op'.shape.convex <;> simp [hcurvature] at hconvex

section Drawn

variable {ρ : Type} [RandomSource ρ]

/-- A rule is broken at the node whose number is two more than the index that is drawn. -/
theorem breakRule_run (h : 1 < t.innerCount) (source : ρ) :
    let drawn := (Draw.index (t.innerCount - 1) (Nat.sub_pos_of_lt h)).run source
    (t.breakRule.run source).1 = ((t.replaceInner (drawn.1.val + 2) 0).run drawn.2).1.1 := by
  rw [breakRule, dif_pos h]
  rfl

/-- Counted from the root of a tree of the table, the inner node with the chosen number gets
    another operator, of the opposite curvature. Nothing else changes, and nothing at all if no
    inner node has the number; in any case all inner nodes have been counted. Each number from
    one on is that of exactly one inner node, up to as many as there are. So among those from two
    on, of which a rule is broken with one, each inner node below the root has exactly one, and
    the root has none. -/
theorem replaceInner_number (h : t.InnerInTable) :
    (∀ chosen : Nat, Always (t.replaceInner chosen 0 : Draw ρ _) fun p =>
      p.2 = t.innerCount ∧ (chosen ∉ Set.Icc 1 t.innerCount → p.1 = t) ∧
        ∀ address, t.IsInner address → t.number address = chosen →
          ∃ op op', t.DiffersAt p.1 address op op' ∧ op.IsOpposite op' ∧ op' ≠ op) ∧
    Set.BijOn t.number {address | t.IsInner address} (Set.Icc 1 t.innerCount) ∧
    (t.IsInner [] → t.number [] = 1) ∧
    Set.BijOn t.number {address | t.IsInner address ∧ address ≠ []} (Set.Icc 2 t.innerCount) ∧
    ∀ (hcount : 1 < t.innerCount) (source : ρ),
      let drawn := (Draw.index (t.innerCount - 1) (Nat.sub_pos_of_lt hcount)).run source
      (t.breakRule.run source).1 = ((t.replaceInner (drawn.1.val + 2) 0).run drawn.2).1.1 := by
  refine ⟨fun chosen source => ?_, t.bijOn_number, number_nil, t.bijOn_number_below,
    breakRule_run⟩
  obtain ⟨hseen, haltered⟩ := t.always_replaceInner chosen 0 source
  refine ⟨hseen.trans (Nat.zero_add _), fun hnot => ?_, fun address hinner hnumber => ?_⟩
  · rw [Set.mem_Icc, not_and_or, Nat.not_le, Nat.not_le] at hnot
    rcases hnot with hlt | hlt
    · exact haltered.early (Nat.le_of_lt_succ hlt)
    · exact haltered.late (by omega)
  · obtain ⟨k, hk, -⟩ := exists_number_eq hinner
    obtain ⟨op, op', hreplace, hreplaced⟩ := haltered.hit k address (by omega)
      (getElem?_innerAddresses_iff.2 ⟨hinner, hk⟩)
    exact ⟨op, op', hreplaced.differsAt, h.isOpposite hreplaced.differsAt hreplace⟩

/-- The greatest value is the second inner node of a difference. -/
theorem replaceInner_number_max :
    let t := ((drawTree [.ofConcave] 0.1 2 : Draw Xoshiro Tree).run (.ofSeed 140)).1
    t.InnerInTable ∧ t.text = "z - max(z, 364 * z)" ∧ t.innerCount = 2 ∧
      Always (t.replaceInner 2 0 : Draw Xoshiro _) fun p =>
        p.2 = 2 ∧ ∃ op op', t.DiffersAt p.1 [1] op op' ∧ op.IsOpposite op' ∧ op' ≠ op := by
  intro t
  have htable : t.InnerInTable :=
    (grow_keepsRules 2 (maxDepth - 1) [.ofConcave] 0.1 (Xoshiro.ofSeed 140)).2.innerInTable
  have htext : t.text = "z - max(z, 364 * z)" := by decide +kernel
  have hcount : t.innerCount = 2 := by decide +kernel
  have hsecond : t.innerAddresses[1]? = some [1] := by decide +kernel
  obtain ⟨hinner, hnumber⟩ := getElem?_innerAddresses_iff.1 hsecond
  refine ⟨htable, htext, hcount, fun source => ?_⟩
  obtain ⟨hseen, -, hfound⟩ := (replaceInner_number htable).1 2 source
  exact ⟨hseen.trans hcount, hfound [1] hinner hnumber⟩

end Drawn

end Tree

end ConvexLang.Quiz
