import ConvexLang.Quiz.Tree

/-!
# Addresses in trees

A node of a tree is told by its address: the operand positions on the way down to it.
The root has the empty address, and the address of an operand is that of its parent with
the operand's position behind it.

* `Tree.at?`, `Tree.operator?`: what stands at an address.
* `Tree.innerAddresses`: the addresses of the inner nodes in preorder, the order in which
  `Tree.innerCount` counts them.
* `Tree.Replaced`: a tree, and the tree with another operator at one inner node. These two
  differ nowhere else (`Replaced.differsAt`).
-/

namespace ConvexLang.Quiz

namespace Tree

variable {t t' : Tree} {op op' : Operator}

/-! ## What stands at an address -/

/-- The subtree at an address, if the address lies in the tree. -/
def at? (t : Tree) : List Nat → Option Tree
  | [] => some t
  | i :: address => t.children[i]?.bind fun c => c.at? address

/-- The operator at an address, if the address lies in the tree. -/
def operator? (t : Tree) (address : List Nat) : Option Operator :=
  (t.at? address).map operator

@[simp] theorem at?_nil (t : Tree) : t.at? [] = some t := rfl

@[simp] theorem at?_cons (t : Tree) (i : Nat) (address : List Nat) :
    t.at? (i :: address) = t.children[i]?.bind fun c => c.at? address := rfl

/-- The way down may be taken in two parts. -/
theorem at?_append (t : Tree) (first second : List Nat) :
    t.at? (first ++ second) = (t.at? first).bind fun s => s.at? second := by
  induction first generalizing t with
  | nil => rfl
  | cons i first ih =>
    rw [List.cons_append, at?_cons, at?_cons]
    rcases t.children[i]? with _ | c
    · rfl
    · exact ih c

/-- A node below the root is an operand of the node above it. -/
theorem at?_concat_eq_some_iff {address : List Nat} {i : Nat} {s : Tree} :
    t.at? (address ++ [i]) = some s ↔
      ∃ parent, t.at? address = some parent ∧ parent.children[i]? = some s := by
  simp [at?_append, Option.bind_eq_some_iff]

/-! ## Addresses of the inner nodes -/

mutual

/-- The addresses of the nodes with operands, in preorder. -/
def innerAddresses : Tree → List (List Nat)
  | node _ [] => []
  | node _ (c :: cs) => [] :: innerAddressesAll (c :: cs)

/-- The addresses of the nodes with operands in several operands of one node, the first of
    which stands at position zero. -/
def innerAddressesAll : List Tree → List (List Nat)
  | [] => []
  | t :: ts =>
    (innerAddresses t).map (0 :: ·) ++ (innerAddressesAll ts).map (List.modifyHead (· + 1))

end

mutual

theorem length_innerAddresses : ∀ t : Tree, t.innerAddresses.length = t.innerCount
  | node _ [] => rfl
  | node _ (c :: cs) => by
    rw [innerAddresses, innerCount, List.length_cons, length_innerAddressesAll, Nat.add_comm]

theorem length_innerAddressesAll : ∀ ts : List Tree,
    (innerAddressesAll ts).length = innerCountAll ts
  | [] => rfl
  | t :: ts => by
    rw [innerAddressesAll, innerCountAll, List.length_append, List.length_map, List.length_map,
      length_innerAddresses, length_innerAddressesAll]

end

/-- What lies in an operand does not have the address of the root. -/
theorem exists_cons_of_mem_innerAddressesAll {ts : List Tree} {address : List Nat}
    (h : address ∈ innerAddressesAll ts) : ∃ i rest, address = i :: rest := by
  induction ts generalizing address with
  | nil => cases h
  | cons t ts ih =>
    rw [innerAddressesAll, List.mem_append, List.mem_map, List.mem_map] at h
    rcases h with ⟨rest, -, rfl⟩ | ⟨address, hmem, rfl⟩
    · exact ⟨0, rest, rfl⟩
    · obtain ⟨i, rest, rfl⟩ := ih hmem
      exact ⟨i + 1, rest, rfl⟩

/-! ## Another operator at one inner node -/

/-- The second tree is the first one with an operator in the place of another, at the
    inner node with this address. -/
inductive Replaced (op op' : Operator) : List Nat → Tree → Tree → Prop
  | here {c : Tree} {cs : List Tree} :
    Replaced op op' [] (.node op (c :: cs)) (.node op' (c :: cs))
  | inside {parent : Operator} {before after : List Tree} {c c' : Tree} {address : List Nat} :
    Replaced op op' address c c' →
      Replaced op op' (before.length :: address) (.node parent (before ++ c :: after))
        (.node parent (before ++ c' :: after))

/-- The trees differ in the operator of one inner node: every node has as many operands in
    the one as in the other, and all other nodes have the same operator in both. -/
structure DiffersAt (t t' : Tree) (address : List Nat) (op op' : Operator) : Prop where
  /-- Nodes stand at the same addresses, and have the same numbers of operands. -/
  operands : ∀ other,
    (t'.at? other).map (·.children.length) = (t.at? other).map (·.children.length)
  /-- The operators are the same at all other addresses. -/
  elsewhere : ∀ other, other ≠ address → t'.operator? other = t.operator? other
  /-- The address is that of an inner node of the first tree, with the first operator. -/
  old : ∃ c cs, t.at? address = some (.node op (c :: cs))
  /-- The second tree has the second operator there. -/
  new : t'.operator? address = some op'

/-- Operands with another one at one position have the same ones at all others. -/
theorem getElem?_append_cons_of_ne (before after : List Tree) (c c' : Tree) {j : Nat}
    (hj : j ≠ before.length) : (before ++ c' :: after)[j]? = (before ++ c :: after)[j]? := by
  have hset : before ++ c' :: after = (before ++ c :: after).set before.length c' := by simp
  rw [hset, List.getElem?_set_ne hj.symm]

theorem Replaced.differsAt {address : List Nat} (h : Replaced op op' address t t') :
    DiffersAt t t' address op op' := by
  induction h with
  | @here c cs =>
    refine ⟨fun other => ?_, fun other hother => ?_, ⟨c, cs, rfl⟩, rfl⟩
    · rcases other with _ | ⟨i, rest⟩ <;> rfl
    · rcases other with _ | ⟨i, rest⟩
      · exact absurd rfl hother
      · rfl
  | @inside parent before after c c' address _ ih =>
    obtain ⟨hoperands, helsewhere, ⟨d, ds, hold⟩, hnew⟩ := ih
    have hc : (before ++ c :: after)[before.length]? = some c := by simp
    have hc' : (before ++ c' :: after)[before.length]? = some c' := by simp
    refine ⟨fun other => ?_, fun other hother => ?_, ⟨d, ds, ?_⟩, ?_⟩
    · rcases other with _ | ⟨i, rest⟩
      · simp [children]
      · by_cases hi : i = before.length
        · subst hi
          simpa [children] using hoperands rest
        · simp only [at?_cons, children, getElem?_append_cons_of_ne before after c c' hi]
    · rcases other with _ | ⟨i, rest⟩
      · rfl
      · by_cases hi : i = before.length
        · subst hi
          have hrest : rest ≠ address := fun heq => hother (heq ▸ rfl)
          simpa [operator?, children] using helsewhere rest hrest
        · simp only [operator?, at?_cons, children,
            getElem?_append_cons_of_ne before after c c' hi]
    · simpa [children] using hold
    · simpa [operator?, children] using hnew

end Tree

end ConvexLang.Quiz
