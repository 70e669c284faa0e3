import ConvexLang.Proofs.Binary64.PlainText
import ConvexLang.Proofs.Lexing
import ConvexLang.Session

/-!
# Well-annotated sessions

Whatever a session is given to read, and however much of it fails, its symbols
are declared symbols under their own names and every node of its statements has
the annotations it should have: an arithmetic operator knows neither sign nor
curvature, a call has those of its atom, and a leaf those of its declaration or
its value.

* `IsAnnotated`: what holds of one node. It looks at the node and its slots;
  what stands in the slots are nodes of their own (`Expr.nodes`).
* `HoldsOfNodes`: what the grammar has to keep of a property of nodes. Then all nodes
  of what it derives from the kinds of a text have the property (`IsSum.nodes`). Over
  well-formed symbols they are annotated (`holdsOfNodes_isAnnotated`).
* `Session.run_induction`: a property of sessions that accepted lines keep holds after
  every run, however much of it fails.
* `Session.HasNodes`: so the nodes of all statements of a session have the property, if
  the grammar keeps it over all well-formed symbols (`HasNodes.run`).
* `Session.WellAnnotated`: the invariant, which every run keeps (`wellAnnotated_run`).
-/

namespace ConvexLang

/-! ## Nodes -/

namespace Expr

mutual

/-- All nodes of an expression, the expression first. -/
def nodes : Expr → List Expr
  | symbol r n s p => [symbol r n s p]
  | literal v p => [literal v p]
  | compound n s c os p => compound n s c os p :: nodesOperands os

/-- All nodes in one slot. -/
def nodesOperand : Operand → List Expr
  | .expr e => nodes e
  | .absent | .word _ => []

/-- All nodes in several slots. -/
def nodesOperands : List Operand → List Expr
  | [] => []
  | o :: os => nodesOperand o ++ nodesOperands os

end

end Expr

/-- All nodes of a statement. -/
def Statement.nodes : Statement → List Expr
  | expr e => e.nodes
  | constraint _ a b => a.nodes ++ b.nodes

/-- The number is at least zero, and is a number. -/
def Number.IsNonneg : Number → Prop
  | whole n => 0 ≤ n
  | real x => x.isNaN = false ∧ 0 ≤ x

/-- The compound is an arithmetic operator between two expressions or a minus sign
    in front of one, of which nothing is known. -/
inductive IsOperation : String → Sign → Curvature → List Operand → Prop
  | binary {name : String} {a b : Expr} : name ∈ Expr.arithmetic →
    IsOperation name .unknown .unknown [.expr a, .expr b]
  | negation {a : Expr} : IsOperation "-" .unknown .unknown [.expr a]

/-- The compound is a call of a known atom that takes so many slots, and has its
    sign and its curvature. A word in a slot is `Inf`. -/
structure IsCall (atoms : Registry) (name : String) (sign : Sign) (curvature : Curvature)
    (operands : List Operand) : Prop where
  /-- The atom. -/
  atom : ∃ p, atoms.get? name = some p ∧ p.accepts operands.length = true ∧ sign = p.sign ∧
    curvature = p.curvature
  /-- There is a slot. -/
  slots : operands ≠ []
  /-- The words. -/
  words : ∀ text, .word text ∈ operands → text = "Inf"

/-- The node has the annotations it should have. -/
inductive IsAnnotated (atoms : Registry) : Expr → Prop
  | decision {name : String} {sign : Sign} {parens : Bool} :
    (Expr.symbol .decision name sign parens).curvature = .affine →
      IsAnnotated atoms (.symbol .decision name sign parens)
  | parameter {name : String} {sign : Sign} {parens : Bool} :
    (Expr.symbol .parameter name sign parens).curvature = .constant →
      IsAnnotated atoms (.symbol .parameter name sign parens)
  | literal {v : Number} {parens : Bool} : v.IsNonneg → IsAnnotated atoms (.literal v parens)
  | compound {name : String} {sign : Sign} {curvature : Curvature} {operands : List Operand}
    {parens : Bool} :
    IsOperation name sign curvature operands ∨ IsCall atoms name sign curvature operands →
      IsAnnotated atoms (.compound name sign curvature operands parens)

/-- All nodes of the expression have the annotations they should have. -/
def Expr.WellAnnotated (atoms : Registry) (e : Expr) : Prop :=
  ∀ a ∈ e.nodes, IsAnnotated atoms a

/-- The symbols stand under their own names, which have the form of a name and are
    no keywords, and carry no parentheses. -/
def Symbols.WellFormed (symbols : Symbols) : Prop :=
  ∀ name e, symbols.get? name = some e →
    isIdentifier name = true ∧ keyword? name = none ∧
      ∃ role sign, e = .symbol role name sign false

theorem isAnnotated_symbol {atoms : Registry} {role : Role} {name : String} {sign : Sign}
    {parens : Bool} : IsAnnotated atoms (.symbol role name sign parens) := by
  cases role
  · exact .decision rfl
  · exact .parameter rfl

/-! ## Derivations -/

theorem nonneg_of_isWritten {x : Float} (h : (TokenKind.real x).IsWritten) :
    (Number.real x).IsNonneg := by
  obtain ⟨d, rfl⟩ := h
  exact ⟨(Binary64.unsigned_toFloat d).isNaN,
    Binary64.nonneg_of_unsigned (Binary64.unsigned_toFloat d)⟩

namespace Grammar

variable {scope : Scope}

theorem IsSlots.ne_nil {n : Nat} {ks : List TokenKind} {os : List Operand}
    (d : IsSlots scope n ks os) : os ≠ [] := by
  cases d <;> exact List.cons_ne_nil _ _

theorem IsSlot.word {n : Nat} {ks : List TokenKind} {text : String} :
    IsSlot scope n ks (.word text) → text = "Inf"
  | .infinity => rfl

theorem IsSlots.words {n : Nat} {ks : List TokenKind} {os : List Operand} {text : String} :
    IsSlots scope n ks os → .word text ∈ os → text = "Inf"
  | .last d, h => by
    obtain rfl := List.mem_singleton.1 h
    exact d.word
  | .cons d d', h => by
    rcases List.mem_cons.1 h with rfl | h
    · exact d.word
    · exact d'.words h

/-- A property that every node has which the grammar builds over the scope from the kinds
    of a text. -/
structure HoldsOfNodes (scope : Scope) (P : Expr → Prop) : Prop where
  /-- The flag of a node does not matter. -/
  inParens {e : Expr} : P e → P e.inParens
  integer {n : Nat} : (TokenKind.integer n).IsWritten → P (.ofNumber (.whole n))
  real {x : Float} : (TokenKind.real x).IsWritten → P (.ofNumber (.real x))
  symbol {name : String} {e : Expr} : scope.symbols.get? name = some e → ∀ a ∈ e.nodes, P a
  binary {name : String} {a b : Expr} : name ∈ Expr.arithmetic → P (.operator name [a, b])
  negation {a : Expr} : P (.operator "-" [a])
  call {n : Nat} {ks : List TokenKind} {name : String} {p : Profile} {os : List Operand} :
    IsSlots scope n ks os → scope.atoms.get? name = some p → p.accepts os.length = true →
      P (.compound name p.sign p.curvature os false)

section Nodes

variable {P : Expr → Prop}

theorem HoldsOfNodes.nodes_inParens (h : HoldsOfNodes scope P) {e : Expr}
    (he : ∀ a ∈ e.nodes, P a) : ∀ a ∈ e.inParens.nodes, P a := by
  cases e with
  | symbol | literal =>
    intro a ha
    rw [List.mem_singleton.1 ha]
    exact h.inParens (he _ List.mem_cons_self)
  | compound =>
    intro a ha
    rcases List.mem_cons.1 ha with rfl | ha
    · exact h.inParens (he _ List.mem_cons_self)
    · exact he a (List.mem_cons_of_mem _ ha)

theorem HoldsOfNodes.nodes_binary (h : HoldsOfNodes scope P) {a b : Expr}
    (ha : ∀ c ∈ a.nodes, P c) (hb : ∀ c ∈ b.nodes, P c) {name : String}
    (hname : name ∈ Expr.arithmetic) : ∀ c ∈ (Expr.operator name [a, b]).nodes, P c := by
  intro e he
  simp only [Expr.operator, Expr.nodes, List.map_cons, List.map_nil, Expr.nodesOperands,
    Expr.nodesOperand, List.append_nil, List.mem_cons, List.mem_append] at he
  rcases he with rfl | he | he
  · exact h.binary hname
  · exact ha e he
  · exact hb e he

theorem HoldsOfNodes.nodes_negation (h : HoldsOfNodes scope P) {a : Expr}
    (ha : ∀ c ∈ a.nodes, P c) : ∀ c ∈ (Expr.operator "-" [a]).nodes, P c := by
  intro e he
  simp only [Expr.operator, Expr.nodes, List.map_cons, List.map_nil, Expr.nodesOperands,
    Expr.nodesOperand, List.append_nil, List.mem_cons] at he
  rcases he with rfl | he
  · exact h.negation
  · exact ha e he

mutual

theorem IsSigned.nodes (h : HoldsOfNodes scope P) {n : Nat} {ks : List TokenKind} {e : Expr}
    (hks : ∀ k ∈ ks, k.IsWritten) : IsSigned scope n ks e → ∀ a ∈ e.nodes, P a
  | .plus d => d.nodes h fun k hk => hks k (List.mem_cons_of_mem _ hk)
  | .minus d => h.nodes_negation (d.nodes h fun k hk => hks k (List.mem_cons_of_mem _ hk))
  | .integer => fun a ha => by
    rw [List.mem_singleton.1 ha]
    exact h.integer (hks _ List.mem_cons_self)
  | .real => fun a ha => by
    rw [List.mem_singleton.1 ha]
    exact h.real (hks _ List.mem_cons_self)
  | .symbol he => h.symbol he
  | .call d hp hacc => fun a ha => by
    rcases List.mem_cons.1 ha with rfl | ha
    · exact h.call d hp hacc
    · exact d.nodes h (fun k hk => hks k (by simp [hk])) a ha
  | .parens d => h.nodes_inParens (d.nodes h fun k hk => hks k (by simp [hk]))

theorem IsProduct.nodes (h : HoldsOfNodes scope P) {n : Nat} {ks : List TokenKind} {e : Expr}
    (hks : ∀ k ∈ ks, k.IsWritten) : IsProduct scope n ks e → ∀ a ∈ e.nodes, P a
  | .signed d => d.nodes h hks
  | .times d d' =>
    h.nodes_binary (d.nodes h fun k hk => hks k (by simp [hk]))
      (d'.nodes h fun k hk => hks k (by simp [hk])) (by decide)
  | .over d d' =>
    h.nodes_binary (d.nodes h fun k hk => hks k (by simp [hk]))
      (d'.nodes h fun k hk => hks k (by simp [hk])) (by decide)

/-- All nodes of a sum of what a text can hold have the property. -/
theorem IsSum.nodes (h : HoldsOfNodes scope P) {n : Nat} {ks : List TokenKind} {e : Expr}
    (hks : ∀ k ∈ ks, k.IsWritten) : IsSum scope n ks e → ∀ a ∈ e.nodes, P a
  | .product d => d.nodes h hks
  | .plus d d' =>
    h.nodes_binary (d.nodes h fun k hk => hks k (by simp [hk]))
      (d'.nodes h fun k hk => hks k (by simp [hk])) (by decide)
  | .minus d d' =>
    h.nodes_binary (d.nodes h fun k hk => hks k (by simp [hk]))
      (d'.nodes h fun k hk => hks k (by simp [hk])) (by decide)

theorem IsSlot.nodes (h : HoldsOfNodes scope P) {n : Nat} {ks : List TokenKind} {o : Operand}
    (hks : ∀ k ∈ ks, k.IsWritten) : IsSlot scope n ks o → ∀ a ∈ Expr.nodesOperand o, P a
  | .absent => fun _ ha => nomatch ha
  | .infinity => fun _ ha => nomatch ha
  | .expr d => d.nodes h hks

theorem IsSlots.nodes (h : HoldsOfNodes scope P) {n : Nat} {ks : List TokenKind}
    {os : List Operand} (hks : ∀ k ∈ ks, k.IsWritten) :
    IsSlots scope n ks os → ∀ a ∈ Expr.nodesOperands os, P a
  | .last d => fun a ha => by
    rw [Expr.nodesOperands, Expr.nodesOperands, List.append_nil] at ha
    exact d.nodes h hks a ha
  | .cons d d' => fun a ha => by
    rw [Expr.nodesOperands] at ha
    rcases List.mem_append.1 ha with ha | ha
    · exact d.nodes h (fun k hk => hks k (by simp [hk])) a ha
    · exact d'.nodes h (fun k hk => hks k (by simp [hk])) a ha

end

theorem IsStatement.nodes (h : HoldsOfNodes scope P) {ks : List TokenKind} {s : Statement}
    (hks : ∀ k ∈ ks, k.IsWritten) :
    IsStatement scope ks s → ∀ a ∈ s.nodes, P a
  | .expr d => d.nodes h hks
  | .constraint d d' => fun a ha => by
    rcases List.mem_append.1 ha with ha | ha
    · exact d.nodes h (fun k hk => hks k (by simp [hk])) a ha
    · exact d'.nodes h (fun k hk => hks k (by simp [hk])) a ha

end Nodes

theorem holdsOfNodes_isAnnotated (hs : scope.symbols.WellFormed) :
    HoldsOfNodes scope (IsAnnotated scope.atoms) where
  inParens := by
    intro e he
    cases he with
    | decision hc => exact .decision hc
    | parameter hc => exact .parameter hc
    | literal hv => exact .literal hv
    | compound hc => exact .compound hc
  integer _ := .literal (Int.natCast_nonneg _)
  real hx := .literal (nonneg_of_isWritten hx)
  symbol he a ha := by
    obtain ⟨-, -, role, sign, rfl⟩ := hs _ _ he
    rw [List.mem_singleton.1 ha]
    exact isAnnotated_symbol
  binary hname := .compound (.inl (.binary hname))
  negation := .compound (.inl .negation)
  call d hp hacc := .compound (.inr ⟨⟨_, hp, hacc, rfl, rfl⟩, d.ne_nil, fun _ => d.words⟩)

/-- Declared names have the form of a name and are no keywords. -/
theorem IsDeclaration.isWritten {ks : List TokenKind} {d : Declared} {names : List String}
    (h : IsDeclaration ks d names) (hks : ∀ k ∈ ks, k.IsWritten) :
    ∀ name ∈ names, isIdentifier name = true ∧ keyword? name = none := by
  intro name hname
  have hmem := List.mem_map_of_mem (f := TokenKind.identifier) hname
  cases h with
  | signed => exact hks _ (List.mem_cons_of_mem _ (List.mem_cons_of_mem _ hmem))
  | unsigned => exact hks _ (List.mem_cons_of_mem _ hmem)

end Grammar

/-! ## Sessions -/

theorem Symbols.wellFormed_empty : Symbols.WellFormed .empty :=
  fun _ _ h => nomatch h

/-- A name that is among those declared stands for a symbol of that role and sign, whatever
    it stood for before. -/
theorem Symbols.node?_declare (symbols : Symbols) (d : Declared) (names : List String)
    (name : String) : (symbols.declare d names).node? name =
      if name ∈ names then some (d.symbol name) else symbols.node? name := by
  induction names generalizing symbols with
  | nil => rfl
  | cons first names ih =>
    have hfirst : (symbols.insert first (d.symbol first)).get? name =
        if first = name then some (d.symbol first) else symbols.get? name :=
      Table.get?_insert ..
    refine (ih (symbols.insert first (d.symbol first))).trans ?_
    rw [Symbols.node?, hfirst]
    by_cases hname : name ∈ names
    · rw [if_pos hname, if_pos (List.mem_cons_of_mem _ hname)]
    · rw [if_neg hname]
      by_cases heq : first = name
      · subst heq
        rw [if_pos rfl, if_pos List.mem_cons_self]
      · have hnot : name ∉ first :: names := by
          rintro (_ | ⟨_, hmem⟩)
          · exact heq rfl
          · exact hname hmem
        rw [if_neg heq, if_neg hnot, Symbols.node?]

/-- Declarations of well-formed names keep symbols well-formed. -/
theorem Symbols.WellFormed.declare {symbols : Symbols} (h : symbols.WellFormed) (d : Declared)
    {names : List String}
    (hnames : ∀ name ∈ names, isIdentifier name = true ∧ keyword? name = none) :
    (symbols.declare d names).WellFormed := by
  intro name e he
  have hnode := (symbols.node?_declare d names name).symm.trans he
  split at hnode
  · rename_i hname
    obtain ⟨hid, hkey⟩ := hnames name hname
    exact ⟨hid, hkey, d.role, d.sign, (Option.some.inj hnode).symm⟩
  · exact h name e hnode

namespace Session

section Runs

variable {atoms : Registry} {P : Session → Prop} (hreset : P { atoms })
  (happly : ∀ {s : Session} {line : String} {l : Line}, s.atoms = atoms → P s →
    ConvexLang.readLine s.scope line = .ok l → P (s.apply l))
include happly

theorem readLine_induction {s : Session} (hs : s.atoms = atoms) (h : P s) (line : String) :
    (s.readLine line).1.atoms = atoms ∧ P (s.readLine line).1 := by
  rw [Session.readLine]
  split
  · exact ⟨hs, h⟩
  · rename_i l hl
    exact ⟨(atoms_apply s l).trans hs, happly hs h hl⟩

theorem readLines_induction {s : Session} (hs : s.atoms = atoms) (h : P s) (number : Nat)
    (lines : List String) :
    (s.readLines number lines).1.atoms = atoms ∧ P (s.readLines number lines).1 := by
  induction lines generalizing s number with
  | nil => exact ⟨hs, h⟩
  | cons line lines ih =>
    have hline := readLine_induction happly hs h line
    rw [Session.readLines]
    split
    · rename_i hread
      rwa [hread] at hline
    · rename_i hread
      rw [hread] at hline
      exact ih hline.1 hline.2 _

include hreset

theorem perform_induction {s : Session} (hs : s.atoms = atoms) (h : P s) (c : Call) :
    (s.perform c).atoms = atoms ∧ P (s.perform c) := by
  cases c with
  | text text => exact readLines_induction happly hs h 1 _
  | line line => exact readLine_induction happly hs h line
  | reset =>
    subst hs
    exact ⟨rfl, hreset⟩

/-- What holds of a new session, and of a session with one more accepted line if it holds
    without it, holds after every run. -/
theorem run_induction {s : Session} (hs : s.atoms = atoms) (h : P s) (calls : List Call) :
    (s.run calls).atoms = atoms ∧ P (s.run calls) := by
  induction calls generalizing s with
  | nil => exact ⟨hs, h⟩
  | cons c calls ih =>
    obtain ⟨hs', h'⟩ := perform_induction hreset happly hs h c
    exact ih hs' h'

end Runs

/-- The symbols are well-formed and all nodes of the statements have the property. -/
structure HasNodes (P : Expr → Prop) (s : Session) : Prop where
  /-- The symbols are well-formed. -/
  symbols : s.symbols.WellFormed
  /-- All nodes of all statements have the property. -/
  statements : ∀ t ∈ s.statements, ∀ a ∈ t.nodes, P a

section Nodes

variable {atoms : Registry} {P : Expr → Prop}
  (hP : ∀ symbols : Symbols, symbols.WellFormed → Grammar.HoldsOfNodes ⟨symbols, atoms⟩ P)

theorem hasNodes_of_atoms : HasNodes P { atoms } where
  symbols := Symbols.wellFormed_empty
  statements := fun _ ht => nomatch ht

include hP

/-- An accepted line keeps the nodes as they should be. -/
theorem HasNodes.apply {s : Session} (hs : s.atoms = atoms) (h : s.HasNodes P) {line : String}
    {l : Line} (hl : ConvexLang.readLine s.scope line = .ok l) : (s.apply l).HasNodes P := by
  obtain ⟨ks, hks, hl⟩ := readLine_eq_ok_iff_kinds.1 hl
  have hwritten := isWritten_of_kinds? hks
  cases l with
  | empty => exact h
  | declaration d names =>
    have hd := Grammar.line_eq_ok_declaration_iff.1 hl
    exact ⟨h.symbols.declare d (hd.isWritten hwritten), h.statements⟩
  | statement t =>
    have ht := Grammar.line_eq_ok_statement_iff.1 hl
    refine ⟨h.symbols, fun u hu => ?_⟩
    rcases List.mem_append.1 hu with hu | hu
    · exact h.statements u hu
    · rw [List.mem_singleton.1 hu]
      subst hs
      exact ht.nodes (hP _ h.symbols) hwritten

theorem HasNodes.run {s : Session} (hs : s.atoms = atoms) (h : s.HasNodes P) (calls : List Call) :
    (s.run calls).atoms = atoms ∧ (s.run calls).HasNodes P :=
  run_induction hasNodes_of_atoms (fun hs h hl => h.apply hP hs hl) hs h calls

end Nodes

/-- The symbols are well-formed and the statements have annotated nodes only. -/
structure WellAnnotated (s : Session) : Prop where
  /-- The symbols are well-formed. -/
  symbols : s.symbols.WellFormed
  /-- All nodes of all statements are annotated. -/
  statements : ∀ t ∈ s.statements, ∀ a ∈ t.nodes, IsAnnotated s.atoms a

theorem wellAnnotated_of_atoms (atoms : Registry) : WellAnnotated { atoms } where
  symbols := Symbols.wellFormed_empty
  statements := fun _ ht => nomatch ht

theorem WellAnnotated.run {s : Session} (h : s.WellAnnotated) (calls : List Call) :
    (s.run calls).WellAnnotated := by
  obtain ⟨hatoms, hnodes⟩ := HasNodes.run (fun _ hs => Grammar.holdsOfNodes_isAnnotated hs)
    rfl ⟨h.symbols, h.statements⟩ calls
  exact ⟨hnodes.symbols, hatoms.symm ▸ hnodes.statements⟩

/-- Whatever a new session is asked to do, it is well annotated afterwards. -/
theorem wellAnnotated_run (atoms : Registry) (calls : List Call) :
    (Session.run { atoms } calls).WellAnnotated :=
  (wellAnnotated_of_atoms atoms).run calls

end Session

end ConvexLang
