/-!
# YAML trees

The tree a YAML document stands for. A scalar keeps how it was written, since
what a text may mean depends on it, and every node keeps the tag and the anchor
in front of it. Keys are nodes like any other.

An anchor is a number, and a `reference` points to an anchored node. Of several
nodes with one anchor the last in the document is meant, wherever the reference
stands: inside the node it points to, too. A reference is therefore followed one
step at a time (`Document.follow`) and never all the way.
-/

namespace ConvexLang

namespace Yaml

/-- How the text of a scalar is written. -/
inductive Style where
  /-- As it stands. -/
  | plain
  /-- In single or double quotes. -/
  | quoted
  /-- As a block of lines. -/
  | literal
  /-- As a block of lines of which those that belong together are joined. -/
  | folded
  deriving DecidableEq, Repr

/-- What stands in front of a node. -/
structure Properties where
  /-- The anchor of the node. -/
  anchor : Option Nat := none
  /-- The tag of the node. -/
  tag : Option String := none
  deriving DecidableEq, Repr

/-- The tag of a kind of scalars that the standard names, such as `int`. -/
def coreTag (kind : String) : String :=
  "tag:yaml.org,2002:" ++ kind

end Yaml

/-- A node of a YAML document. -/
inductive Yaml where
  /-- A text. -/
  | scalar (properties : Yaml.Properties) (style : Yaml.Style) (text : String)
  /-- A sequence. -/
  | sequence (properties : Yaml.Properties) (items : List Yaml)
  /-- A mapping; entries stand in the order of the document. -/
  | mapping (properties : Yaml.Properties) (entries : List (Yaml × Yaml))
  /-- The node with an anchor. -/
  | reference (anchor : Nat)

namespace Yaml

/-- The node of a place where nothing is written. -/
def nothing : Yaml :=
  scalar {} .plain ""

/-- The anchor of a node. -/
def anchor? : Yaml → Option Nat
  | scalar p _ _ | sequence p _ | mapping p _ => p.anchor
  | reference _ => none

/-- Whether a node only points to another. -/
def isReference : Yaml → Bool
  | reference _ => true
  | _ => false

/-- Whether a node may hold others. -/
def isCollection : Yaml → Bool
  | sequence _ _ | mapping _ _ => true
  | _ => false

mutual

/-- A node and all nodes in it, each in front of the nodes it holds. -/
def nodes : Yaml → List Yaml
  | scalar p style text => [scalar p style text]
  | sequence p items => sequence p items :: nodesOfItems items
  | mapping p entries => mapping p entries :: nodesOfEntries entries
  | reference a => [reference a]

/-- The nodes of the items of a sequence. -/
def nodesOfItems : List Yaml → List Yaml
  | [] => []
  | item :: items => nodes item ++ nodesOfItems items

/-- The nodes of the entries of a mapping. -/
def nodesOfEntries : List (Yaml × Yaml) → List Yaml
  | [] => []
  | entry :: entries => nodesOfEntry entry ++ nodesOfEntries entries

/-- The nodes of an entry: those of its key, then those of its value. -/
def nodesOfEntry : Yaml × Yaml → List Yaml
  | (key, value) => nodes key ++ nodes value

end

theorem mem_nodes (node : Yaml) : node ∈ node.nodes := by
  cases node <;> simp [nodes]

/-- The anchored nodes in a node, the last first. -/
def anchored (node : Yaml) : List (Nat × Yaml) :=
  node.nodes.reverse.filterMap fun n => n.anchor?.map fun a => (a, n)

theorem isReference_eq_false_of_mem_anchored {node n : Yaml} {a : Nat}
    (h : (a, n) ∈ node.anchored) : n.isReference = false := by
  simp only [anchored, List.mem_filterMap, List.mem_reverse, Option.map_eq_some_iff,
    Prod.mk.injEq] at h
  obtain ⟨m, -, b, hb, -, rfl⟩ := h
  cases m <;> simp_all [anchor?, isReference]

/-- A document: a tree and the nodes that references in it point to. -/
structure Document where
  /-- The tree. -/
  root : Yaml
  /-- The anchored nodes, the last first. -/
  targets : List (Nat × Yaml) := root.anchored

namespace Document

/-- The node a reference points to; any other node itself. -/
def follow (d : Document) : Yaml → Yaml
  | reference a => (d.targets.lookup a).getD (reference a)
  | node => node

theorem follow_eq_self {d : Document} {node : Yaml} (h : node.isReference = false) :
    d.follow node = node := by
  cases node <;> simp_all [follow, isReference]

/-- No reference points to another. -/
theorem follow_follow (root node : Yaml) :
    ({ root } : Document).follow (({ root } : Document).follow node)
      = ({ root } : Document).follow node := by
  cases node with
  | reference a =>
    cases h : root.anchored.lookup a with
    | none => simp [follow, h]
    | some n =>
      obtain ⟨l₁, l₂, hl, -⟩ := List.lookup_eq_some_iff.1 h
      have hn : n.isReference = false :=
        isReference_eq_false_of_mem_anchored (a := a) (by rw [hl]; simp)
      have hf : ({ root } : Document).follow (reference a) = n := by simp [follow, h]
      rw [hf, follow_eq_self hn]
  | _ => rfl

/-- The length of a document: a node that may hold others has a start and an end
    and counts twice. -/
def length (d : Document) : Nat :=
  d.root.nodes.length + (d.root.nodes.filter isCollection).length

end Document

end Yaml

end ConvexLang
