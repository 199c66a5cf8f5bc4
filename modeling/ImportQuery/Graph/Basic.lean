import ImportQuery.IdSet
import Std.Data.ExtTreeMap

/-!
# Import graphs

The packages of a program and which of them import which. A package may be a test variant of
another one, which itself need not be in the graph. A graph keeps its imports in both directions,
and the test variants by the package they test, so that each can be looked up at once. How graphs
are made is said in `Graph/Edit.lean`.
-/

namespace ImportQuery

/-- A package in a graph. -/
structure Node where
  id : String
  /-- The package builds an executable. -/
  executable : Bool
  /-- For a test variant, the package it tests. -/
  testFor : Option String
  deriving DecidableEq, Repr

/-- The node is a test variant. -/
def Node.isTest (n : Node) : Bool := n.testFor.isSome

/-! ## Indexes -/

/-- A relation between identifiers, looked up by its left side. -/
structure Index where
  entries : Std.ExtTreeMap String IdSet

namespace Index

/-- The index of the empty relation. -/
def empty : Index := ⟨∅⟩

/-- The identifiers related to `key`. -/
def find (ix : Index) (key : String) : IdSet := ix.entries.getD key ∅

/-- The relation that relates `key` to `id` too. -/
def relate (ix : Index) (key id : String) : Index :=
  ⟨ix.entries.insert key ((ix.find key).insert id)⟩

@[simp] theorem find_empty (key : String) : empty.find key = ∅ := by simp [find, empty]

theorem find_relate (ix : Index) (key id x : String) :
    (ix.relate key id).find x = if x = key then (ix.find key).insert id else ix.find x := by
  by_cases h : x = key
  · simp [find, relate, h]
  · simp [find, relate, h, Std.ExtTreeMap.getD_insert, Ne.symm h]

@[simp] theorem mem_find_relate {ix : Index} {key id x y : String} :
    y ∈ (ix.relate key id).find x ↔ (x = key ∧ y = id) ∨ y ∈ ix.find x := by
  rw [find_relate]
  split
  · rename_i h
    simp [h, @eq_comm _ id y]
  · simp_all

end Index

/-! ## Graphs -/

/-- The packages of a program and their imports. -/
structure Graph where
  nodes : Std.ExtTreeMap String Node
  /-- From a package to those it imports. -/
  importIndex : Index
  /-- From a package to those that import it. -/
  importerIndex : Index
  /-- From a package to its test variants. -/
  variantIndex : Index

namespace Graph

/-- The graph without nodes. -/
def empty : Graph := ⟨∅, .empty, .empty, .empty⟩

/-- The node with the identifier `id`. -/
def node? (g : Graph) (id : String) : Option Node := g.nodes[id]?

/-- There is a node with the identifier `id`. -/
def contains (g : Graph) (id : String) : Bool := (g.node? id).isSome

/-- The identifiers of all nodes. -/
def ids (g : Graph) : IdSet := .ofList g.nodes.keys

/-- The number of nodes. -/
def size (g : Graph) : Nat := g.nodes.size

/-- The packages that `id` imports. -/
def imports (g : Graph) (id : String) : IdSet := g.importIndex.find id

/-- The packages that import `id`. -/
def importers (g : Graph) (id : String) : IdSet := g.importerIndex.find id

/-- The test variants of `id`. -/
def variants (g : Graph) (id : String) : IdSet := g.variantIndex.find id

/-- The node `id` is a test variant. -/
def isTest (g : Graph) (id : String) : Bool := (g.node? id).any (·.isTest)

/-- The node `id` builds an executable. -/
def isExecutable (g : Graph) (id : String) : Bool := (g.node? id).any (·.executable)

end Graph

end ImportQuery
