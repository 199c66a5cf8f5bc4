import ImportQuery.Graph.Basic

/-!
# Edits of a graph

The histories of graphs: every graph comes from the empty one by adding nodes and imports. An edit
changes the graph in place, step by step, and may fail between two steps; so that a failing edit
leaves the graph as it was is a fact about the edits, and not a matter of their type.

* `Graph.addNode` fails for an identifier that is taken.
* `Graph.addImport` fails unless both ends are in the graph.
-/

namespace ImportQuery

/-- Why a graph cannot be extended. -/
inductive GraphError
  | unknownNode (id : String)
  | duplicateNode (id : String)
  deriving DecidableEq, Repr

/-- The message that reports an error. -/
def GraphError.message : GraphError → String
  | unknownNode id => s!"Node {id} not found in graph"
  | duplicateNode id => s!"Node {id} already exists in graph"

/-- Changes of a graph that may fail. What was changed before a failure stays changed. -/
abbrev GraphM := ExceptT GraphError (StateM Graph)

namespace Graph

/-- Fail if there is a node with the identifier `id`. -/
def requireFree (id : String) : GraphM Unit := do
  if (← get).contains id then throw (.duplicateNode id)

/-- Fail unless there is a node with the identifier `id`. -/
def requireNode (id : String) : GraphM Unit := do
  if !(← get).contains id then throw (.unknownNode id)

/-- Add a node. -/
def addNode (n : Node) : GraphM Unit := do
  requireFree n.id
  if let some package := n.testFor then
    modify fun g => { g with variantIndex := g.variantIndex.relate package n.id }
  modify fun g => { g with nodes := g.nodes.insert n.id n }

/-- Make `importer` import `imported`. -/
def addImport (importer imported : String) : GraphM Unit := do
  requireNode importer
  requireNode imported
  modify fun g => { g with importIndex := g.importIndex.relate importer imported }
  modify fun g => { g with importerIndex := g.importerIndex.relate imported importer }

/-- One step in the making of a graph. -/
inductive Edit
  | addNode (n : Node)
  | addImport (importer imported : String)
  deriving DecidableEq, Repr

/-- What an edit does. -/
def Edit.perform : Edit → GraphM Unit
  | addNode n => Graph.addNode n
  | addImport importer imported => Graph.addImport importer imported

/-- Whether an edit succeeds in a graph, and the graph that it leaves behind. -/
def Edit.run (e : Edit) (g : Graph) : Except GraphError Unit × Graph := e.perform.run g

/-- The graph after an edit, unless it fails. -/
def edit (g : Graph) (e : Edit) : Except GraphError Graph :=
  let (answer, g') := e.run g
  answer.map fun () => g'

/-- The graph that an edit leaves behind, whether it succeeds or fails. -/
def apply (g : Graph) (e : Edit) : Graph := (e.run g).2

/-- The graph that a sequence of edits makes from the empty one. -/
def ofEdits (es : List Edit) : Graph := es.foldl apply empty

/-- The graph has a history. -/
def Built (g : Graph) : Prop := ∃ es, g = ofEdits es

end Graph

end ImportQuery
