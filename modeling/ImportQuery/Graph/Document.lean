import ImportQuery.Graph.Edit
import ImportQuery.Json.Basic

/-!
# Graphs as JSON

A graph is given as an object with an array of nodes, each an object with the identifier of a
package and, optionally, the packages it imports, whether it builds an executable, and the package
it tests. The order of the nodes does not matter: imports may name a node that comes later.
-/

namespace ImportQuery.Graph

/-- What is wrong with the shape of a JSON value that should be a graph. -/
inductive ShapeError
  | noNodes
  | fieldNotText (key : String) (value : Json)
  | missingId (entry : Json)
  | importNotText (id : String) (value : Json)
  | importsNotArray (id : String) (value : Json)

/-- The message that reports an error. It quotes the value that is not as it should be. -/
def ShapeError.message : ShapeError → String
  | noNodes => "expected an object with a \"nodes\" array"
  | fieldNotText key value => s!"field '{key}' must be a string, got {value.render}"
  | missingId entry => s!"node without id: {entry.render}"
  | importNotText id value => s!"import of {id} must be a string, got {value.render}"
  | importsNotArray id value => s!"imports of {id} must be an array, got {value.render}"

/-- Why a JSON value gives no graph. -/
inductive DocumentError
  | shape (e : ShapeError)
  | graph (e : GraphError)

/-- An optional field that must be a string. -/
def textField (entry : Json) (key : String) : Except ShapeError (Option String) :=
  match entry.member? key with
  | none | some .null => .ok none
  | some (.string s) => .ok (some s)
  | some value => .error (.fieldNotText key value)

/-- The node of an entry. -/
def nodeOfJson (entry : Json) : Except ShapeError Node := do
  match ← textField entry "id" with
  | none => throw (.missingId entry)
  | some id =>
    let executable := match entry.member? "main" with
      | some (.bool b) => b
      | _ => false
    return ⟨id, executable, ← textField entry "test_for"⟩

/-- The packages that the entry of `id` imports, as they are listed. -/
def importsOfJson (entry : Json) (id : String) : Except ShapeError (List String) :=
  match entry.member? "imports" with
  | none | some .null => .ok []
  | some (.array items) =>
    items.mapM fun item =>
      match item with
      | .string s => .ok s
      | value => .error (.importNotText id value)
  | some value => .error (.importsNotArray id value)

/-- A graph being read: the nodes so far, and the imports to be added when all nodes are there. -/
structure Draft where
  graph : Graph
  imports : List (String × String)

/-- The draft with one more entry. -/
def Draft.addEntry (d : Draft) (entry : Json) : Except DocumentError Draft := do
  let node ← (nodeOfJson entry).mapError .shape
  let graph ← (d.graph.edit (.addNode node)).mapError .graph
  let targets ← (importsOfJson entry node.id).mapError .shape
  return ⟨graph, d.imports ++ targets.map (node.id, ·)⟩

/-- The entries of the array of nodes. -/
def entriesOfJson (document : Json) : Except ShapeError (List Json) :=
  match (document.member? "nodes").bind Json.items? with
  | some entries => .ok entries
  | none => .error .noNodes

/-- The graph that a JSON value describes, and the number of imports it lists. -/
def loadJson (document : Json) : Except DocumentError (Graph × Nat) := do
  let entries ← (entriesOfJson document).mapError .shape
  let draft ← entries.foldlM Draft.addEntry ⟨empty, []⟩
  let add (g : Graph) : String × String → Except GraphError Graph
    | (importer, imported) => g.edit (.addImport importer imported)
  let graph ← (draft.imports.foldlM add draft.graph).mapError .graph
  return (graph, draft.imports.length)

/-- The graph that a JSON value describes. -/
def ofJson (document : Json) : Except DocumentError Graph := (·.1) <$> loadJson document

end ImportQuery.Graph
