import ImportQuery.Graph.Traversal

/-!
# Selectors

A selector finds nodes of the graph for a set of packages. Its tag says what becomes of them: they
take the place of the set, or with a sign, are added to it or removed from it.
-/

namespace ImportQuery

/-- How the nodes that a selector finds are combined with the set. -/
inductive Sign
  | replace
  | add
  | remove
  deriving DecidableEq, Repr

/-- A selector tag: its sign and the name of a selector. -/
structure Tag where
  sign : Sign
  name : String
  deriving DecidableEq, Repr

namespace Tag

/-- The tag that a text spells. -/
def ofText (text : String) : Tag :=
  match text.toList with
  | '+' :: name => ⟨.add, String.ofList name⟩
  | '-' :: name => ⟨.remove, String.ofList name⟩
  | _ => ⟨.replace, text⟩

end Tag

/-- The set and the nodes found for it, combined as the sign says. -/
def Sign.combine (sign : Sign) (ids found : IdSet) : IdSet :=
  match sign with
  | replace => found
  | add => ids ∪ found
  | remove => ids \ found

/-- The selectors. -/
inductive Selector
  | closure
  | imports
  | importers
  | executables
  | variants
  | sources
  deriving DecidableEq, Repr

namespace Selector

/-- All selectors, in the order of the manual. -/
def all : List Selector := [closure, imports, importers, executables, variants, sources]

/-- The name of a selector in tags. -/
def name : Selector → String
  | closure => "all"
  | imports => "import"
  | importers => "importer"
  | executables => "main"
  | variants => "test"
  | sources => "source"

/-- What the manual says of a selector. -/
def summary : Selector → String
  | closure => "the set plus everything it transitively imports"
  | imports => "packages directly imported by the set"
  | importers => "packages directly importing a member of the set"
  | executables => "members that build an executable"
  | variants => "test variants in the set or belonging to its members"
  | sources => "members that no other package imports"

/-- The selector with the given name. -/
def ofName? (name : String) : Option Selector := all.find? (·.name == name)

/-- The nodes that a selector finds for a set. -/
def find (sel : Selector) (g : Graph) (s : Setting) (ids : IdSet) : IdSet :=
  match sel with
  | closure => ids ∪ g.dependencies s ids
  | imports => (ids.flatMap g.imports).filter (g.isVisible s)
  | importers => (ids.flatMap g.importers).filter (g.isVisible s)
  | executables => ids.filter g.isExecutable
  | variants => ids.filter g.isTest ∪ ids.flatMap g.variants
  | sources => ids.filter fun id => !(g.importers id).any (g.isVisible s)

end Selector

end ImportQuery
