/-!
# Traces

What reading and answering a query reports on the way, as a list of events. Every event but one is
of interest only to someone who follows the evaluation; a package name that matches nothing is a
warning, for it is likely to be a misspelling.
-/

namespace ImportQuery

/-- How much an event matters. -/
inductive Level
  | debug
  | warn
  deriving DecidableEq, Repr

/-- The name of a level at the start of a record. -/
def Level.name : Level → String
  | .debug => "DEBUG"
  | .warn => "WARN"

/-- What can be reported. -/
inductive Event
  /-- A statement that binds `name` has been read. -/
  | readAssignment (name : String)
  /-- A whole program has been read. -/
  | readProgram (statements : Nat)
  /-- A graph has been built; an import given twice counts twice. -/
  | loadedGraph (nodes imports : Nat)
  /-- A selector has found `found` nodes for a set of `size` nodes. -/
  | matched (tag : String) (found size : Nat)
  /-- A variable has been bound to a set of `size` nodes. -/
  | bound (name : String) (size : Nat)
  /-- A literal package names no node. -/
  | unmatched (package : String)
  /-- A call that changes a setting is about to evaluate its arguments. -/
  | changedSetting (arguments : Nat) (key value : String)
  /-- A call is about to be looked up. -/
  | called (name : String) (arguments : Nat)
  /-- A query, in canonical form, has selected `size` nodes. -/
  | answered (query : String) (size : Nat)
  deriving DecidableEq, Repr

namespace Event

/-- A name that matches nothing is the only warning. -/
def level : Event → Level
  | unmatched _ => .warn
  | _ => .debug

/-- The text of an event. -/
def message : Event → String
  | readAssignment name => s!"parsed assignment to {name}"
  | readProgram statements => s!"parsed {statements} statement(s)"
  | loadedGraph nodes imports => s!"loaded graph with {nodes} node(s), {imports} import(s)"
  | matched tag found size => s!"selector :{tag} matched {found} of {size} node(s)"
  | bound name size => s!"bound {name} to {size} node(s)"
  | unmatched package => s!"package {package} matches no node"
  | changedSetting arguments key value => s!"evaluating {arguments} argument(s) with {key}={value}"
  | called name arguments => s!"calling {name}() with {arguments} argument(s)"
  | answered query size => s!"query {query} selected {size} node(s)"

/-- The line that records an event. -/
def record (e : Event) : String := e.level.name ++ " " ++ e.message

end Event

/-- The events of a run, in order. -/
abbrev Trace := List Event

end ImportQuery
