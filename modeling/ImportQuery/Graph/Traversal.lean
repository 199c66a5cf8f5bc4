import ImportQuery.Graph.Basic

/-!
# Traversals

Which packages of a graph can be seen, and walks among them along the imports, forwards and
backwards. Settings decide what can be seen; they hold for a part of a query rather than for all of
it, and a call named `key=value` changes one for its arguments. A walk goes level by level through
a pool of nodes that it has not met yet, and ends when a level meets none.
-/

namespace ImportQuery

/-! ## Settings -/

/-- The settings in force for an expression. -/
structure Setting where
  /-- Test variants take part in patterns and in traversals. -/
  includeTests : Bool
  deriving DecidableEq, Repr

/-- Why a setting cannot be changed. -/
inductive SettingError
  | unknownKey (key : String)
  | invalidValue (key value : String)
  deriving DecidableEq, Repr

/-- The message that reports an error. -/
def SettingError.message : SettingError → String
  | unknownKey key => s!"Unknown setting: {key}"
  | invalidValue key value => s!"Invalid value '{value}' for setting {key}"

/-- The settings with `key` changed to `value`. -/
def Setting.change (s : Setting) (key value : String) : Except SettingError Setting :=
  if key = "test" then
    if value = "1" ∨ value = "true" then .ok { s with includeTests := true }
    else if value = "0" ∨ value = "false" then .ok { s with includeTests := false }
    else .error (.invalidValue key value)
  else .error (.unknownKey key)

/-! ## Visible packages -/

namespace Graph

/-- The node `id` takes part in patterns and in traversals. -/
def isVisible (g : Graph) (s : Setting) (id : String) : Bool :=
  s.includeTests || (g.node? id).any (!·.isTest)

/-- The nodes that take part in patterns and in traversals. -/
def visible (g : Graph) (s : Setting) : IdSet := g.ids.filter (g.isVisible s)

end Graph

/-! ## Walks -/

/-- What can be reached from `front` in steps that `next` allows, each to a member of `pool`. A
member of `front` is reached only if a step leads to it. -/
def walk (next : String → IdSet) (pool front : IdSet) : IdSet :=
  let met := pool ∩ front.flatMap next
  if met = ∅ then ∅ else met ∪ walk next (pool \ met) met
  termination_by pool.size
  decreasing_by exact IdSet.size_diff_inter_lt ‹_›

namespace Graph

/-- Everything that members of `start` import, directly or not, as far as it is visible. A member
of `start` is among it only if an import leads back to it. -/
def dependencies (g : Graph) (s : Setting) (start : IdSet) : IdSet :=
  walk g.imports (g.visible s) start

/-- The members of `sources` from which imports lead to a member of `targets`, where every package
on the way but the last is visible. No import is needed from a member of both. -/
def reaching (g : Graph) (s : Setting) (sources targets : IdSet) : IdSet :=
  sources ∩ (targets ∪ walk g.importers (g.visible s) targets)

end Graph

end ImportQuery
