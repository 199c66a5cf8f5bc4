import ImportQuery.Check

/-!
# The manual

The pages that explain the language of queries and the form of graphs.
-/

namespace ImportQuery.Manual

/-- The chapters of the manual. -/
inductive Chapter
  | patterns
  | selectors
  | functions
  | programs
  | graphs
  deriving DecidableEq, Repr

/-- The chapter that a reader asks for, whatever the case of the letters. Most chapters have
several names. -/
def Chapter.ofName? (name : String) : Option Chapter :=
  match String.ofList (name.toList.map Char.toLower) with
  | "syntax" | "operators" | "ops" => some patterns
  | "selectors" | "selector" | "tags" => some selectors
  | "functions" | "function" | "funcs" => some functions
  | "programs" | "program" | "variables" => some programs
  | "graphs" | "graph" | "input" => some graphs
  | _ => none

/-- A page of lines. -/
def page (lines : List String) : String := String.join (lines.map (· ++ "\n"))

/-- The overview of the manual. -/
def overview : String :=
  page [
    "DEPQ DOCUMENTATION",
    "",
    "depq selects, combines, and filters the packages of a dependency graph with a",
    "small set-algebra query language.",
    "",
    "DOCUMENTATION CATEGORIES",
    "",
    "  syntax            Packages, patterns, set operators, and grouping",
    "  selectors         The :tag chain that expands or filters a set",
    "  functions         Graph functions such as reach(a, b)",
    "  programs          Variables and multi-statement queries",
    "  graphs            The JSON graph format read by 'depq check'",
    "",
    "QUICK REFERENCE",
    "",
    "  pkg               A single package",
    "  pkg/...           A package and everything below it",
    "  a + b             Union",
    "  a - b             Difference",
    "  a:all             A package and its dependencies",
    "  reach(a, b)       Packages of a that depend on b",
    "  q := a; q - b     Variables",
    "",
    "Run 'depq doc <category>' for detailed documentation."]

/-- The chapter on packages, patterns, operators and lists. -/
def patternsPage : String :=
  page [
    "SYNTAX - Packages, Patterns, and Set Operators",
    "",
    "PACKAGES",
    "  golang.org/x/tools",
    "    A bare word names one package by its exact identifier.",
    "",
    "PATTERNS",
    "  golang.org/x/tools/...",
    "    '...' matches any string. A trailing '/...' also matches the prefix",
    "    itself, so the example includes golang.org/x/tools.",
    "",
    "  std",
    "    Standard library packages: identifiers whose first path element has",
    "    no dot.",
    "",
    "SET OPERATORS",
    "  a + b     Union",
    "  a - b     Difference (left minus right)",
    "",
    "  Both operators share one precedence level and group to the left:",
    "    a - b - c       is  -(-(a, b), c)",
    "    a - (b - c)     is  -(a, -(b, c))",
    "",
    "LISTS",
    "  a b          Juxtaposed expressions form a list, the union of its items.",
    "  (a, b)       The same list written with commas.",
    "",
    "CANONICAL FORM",
    "  'depq fmt' prints queries in prefix form:",
    "    std - (std - unsafe:all)   =>  -(std, -(std, unsafe:all))"]

/-- The line that explains a selector. -/
def selectorLine (sel : Selector) : String :=
  "  :" ++ sel.name ++ String.join (List.replicate (14 - sel.name.length) " ") ++ sel.summary

/-- The chapter on selectors. -/
def selectorsPage : String :=
  page [
    "SELECTORS - Expanding and Filtering Sets",
    "",
    "A selector chain follows a package, a call, or a parenthesized group and is",
    "applied left to right:",
    "",
    "  x:import:all      everything x depends on, without x itself",
    "  (a + b):main      main packages among a and b",
    "  a + b:main        a, plus b only if b is a main package",
    "",
    "TAGS"] ++
  page (Selector.all.map selectorLine) ++
  page [
    "",
    "SIGNS",
    "  :tag      Replace the set with the matching nodes",
    "  :+tag     Add the matching nodes to the set",
    "  :-tag     Remove the matching nodes from the set",
    "",
    "  Examples:",
    "    x:all:-test     x and its dependencies without test variants",
    "    x:+test         x plus its test variants"]

/-- The chapter on functions and settings. -/
def functionsPage : String :=
  page [
    "FUNCTIONS - Graph Functions",
    "",
    "  reach(a, b)       Packages of a that reach any package of b through",
    "                    imports (a package reaches itself). Alias: reaches.",
    "  incoming(a, b)    Packages of a that directly import a package of b.",
    "  deps(a)           Everything a transitively imports.",
    "  shared(a, b, ...) Packages present in every argument.",
    "  xor(a, b)         Packages in exactly one of a and b.",
    "",
    "  Names are case-insensitive. Arguments are full expressions:",
    "    reach(cmd/... + tools/..., golang.org/x/net/...:all)",
    "",
    "SETTINGS",
    "  key=value(a, ...) Evaluates the arguments with a setting changed and",
    "                    returns their union.",
    "",
    "  test=1(x:all)     Include test variants while expanding x:all",
    "  test=0(x:all)     Exclude them (the default)"]

/-- The chapter on variables and statements. -/
def programsPage : String :=
  page [
    "PROGRAMS - Variables and Statements",
    "",
    "  name := expr",
    "    Binds name to the result of expr. The name is visible to every later",
    "    statement and shadows a package with the same identifier.",
    "",
    "    The value is computed once, where it is defined. A setting applied to",
    "    a later use does not reach inside it:",
    "",
    "      q := x:importer; test=1(q)      q keeps its test-free importers",
    "      q := test=1(x:importer); q      q includes test variants",
    "",
    "  stmt; stmt; ...; expr",
    "    Statements run in order. Every statement but the last must be an",
    "    assignment; the last one is the result.",
    "",
    "  Example:",
    "    q := x:+test; y + q       =>  q := x:+test; +(y, q)"]

/-- The chapter on the form of graphs. -/
def graphsPage : String :=
  page [
    "GRAPHS - Input Format",
    "",
    "'depq check' reads a graph as JSON from --graph or stdin:",
    "",
    "  \x7b",
    "    \"nodes\": [",
    "      \x7b\"id\": \"example.com/app\", \"imports\": [\"example.com/lib\"], " ++
      "\"main\": true\x7d,",
    "      \x7b\"id\": \"example.com/lib\"\x7d,",
    "      \x7b\"id\": \"example.com/lib.test\", \"imports\": [\"example.com/lib\"],",
    "       \"test_for\": \"example.com/lib\"\x7d",
    "    ]",
    "  \x7d",
    "",
    "  id          Unique identifier (required)",
    "  imports     Identifiers this node imports (optional)",
    "  main        Whether the package builds an executable (optional)",
    "  test_for    For a test variant, the package it tests (optional)",
    "",
    "The result is a JSON array of the selected identifiers, sorted."]

/-- The page of a chapter. -/
def Chapter.text : Chapter → String
  | patterns => patternsPage
  | selectors => selectorsPage
  | functions => functionsPage
  | programs => programsPage
  | graphs => graphsPage

/-- The page that a reader asks for. -/
def lookup (name : String) : Except Failure String :=
  match Chapter.ofName? name with
  | some chapter => .ok chapter.text
  | none => .error (.unknownCategory name)

end ImportQuery.Manual
