import ImportQuery.CommandLine.Options
import ImportQuery.Manual

/-!
# Commands

What the program can be asked to do, how it is asked, and what it answers. A command that needs a
graph reads it before anything else, from a file or from the standard input.
-/

namespace ImportQuery

/-- What the program can be asked to do. -/
inductive Command
  | version
  /-- Answer a query, on the graph in a file or on the standard input. -/
  | check (query : String) (file : Option String) (pretty syntaxOnly strict includeTests : Bool)
  | format (query : String) (outline : Bool)
  | tokens (query : String)
  | manual
  | chapter (name : String)

namespace Command

open CommandLine

/-- The options of checks. -/
def checkOptions : List OptionSpec :=
  [⟨"graph", some 'g', true⟩, ⟨"pretty", some 'p', false⟩, ⟨"syntax-only", none, false⟩,
    ⟨"strict", none, false⟩, ⟨"tests", none, false⟩]

/-- The only option of `fmt`. -/
def formatOptions : List OptionSpec := [⟨"tree", none, false⟩]

/-- The command whose name and words are given. -/
def ofName? (name : String) (words : List String) : Option Command :=
  match name with
  | "check" => do
    let a ← readArguments? checkOptions words
    match a.positional with
    | [query] =>
      return check query (a.value? "graph") (a.has "pretty") (a.has "syntax-only")
        (a.has "strict") (a.has "tests")
    | _ => none
  | "fmt" => do
    let a ← readArguments? formatOptions words
    match a.positional with
    | [query] => return format query (a.has "tree")
    | _ => none
  | "tokens" => do
    match (← readArguments? [] words).positional with
    | [query] => return tokens query
    | _ => none
  | "docs" => do
    match (← readArguments? [] words).positional with
    | [] => return manual
    | _ => none
  | "doc" => do
    match (← readArguments? [] words).positional with
    | [name] => return chapter name
    | _ => none
  | _ => none

/-- The command that a command line spells. -/
def ofWords? : List String → Option Command
  | [] => none
  | name :: words =>
    if name = "--version" then some version
    else match name.toList with
      | '-' :: 'V' :: _ => some version
      | _ => ofName? name words

/-- Where the input of a command comes from. -/
inductive Source
  | nothing
  | file (path : String)
  | standardInput

/-- Where the input of the command comes from. Compiling a query needs no graph, but a file that is
named is read all the same. -/
def source : Command → Source
  | check _ (some path) .. => .file path
  | check _ none _ syntaxOnly .. => if syntaxOnly then .nothing else .standardInput
  | _ => .nothing

/-- What the program writes for the outcome of a check. -/
def renderOutcome (pretty : Bool) : Check.Outcome → String
  | .valid => "Syntax is valid\n"
  | .empty => "[]\n"
  | .selected ids =>
    (if pretty then Json.prettyTexts ids.toList else Json.renderTexts ids.toList) ++ "\n"

/-- What the program writes for a command with the given input. -/
def output (c : Command) (input : Option String) : Except Failure String :=
  match c with
  | version => .ok "depq 0.2.0\n"
  | check query _ pretty syntaxOnly strict includeTests =>
    renderOutcome pretty <$> Check.run ⟨query, input, syntaxOnly, strict, includeTests⟩
  | format query outline => formatQuery query outline
  | tokens query => (fun lines => String.join (lines.map (· ++ "\n"))) <$> listTokens query
  | manual => .ok Manual.overview
  | chapter name => Manual.lookup name

end Command

/-! ## Answers -/

/-- How a run of the program ends. -/
structure ExitReport where
  code : Nat
  stdout : String
  stderr : String

namespace ExitReport

/-- The end of a run whose command line cannot be understood. -/
def usage : ExitReport := ⟨2, "", "usage: depq <check|fmt|tokens|docs|doc> ...\n"⟩

/-- The end of a run that wrote something or failed. -/
def ofResult : Except Failure String → ExitReport
  | .ok text => ⟨0, text, ""⟩
  | .error failure => ⟨1, "", failure.message ++ "\n"⟩

/-- The text in some bytes. -/
def decode (bytes : ByteArray) : Except Failure String :=
  match String.fromUTF8? bytes with
  | some text => .ok text
  | none => .error (.io "stream did not contain valid UTF-8")

/-- The end of a run of a command that finds `bytes` where its input comes from, or nothing, or
fails to read it. -/
def ofCommand (c : Command) (bytes : Except Failure (Option ByteArray)) : ExitReport :=
  ofResult do
    let text ← (← bytes).mapM decode
    c.output text

end ExitReport

end ImportQuery
