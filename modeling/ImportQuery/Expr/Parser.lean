import ImportQuery.Expr.Cursor

/-!
# The grammar of queries

A program is a sequence of statements between semicolons, each an assignment or a list. A list is a
run of chains, a chain is a run of terms between operators, grouped to the left, and a term is a
primary with its selectors. A primary is a package, a call, two operands in parentheses behind their
operator, or a list in parentheses. `+` and `-` stand between operands after a term, and before an
open parenthesis where a primary is expected.

The readers are given the room that is left: how many more parentheses may be opened where they
stand. Inside a parenthesis there is room for one less, so they recurse on it. The tree of a chain
must fit into the room too: every operator adds a level, although it opens no parenthesis.
-/

namespace ImportQuery.Expr

open ParseM

namespace Parser

/-- A list and, as long as commas follow, more lists. -/
def items (list : ParseM Expr) : ParseM (List Expr) := do
  let first ← list
  let more ← many (·.sees .comma) do
    advance 1
    list
  return first :: more

/-- The contents of a parenthesis that has just been opened, up to its end. The reader `list` is
for lists inside; without one, there is no room for the parenthesis. -/
def bracketed (list : Option (ParseM Expr)) (mayBeEmpty : Bool) (closing : Expected) :
    ParseM (List Expr) :=
  match list with
  | none => tooDeep
  | some list => do
    enter
    let contents ← do
      if mayBeEmpty && (← cursor).sees .closeParen then pure [] else items list
    expect .closeParen closing
    leave
    return contents

/-- A package, a call, an operator before its operands, or a list in parentheses. -/
def primary (list : Option (ParseM Expr)) : ParseM Expr := do
  let c ← cursor
  match c.rest with
  | ⟨.package, name⟩ :: _ =>
    advance 1
    return .package name
  | ⟨.function, name⟩ :: _ =>
    advance 1
    expect .openParen .openingCall
    return .call name (← bracketed list true .closingCall)
  | ⟨.operator, symbol⟩ :: ⟨.openParen, _⟩ :: _ =>
    advance 1
    match SetOp.ofSymbol? symbol with
    | none => unexpected .operator
    | some op =>
      advance 1
      match ← bracketed list false .closingOperands with
      | [left, right] => return .binary op left right
      | operands => fail (.operandCount op operands.length c.index)
  | ⟨.openParen, _⟩ :: _ =>
    advance 1
    match ← bracketed list false .closingGroup with
    | [e] => return e
    | es => return .call "" es
  | _ => unexpected .expression

/-- The tags of the selectors that follow. -/
def tags : ParseM (List String) := do
  let chain := (← cursor).rest.takeWhile (·.kind == .selector)
  advance chain.length
  return chain.map (·.text)

/-- A primary with its selectors. -/
def term (list : Option (ParseM Expr)) : ParseM Expr := do
  let base ← primary list
  match ← tags with
  | [] => return base
  | ts => return .selected base ts

/-- The part of a chain that has been read: its tree, and the height of the tree. -/
structure Chain where
  tree : Expr
  height : Nat

/-- The chain of one term. -/
def Chain.ofTerm (e : Expr) : Chain := ⟨e, e.height⟩

/-- The chain with one more operator and operand. Its height follows from the heights of the
parts. -/
def Chain.join (c : Chain) (op : SetOp) (right : Expr) : Chain :=
  ⟨.binary op c.tree right, max c.height right.height + 1⟩

/-- The rest of a chain, at most `clock` operators: as long as an operator follows, it and another
term. -/
def chainFor (room : Nat) (term : ParseM Expr) : Nat → Chain → ParseM Chain
  | 0, chain => return chain
  | clock + 1, chain => do
    match (← cursor).rest with
    | ⟨.operator, symbol⟩ :: _ =>
      match SetOp.ofSymbol? symbol with
      | none => unexpected .operator
      | some op =>
        advance 1
        let right ← term
        let chain := chain.join op right
        if room < chain.height then tooDeep else chainFor room term clock chain
    | _ => return chain

/-- A run of terms between operators. -/
def chain (room : Nat) (list : Option (ParseM Expr)) : ParseM Expr := do
  let first ← term list
  let chain ← chainFor room (term list) (← cursor).rest.length (.ofTerm first)
  return chain.tree

/-- The next token begins a chain that can stand behind another one. -/
def startsChain (c : Cursor) : Bool :=
  c.sees .package || c.sees .function || c.sees .openParen

/-- A run of chains: one alone stands for itself, several are a list. -/
def juxtaposed (room : Nat) (list : Option (ParseM Expr)) : ParseM Expr := do
  let first ← chain room list
  match ← many startsChain (chain room list) with
  | [] => return first
  | more => return .call "" (first :: more)

/-- A list, where `room` more parentheses may be opened. -/
def list : Nat → ParseM Expr
  | 0 => juxtaposed 0 none
  | room + 1 => juxtaposed (room + 1) (some (list room))

/-- An assignment or a list. -/
def statement (room : Nat) : ParseM Expr := do
  match (← cursor).rest with
  | ⟨.package, name⟩ :: ⟨.assign, _⟩ :: _ =>
    advance 2
    let value ← list room
    report (.readAssignment name)
    return .assign name value
  | _ => list room

/-- Statements between semicolons. -/
def statements (room : Nat) : ParseM (List Expr) := do
  let first ← statement room
  let more ← many (·.sees .semicolon) do
    advance 1
    statement room
  return first :: more

/-- A program, up to the end of the tokens. There is none if there are no tokens at all. -/
def program : ParseM (Option Expr) := do
  let c ← cursor
  if c.index = 0 ∧ c.rest = [] then return none
  let ss ← statements (maxDepth - c.depth)
  if (← cursor).rest ≠ [] then unexpected .endOfStatement
  match ss.dropLast.findIdx? (!·.isAssignment) with
  | some i => fail (.nonFinalExpression (i + 1))
  | none =>
    report (.readProgram ss.length)
    match ss with
    | [s] => return s
    | _ => return some (.program ss)

end Parser

/-- The answers of `n` attempts to read a program with one cursor. An attempt begins where the one
before it ended or failed. -/
def attempts : Nat → Cursor → List (Except ParseError (Option Expr))
  | 0, _ => []
  | n + 1, c =>
    let (answer, c) := Parser.program.run c
    answer :: attempts n c

/-- The program that the tokens spell, if there are any tokens. -/
def parse (tokens : List Token) : Except ParseError (Option Expr) :=
  (Parser.program.run (.ofTokens tokens)).1

end ImportQuery.Expr
