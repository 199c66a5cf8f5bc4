/-!
# Options

The conventions of command lines. A word that begins with two dashes is a long option, one that
begins with a single dash is a group of short options, and `--` ends the options. An option that
takes a value may have it in the same word or in the next one; a value in the next word begins with
no dash. No option may be given twice.
-/

namespace ImportQuery.CommandLine

/-- An option that a command understands. -/
structure OptionSpec where
  long : String
  short : Option Char
  takesValue : Bool

/-- The words of a command line, sorted. An option that takes no value has the empty one. -/
structure Arguments where
  positional : List String
  options : List (String × String)

namespace Arguments

/-- The arguments with one more positional word in front. -/
def withPositional (a : Arguments) (word : String) : Arguments :=
  { a with positional := word :: a.positional }

/-- The arguments with more options in front. -/
def withOptions (a : Arguments) (options : List (String × String)) : Arguments :=
  { a with options := options ++ a.options }

/-- The value of an option, if it is given. -/
def value? (a : Arguments) (long : String) : Option String := a.options.lookup long

/-- The option is given. -/
def has (a : Arguments) (long : String) : Bool := (a.value? long).isSome

end Arguments

/-- The word is an option or a group of options. A dash alone is not. -/
def isOption (word : String) : Bool :=
  match word.toList with
  | '-' :: _ :: _ => true
  | _ => false

/-- Options that have been read, and one that still needs its value. -/
structure OptionWord where
  options : List (String × String)
  pending : Option String

/-- The option in a word behind its two dashes. -/
def readLong? (specs : List OptionSpec) (word : List Char) : Option OptionWord := do
  let name := String.ofList (word.takeWhile (· ≠ '='))
  let spec ← specs.find? (·.long == name)
  match spec.takesValue, word.dropWhile (· ≠ '=') with
  | false, [] => return ⟨[(name, "")], none⟩
  | false, _ :: _ => none
  | true, [] => return ⟨[], some name⟩
  | true, _ :: value => return ⟨[(name, String.ofList value)], none⟩

/-- The options in a word behind its single dash. -/
def readShort? (specs : List OptionSpec) : List Char → Option OptionWord
  | [] => some ⟨[], none⟩
  | c :: rest => do
    let spec ← specs.find? (·.short == some c)
    if spec.takesValue then
      match rest with
      | [] => return ⟨[], some spec.long⟩
      | '=' :: value => return ⟨[(spec.long, String.ofList value)], none⟩
      | value => return ⟨[(spec.long, String.ofList value)], none⟩
    else
      let more ← readShort? specs rest
      return { more with options := (spec.long, "") :: more.options }

/-- The options in a word. -/
def readOption? (specs : List OptionSpec) (word : String) : Option OptionWord :=
  match word.toList with
  | '-' :: '-' :: rest => readLong? specs rest
  | '-' :: rest => readShort? specs rest
  | _ => none

/-- The words of a command line, sorted into positional ones and options. -/
def sortWords? (specs : List OptionSpec) : List String → Option Arguments
  | [] => some ⟨[], []⟩
  | "--" :: rest => some ⟨rest, []⟩
  | word :: rest =>
    if isOption word then do
      let found ← readOption? specs word
      match found.pending with
      | none => return (← sortWords? specs rest).withOptions found.options
      | some name =>
        match rest with
        | [] => none
        | value :: behind =>
          if isOption value then none
          else
            let a ← sortWords? specs behind
            return a.withOptions (found.options ++ [(name, value)])
    else return (← sortWords? specs rest).withPositional word

/-- The arguments of a command: no option is given twice, and none has an empty value. -/
def readArguments? (specs : List OptionSpec) (words : List String) : Option Arguments := do
  let a ← sortWords? specs words
  let names := a.options.map (·.1)
  let emptyValue := specs.any fun spec => spec.takesValue && a.value? spec.long == some ""
  if names.eraseDups.length = names.length ∧ ¬ emptyValue then return a else none

end ImportQuery.CommandLine
