import ImportQuery.Token.Basic

/-!
# Reading tokens from text

A scanner holds the characters still to be read and the place where they begin. Its step `next`
skips white space and reads one token. The step also answers on a fault, and then still says where
the scanner stands: an unexpected character is left unread, an empty selector is passed over, so a
caller may go on.

* `Scanner.rest_length_lt_of_next` : a step that reads a token consumes at least one character.
* `Scanner.tokens` : the tokens up to the end of the text, or the first fault.
-/

namespace ImportQuery

namespace Token

/-- What can be wrong with the text at the start of a token. -/
inductive Fault
  /-- No token begins with this character. -/
  | unexpectedCharacter (c : Char)
  /-- A colon, with or without a sign, that no word follows. -/
  | emptySelector
  deriving DecidableEq, Repr

/-- A fault and the place of the character where the token would begin. -/
structure ScanError where
  fault : Fault
  place : Text.Place
  deriving DecidableEq, Repr

/-- The message that reports a fault. -/
def ScanError.message (e : ScanError) : String :=
  match e.fault with
  | .unexpectedCharacter c =>
    "Unexpected character '" ++ c.toString ++ "' at " ++ e.place.describe
  | .emptySelector => "Empty selector name after ':' at " ++ e.place.describe

/-- The tokens that are one fixed character. -/
def punctuation? : Char → Option Kind
  | '(' => some .openParen
  | ')' => some .closeParen
  | ',' => some .comma
  | ';' => some .semicolon
  | '+' => some .operator
  | '-' => some .operator
  | _ => none

/-- What stands at the start of a text: a token or a fault, and the number of characters it
takes up. -/
structure Reading where
  outcome : Except Fault Token
  length : Nat

/-- The reading after a colon: an assignment sign, or the tag of a selector. -/
def readColon (rest : List Char) : Reading :=
  match rest with
  | '=' :: _ => ⟨.ok ⟨.assign, ":="⟩, 2⟩
  | _ =>
    let sign := (rest.take 1).takeWhile isSign
    let name := (rest.drop sign.length).takeWhile isWordChar
    let length := 1 + sign.length + name.length
    if name.isEmpty then ⟨.error .emptySelector, length⟩
    else ⟨.ok ⟨.selector, String.ofList (sign ++ name)⟩, length⟩

/-- The reading of a word. One that an opening parenthesis follows is the name of a function. -/
def readWord (text : List Char) : Reading :=
  let word := text.takeWhile isWordChar
  let kind := if (text.dropWhile isWordChar).head? = some '(' then .function else .package
  ⟨.ok ⟨kind, String.ofList word⟩, word.length⟩

/-- The reading at a character that is not blank, and the text behind it. -/
def read (c : Char) (rest : List Char) : Reading :=
  match punctuation? c with
  | some kind => ⟨.ok ⟨kind, c.toString⟩, 1⟩
  | none =>
    if c = ':' then readColon rest
    else if isWordStart c then readWord (c :: rest)
    else ⟨.error (.unexpectedCharacter c), 0⟩

/-- A scanner: the characters still to be read, and where they begin. -/
structure Scanner where
  place : Text.Place
  rest : List Char
  deriving DecidableEq

namespace Scanner

/-- The scanner at the start of a query. White space around the query does not count, also not for
places. -/
def ofText (text : String) : Scanner := ⟨.start, Text.trim text.toList⟩

/-- Move over `n` characters. -/
def advance (s : Scanner) (n : Nat) : Scanner :=
  ⟨s.place.after (s.rest.take n), s.rest.drop n⟩

/-- Move over white space. -/
def skipBlanks (s : Scanner) : Scanner :=
  ⟨s.place.after (s.rest.takeWhile Text.isBlank), s.rest.dropWhile Text.isBlank⟩

/-- One step: the next token, nothing at the end of the text, or a fault; and the scanner
behind it. -/
def next (s : Scanner) : Except ScanError (Option Token) × Scanner :=
  let s := s.skipBlanks
  match s.rest with
  | [] => (.ok none, s)
  | c :: rest =>
    let r := read c rest
    match r.outcome with
    | .ok t => (.ok (some t), s.advance r.length)
    | .error fault => (.error ⟨fault, s.place⟩, s.advance r.length)

/-- The answers of `n` steps, faults or not. -/
def steps : Nat → Scanner → List (Except ScanError (Option Token))
  | 0, _ => []
  | n + 1, s => s.next.1 :: steps n s.next.2

end Scanner

theorem readColon_length_pos (rest : List Char) : 0 < (readColon rest).length := by
  unfold readColon
  split
  · simp
  · dsimp only
    split <;> simp only <;> omega

/-- A reading that gives a token takes up at least one character. -/
theorem read_length_pos {c : Char} {rest : List Char} {t : Token}
    (h : (read c rest).outcome = .ok t) : 0 < (read c rest).length := by
  unfold read at h ⊢
  split
  · simp
  · split
    · exact readColon_length_pos rest
    · split
      · rename_i hc
        simp [readWord, isWordChar, hc]
      · simp_all

namespace Scanner

theorem rest_skipBlanks_length_le (s : Scanner) : s.skipBlanks.rest.length ≤ s.rest.length :=
  (List.dropWhile_sublist _).length_le

/-- A step that reads a token consumes at least one character. -/
theorem rest_length_lt_of_next {s s' : Scanner} {t : Token} (h : s.next = (.ok (some t), s')) :
    s'.rest.length < s.rest.length := by
  unfold next at h
  dsimp only at h
  split at h
  · simp at h
  · rename_i c rest hr
    split at h
    · rename_i t' ht
      obtain ⟨-, rfl⟩ := Prod.mk.inj h
      have hpos := read_length_pos ht
      have hle := s.rest_skipBlanks_length_le
      rw [hr, List.length_cons] at hle
      simp only [advance, hr, List.length_drop, List.length_cons]
      omega
    · simp at h

/-- The tokens up to the end of the text, or the first fault. -/
def tokens (s : Scanner) : Except ScanError (List Token) :=
  match _ : s.next with
  | (.error e, _) => .error e
  | (.ok none, _) => .ok []
  | (.ok (some t), s') => (t :: ·) <$> s'.tokens
  termination_by s.rest.length
  decreasing_by exact rest_length_lt_of_next ‹_›

end Scanner

/-- The tokens of a query. A query of white space alone has none. -/
def tokenize (text : String) : Except ScanError (List Token) := (Scanner.ofText text).tokens

end Token

end ImportQuery
