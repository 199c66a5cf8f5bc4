import ImportQuery.Proofs.Text.Lines
import ImportQuery.Proofs.Token.Spelling
import Mathlib.Control.Monad.Basic

/-!
# Where the scanner finds a fault

A fault is reported at the character where the token would begin, even if the scanner has gone on
from there before it sees that there is none. The text before that character is in order: it spells
the tokens that have been read so far. No word before it is read in another way when the text ends
there, since it is no parenthesis that makes a word the name of a function.

* `Scanner.Stops` : a scanner that reads some tokens and comes to a fault.
* `Scanner.exists_stops` : what a scanner does that finds a fault.
* `tokenize_error_located` : the place of a fault, and what is before it.
-/

namespace ImportQuery.Token

/-- The character that a fault is about. -/
def Fault.character : Fault → Char
  | .unexpectedCharacter c => c
  | .emptySelector => ':'

/-! ## Single readings -/

theorem fault_of_readColon {rest : List Char} {fault : Fault}
    (h : (readColon rest).outcome = .error fault) : fault = .emptySelector := by
  by_cases hassign : rest.head? = some '='
  · obtain ⟨us, rfl⟩ := List.head?_eq_some_iff.1 hassign
    cases h
  · obtain ⟨sign, cs, rfl, hsign⟩ := exists_signs rest
    rw [readColon_eq hsign hassign] at h
    split at h
    · cases h
      rfl
    · cases h

/-- A fault is about the character that is read, and that is no opening parenthesis. -/
theorem character_of_read {c : Char} {rest : List Char} {fault : Fault}
    (h : (read c rest).outcome = .error fault) : fault.character = c ∧ c ≠ '(' := by
  refine ⟨?_, ?_⟩
  · unfold read at h
    split at h
    · cases h
    · split at h
      · rename_i hcolon
        rw [fault_of_readColon h, hcolon]
        rfl
      · split at h
        · cases h
        · cases h
          rfl
  · rintro rfl
    cases h

/-- A token that ends before a character other than an opening parenthesis can end where the text
does. -/
theorem Kind.endsBefore_of_append {kind : Kind} {cs rest : List Char} {c : Char} (hc : c ≠ '(')
    (h : kind.endsBefore (cs ++ c :: rest) = true) : kind.endsBefore cs = true := by
  cases cs with
  | cons d cs => exact h
  | nil =>
    cases kind with
    | function => exact absurd (by simpa [endsBefore] using h) hc
    | package | operator | openParen | closeParen | comma | selector | assign | semicolon => rfl

namespace Scanner

variable {s s' : Scanner} {e : ScanError}

/-! ## Steps -/

/-- Before the next token there may be white space. -/
theorem rest_eq_skipBlanks (s : Scanner) :
    ∃ bs, (∀ b ∈ bs, Text.isBlank b = true) ∧ s.rest = bs ++ s.skipBlanks.rest ∧
      s.skipBlanks.place = s.place.after bs :=
  ⟨s.rest.takeWhile Text.isBlank, List.all_eq_true.1 List.all_takeWhile,
    List.takeWhile_append_dropWhile.symm, rfl⟩

/-- A step that reads a token passes over white space and the spelling of the token. -/
theorem next_eq_token {t : Token} (h : s.next = (.ok (some t), s')) :
    ∃ bs, (∀ b ∈ bs, Text.isBlank b = true) ∧ s.rest = bs ++ (t.spelling ++ s'.rest) ∧
      s'.place = s.place.after (bs ++ t.spelling) ∧ t.isProper = true ∧
      t.kind.endsBefore s'.rest = true := by
  obtain ⟨bs, hbs, hrest, hplace⟩ := s.rest_eq_skipBlanks
  unfold next at h
  dsimp only at h
  split at h
  · cases h
  · rename_i c rest hnext
    split at h
    · rename_i t' hread
      cases h
      obtain ⟨ht, us, hspelling, hend, hlength⟩ := spelling_of_read hread
      have hadvance : s.skipBlanks.advance (read c rest).length =
          ⟨s.skipBlanks.place.after t.spelling, us⟩ := by
        rw [advance, hnext, hspelling, hlength, List.take_left, List.drop_left]
      rw [hadvance]
      refine ⟨bs, hbs, ?_, ?_, ht, hend⟩
      · rw [← hspelling, ← hnext, hrest]
      · rw [hplace, Text.Place.after_append]
    · cases h

/-- A step that finds a fault passes over white space before the character that is at fault. -/
theorem next_eq_error (h : s.next = (.error e, s')) :
    ∃ bs c rest, (∀ b ∈ bs, Text.isBlank b = true) ∧ s.rest = bs ++ c :: rest ∧
      e.place = s.place.after bs ∧ Text.isBlank c = false ∧
      (read c rest).outcome = .error e.fault := by
  obtain ⟨bs, hbs, hrest, hplace⟩ := s.rest_eq_skipBlanks
  unfold next at h
  dsimp only at h
  split at h
  · cases h
  · rename_i c rest hnext
    split at h
    · cases h
    · rename_i fault hread
      cases h
      refine ⟨bs, c, rest, hbs, ?_, hplace, not_isBlank_of_dropWhile hnext, hread⟩
      rw [← hnext, hrest]

/-! ## Runs -/

/-- The scanner reads the tokens `ts` from the characters `before`, and then comes to the fault `e`.
Behind these is the character that is at fault. -/
structure Stops (s : Scanner) (e : ScanError) (ts : List Token) (before : List Char) : Prop where
  answers : s.steps (ts.length + 1) = ts.map (fun t => .ok (some t)) ++ [.error e]
  rest : ∃ rest, s.rest = before ++ e.fault.character :: rest
  place : e.place = s.place.after before
  spells : Spells before ts
  not_isBlank : Text.isBlank e.fault.character = false
  ne_open : e.fault.character ≠ '('

theorem stops_of_next (h : s.next = (.error e, s')) : ∃ before, s.Stops e [] before := by
  obtain ⟨bs, c, rest, hbs, hrest, hplace, hblank, hread⟩ := next_eq_error h
  obtain ⟨rfl, hopen⟩ := character_of_read hread
  have hspells : Spells bs [] := by simpa using Spells.blanks hbs .nil
  have hanswers : s.steps 1 = [.error e] := by rw [steps, steps, h]
  exact ⟨bs, hanswers, ⟨rest, hrest⟩, hplace, hspells, hblank, hopen⟩

/-- A token that is read before a fault is one of those before the fault. -/
theorem Stops.of_next {t : Token} {ts : List Token} {before : List Char}
    (h : s.next = (.ok (some t), s')) (hstops : s'.Stops e ts before) :
    ∃ bs, s.Stops e (t :: ts) (bs ++ (t.spelling ++ before)) := by
  obtain ⟨bs, hbs, hrest, hplace, ht, hend⟩ := next_eq_token h
  obtain ⟨rest, hbehind⟩ := hstops.rest
  rw [hbehind] at hrest hend
  have htoken : Spells (t.spelling ++ before) (t :: ts) :=
    .token ht (Kind.endsBefore_of_append hstops.ne_open hend) hstops.spells
  refine ⟨bs, ?_, ⟨rest, ?_⟩, ?_, htoken.blanks hbs, hstops.not_isBlank, hstops.ne_open⟩
  · rw [List.length_cons, steps, h, hstops.answers]
    rfl
  · rw [hrest, List.append_assoc, List.append_assoc]
  · rw [hstops.place, hplace, ← Text.Place.after_append, List.append_assoc]

/-- **A scanner that finds a fault** reads what is before it as it would if nothing came behind. -/
theorem exists_stops (h : s.tokens = .error e) : ∃ ts before, s.Stops e ts before := by
  induction s using Scanner.tokens.induct with
  | case1 s e' s' hnext =>
    rw [tokens_eq, hnext] at h
    cases h
    exact ⟨[], stops_of_next hnext⟩
  | case2 s s' hnext =>
    rw [tokens_eq, hnext] at h
    cases h
  | case3 s t s' hnext ih =>
    rw [tokens_eq, hnext] at h
    dsimp only at h
    cases htokens : s'.tokens with
    | ok ts =>
      rw [htokens] at h
      cases h
    | error e' =>
      rw [htokens] at h
      cases h
      obtain ⟨ts, before, hstops⟩ := ih htokens
      obtain ⟨bs, hstops⟩ := hstops.of_next hnext
      exact ⟨t :: ts, _, hstops⟩

end Scanner

/-- **A fault is reported where it is.** If a text is not scanned, then the place of the fault is
that of the character that the fault is about, by its offset in the trimmed text and by the lines of
it; and what is before that character has tokens, which are those that the scanner has read before
it came to the fault. -/
theorem tokenize_error_located {text : String} {e : ScanError} (h : tokenize text = .error e) :
    e.place.Locates (Text.trim text.toList) e.fault.character ∧
    ∃ ts, (Scanner.ofText text).steps (ts.length + 1) =
        ts.map (fun t => .ok (some t)) ++ [.error e] ∧
      tokenize (String.ofList ((Text.trim text.toList).take e.place.offset)) = .ok ts := by
  obtain ⟨ts, before, hstops⟩ := Scanner.exists_stops h
  obtain ⟨rest, hrest⟩ := hstops.rest
  have htext : Text.trim text.toList = before ++ e.fault.character :: rest := hrest
  have hplace : e.place = Text.Place.start.after before := hstops.place
  have hbreak : e.fault.character ≠ '\n' := by
    intro heq
    have hblank := hstops.not_isBlank
    rw [heq] at hblank
    exact absurd hblank (by decide)
  rw [htext]
  refine ⟨?_, ts, hstops.answers, ?_⟩
  · rw [hplace]
    exact Text.Place.locates_after hbreak before rest
  · have hoffset : e.place.offset = before.length := by
      rw [hplace, Text.Place.offset_after]
      exact Nat.zero_add _
    rw [hoffset, List.take_left, tokenize_eq_ok_iff, String.toList_ofList]
    exact hstops.spells

/-- A selector in the second line that lacks a name behind its sign. The word before it is read in
the same way when the text ends there. -/
theorem tokenize_error_located_secondLine :
    tokenize " q := f(b\n -c:+ d) $" = .error ⟨.emptySelector, ⟨12, 2, 4⟩⟩ ∧
    Text.Place.Locates ⟨12, 2, 4⟩ "q := f(b\n -c:+ d) $".toList ':' ∧
    (Scanner.ofText " q := f(b\n -c:+ d) $").steps 8 =
      [⟨.package, "q"⟩, ⟨.assign, ":="⟩, ⟨.function, "f"⟩, ⟨.openParen, "("⟩, ⟨.package, "b"⟩,
        ⟨.operator, "-"⟩, ⟨.package, "c"⟩].map (fun t => .ok (some t)) ++
          [.error ⟨.emptySelector, ⟨12, 2, 4⟩⟩] := by
  have hscan : tokenize " q := f(b\n -c:+ d) $" = .error ⟨.emptySelector, ⟨12, 2, 4⟩⟩ := by
    decide +kernel
  have htext : Text.trim " q := f(b\n -c:+ d) $".toList = "q := f(b\n -c:+ d) $".toList := by
    decide +kernel
  have hcut : String.ofList ("q := f(b\n -c:+ d) $".toList.take 12) = "q := f(b\n -c" := by decide
  have hbefore : tokenize "q := f(b\n -c" = .ok [⟨.package, "q"⟩, ⟨.assign, ":="⟩,
      ⟨.function, "f"⟩, ⟨.openParen, "("⟩, ⟨.package, "b"⟩, ⟨.operator, "-"⟩, ⟨.package, "c"⟩] :=
    tokenize_of_toOption (by decide +kernel)
  obtain ⟨hplace, ts, hsteps, htokens⟩ := tokenize_error_located hscan
  rw [htext] at hplace htokens
  rw [hcut, hbefore] at htokens
  cases htokens
  exact ⟨hscan, hplace, hsteps⟩

end ImportQuery.Token
