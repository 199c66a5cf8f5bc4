import ImportQuery.Token.Scanner

/-!
# The texts that spell tokens

Which texts the scanner accepts, stated without the scanner: a text spells a list of tokens if it
consists of the spellings of the tokens and white space, and what stands behind a word does not go
on with it (`Spells`).

* `read_spelling` and `spelling_of_read` : the reading of a token, from both sides.
* `Scanner.tokens_eq_ok_iff` and `tokenize_eq_ok_iff` : the scanner finds the tokens that a text
  spells, and no others.
-/

namespace ImportQuery.Token

/-! ## Characters -/

/-- The code points of the white space. -/
def blankCodes : List Nat :=
  Text.blankRanges.flatMap fun (first, last) => List.range' first (last + 1 - first)

theorem toNat_mem_blankCodes {c : Char} (h : Text.isBlank c = true) : c.toNat ∈ blankCodes := by
  obtain ⟨⟨first, last⟩, hrange, hfirst, hlast⟩ := Text.inRanges_iff.1 h
  refine List.mem_flatMap.2 ⟨(first, last), hrange, List.mem_range'_1.2 ⟨hfirst, ?_⟩⟩
  simp only at hlast hfirst ⊢
  omega

/-- The characters that stand in tokens but in no word, and the hyphen. -/
def marks : List Char := ['(', ')', ',', ';', ':', '+', '-']

theorem isWordChar_and_mark_of_isBlank {c : Char} (h : Text.isBlank c = true) :
    isWordChar c = false ∧ c ∉ marks := by
  have hall : ∀ n ∈ blankCodes, isWordChar (Char.ofNat n) = false ∧ Char.ofNat n ∉ marks := by
    decide +kernel
  have hc := hall c.toNat (toNat_mem_blankCodes h)
  rwa [Char.ofNat_toNat] at hc

/-- White space belongs to no word. -/
theorem not_isBlank_of_isWordChar {c : Char} (h : isWordChar c = true) :
    Text.isBlank c = false := by
  rw [Bool.eq_false_iff]
  intro hblank
  simp [(isWordChar_and_mark_of_isBlank hblank).1] at h

theorem not_isBlank_of_mem_marks {c : Char} (h : c ∈ marks) : Text.isBlank c = false := by
  rw [Bool.eq_false_iff]
  intro hblank
  exact (isWordChar_and_mark_of_isBlank hblank).2 h

theorem isWordChar_of_isWordStart {c : Char} (h : isWordStart c = true) : isWordChar c = true := by
  rw [isWordChar, h, Bool.or_true]

/-- No other token begins like a word. -/
theorem punctuation?_eq_none {c : Char} (h : isWordStart c = true) :
    punctuation? c = none ∧ c ≠ ':' := by
  have hmarks : marks.all (!isWordStart ·) = true := by decide +kernel
  have hne : ∀ m ∈ marks, c ≠ m := by
    rintro m hm rfl
    have hc := List.all_eq_true.1 hmarks c hm
    rw [h] at hc
    cases hc
  refine ⟨?_, hne ':' (by decide)⟩
  unfold punctuation?
  split <;> first | rfl | exact absurd rfl (hne _ (by decide))

/-! ## Words and tags -/

/-- The characters are a word. -/
def isWord (cs : List Char) : Bool := cs.head?.any isWordStart && cs.all isWordChar

/-- The characters are the tag of a selector: a run of word characters, and perhaps a sign before
it. One that begins with `=` would make the colon an assignment sign. -/
def isTag (cs : List Char) : Bool :=
  let name := if cs.head?.any isSign then cs.tail else cs
  !name.isEmpty && name.all isWordChar && cs.head? != some '='

/-- The text does not go on with a word. -/
def endsWord (rest : List Char) : Bool := !rest.head?.any isWordChar

theorem takeWhile_word {cs rest : List Char} (hcs : cs.all isWordChar = true)
    (hrest : endsWord rest = true) :
    (cs ++ rest).takeWhile isWordChar = cs ∧ (cs ++ rest).dropWhile isWordChar = rest := by
  rw [List.takeWhile_append_of_pos (List.all_eq_true.1 hcs),
    List.dropWhile_append_of_pos (List.all_eq_true.1 hcs)]
  cases rest with
  | nil => simp
  | cons c rest =>
    have hc : isWordChar c = false := by simpa [endsWord] using hrest
    simp [hc]

theorem endsWord_dropWhile (cs : List Char) : endsWord (cs.dropWhile isWordChar) = true := by
  have h := List.head?_dropWhile_not isWordChar cs
  rw [endsWord]
  cases hhead : (cs.dropWhile isWordChar).head? with
  | none => rfl
  | some c => simpa [hhead] using h

/-! ## Tokens -/

/-- The characters that a token is read from. -/
def spelling (t : Token) : List Char :=
  if t.kind = .selector then ':' :: t.text.toList else t.text.toList

/-- The text of the token is one that a token of its kind can have. -/
def isProper (t : Token) : Bool :=
  match t.kind with
  | .package | .function => isWord t.text.toList
  | .selector => isTag t.text.toList
  | .operator => t.text == "+" || t.text == "-"
  | .openParen => t.text == "("
  | .closeParen => t.text == ")"
  | .comma => t.text == ","
  | .semicolon => t.text == ";"
  | .assign => t.text == ":="

/-- A token of the kind can end where the text goes on with `rest`. -/
def Kind.endsBefore (kind : Kind) (rest : List Char) : Bool :=
  match kind with
  | .package => endsWord rest && rest.head? != some '('
  | .function => rest.head? == some '('
  | .selector => endsWord rest
  | _ => true

theorem endsWord_of_open {rest : List Char} (h : rest.head? = some '(') : endsWord rest = true := by
  rw [endsWord, h]
  decide +kernel

theorem read_word {kind : Kind} {cs rest : List Char} (hkind : kind = .package ∨ kind = .function)
    (hcs : isWord cs = true) (hend : kind.endsBefore rest = true) :
    ∃ c us, cs ++ rest = c :: us ∧ Text.isBlank c = false ∧
      read c us = ⟨.ok ⟨kind, String.ofList cs⟩, cs.length⟩ := by
  obtain ⟨hstart, hall⟩ := Bool.and_eq_true_iff.1 hcs
  cases cs with
  | nil => cases hstart
  | cons c cs =>
    have hc : isWordStart c = true := by simpa using hstart
    obtain ⟨hpunctuation, hcolon⟩ := punctuation?_eq_none hc
    have hrest : endsWord rest = true := by
      rcases hkind with rfl | rfl
      · exact (Bool.and_eq_true_iff.1 hend).1
      · exact endsWord_of_open (beq_iff_eq.1 hend)
    obtain ⟨htake, hdrop⟩ := takeWhile_word hall hrest
    have hread : (if rest.head? = some '(' then Kind.function else Kind.package) = kind := by
      rcases hkind with rfl | rfl
      · exact if_neg (bne_iff_ne.1 (Bool.and_eq_true_iff.1 hend).2)
      · exact if_pos (beq_iff_eq.1 hend)
    refine ⟨c, cs ++ rest, rfl, not_isBlank_of_isWordChar (isWordChar_of_isWordStart hc), ?_⟩
    rw [List.cons_append] at htake hdrop
    simp only [read, hpunctuation, if_neg hcolon, if_pos hc, readWord, htake, hdrop, hread]

/-! ## Tags after a colon -/

/-- The characters before the name of a tag: a sign, or nothing where no sign comes next. -/
inductive Signs : List Char → List Char → Prop
  | unsigned {cs : List Char} (h : cs.head?.any isSign = false) : Signs [] cs
  | signed {c : Char} {cs : List Char} (h : isSign c = true) : Signs [c] cs

theorem exists_signs (cs : List Char) : ∃ sign us, cs = sign ++ us ∧ Signs sign us := by
  cases cs with
  | nil => exact ⟨[], [], rfl, .unsigned rfl⟩
  | cons c cs =>
    by_cases hc : isSign c = true
    · exact ⟨[c], cs, rfl, .signed hc⟩
    · exact ⟨[], c :: cs, rfl, .unsigned (by simpa using hc)⟩

theorem Signs.congr {sign cs us : List Char} (h : Signs sign cs) (hhead : us.head? = cs.head?) :
    Signs sign us := by
  cases h with
  | unsigned h => exact .unsigned (by rw [hhead, h])
  | signed h => exact .signed h

theorem Signs.takeWhile {sign cs : List Char} (h : Signs sign cs) :
    ((sign ++ cs).take 1).takeWhile isSign = sign := by
  cases h with
  | unsigned h =>
    cases cs with
    | nil => rfl
    | cons c cs =>
      have hc : isSign c = false := by simpa using h
      simp [hc]
  | signed h => simp [h]

/-- The reading after a colon that no `=` follows: a sign, if there is one, and a run of word
characters. -/
theorem readColon_eq {sign cs : List Char} (h : Signs sign cs)
    (hne : (sign ++ cs).head? ≠ some '=') :
    readColon (sign ++ cs) =
      if (cs.takeWhile isWordChar).isEmpty then
        ⟨.error .emptySelector, 1 + sign.length + (cs.takeWhile isWordChar).length⟩
      else ⟨.ok ⟨.selector, String.ofList (sign ++ cs.takeWhile isWordChar)⟩,
        1 + sign.length + (cs.takeWhile isWordChar).length⟩ := by
  unfold readColon
  split
  · rename_i heq
    rw [heq] at hne
    exact absurd rfl hne
  · dsimp only
    rw [h.takeWhile, List.drop_left]

theorem Signs.name_eq {sign cs : List Char} (h : Signs sign cs) :
    (if (sign ++ cs).head?.any isSign then (sign ++ cs).tail else sign ++ cs) = cs := by
  cases h with
  | unsigned h =>
    rw [List.nil_append, h]
    rfl
  | signed h =>
    rw [List.singleton_append, List.head?_cons, Option.any_some, if_pos h]
    rfl

theorem isTag_append_iff {sign name : List Char} (h : Signs sign name) :
    isTag (sign ++ name) = true ↔
      name ≠ [] ∧ name.all isWordChar = true ∧ (sign ++ name).head? ≠ some '=' := by
  rw [isTag, h.name_eq]
  simp [and_assoc]

theorem read_tag {cs rest : List Char} (hcs : isTag cs = true) (hend : endsWord rest = true) :
    readColon (cs ++ rest) = ⟨.ok ⟨.selector, String.ofList cs⟩, cs.length + 1⟩ := by
  obtain ⟨sign, name, rfl, hsign⟩ := exists_signs cs
  obtain ⟨hne, hall, hhead⟩ := (isTag_append_iff hsign).1 hcs
  obtain ⟨c, name, rfl⟩ := List.exists_cons_of_ne_nil hne
  have hsign' : Signs sign (c :: name ++ rest) := hsign.congr rfl
  have hhead' : (sign ++ (c :: name ++ rest)).head? ≠ some '=' := by
    cases sign with
    | nil => exact hhead
    | cons => exact hhead
  rw [List.append_assoc, readColon_eq hsign' hhead', (takeWhile_word hall hend).1,
    if_neg (by simp)]
  simp only [List.length_append, List.length_cons, Reading.mk.injEq, true_and]
  omega

/-- A token is read from its spelling if it can end there. -/
theorem read_spelling {t : Token} {rest : List Char} (ht : t.isProper = true)
    (hend : t.kind.endsBefore rest = true) :
    ∃ c us, t.spelling ++ rest = c :: us ∧ Text.isBlank c = false ∧
      read c us = ⟨.ok t, t.spelling.length⟩ := by
  obtain ⟨kind, text⟩ := t
  cases kind with
  | package => simpa [spelling] using read_word (.inl rfl) ht hend
  | function => simpa [spelling] using read_word (.inr rfl) ht hend
  | selector =>
    refine ⟨':', text.toList ++ rest, rfl, not_isBlank_of_mem_marks (by decide), ?_⟩
    have hread : read ':' (text.toList ++ rest) = readColon (text.toList ++ rest) := rfl
    rw [hread, read_tag ht hend, String.ofList_toList]
    rfl
  | operator =>
    obtain rfl | rfl : text = "+" ∨ text = "-" := by simpa [isProper] using ht
    · exact ⟨'+', rest, rfl, not_isBlank_of_mem_marks (by decide), rfl⟩
    · exact ⟨'-', rest, rfl, not_isBlank_of_mem_marks (by decide), rfl⟩
  | openParen =>
    obtain rfl : text = "(" := by simpa [isProper] using ht
    exact ⟨'(', rest, rfl, not_isBlank_of_mem_marks (by decide), rfl⟩
  | closeParen =>
    obtain rfl : text = ")" := by simpa [isProper] using ht
    exact ⟨')', rest, rfl, not_isBlank_of_mem_marks (by decide), rfl⟩
  | comma =>
    obtain rfl : text = "," := by simpa [isProper] using ht
    exact ⟨',', rest, rfl, not_isBlank_of_mem_marks (by decide), rfl⟩
  | semicolon =>
    obtain rfl : text = ";" := by simpa [isProper] using ht
    exact ⟨';', rest, rfl, not_isBlank_of_mem_marks (by decide), rfl⟩
  | assign =>
    obtain rfl : text = ":=" := by simpa [isProper] using ht
    exact ⟨':', '=' :: rest, rfl, not_isBlank_of_mem_marks (by decide), rfl⟩

/-- The token of a punctuation mark. -/
theorem proper_of_punctuation {c : Char} {kind : Kind} (h : punctuation? c = some kind) :
    (Token.mk kind c.toString).isProper = true ∧ (Token.mk kind c.toString).spelling = [c] ∧
      ∀ rest, kind.endsBefore rest = true := by
  unfold punctuation? at h
  split at h <;> cases h <;> exact ⟨rfl, rfl, fun _ => rfl⟩

theorem all_takeWhile_word (cs : List Char) : (cs.takeWhile isWordChar).all isWordChar = true :=
  List.all_takeWhile

theorem head?_takeWhile {cs : List Char} (h : cs.takeWhile isWordChar ≠ []) :
    (cs.takeWhile isWordChar).head? = cs.head? := by
  cases cs with
  | nil => rfl
  | cons c cs =>
    by_cases hc : isWordChar c = true
    · rw [List.takeWhile_cons, if_pos hc, List.head?_cons, List.head?_cons]
    · rw [List.takeWhile_cons, if_neg hc] at h
      exact absurd rfl h

/-- What is read after a colon is an assignment sign or a tag, and ends there. -/
theorem spelling_of_readColon {rest : List Char} {t : Token}
    (h : (readColon rest).outcome = .ok t) :
    t.isProper = true ∧ ∃ us, ':' :: rest = t.spelling ++ us ∧ t.kind.endsBefore us = true ∧
      (readColon rest).length = t.spelling.length := by
  by_cases hassign : rest.head? = some '='
  · obtain ⟨us, rfl⟩ := List.head?_eq_some_iff.1 hassign
    cases h
    exact ⟨rfl, us, rfl, rfl, rfl⟩
  · obtain ⟨sign, cs, rfl, hsign⟩ := exists_signs rest
    rw [readColon_eq hsign hassign] at h ⊢
    split at h
    · cases h
    · rename_i hname
      cases h
      rw [if_neg hname]
      refine ⟨?_, cs.dropWhile isWordChar, ?_, endsWord_dropWhile cs, ?_⟩
      · have hne : cs.takeWhile isWordChar ≠ [] := by simpa using hname
        have hhead := head?_takeWhile hne
        rw [isProper, String.toList_ofList, isTag_append_iff (hsign.congr hhead)]
        refine ⟨hne, all_takeWhile_word cs, ?_⟩
        cases sign with
        | nil => rwa [List.nil_append, hhead]
        | cons => exact hassign
      · simp [spelling]
      · simp only [spelling, if_true, String.toList_ofList, List.length_cons, List.length_append]
        omega

theorem spelling_of_readWord {text : List Char} {t : Token} (hstart : text.head?.any isWordStart)
    (h : (readWord text).outcome = .ok t) :
    t.isProper = true ∧ ∃ us, text = t.spelling ++ us ∧ t.kind.endsBefore us = true ∧
      (readWord text).length = t.spelling.length := by
  cases h
  have hword : isWord (text.takeWhile isWordChar) = true := by
    rw [isWord, all_takeWhile_word, Bool.and_true]
    cases text with
    | nil => cases hstart
    | cons c cs =>
      have hc : isWordStart c = true := by simpa using hstart
      rw [List.takeWhile_cons, if_pos (isWordChar_of_isWordStart hc)]
      exact hstart
  by_cases hopen : (text.dropWhile isWordChar).head? = some '('
  · rw [if_pos hopen]
    refine ⟨?_, text.dropWhile isWordChar, ?_, beq_iff_eq.2 hopen, ?_⟩
    · rw [isProper, String.toList_ofList, hword]
    · simp [spelling]
    · simp [spelling, readWord]
  · rw [if_neg hopen]
    refine ⟨?_, text.dropWhile isWordChar, ?_,
      Bool.and_eq_true_iff.2 ⟨endsWord_dropWhile text, bne_iff_ne.2 hopen⟩, ?_⟩
    · rw [isProper, String.toList_ofList, hword]
    · simp [spelling]
    · simp [spelling, readWord]

/-- What is read is spelled there, and ends there. -/
theorem spelling_of_read {c : Char} {rest : List Char} {t : Token}
    (h : (read c rest).outcome = .ok t) :
    t.isProper = true ∧ ∃ us, c :: rest = t.spelling ++ us ∧ t.kind.endsBefore us = true ∧
      (read c rest).length = t.spelling.length := by
  unfold read at h ⊢
  split at h
  · rename_i kind hpunctuation
    cases h
    obtain ⟨hproper, hspelling, hend⟩ := proper_of_punctuation hpunctuation
    refine ⟨hproper, rest, ?_, hend rest, ?_⟩
    · rw [hspelling, List.singleton_append]
    · rw [hspelling]
      rfl
  · split at h
    · rename_i hcolon
      rw [if_pos hcolon, hcolon]
      exact spelling_of_readColon h
    · rename_i hcolon
      rw [if_neg hcolon]
      split at h
      · rename_i hstart
        rw [if_pos hstart]
        exact spelling_of_readWord (by simpa using hstart) h
      · cases h

/-! ## Texts -/

/-- The text consists of the spellings of the tokens and of white space, and every token ends where
its spelling does. -/
inductive Spells : List Char → List Token → Prop
  | nil : Spells [] []
  | blank {c : Char} {cs : List Char} {ts : List Token} (hc : Text.isBlank c = true)
    (h : Spells cs ts) : Spells (c :: cs) ts
  | token {t : Token} {cs : List Char} {ts : List Token} (ht : t.isProper = true)
    (hend : t.kind.endsBefore cs = true) (h : Spells cs ts) : Spells (t.spelling ++ cs) (t :: ts)

theorem Spells.isProper {cs : List Char} {ts : List Token} (h : Spells cs ts) :
    ∀ t ∈ ts, t.isProper = true := by
  induction h with
  | nil => simp
  | blank _ _ ih => exact ih
  | token ht _ _ ih =>
    intro t hmem
    rcases List.mem_cons.1 hmem with rfl | hmem
    · exact ht
    · exact ih t hmem

theorem Spells.blanks {bs cs : List Char} {ts : List Token}
    (hbs : ∀ b ∈ bs, Text.isBlank b = true) (h : Spells cs ts) : Spells (bs ++ cs) ts := by
  induction bs with
  | nil => exact h
  | cons b bs ih =>
    obtain ⟨hb, hbs⟩ := List.forall_mem_cons.1 hbs
    exact .blank hb (ih hbs)

/-- A character that is not blank begins a token. -/
theorem spells_cons_iff {c : Char} {rest : List Char} {ts : List Token}
    (hc : Text.isBlank c = false) :
    Spells (c :: rest) ts ↔ ∃ t us, ts = t :: us ∧ (read c rest).outcome = .ok t ∧
      Spells ((c :: rest).drop (read c rest).length) us := by
  constructor
  · generalize htext : c :: rest = text
    intro h
    cases h with
    | nil => cases htext
    | blank hblank =>
      obtain ⟨rfl, -⟩ := List.cons.inj htext
      simp [hc] at hblank
    | @token t cs us ht hend h =>
      obtain ⟨c', us', hspelling, -, hread⟩ := read_spelling ht hend
      obtain ⟨rfl, rfl⟩ := List.cons.inj (htext.trans hspelling)
      refine ⟨t, us, rfl, by rw [hread], ?_⟩
      rwa [hread, List.drop_left]
  · rintro ⟨t, us, rfl, hread, h⟩
    obtain ⟨ht, cs, hspelling, hend, hlength⟩ := spelling_of_read hread
    rw [hlength, hspelling, List.drop_left] at h
    rw [hspelling]
    exact .token ht hend h

theorem spells_dropWhile_iff {cs : List Char} {ts : List Token} :
    Spells (cs.dropWhile Text.isBlank) ts ↔ Spells cs ts := by
  induction cs with
  | nil => exact Iff.rfl
  | cons c cs ih =>
    by_cases hc : Text.isBlank c = true
    · rw [List.dropWhile_cons, if_pos hc, ih]
      constructor
      · exact .blank hc
      · intro h
        generalize htext : c :: cs = text at h
        cases h with
        | nil => cases htext
        | blank _ h =>
          obtain ⟨-, rfl⟩ := List.cons.inj htext
          exact h
        | token ht hend _ =>
          obtain ⟨c', us, hspelling, hblank, -⟩ := read_spelling ht hend
          obtain ⟨rfl, -⟩ := List.cons.inj (htext.trans hspelling)
          simp [hc] at hblank
    · rw [List.dropWhile_cons, if_neg hc]

theorem not_isBlank_of_dropWhile {cs rest : List Char} {c : Char}
    (h : cs.dropWhile Text.isBlank = c :: rest) : Text.isBlank c = false := by
  simpa [h] using List.head?_dropWhile_not Text.isBlank cs

/-- One step of a scanner, seen from what its text spells. -/
theorem Scanner.spells_iff_next {s : Scanner} {ts : List Token} :
    Spells s.rest ts ↔ match s.next with
      | (.error _, _) => False
      | (.ok none, _) => ts = []
      | (.ok (some t), s') => ∃ us, ts = t :: us ∧ Spells s'.rest us := by
  rw [← spells_dropWhile_iff, show s.rest.dropWhile Text.isBlank = s.skipBlanks.rest from rfl, next]
  dsimp only
  cases hrest : s.skipBlanks.rest with
  | nil =>
    dsimp only
    constructor
    · generalize htext : ([] : List Char) = text
      intro h
      cases h with
      | nil => rfl
      | blank => cases htext
      | token ht hend =>
        obtain ⟨c, us, hspelling, -⟩ := read_spelling ht hend
        cases htext.trans hspelling
    · rintro rfl
      exact .nil
  | cons c rest =>
    dsimp only
    rw [spells_cons_iff (not_isBlank_of_dropWhile hrest)]
    cases hread : (read c rest).outcome with
    | error fault => simp
    | ok t =>
      simp only [Except.ok.injEq]
      constructor
      · rintro ⟨_, us, rfl, rfl, h⟩
        exact ⟨us, rfl, by rwa [advance, hrest]⟩
      · rintro ⟨us, rfl, h⟩
        exact ⟨t, us, rfl, rfl, by rwa [advance, hrest] at h⟩

theorem Scanner.tokens_eq (s : Scanner) :
    s.tokens = match s.next with
      | (.error e, _) => .error e
      | (.ok none, _) => .ok []
      | (.ok (some t), s') => (t :: ·) <$> s'.tokens := by
  rw [tokens]
  split
  · rename_i hnext
    rw [hnext]
  · rename_i hnext
    rw [hnext]
  · rename_i hnext
    rw [hnext]

theorem Scanner.tokens_eq_ok_iff {s : Scanner} {ts : List Token} :
    s.tokens = .ok ts ↔ Spells s.rest ts := by
  induction s using Scanner.tokens.induct generalizing ts with
  | case1 s e s' hnext =>
    rw [tokens_eq, spells_iff_next, hnext]
    simp
  | case2 s s' hnext =>
    rw [tokens_eq, spells_iff_next, hnext]
    simp [eq_comm]
  | case3 s t s' hnext ih =>
    rw [tokens_eq, spells_iff_next, hnext]
    dsimp only
    constructor
    · intro h
      cases htokens : s'.tokens with
      | error e =>
        rw [htokens] at h
        cases h
      | ok us =>
        rw [htokens] at h
        cases h
        exact ⟨us, rfl, ih.1 htokens⟩
    · rintro ⟨us, rfl, h⟩
      rw [ih.2 h]
      rfl

/-- A text spells at most one list of tokens. -/
theorem Spells.unique {cs : List Char} {ts us : List Token} (h : Spells cs ts)
    (h' : Spells cs us) : ts = us := by
  have hts := Scanner.tokens_eq_ok_iff (s := ⟨.start, cs⟩) |>.2 h
  have hus := Scanner.tokens_eq_ok_iff (s := ⟨.start, cs⟩) |>.2 h'
  simpa using hts.symm.trans hus

/-! ## Texts behind each other -/

/-- A token that can end at the end of a text can end before what does not go on with a word. -/
theorem Kind.endsBefore_append {kind : Kind} {cs ds : List Char} (h : kind.endsBefore cs = true)
    (hds : package.endsBefore ds = true) : kind.endsBefore (cs ++ ds) = true := by
  cases cs with
  | cons c cs => exact h
  | nil =>
    cases kind with
    | package => exact hds
    | function => cases h
    | selector => exact (Bool.and_eq_true_iff.1 hds).1
    | operator | openParen | closeParen | comma | assign | semicolon => rfl

/-- A text and one that does not go on with its last word spell the tokens of both. -/
theorem Spells.append {cs ds : List Char} {ts us : List Token} (h : Spells cs ts)
    (hds : Kind.package.endsBefore ds = true) (h' : Spells ds us) :
    Spells (cs ++ ds) (ts ++ us) := by
  induction h with
  | nil => exact h'
  | blank hc _ ih => exact .blank hc ih
  | token ht hend _ ih =>
    rw [List.append_assoc]
    exact .token ht (Kind.endsBefore_append hend hds) ih

/-! ## White space at the ends -/

/-- White space ends a token where the end of the text does. -/
theorem Kind.endsBefore_blank {kind : Kind} {b : Char} {cs : List Char}
    (hb : Text.isBlank b = true) : kind.endsBefore (b :: cs) = kind.endsBefore [] := by
  obtain ⟨hword, hmarks⟩ := isWordChar_and_mark_of_isBlank hb
  have hopen : b ≠ '(' := by
    rintro rfl
    exact hmarks (by decide)
  cases kind <;> simp [endsBefore, endsWord, hword, bne, hopen]

theorem Kind.endsBefore_concat {kind : Kind} {cs : List Char} {b : Char}
    (hb : Text.isBlank b = true) : kind.endsBefore (cs ++ [b]) = kind.endsBefore cs := by
  cases cs with
  | cons c cs => rfl
  | nil => exact endsBefore_blank hb

theorem isTag_mem {cs : List Char} (h : isTag cs = true) {c : Char} (hc : c ∈ cs) :
    isWordChar c = true ∨ c = '+' := by
  obtain ⟨sign, name, rfl, hsign⟩ := exists_signs cs
  obtain ⟨-, hall, -⟩ := (isTag_append_iff hsign).1 h
  rcases List.mem_append.1 hc with hc | hc
  · cases hsign with
    | unsigned => cases hc
    | signed hsign =>
      obtain rfl := List.mem_singleton.1 hc
      rw [isSign, Bool.or_eq_true_iff, beq_iff_eq, beq_iff_eq] at hsign
      exact hsign.symm.imp_left fun hminus => by rw [isWordChar, hminus, beq_self_eq_true,
        Bool.true_or]
  · exact .inl (List.all_eq_true.1 hall c hc)

/-- There is no white space inside a token. -/
theorem not_isBlank_of_mem_spelling {t : Token} (ht : t.isProper = true) {c : Char}
    (hc : c ∈ t.spelling) : Text.isBlank c = false := by
  obtain ⟨kind, text⟩ := t
  have hword : isWord text.toList = true → c ∈ text.toList → Text.isBlank c = false :=
    fun h hmem =>
      not_isBlank_of_isWordChar (List.all_eq_true.1 (Bool.and_eq_true_iff.1 h).2 c hmem)
  cases kind with
  | package | function => exact hword ht hc
  | selector =>
    rcases List.mem_cons.1 hc with rfl | hc
    · exact not_isBlank_of_mem_marks (by decide)
    · rcases isTag_mem ht hc with h | rfl
      · exact not_isBlank_of_isWordChar h
      · exact not_isBlank_of_mem_marks (by decide)
  | operator =>
    obtain rfl | rfl : text = "+" ∨ text = "-" := by simpa [isProper] using ht
    all_goals
      obtain rfl := List.mem_singleton.1 hc
      exact not_isBlank_of_mem_marks (by decide)
  | assign =>
    obtain rfl : text = ":=" := by simpa [isProper] using ht
    obtain rfl | rfl : c = ':' ∨ c = '=' := by simpa [spelling] using hc
    · exact not_isBlank_of_mem_marks (by decide)
    · exact not_isBlank_of_isWordChar (by decide +kernel)
  | openParen | closeParen | comma | semicolon =>
    obtain rfl := beq_iff_eq.1 ht
    obtain rfl := List.mem_singleton.1 hc
    exact not_isBlank_of_mem_marks (by decide)

theorem spells_concat_iff {cs : List Char} {b : Char} {ts : List Token}
    (hb : Text.isBlank b = true) : Spells (cs ++ [b]) ts ↔ Spells cs ts := by
  constructor
  · generalize htext : cs ++ [b] = text
    intro h
    induction h generalizing cs with
    | nil => simp at htext
    | @blank c us ts hc h ih =>
      cases cs with
      | nil =>
        obtain ⟨-, rfl⟩ := List.cons.inj htext
        exact h
      | cons c cs =>
        obtain ⟨rfl, rfl⟩ := List.cons.inj htext
        exact .blank hc (ih rfl)
    | @token t us ts ht hend h ih =>
      rcases us.eq_nil_or_concat with rfl | ⟨us, b', rfl⟩
      · have hmem : b ∈ t.spelling := by
          rw [List.append_nil] at htext
          simp [← htext]
        simp [not_isBlank_of_mem_spelling ht hmem] at hb
      · rw [List.concat_eq_append] at hend
        rw [List.concat_eq_append, ← List.append_assoc] at htext
        obtain ⟨rfl, hb'⟩ := List.append_inj' htext rfl
        obtain rfl := List.singleton_inj.1 hb'
        exact .token ht (by rwa [Kind.endsBefore_concat hb] at hend) (ih List.concat_eq_append.symm)
  · intro h
    induction h with
    | nil => exact .blank hb .nil
    | blank hc _ ih => exact .blank hc ih
    | token ht hend _ ih =>
      rw [List.append_assoc]
      exact .token ht (by rwa [Kind.endsBefore_concat hb]) ih

/-- White space at the end of a text spells nothing. -/
theorem spells_append_iff {cs bs : List Char} {ts : List Token}
    (hbs : ∀ b ∈ bs, Text.isBlank b = true) : Spells (cs ++ bs) ts ↔ Spells cs ts := by
  induction bs generalizing cs with
  | nil => rw [List.append_nil]
  | cons b bs ih =>
    have hb := hbs b (List.mem_cons_self ..)
    rw [show cs ++ b :: bs = cs ++ [b] ++ bs by simp,
      ih fun b hb => hbs b (List.mem_cons_of_mem _ hb), spells_concat_iff hb]

theorem exists_trim_append (cs : List Char) :
    ∃ bs, cs.dropWhile Text.isBlank = Text.trim cs ++ bs ∧ ∀ b ∈ bs, Text.isBlank b = true := by
  refine ⟨((cs.dropWhile Text.isBlank).reverse.takeWhile Text.isBlank).reverse, ?_, ?_⟩
  · rw [Text.trim, ← List.reverse_append, List.takeWhile_append_dropWhile, List.reverse_reverse]
  · intro b hb
    exact List.all_eq_true.1 List.all_takeWhile b (List.mem_reverse.1 hb)

theorem spells_trim_iff {cs : List Char} {ts : List Token} :
    Spells (Text.trim cs) ts ↔ Spells cs ts := by
  obtain ⟨bs, hcs, hbs⟩ := exists_trim_append cs
  rw [← @spells_dropWhile_iff cs, hcs, spells_append_iff hbs]

/-- The tokens of a text are the tokens that it spells. -/
theorem tokenize_eq_ok_iff {text : String} {ts : List Token} :
    tokenize text = .ok ts ↔ Spells text.toList ts := by
  rw [tokenize, Scanner.tokens_eq_ok_iff]
  exact spells_trim_iff

/-- The tokens of a given text, found by evaluation. -/
theorem tokenize_of_toOption {text : String} {ts : List Token}
    (h : (tokenize text).toOption = some ts) : tokenize text = .ok ts := by
  cases hscan : tokenize text with
  | error err =>
    rw [hscan] at h
    cases h
  | ok us =>
    rw [hscan] at h
    cases h
    rfl

end ImportQuery.Token
