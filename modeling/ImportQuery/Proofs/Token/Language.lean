import ImportQuery.Proofs.Token.Spelling

/-!
# The language of the scanner

Which texts have tokens and which tokens are those of a text, without running a scanner. A text is
scanned if its characters are among those that tokens are made of and there is a tag, or an equals
sign, behind every colon. Nothing but its white space is lost. The tokens fit their kinds, and a
parenthesis follows the name of every function; all such lists of tokens can be written and are
read back, whatever white space is put between them.

* `WellFormed` and `written` : the lists of tokens that texts have, and texts that have them.
* `Readable` : the texts that have tokens, by a condition on the neighbours of their characters.
* `tokenize_wellFormed_written` : writing and scanning.
* `tokenize_iff_readable` : the texts that are scanned, and what is kept of them.
-/

namespace ImportQuery.Token

/-! ## Lists of tokens -/

/-- The tokens have texts that fit their kinds, and behind every name of a function comes an opening
parenthesis. -/
structure WellFormed (ts : List Token) : Prop where
  isProper : ∀ t ∈ ts, t.isProper = true
  opens : ∀ t us, t :: us <:+ ts → t.kind = .function → us.head?.map kind = some .openParen

theorem wellFormed_nil : WellFormed [] where
  isProper := by simp
  opens := by simp

theorem wellFormed_cons_iff {t : Token} {ts : List Token} :
    WellFormed (t :: ts) ↔ t.isProper = true ∧
      (t.kind = .function → ts.head?.map kind = some .openParen) ∧ WellFormed ts := by
  constructor
  · rintro ⟨hproper, hopens⟩
    obtain ⟨ht, hts⟩ := List.forall_mem_cons.1 hproper
    refine ⟨ht, hopens t ts List.suffix_rfl, hts, fun u us hus => ?_⟩
    exact hopens u us (hus.trans (List.suffix_cons t ts))
  · rintro ⟨ht, hopen, hproper, hopens⟩
    refine ⟨List.forall_mem_cons.2 ⟨ht, hproper⟩, fun u us hus => ?_⟩
    rcases List.suffix_cons_iff.1 hus with heq | hus
    · obtain ⟨rfl, rfl⟩ := List.cons.inj heq
      exact hopen
    · exact hopens u us hus

/-- The tokens of a text are well-formed. -/
theorem Spells.wellFormed {cs : List Char} {ts : List Token} (h : Spells cs ts) :
    WellFormed ts := by
  induction h with
  | nil => exact wellFormed_nil
  | blank _ _ ih => exact ih
  | @token t cs ts ht hend h ih =>
    refine wellFormed_cons_iff.2 ⟨ht, fun hkind => ?_, ih⟩
    rw [hkind, Kind.endsBefore, beq_iff_eq] at hend
    obtain ⟨rest, rfl⟩ := List.head?_eq_some_iff.1 hend
    obtain ⟨u, us, rfl, hread, -⟩ :=
      (spells_cons_iff (not_isBlank_of_mem_marks (by decide))).1 h
    cases hread
    rfl

/-! ## Writing tokens -/

/-- Tokens in order, with white space between neighbours: `gap n` comes before the last `n` of them.
Nothing comes between the name of a function and its parenthesis. -/
def written (gap : Nat → List Char) : List Token → List Char
  | [] => []
  | [t] => t.spelling
  | t :: u :: ts =>
    t.spelling ++ (if t.kind = .function then [] else gap (ts.length + 1)) ++ written gap (u :: ts)

/-- The characters are white space, and not none. -/
def IsGap (cs : List Char) : Prop := cs ≠ [] ∧ ∀ c ∈ cs, Text.isBlank c = true

theorem IsGap.endsBefore {cs : List Char} (h : IsGap cs) {kind : Kind} (hkind : kind ≠ .function)
    (rest : List Char) : kind.endsBefore (cs ++ rest) = true := by
  obtain ⟨hne, hblank⟩ := h
  obtain ⟨b, cs, rfl⟩ := List.exists_cons_of_ne_nil hne
  rw [List.cons_append, Kind.endsBefore_blank (hblank b (List.mem_cons_self ..))]
  cases kind with
  | function => exact absurd rfl hkind
  | package | operator | openParen | closeParen | comma | selector | assign | semicolon => rfl

theorem head?_written {gap : Nat → List Char} {t : Token} (ts : List Token)
    (ht : t.isProper = true) (hkind : t.kind = .openParen) :
    (written gap (t :: ts)).head? = some '(' := by
  obtain ⟨kind, text⟩ := t
  obtain rfl : kind = .openParen := hkind
  obtain rfl : text = "(" := beq_iff_eq.1 ht
  cases ts <;> rfl

/-- Well-formed tokens are spelled by what is written of them. -/
theorem WellFormed.spells_written {ts : List Token} (h : WellFormed ts) {gap : Nat → List Char}
    (hgap : ∀ n, IsGap (gap n)) : Spells (written gap ts) ts := by
  induction ts with
  | nil => exact .nil
  | cons t ts ih =>
    obtain ⟨ht, hopen, hts⟩ := wellFormed_cons_iff.1 h
    have hrest := ih hts
    cases ts with
    | nil =>
      have hend : t.kind.endsBefore [] = true := by
        cases hkind : t.kind with
        | function => cases hopen hkind
        | package | operator | openParen | closeParen | comma | selector | assign | semicolon => rfl
      have hspells := Spells.token ht hend .nil
      rwa [List.append_nil] at hspells
    | cons u us =>
      rw [written, List.append_assoc]
      by_cases hkind : t.kind = .function
      · have hhead : (written gap (u :: us)).head? = some '(' :=
          head?_written us (wellFormed_cons_iff.1 hts).1 (by simpa using hopen hkind)
        rw [if_pos hkind, List.nil_append]
        exact .token ht (by rw [hkind, Kind.endsBefore, hhead, beq_self_eq_true]) hrest
      · rw [if_neg hkind]
        exact .token ht ((hgap _).endsBefore hkind _) (.blanks (hgap _).2 hrest)

/-- **Tokens and text determine each other**, up to white space. The tokens of every text are
well-formed; and all well-formed tokens are those of every text that is written of them, whatever
white space is between them. -/
theorem tokenize_wellFormed_written :
    (∀ (text : String) (ts : List Token), tokenize text = .ok ts → WellFormed ts) ∧
    ∀ (ts : List Token) (gap : Nat → List Char), WellFormed ts → (∀ n, IsGap (gap n)) →
      tokenize (String.ofList (written gap ts)) = .ok ts := by
  refine ⟨fun text ts h => (tokenize_eq_ok_iff.1 h).wellFormed, fun ts gap hts hgap => ?_⟩
  rw [tokenize_eq_ok_iff, String.toList_ofList]
  exact hts.spells_written hgap

/-- Tokens of every kind, of which some would run together without white space. -/
def assortedTokens : List Token :=
  [⟨.package, "=a-"⟩, ⟨.assign, ":="⟩, ⟨.function, "f"⟩, ⟨.openParen, "("⟩, ⟨.package, "x"⟩,
    ⟨.selector, "--"⟩, ⟨.operator, "-"⟩, ⟨.package, "y"⟩, ⟨.openParen, "("⟩, ⟨.comma, ","⟩,
    ⟨.selector, "+="⟩, ⟨.closeParen, ")"⟩, ⟨.semicolon, ";"⟩]

theorem tokenize_wellFormed_written_assorted :
    WellFormed assortedTokens ∧ (∀ _ : Nat, IsGap ['\u3000', ' ']) ∧
    tokenize (String.ofList (written (fun _ => ['\u3000', ' ']) assortedTokens)) =
      .ok assortedTokens := by
  have hscan : tokenize "=a- := f(x :-- - y ( , :+= ) ;" = .ok assortedTokens :=
    tokenize_of_toOption (by decide +kernel)
  have hwell : WellFormed assortedTokens := tokenize_wellFormed_written.1 _ _ hscan
  have hgap : ∀ _ : Nat, IsGap ['\u3000', ' '] := fun _ => ⟨by simp, List.all_eq_true.1 (by decide)⟩
  exact ⟨hwell, hgap, tokenize_wellFormed_written.2 _ _ hwell hgap⟩

/-! ## Texts that are scanned -/

/-- The character can stand in a text. -/
def isTextChar (c : Char) : Bool :=
  Text.isBlank c || ['(', ')', ',', ';', ':', '+'].contains c || isWordChar c

/-- What comes behind a colon makes an assignment sign or a tag of it. -/
def opensTag : List Char → Bool
  | [] => false
  | c :: cs => c == '=' || (isWordChar c && c != '-') || (isSign c && cs.head?.any isWordChar)

/-- All characters can stand in a text, and every colon has behind it what it needs. -/
structure Readable (cs : List Char) : Prop where
  isTextChar : ∀ c ∈ cs, isTextChar c = true
  opensTag : ∀ rest, ':' :: rest <:+ cs → opensTag rest = true

theorem readable_nil : Readable [] where
  isTextChar := by simp
  opensTag := by simp

theorem readable_cons_iff {c : Char} {cs : List Char} :
    Readable (c :: cs) ↔
      isTextChar c = true ∧ (c = ':' → opensTag cs = true) ∧ Readable cs := by
  constructor
  · rintro ⟨hchars, hcolons⟩
    obtain ⟨hc, hcs⟩ := List.forall_mem_cons.1 hchars
    refine ⟨hc, ?_, hcs, fun rest hrest => hcolons rest (hrest.trans (List.suffix_cons c cs))⟩
    rintro rfl
    exact hcolons cs List.suffix_rfl
  · rintro ⟨hc, hcolon, hchars, hcolons⟩
    refine ⟨List.forall_mem_cons.2 ⟨hc, hchars⟩, fun rest hrest => ?_⟩
    rcases List.suffix_cons_iff.1 hrest with heq | hrest
    · obtain ⟨rfl, rfl⟩ := List.cons.inj heq
      exact hcolon rfl
    · exact hcolons rest hrest

theorem Readable.of_suffix {cs ds : List Char} (h : Readable cs) (hds : ds <:+ cs) :
    Readable ds where
  isTextChar c hc := h.isTextChar c (hds.subset hc)
  opensTag rest hrest := h.opensTag rest (hrest.trans hds)

/-- Characters that are no colons do not change what is behind them. -/
theorem readable_append {cs ds : List Char}
    (hds : ds.all (fun c => isTextChar c && c != ':') = true) (h : Readable cs) :
    Readable (ds ++ cs) := by
  induction ds with
  | nil => exact h
  | cons d ds ih =>
    simp only [List.all_cons, Bool.and_eq_true, bne_iff_ne] at hds
    exact readable_cons_iff.2 ⟨hds.1.1, fun heq => absurd heq hds.1.2, ih hds.2⟩

theorem isTextChar_of_isWordChar {c : Char} (h : isWordChar c = true) :
    (isTextChar c && c != ':') = true := by
  have hcolon : c ≠ ':' := by
    rintro rfl
    exact absurd h (by decide +kernel)
  rw [isTextChar, h, Bool.or_true, Bool.true_and, bne_iff_ne]
  exact hcolon

/-- The characters of a tag make what is needed behind a colon. -/
theorem opensTag_of_isTag {cs : List Char} (h : isTag cs = true) (rest : List Char) :
    opensTag (cs ++ rest) = true := by
  obtain ⟨sign, name, rfl, hsign⟩ := exists_signs cs
  obtain ⟨hne, hall, -⟩ := (isTag_append_iff hsign).1 h
  obtain ⟨c, name, rfl⟩ := List.exists_cons_of_ne_nil hne
  have hc : isWordChar c = true := List.all_eq_true.1 hall c (List.mem_cons_self ..)
  cases hsign with
  | unsigned hsign =>
    have hminus : c ≠ '-' := by
      rintro rfl
      cases hsign
    simp [opensTag, hc, hminus]
  | signed hsign => simp [opensTag, hsign, hc]

theorem readable_spelling {t : Token} {cs : List Char} (ht : t.isProper = true)
    (h : Readable cs) : Readable (t.spelling ++ cs) := by
  obtain ⟨kind, text⟩ := t
  have hword : isWord text.toList = true → Readable (text.toList ++ cs) := fun hword =>
    readable_append (List.all_eq_true.2 fun c hc => isTextChar_of_isWordChar
      (List.all_eq_true.1 (Bool.and_eq_true_iff.1 hword).2 c hc)) h
  cases kind with
  | package | function => exact hword ht
  | selector =>
    refine readable_cons_iff.2 ⟨by decide, fun _ => opensTag_of_isTag ht cs, ?_⟩
    refine readable_append (List.all_eq_true.2 fun c hc => ?_) h
    rcases isTag_mem ht hc with hc | rfl
    · exact isTextChar_of_isWordChar hc
    · decide
  | assign =>
    obtain rfl : text = ":=" := beq_iff_eq.1 ht
    have hsign : Readable (['='] ++ cs) := readable_append (by decide +kernel) h
    exact readable_cons_iff.2 ⟨by decide, fun _ => rfl, hsign⟩
  | operator =>
    obtain rfl | rfl : text = "+" ∨ text = "-" := by simpa [isProper] using ht
    all_goals exact readable_append (by decide +kernel) h
  | openParen | closeParen | comma | semicolon =>
    obtain rfl := beq_iff_eq.1 ht
    exact readable_append (by decide +kernel) h

theorem Spells.readable {cs : List Char} {ts : List Token} (h : Spells cs ts) : Readable cs := by
  induction h with
  | nil => exact readable_nil
  | @blank c _ _ hc _ ih =>
    refine readable_cons_iff.2 ⟨by rw [isTextChar, hc, Bool.true_or, Bool.true_or], ?_, ih⟩
    rintro rfl
    exact absurd hc (by decide)
  | token ht _ _ ih => exact readable_spelling ht ih

/-- What is needed behind a colon is a sign, or none, and a name. -/
theorem isWordChar_of_opensTag {sign cs : List Char} (hsign : Signs sign cs)
    (hassign : (sign ++ cs).head? ≠ some '=') (h : opensTag (sign ++ cs) = true) :
    cs.head?.any isWordChar = true := by
  cases hsign with
  | unsigned hsign =>
    cases cs with
    | nil => cases h
    | cons c cs =>
      have hne : c ≠ '=' := by simpa using hassign
      have hc : isSign c = false := by simpa using hsign
      have hchar : isWordChar c = true ∧ c ≠ '-' := by simpa [opensTag, hne, hc] using h
      exact hchar.1
  | @signed c _ hsign =>
    have hplus : isWordChar '+' = false := by decide +kernel
    obtain hc | hc := Bool.or_eq_true_iff.1 hsign
    · obtain rfl := beq_iff_eq.1 hc
      simpa [opensTag, isSign, hplus] using h
    · obtain rfl := beq_iff_eq.1 hc
      simpa [opensTag, isSign] using h

theorem exists_readColon {rest : List Char} (h : opensTag rest = true) :
    ∃ t, (readColon rest).outcome = .ok t := by
  by_cases hassign : rest.head? = some '='
  · obtain ⟨us, rfl⟩ := List.head?_eq_some_iff.1 hassign
    exact ⟨_, rfl⟩
  · obtain ⟨sign, cs, rfl, hsign⟩ := exists_signs rest
    have hname := isWordChar_of_opensTag hsign hassign h
    cases cs with
    | nil => cases hname
    | cons c cs =>
      have hc : isWordChar c = true := hname
      rw [readColon_eq hsign hassign, List.takeWhile_cons, if_pos hc]
      exact ⟨_, rfl⟩

/-- The characters that begin no other token begin a word. -/
theorem isWordStart_of_isTextChar {c : Char} (hblank : Text.isBlank c = false)
    (hc : isTextChar c = true) (hpunctuation : punctuation? c = none) (hcolon : c ≠ ':') :
    isWordStart c = true := by
  have hmarks : c ∉ marks := by
    have hall : marks.all (fun m => (punctuation? m).isSome || m == ':') = true := by decide
    intro hmem
    have hmark := List.all_eq_true.1 hall c hmem
    rw [hpunctuation] at hmark
    exact hcolon (beq_iff_eq.1 hmark)
  rw [isTextChar, hblank, Bool.false_or, Bool.or_eq_true_iff, List.contains_iff_mem] at hc
  rcases hc with hc | hc
  · have hsub : ['(', ')', ',', ';', ':', '+'] ⊆ marks := by decide
    exact absurd (hsub hc) hmarks
  · rw [isWordChar, Bool.or_eq_true_iff, beq_iff_eq] at hc
    refine hc.resolve_left ?_
    rintro rfl
    exact hmarks (by decide)

/-- A token is read wherever the condition on the characters is met. -/
theorem exists_read {c : Char} {rest : List Char} (hblank : Text.isBlank c = false)
    (hc : isTextChar c = true) (hcolon : c = ':' → opensTag rest = true) :
    ∃ t, (read c rest).outcome = .ok t := by
  unfold read
  split
  · exact ⟨_, rfl⟩
  · rename_i hpunctuation
    split
    · rename_i hc
      exact exists_readColon (hcolon hc)
    · rename_i hne
      rw [if_pos (isWordStart_of_isTextChar hblank hc hpunctuation hne)]
      exact ⟨_, rfl⟩

/-- Every readable text has tokens: the rest behind a token is readable too. -/
theorem Readable.exists_spells {cs : List Char} (h : Readable cs) : ∃ ts, Spells cs ts := by
  induction hlength : cs.length using Nat.strongRecOn generalizing cs with
  | _ n ih =>
    cases cs with
    | nil => exact ⟨[], .nil⟩
    | cons c rest =>
      obtain ⟨hc, hcolon, hrest⟩ := readable_cons_iff.1 h
      rw [List.length_cons] at hlength
      cases hblank : Text.isBlank c with
      | true =>
        obtain ⟨ts, hts⟩ := ih _ (by omega) hrest rfl
        exact ⟨ts, .blank hblank hts⟩
      | false =>
        obtain ⟨t, ht⟩ := exists_read hblank hc hcolon
        have hpos := read_length_pos ht
        obtain ⟨ts, hts⟩ := ih ((c :: rest).drop (read c rest).length).length
          (by rw [List.length_drop, List.length_cons]; omega)
          (h.of_suffix (List.drop_suffix ..)) rfl
        exact ⟨t :: ts, (spells_cons_iff hblank).2 ⟨t, ts, rfl, ht, hts⟩⟩

/-- The spellings of the tokens of a text are the text without its white space. -/
theorem Spells.flatMap_spelling {cs : List Char} {ts : List Token} (h : Spells cs ts) :
    ts.flatMap spelling = cs.filter (!Text.isBlank ·) := by
  induction h with
  | nil => rfl
  | blank hc _ ih => rw [ih, List.filter_cons_of_neg (by simp [hc])]
  | @token t cs ts ht _ _ ih =>
    have hspelling : t.spelling.filter (!Text.isBlank ·) = t.spelling :=
      List.filter_eq_self.2 fun c hc => by simp [not_isBlank_of_mem_spelling ht hc]
    rw [List.flatMap_cons, List.filter_append, hspelling, ih]

/-- **The scanner accepts its language and loses nothing.** A text is scanned if it is readable, and
only then; and the tokens, each with the colon of a selector, are the text without its white
space. -/
theorem tokenize_iff_readable (text : String) :
    ((∃ ts, tokenize text = .ok ts) ↔ Readable text.toList) ∧
      ∀ ts, tokenize text = .ok ts →
        ts.flatMap spelling = text.toList.filter (!Text.isBlank ·) := by
  simp only [tokenize_eq_ok_iff]
  exact ⟨⟨fun ⟨_, h⟩ => h.readable, Readable.exists_spells⟩, fun _ => Spells.flatMap_spelling⟩

theorem tokenize_iff_readable_assorted :
    Readable "q:=x:-test\t;f(a-b)+Ü".toList ∧
    tokenize "q:=x:-test\t;f(a-b)+Ü" = .ok [⟨.package, "q"⟩, ⟨.assign, ":="⟩, ⟨.package, "x"⟩,
      ⟨.selector, "-test"⟩, ⟨.semicolon, ";"⟩, ⟨.function, "f"⟩, ⟨.openParen, "("⟩,
      ⟨.package, "a-b"⟩, ⟨.closeParen, ")"⟩, ⟨.operator, "+"⟩, ⟨.package, "Ü"⟩] ∧
    "q:=x:-test\t;f(a-b)+Ü".toList.filter (!Text.isBlank ·) = "q:=x:-test;f(a-b)+Ü".toList ∧
    ¬∃ ts, tokenize "x:--y:+" = .ok ts := by
  have hscan : tokenize "q:=x:-test\t;f(a-b)+Ü" = .ok [⟨.package, "q"⟩, ⟨.assign, ":="⟩,
      ⟨.package, "x"⟩, ⟨.selector, "-test"⟩, ⟨.semicolon, ";"⟩, ⟨.function, "f"⟩,
      ⟨.openParen, "("⟩, ⟨.package, "a-b"⟩, ⟨.closeParen, ")"⟩, ⟨.operator, "+"⟩,
      ⟨.package, "Ü"⟩] :=
    tokenize_of_toOption (by decide +kernel)
  refine ⟨(tokenize_iff_readable _).1.1 ⟨_, hscan⟩, hscan, ?_, fun h => ?_⟩
  · rw [← (tokenize_iff_readable _).2 _ hscan]
    decide +kernel
  · have hreadable := (tokenize_iff_readable _).1.1 h
    have hcolon := hreadable.opensTag ['+'] (by decide)
    cases hcolon

end ImportQuery.Token
