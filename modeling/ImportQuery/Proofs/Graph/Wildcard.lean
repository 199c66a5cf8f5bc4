import ImportQuery.Proofs.Graph.Pattern

/-!
# What a pattern with gaps means

A text with gaps is the pattern of a language: its pieces stand for themselves, and a gap for any
text within a line. An identifier can be made of the pieces in several ways, as a piece may occur
more than once in it. The matcher tries one way only, the one that takes each piece at the first
place. Nothing is lost by that: what a later place adds to the gap before a piece, the first place
adds to the gap behind it, and there are as many line feeds in the one as in the other.

* `Pieces` and `Filled` : the language of a text, without a matcher.
* `fits_iff` : the matcher finds a way to fill the gaps if there is one.
* `accepts_gapped_iff` : the identifiers that fit a text with gaps.
-/

namespace ImportQuery.Pattern

variable {c : Char} {s t u g segment behind rest text : List Char} {ss segments : List (List Char)}

/-! ## The language of a text -/

/-- The pieces of a text between the marks of gaps. The marks are found from the left: there is none
in a piece with the first two dots of the mark behind it. -/
inductive Pieces : List Char → List (List Char) → Prop
  | last {s : List Char} (h : ¬ gap <:+: s) : Pieces s [s]
  | cons {s t : List Char} {ss : List (List Char)} (h : ¬ gap <:+: s ++ ['.', '.'])
    (ht : Pieces t ss) : Pieces (s ++ gap ++ t) (s :: ss)

/-- The text is made of the segments in order, with a text without line feeds between neighbours. -/
inductive Filled : List (List Char) → List Char → Prop
  | last {s : List Char} : Filled [s] s
  | cons {s g t : List Char} {ss : List (List Char)} (hg : '\n' ∉ g) (ht : Filled ss t) :
    Filled (s :: ss) (s ++ g ++ t)

/-- The identifier is made of the pieces of the text, with a text without line feeds in each gap. -/
def Spans (text id : String) : Prop := ∃ ss, Pieces text.toList ss ∧ Filled ss id.toList

theorem Pieces.ne_nil (h : Pieces t ss) : ss ≠ [] := by
  cases h <;> simp

/-- A text in one piece has no gap. -/
theorem Pieces.no_gap (h : Pieces t [s]) : ¬ gap <:+: t := by
  cases h with
  | last h => exact h
  | cons _ ht => exact absurd rfl ht.ne_nil

theorem filled_singleton_iff : Filled [s] t ↔ t = s := by
  constructor
  · intro h
    cases h with
    | last => rfl
    | cons _ ht => cases ht
  · rintro rfl
    exact .last

theorem filled_cons_iff (hne : ss ≠ []) :
    Filled (s :: ss) t ↔ ∃ g u, t = s ++ g ++ u ∧ '\n' ∉ g ∧ Filled ss u := by
  constructor
  · intro h
    cases h with
    | last => exact absurd rfl hne
    | cons hg hu => exact ⟨_, _, rfl, hg, hu⟩
  · rintro ⟨g, u, rfl, hg, hu⟩
    exact .cons hg hu

/-! ## Splitting at gaps -/

/-- A text is split at the first mark of a gap. -/
theorem split_append_gap (h : ¬ gap <:+: s ++ ['.', '.']) (t : List Char) :
    split (s ++ gap ++ t) = s :: split t := by
  induction s with
  | nil => simp only [gap, List.nil_append, List.cons_append, split]
  | cons c s ih =>
    have hgap : ¬ gap <+: c :: (s ++ gap ++ t) := by
      intro hgap
      have hdots : c :: s ++ ['.', '.'] <+: c :: (s ++ gap ++ t) := ⟨'.' :: t, by simp [gap]⟩
      exact h (List.prefix_of_prefix_length_le hgap hdots (by simp [gap])).isInfix
    have hs : ¬ gap <:+: s ++ ['.', '.'] := fun hinfix => h (List.infix_cons hinfix)
    rw [List.cons_append, List.cons_append, split_cons hgap, ih hs]
    rfl

/-- The pieces of a text are what it is split into. -/
theorem pieces_iff_split : Pieces t ss ↔ ss = split t := by
  constructor
  · intro h
    induction h with
    | last h => exact (split_of_no_gap h).symm
    | cons h _ ih => rw [split_append_gap h, ih]
  · rintro rfl
    fun_induction split t with
    | case1 => exact .last (by decide)
    | case2 rest ih => exact .cons (s := []) (by decide) ih
    | case3 c rest hgap hnil ih => exact absurd hnil (split_ne_nil rest)
    | case4 c rest hgap s ss hsplit ih =>
      have hprefix : ¬ gap <+: c :: rest := by
        rintro ⟨us, hus⟩
        obtain ⟨rfl, rfl⟩ := List.cons.inj hus
        exact hgap us rfl rfl
      rw [hsplit] at ih
      cases ih with
      | last h => exact .last fun hinfix => (List.infix_cons_iff.1 hinfix).elim hprefix h
      | @cons _ t _ h ht =>
        refine .cons (s := c :: s) (fun hinfix => ?_) ht
        refine (List.infix_cons_iff.1 hinfix).elim (fun hgap' => hprefix ?_) h
        refine hgap'.trans ⟨'.' :: t, ?_⟩
        simp [gap]

/-! ## The first place is as good as any -/

/-- Moving a segment over a text without line feeds leaves a text without line feeds behind it. -/
theorem exists_append_of_overlap (h : segment ++ behind = g ++ segment ++ rest) (hg : '\n' ∉ g) :
    ∃ h, behind = h ++ rest ∧ '\n' ∉ h := by
  have hlength := congrArg List.length h
  simp only [List.length_append] at hlength
  obtain ⟨k, hk⟩ : rest <:+ behind := by
    refine List.suffix_of_suffix_length_le ⟨g ++ segment, rfl⟩ ⟨segment, h⟩ ?_
    omega
  refine ⟨k, hk.symm, fun hbreak => hg ?_⟩
  rw [← hk, ← List.append_assoc] at h
  have hcount := congrArg (List.count '\n') (List.append_cancel_right h)
  simp only [List.count_append] at hcount
  have hpos := List.count_pos_iff.2 hbreak
  exact List.count_pos_iff.1 (by omega)

/-- Seeking finds a place that a gap leads to. -/
theorem exists_of_seek? (h : seek? segment text = some behind) :
    ∃ g, text = g ++ segment ++ behind ∧ '\n' ∉ g := by
  induction text with
  | nil =>
    rw [seek?] at h
    split at h
    · rename_i hempty
      cases h
      exact ⟨[], by simpa using hempty.symm, by simp⟩
    · cases h
  | cons c text ih =>
    rw [seek?] at h
    split at h
    · rename_i hfirst
      cases h
      exact ⟨[], (List.isPrefixOf?_eq_some_iff_append_eq.1 hfirst).symm, by simp⟩
    · split at h
      · cases h
      · rename_i hbreak
        obtain ⟨g, rfl, hg⟩ := ih h
        refine ⟨c :: g, rfl, ?_⟩
        simp only [List.mem_cons, not_or]
        exact ⟨Ne.symm hbreak, hg⟩

/-- Where a gap leads to some place of the segment, seeking finds one that is not behind it. -/
theorem seek?_append (hg : '\n' ∉ g) :
    ∃ h, seek? segment (g ++ segment ++ rest) = some (h ++ rest) ∧ '\n' ∉ h := by
  induction g with
  | nil =>
    refine ⟨[], ?_, by simp⟩
    have hfirst : segment.isPrefixOf? (segment ++ rest) = some rest :=
      List.isPrefixOf?_eq_some_iff_append_eq.2 rfl
    rw [List.nil_append, List.nil_append]
    generalize htext : segment ++ rest = text at hfirst
    cases text with
    | nil =>
      obtain ⟨rfl, rfl⟩ := List.append_eq_nil_iff.1 htext
      rfl
    | cons c text => rw [seek?, hfirst]
  | cons c g ih =>
    simp only [List.mem_cons, not_or] at hg
    rw [List.cons_append, List.cons_append, seek?]
    cases hfirst : segment.isPrefixOf? (c :: (g ++ segment ++ rest)) with
    | some behind =>
      have hoverlap := List.isPrefixOf?_eq_some_iff_append_eq.1 hfirst
      obtain ⟨h, rfl, hh⟩ := exists_append_of_overlap (g := c :: g) hoverlap (by simpa using hg)
      exact ⟨h, rfl, hh⟩
    | none =>
      obtain ⟨h, hseek, hh⟩ := ih hg.2
      exact ⟨h, by rw [if_neg (Ne.symm hg.1), hseek], hh⟩

theorem closes_iff : closes segment text = true ↔ ∃ g, text = g ++ segment ∧ '\n' ∉ g := by
  constructor
  · intro h
    rw [closes] at h
    split at h
    · rename_i between hbetween
      refine ⟨between, (List.isSuffixOf?_eq_some_iff_append_eq.1 hbetween).symm, fun hbreak => ?_⟩
      simpa using List.all_eq_true.1 h '\n' hbreak
    · cases h
  · rintro ⟨g, rfl, hg⟩
    rw [closes, List.isSuffixOf?_eq_some_iff_append_eq.2 rfl]
    refine List.all_eq_true.2 fun c hc => decide_eq_true ?_
    rintro rfl
    exact hg hc

/-! ## Matching is filling -/

/-- The induction is on the segments; a gap that ends early is made up for by the next one. -/
theorem fitsBehindGap_iff : fitsBehindGap segments text = true ↔
    ∃ g t, text = g ++ t ∧ '\n' ∉ g ∧ Filled segments t := by
  induction segments generalizing text with
  | nil =>
    rw [fitsBehindGap]
    constructor
    · intro h
      cases h
    · rintro ⟨_, _, _, _, h⟩
      cases h
  | cons segment segments ih =>
    cases segments with
    | nil =>
      simp only [fitsBehindGap, closes_iff, filled_singleton_iff]
      constructor
      · rintro ⟨g, rfl, hg⟩
        exact ⟨g, segment, rfl, hg, rfl⟩
      · rintro ⟨g, t, rfl, hg, rfl⟩
        exact ⟨g, rfl, hg⟩
    | cons segment' segments =>
      rw [fitsBehindGap]
      · constructor
        · intro h
          split at h
          · rename_i behind hseek
            obtain ⟨g, rfl, hg⟩ := exists_of_seek? hseek
            obtain ⟨g', t, rfl, hg', ht⟩ := ih.1 h
            refine ⟨g, segment ++ g' ++ t, by simp, hg, .cons hg' ht⟩
          · cases h
        · rintro ⟨g, t, rfl, hg, ht⟩
          obtain ⟨g', u, rfl, hg', hu⟩ := (filled_cons_iff (by simp)).1 ht
          obtain ⟨h, hseek, hh⟩ : ∃ h, seek? segment (g ++ segment ++ (g' ++ u)) =
              some (h ++ (g' ++ u)) ∧ '\n' ∉ h := seek?_append hg
          have htext : g ++ (segment ++ g' ++ u) = g ++ segment ++ (g' ++ u) := by simp
          rw [htext, hseek]
          refine ih.2 ⟨h ++ g', u, by simp, ?_, hu⟩
          simp [hh, hg']
      · simp

/-- The matcher finds a way to fill the gaps if there is one. -/
theorem fits_iff : fits segments text = true ↔ Filled segments text := by
  match segments with
  | [] =>
    constructor
    · intro h
      cases h
    · intro h
      cases h
  | [segment] => rw [fits_singleton_iff, filled_singleton_iff]
  | segment :: segment' :: segments =>
    rw [fits, filled_cons_iff (by simp)]
    · constructor
      · intro h
        split at h
        · rename_i behind hbehind
          obtain ⟨g, t, rfl, hg, ht⟩ := fitsBehindGap_iff.1 h
          refine ⟨g, t, ?_, hg, ht⟩
          rw [List.append_assoc, List.isPrefixOf?_eq_some_iff_append_eq.1 hbehind]
        · cases h
      · rintro ⟨g, t, rfl, hg, ht⟩
        rw [List.append_assoc, List.isPrefixOf?_eq_some_iff_append_eq.2 rfl]
        exact fitsBehindGap_iff.2 ⟨g, t, rfl, hg, ht⟩
    · simp

theorem fits_split_iff {text id : String} :
    fits (split text.toList) id.toList = true ↔ Spans text id := by
  rw [fits_iff, Spans]
  simp only [pieces_iff_split, exists_eq_left]

/-! ## A final gap behind a slash -/

/-- A gap that is not in a text is not in it and a character behind it that is no dot. -/
theorem gap_infix_of_append_cons (hc : c ≠ '.') (ht : ¬ gap <:+: t) (h : gap <:+: t ++ c :: u) :
    gap <:+: u := by
  induction t with
  | nil =>
    refine (List.infix_cons_iff.1 h).resolve_left fun hgap => hc ?_
    exact (List.cons_prefix_cons.1 hgap).1.symm
  | cons d t ih =>
    have htail := (List.infix_cons_iff.1 h).resolve_left (not_prefix_append_cons ht hc u)
    exact ih (fun hinfix => ht (List.infix_cons hinfix)) htail

/-- With a slash and a gap at its end, a text has two last pieces for the last one. -/
theorem Pieces.append_slash_gap (h : Pieces t ss) :
    ∃ ss', Pieces (t ++ '/' :: gap) ss' ∧
      ∀ id, Filled ss' id ↔ ∃ x y, id = x ++ '/' :: y ∧ Filled ss x ∧ '\n' ∉ y := by
  induction h with
  | @last s h =>
    have hslash : ¬ gap <:+: s ++ ['/'] ++ ['.', '.'] := by
      rw [List.append_assoc]
      intro hinfix
      exact absurd (gap_infix_of_append_cons (by decide) h hinfix) (by decide)
    have hpieces := Pieces.cons hslash (.last (s := []) (by decide))
    refine ⟨[s ++ ['/'], []], by simpa using hpieces, fun id => ?_⟩
    simp only [filled_cons_iff (List.cons_ne_nil _ _), filled_singleton_iff]
    constructor
    · rintro ⟨g, _, rfl, hg, rfl⟩
      exact ⟨s, g, by simp, rfl, hg⟩
    · rintro ⟨_, y, rfl, rfl, hy⟩
      exact ⟨y, [], by simp, hy, rfl⟩
  | @cons s t ss h ht ih =>
    obtain ⟨ss', hpieces, hfilled⟩ := ih
    refine ⟨s :: ss', by simpa using Pieces.cons h hpieces, fun id => ?_⟩
    rw [filled_cons_iff hpieces.ne_nil]
    constructor
    · rintro ⟨g, u, rfl, hg, hu⟩
      obtain ⟨x, y, rfl, hx, hy⟩ := (hfilled u).1 hu
      exact ⟨s ++ g ++ x, y, by simp, .cons hg hx, hy⟩
    · rintro ⟨_, y, rfl, hx, hy⟩
      obtain ⟨g, x, rfl, hg, hx⟩ := (filled_cons_iff ht.ne_nil).1 hx
      exact ⟨g, x ++ '/' :: y, by simp, hg, (hfilled _).2 ⟨x, y, rfl, hx, hy⟩⟩

theorem spans_append_slash_gap {stem id : String} :
    Spans (stem ++ "/...") id ↔
      ∃ x y, id = x ++ "/" ++ y ∧ Spans stem x ∧ '\n' ∉ y.toList := by
  have htext : (stem ++ "/...").toList = stem.toList ++ '/' :: gap := String.toList_append
  obtain ⟨ss', hpieces, hfilled⟩ := (pieces_iff_split (t := stem.toList)).2 rfl |>.append_slash_gap
  simp only [Spans, htext, pieces_iff_split, exists_eq_left]
  rw [← pieces_iff_split.1 hpieces, hfilled]
  constructor
  · rintro ⟨x, y, hid, hx, hy⟩
    refine ⟨.ofList x, .ofList y, String.toList_inj.1 ?_, ?_, ?_⟩
    · simpa using hid
    · simpa using hx
    · simpa using hy
  · rintro ⟨x, y, rfl, hx, hy⟩
    exact ⟨x.toList, y.toList, by simp, hx, hy⟩

/-! ## Patterns -/

theorem stem?_eq_some_iff {text stem : String} :
    stem? text.toList = some stem.toList ↔ text = stem ++ "/..." := by
  rw [stem?, List.isSuffixOf?_eq_some_iff_append_eq, ← String.toList_inj, String.toList_append,
    eq_comm]
  rfl

/-- A text with a gap is a pattern with the pieces of the text, and of what comes before a final
`/...`. -/
theorem ofText_gapped {text : String} (h : gap <:+: text.toList) :
    ofText text = .wildcard (split text.toList) ((stem? text.toList).map split) := by
  have hstd : text ≠ "std" := by
    rintro rfl
    exact absurd h (by decide)
  rw [ofText, if_neg hstd]
  split
  · rename_i s hsplit
    exact absurd h (pieces_iff_split.2 hsplit.symm).no_gap
  · rfl

/-- **What fits a text with gaps.** Where the text ends in `/...`, that is what is made of the
pieces of the text before, also with a slash and a text without line feeds behind it. Otherwise it
is what is made of the pieces of the whole text. Each gap is filled with a text without line
feeds. -/
theorem accepts_gapped_iff (text id : String) (h : gap <:+: text.toList) :
    (∀ stem, text = stem ++ "/..." → ((ofText text).accepts id = true ↔
      Spans stem id ∨ ∃ x y, id = x ++ "/" ++ y ∧ Spans stem x ∧ '\n' ∉ y.toList)) ∧
    ((∀ stem, text ≠ stem ++ "/...") → ((ofText text).accepts id = true ↔ Spans text id)) := by
  rw [ofText_gapped h, accepts, Bool.or_eq_true, fits_split_iff]
  constructor
  · intro stem htext
    rw [stem?_eq_some_iff.2 htext, Option.map_some, Option.any_some, fits_split_iff, htext,
      spans_append_slash_gap, or_comm]
  · intro hstem
    have hnone : stem? text.toList = none := by
      refine Option.eq_none_iff_forall_ne_some.2 fun cs hcs => hstem (.ofList cs) ?_
      rw [← stem?_eq_some_iff, hcs, String.toList_ofList]
    simp [hnone]

/-- Four dots are a gap and a dot, and a slash may end a text that fits as well as a gap in it. -/
theorem accepts_gapped_iff_fourDots :
    gap <:+: "x/....go/...".toList ∧
    (Spans "x/....go" "x/a.go/b.go" ∨
      ∃ x y, "x/a.go/b.go" = x ++ "/" ++ y ∧ Spans "x/....go" x ∧ '\n' ∉ y.toList) ∧
    gap <:+: "....go".toList ∧ ¬Spans "....go" "a\nb.go" := by
  have hdir : gap <:+: "x/....go/...".toList := by decide
  have hfile : gap <:+: "....go".toList := by decide
  refine ⟨hdir, ((accepts_gapped_iff _ _ hdir).1 "x/....go" rfl).1 (by decide), hfile, ?_⟩
  have hstem : ∀ stem, "....go" ≠ stem ++ "/..." := by
    intro stem htext
    have hsome := stem?_eq_some_iff.2 htext
    rw [show stem? "....go".toList = none by decide] at hsome
    cases hsome
  rw [← (accepts_gapped_iff _ _ hfile).2 hstem]
  decide

end ImportQuery.Pattern
