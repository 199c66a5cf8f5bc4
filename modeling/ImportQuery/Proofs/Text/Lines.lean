import ImportQuery.Text.Basic

/-!
# Lines of a text

The line and the column of a place are counted while a text is read. The lines themselves come from
splitting the text at its line feeds. Here the count is shown to lead to the character: the line
that a place names has the character in the column that it names.

* `lines` : the lines of a text.
* `Place.Locates` : the place of a character, by its offset and by the lines.
* `Place.locates_after` : the place behind the characters that come before it.
-/

namespace ImportQuery.Text

/-- The lines of a text: what is before, between and behind its line feeds. -/
def lines (text : List Char) : List (List Char) := text.splitOn '\n'

theorem lines_append_break {cs : List Char} (h : '\n' ∉ cs) (ds : List Char) :
    lines (cs ++ '\n' :: ds) = cs :: lines ds :=
  List.splitOn_append_cons_self_of_not_mem h ds

/-- Characters other than line feeds belong to the line that they are put in front of. -/
theorem lines_append {cs : List Char} (h : '\n' ∉ cs) (ds : List Char) :
    lines (cs ++ ds) = (lines ds).modifyHead (cs ++ ·) := by
  induction cs with
  | nil =>
    obtain ⟨l, ls, hlines⟩ := List.exists_cons_of_ne_nil (List.splitOn_ne_nil '\n' ds)
    rw [List.nil_append, lines, hlines]
    rfl
  | cons c cs ih =>
    obtain ⟨hc, hcs⟩ := List.ne_and_not_mem_of_not_mem_cons h
    have hcons : lines (c :: (cs ++ ds)) = (lines (cs ++ ds)).modifyHead (List.cons c) := by
      rw [lines, List.splitOn_cons_eq_if_modifyHead, if_neg (by simpa using hc.symm)]
      rfl
    rw [List.cons_append, hcons, ih hcs, List.modifyHead_modifyHead]
    rfl

/-- The first line of a text goes on at least to its first line feed. -/
theorem exists_lines_append {cs : List Char} (h : '\n' ∉ cs) (ds : List Char) :
    ∃ l ls, lines (cs ++ ds) = (cs ++ l) :: ls := by
  obtain ⟨l, ls, hlines⟩ := List.exists_cons_of_ne_nil (List.splitOn_ne_nil '\n' ds)
  refine ⟨l, ls, ?_⟩
  rw [lines_append h, lines, hlines]
  rfl

/-- Lines that each end in a line feed are followed by one that has nothing in it. -/
theorem lines_flatMap {ls : List (List Char)} (h : ∀ l ∈ ls, '\n' ∉ l) :
    lines (ls.flatMap (· ++ ['\n'])) = ls ++ [[]] := by
  induction ls with
  | nil => rfl
  | cons l ls ih =>
    obtain ⟨hl, hls⟩ := List.forall_mem_cons.1 h
    rw [List.flatMap_cons, List.append_assoc, List.singleton_append, lines_append_break hl, ih hls,
      List.cons_append]

/-! ## Places -/

namespace Place

/-- The place is that of the character `c` of a text: so many characters come before it, and in the
line of that number it stands in the column of that number. The characters that come before it are
the earlier lines, each with its line feed, and those before it in its line. -/
structure Locates (p : Place) (text : List Char) (c : Char) : Prop where
  offset_lt : p.offset < text.length
  character : text[p.offset]? = some c
  line : ∃ i j l, p.line = i + 1 ∧ p.column = j + 1 ∧ (lines text)[i]? = some l ∧ l[j]? = some c ∧
    p.offset = (((lines text).take i).flatMap (· ++ ['\n'])).length + j

theorem offset_after (p : Place) (cs : List Char) : (p.after cs).offset = p.offset + cs.length := by
  induction cs generalizing p with
  | nil => rfl
  | cons c cs ih =>
    have hnext : (p.next c).offset = p.offset + 1 := by
      unfold next
      split <;> rfl
    rw [after_cons, ih, hnext, List.length_cons]
    omega

/-- Where reading goes on in the middle of a line, `cs` being still to be read before `c` and `us`
being read already, the lines are counted from there on. -/
theorem exists_line_after {c : Char} (hc : c ≠ '\n') (rest cs : List Char) {us : List Char}
    (hus : '\n' ∉ us) {p : Place} (hp : p.column = us.length + 1) :
    ∃ i j l, (p.after cs).line = p.line + i ∧ (p.after cs).column = j + 1 ∧
      (lines (us ++ (cs ++ c :: rest)))[i]? = some l ∧ l[j]? = some c ∧
      us.length + cs.length =
        (((lines (us ++ (cs ++ c :: rest))).take i).flatMap (· ++ ['\n'])).length + j := by
  induction cs generalizing us p with
  | nil =>
    have hline : '\n' ∉ us ++ [c] := by simp [hus, hc.symm]
    obtain ⟨l, ls, hlines⟩ := exists_lines_append hline rest
    rw [List.append_assoc, List.singleton_append] at hlines
    rw [List.nil_append, hlines]
    exact ⟨0, us.length, us ++ [c] ++ l, rfl, hp, rfl, by simp, by simp⟩
  | cons d cs ih =>
    rw [List.cons_append, after_cons]
    by_cases hd : d = '\n'
    · subst hd
      have hnext : p.next '\n' = ⟨p.offset + 1, p.line + 1, 1⟩ := if_pos rfl
      obtain ⟨i, j, l, hrow, hcolumn, hl, hchar, hcount⟩ :=
        ih (List.not_mem_nil (a := '\n')) (p := p.next '\n') (by rw [hnext]; rfl)
      rw [lines_append_break hus]
      refine ⟨i + 1, j, l, ?_, hcolumn, hl, hchar, ?_⟩
      · rw [hrow, hnext]
        dsimp only
        omega
      · rw [List.nil_append] at hcount
        simp only [List.take_succ_cons, List.flatMap_cons, List.length_append, List.length_cons,
          List.length_nil] at hcount ⊢
        omega
    · have hnext : p.next d = ⟨p.offset + 1, p.line, p.column + 1⟩ := if_neg hd
      have hline : '\n' ∉ us ++ [d] := by simp [hus, Ne.symm hd]
      obtain ⟨i, j, l, hrow, hcolumn, hl, hchar, hcount⟩ :=
        ih hline (p := p.next d) (by rw [hnext, hp, List.length_append]; rfl)
      rw [List.append_assoc, List.singleton_append] at hl hcount
      refine ⟨i, j, l, by rw [hrow, hnext], hcolumn, hl, hchar, ?_⟩
      rw [← hcount, List.length_append, List.length_cons, List.length_singleton]
      omega

/-- **Counting leads to the character.** What comes behind the characters that have been read is the
character at the place where reading has come to. -/
theorem locates_after {c : Char} (hc : c ≠ '\n') (cs rest : List Char) :
    (start.after cs).Locates (cs ++ c :: rest) c where
  offset_lt := by
    rw [offset_after, List.length_append, List.length_cons]
    simp only [start]
    omega
  character := by simp [offset_after, start]
  line := by
    obtain ⟨i, j, l, hrow, hcolumn, hl, hchar, hcount⟩ :=
      exists_line_after hc rest cs (List.not_mem_nil (a := '\n')) (p := start) rfl
    refine ⟨i, j, l, ?_, hcolumn, hl, hchar, ?_⟩
    · rw [hrow, Nat.add_comm]
      rfl
    · rw [offset_after, ← List.nil_append (cs ++ c :: rest), ← hcount]
      simp [start]

end Place

end ImportQuery.Text
