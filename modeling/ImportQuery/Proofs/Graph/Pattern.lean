import ImportQuery.Graph.Pattern
import Mathlib.Data.List.Infix

/-!
# The pattern of a subtree

A text without a gap followed by `/...` is the pattern of a package and of what lies below it. The
only gap of the pattern is the last one, so it is split into the text with the slash and nothing,
whatever characters the text is made of. A gap does not reach over the end of a line: an identifier
that continues the text fits only if there is no line break in the continuation.

* `split_of_no_gap`, `split_append_cons` : where a text is split.
* `ofText_subtree` : the pattern that `p/...` spells.
* `accepts_subtree_iff` : the identifiers that fit it.
-/

namespace ImportQuery.Pattern

variable {c : Char} {t u segment text : List Char} {p id : String}

/-! ## Pieces of a text -/

theorem split_ne_nil (t : List Char) : split t ≠ [] := by
  unfold split
  split
  · simp
  · simp
  · split
    · simp
    · simp

/-- A character that begins no gap belongs to the first piece of the text. -/
theorem split_cons (h : ¬ gap <+: c :: t) : split (c :: t) = (split t).modifyHead (c :: ·) := by
  rw [split]
  · rcases hsplit : split t with _ | ⟨s, ss⟩
    · exact absurd hsplit (split_ne_nil t)
    · rfl
  · rintro rest rfl rfl
    exact h ⟨rest, rfl⟩

/-- A text without a gap is its own only piece. -/
theorem split_of_no_gap (h : ¬ gap <:+: t) : split t = [t] := by
  induction t with
  | nil => rfl
  | cons c t ih =>
    rw [split_cons fun hgap => h hgap.isInfix, ih fun hgap => h (List.infix_cons hgap)]
    rfl

/-- A text without a gap does not begin with one either if another character than the dot comes
behind it. -/
theorem not_prefix_append_cons (h : ¬ gap <:+: t) (hc : c ≠ '.') (u : List Char) :
    ¬ gap <+: t ++ c :: u := by
  intro hgap
  obtain hle | ⟨rest, hrest⟩ := List.prefix_or_prefix_of_prefix hgap (List.prefix_append t (c :: u))
  · exact h hle.isInfix
  -- the gap ends behind the text, so the next character belongs to it
  · have hdot : ∀ d ∈ rest, d = '.' := by
      intro d hd
      have hmem : d ∈ gap := hrest ▸ List.mem_append_right t hd
      simpa [gap] using hmem
    rw [← hrest, List.prefix_append_right_inj] at hgap
    cases rest with
    | nil => exact h (by rw [← hrest, List.append_nil])
    | cons d rest =>
      obtain ⟨rfl, -⟩ := List.cons_prefix_cons.1 hgap
      exact hc (hdot _ List.mem_cons_self)

/-- Before a character other than the dot a text without a gap is not split. -/
theorem split_append_cons (h : ¬ gap <:+: t) (hc : c ≠ '.') (u : List Char) :
    split (t ++ c :: u) = (split u).modifyHead (t ++ c :: ·) := by
  induction t with
  | nil =>
    refine split_cons fun hgap => hc ?_
    exact (List.cons_prefix_cons.1 hgap).1.symm
  | cons d t ih =>
    have hgap : ¬ gap <+: d :: (t ++ c :: u) := not_prefix_append_cons h hc u
    rw [List.cons_append, split_cons hgap, ih fun hgap => h (List.infix_cons hgap),
      List.modifyHead_modifyHead]
    rfl

/-! ## Matching -/

theorem fits_singleton_iff : fits [segment] text = true ↔ text = segment := by
  rw [fits, beq_iff_eq, eq_comm]

theorem closes_nil_iff : closes [] text = true ↔ '\n' ∉ text := by
  have hall : ([] : List Char).isSuffixOf? text = some text := by
    rw [List.isSuffixOf?_eq_some_iff_append_eq, List.append_nil]
  simp only [closes, hall, List.all_eq_true, decide_eq_true_eq]
  exact ⟨fun h hmem => h _ hmem rfl, fun h x hx hbreak => h (hbreak ▸ hx)⟩

/-- A text fits a segment with a gap behind it if it continues the segment on the same line. -/
theorem fits_open_iff :
    fits [segment, []] text = true ↔ ∃ rest, text = segment ++ rest ∧ '\n' ∉ rest := by
  rw [fits]
  · constructor
    · intro h
      split at h
      · rename_i behind hbehind
        exact ⟨behind, (List.isPrefixOf?_eq_some_iff_append_eq.1 hbehind).symm, closes_nil_iff.1 h⟩
      · simp at h
    · rintro ⟨rest, rfl, hrest⟩
      rw [List.isPrefixOf?_eq_some_iff_append_eq.2 rfl]
      exact closes_nil_iff.2 hrest
  · simp

/-! ## Subtrees -/

theorem ofText_subtree (h : ¬ gap <:+: p.toList) :
    ofText (p ++ "/...") = .wildcard [p.toList ++ ['/'], []] (some [p.toList]) := by
  have htext : (p ++ "/...").toList = p.toList ++ '/' :: gap := String.toList_append
  have hstd : p ++ "/..." ≠ "std" := by
    intro heq
    have hlength := congrArg (·.toList.length) heq
    simp [htext, gap] at hlength
  have hsplit : split (p ++ "/...").toList = [p.toList ++ ['/'], []] := by
    rw [htext, split_append_cons h (by decide)]
    rfl
  have hstem : stem? (p ++ "/...").toList = some p.toList := by
    rw [htext, stem?, List.isSuffixOf?_eq_some_iff_append_eq]
  simp only [ofText, if_neg hstd, hsplit, hstem, Option.map_some, split_of_no_gap h]

/-- **What fits `p/...`** is `p`, and every identifier that continues `p/` on the same line. -/
theorem accepts_subtree_iff (h : ¬ gap <:+: p.toList) :
    (ofText (p ++ "/...")).accepts id = true ↔
      id = p ∨ ∃ rest, id = p ++ "/" ++ rest ∧ '\n' ∉ rest.toList := by
  have hbelow : (∃ rest, id.toList = p.toList ++ ['/'] ++ rest ∧ '\n' ∉ rest) ↔
      ∃ rest, id = p ++ "/" ++ rest ∧ '\n' ∉ rest.toList := by
    constructor
    · rintro ⟨rest, hid, hrest⟩
      refine ⟨.ofList rest, String.toList_inj.1 ?_, ?_⟩
      · simpa using hid
      · simpa using hrest
    · rintro ⟨rest, rfl, hrest⟩
      exact ⟨rest.toList, by simp, hrest⟩
  rw [ofText_subtree h, accepts, Bool.or_eq_true, fits_open_iff, hbelow, Option.any_some,
    fits_singleton_iff, String.toList_inj, or_comm]

end ImportQuery.Pattern
