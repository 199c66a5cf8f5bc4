import ImportQuery.Proofs.Token.FaultPlace
import Mathlib.Logic.Function.Iterate

/-!
# Scanning on behind a fault

A scanner that has come to a fault can be driven on. Every step then takes it further into the
text, until it comes to an answer that is its last: the end of the text, or a character with which
no token begins. That one is left unread, so the scanner comes to it again with every step that
follows. A colon without a word behind it is a fault, too, but the scanner has passed over it.

* `Scanner.next_of_isLast` : what a step answers that comes behind the last answer.
* `Scanner.rest_length_lt_of_not_isLast` : every other step takes up characters.
* `Scanner.driven_settles` : the places that a scanner comes to, and its answers.
-/

namespace ImportQuery.Token

/-- The colon of an empty selector is passed over, and an unexpected character is not. -/
theorem read_eq_error {c : Char} {rest : List Char} {fault : Fault}
    (h : (read c rest).outcome = .error fault) :
    fault = .emptySelector ∧ 0 < (read c rest).length ∨
      fault = .unexpectedCharacter c ∧ (read c rest).length = 0 := by
  unfold read at h ⊢
  split at h
  · cases h
  · split at h
    · rename_i hcolon
      rw [if_pos hcolon]
      exact .inl ⟨fault_of_readColon h, readColon_length_pos rest⟩
    · split at h
      · cases h
      · rename_i hcolon hstart
        rw [if_neg hcolon, if_neg hstart]
        cases h
        exact .inr ⟨rfl, rfl⟩

namespace Scanner

variable {s s' s'' : Scanner}

/-! ## Single steps -/

/-- Between the scanners are the characters `cs`. -/
structure Passes (s : Scanner) (cs : List Char) (s' : Scanner) : Prop where
  rest : s.rest = cs ++ s'.rest
  place : s'.place = s.place.after cs

theorem Passes.refl (s : Scanner) : s.Passes [] s := ⟨rfl, rfl⟩

theorem Passes.append {cs ds : List Char} (h : s.Passes cs s') (h' : s'.Passes ds s'') :
    s.Passes (cs ++ ds) s'' where
  rest := by rw [h.rest, h'.rest, List.append_assoc]
  place := by rw [h'.place, h.place, Text.Place.after_append]

/-- The offset counts the characters that are no longer to be read. -/
theorem Passes.offset_add_length {cs : List Char} (h : s.Passes cs s') :
    s'.place.offset + s'.rest.length = s.place.offset + s.rest.length := by
  rw [h.place, h.rest, Text.Place.offset_after, List.length_append, Nat.add_assoc]

theorem Passes.offset_le {cs : List Char} (h : s.Passes cs s') :
    s.place.offset ≤ s'.place.offset := by
  rw [h.place, Text.Place.offset_after]
  exact Nat.le_add_right _ _

theorem passes_advance (s : Scanner) (n : Nat) : s.Passes (s.rest.take n) (s.advance n) :=
  ⟨(List.take_append_drop n s.rest).symm, rfl⟩

theorem passes_skipBlanks (s : Scanner) :
    s.Passes (s.rest.takeWhile Text.isBlank) s.skipBlanks :=
  ⟨List.takeWhile_append_dropWhile.symm, rfl⟩

/-- Behind white space there is no more of it. -/
theorem skipBlanks_skipBlanks (s : Scanner) : s.skipBlanks.skipBlanks = s.skipBlanks := by
  have hrest : s.skipBlanks.rest.takeWhile Text.isBlank = [] ∧
      s.skipBlanks.rest.dropWhile Text.isBlank = s.skipBlanks.rest := by
    cases hdrop : s.skipBlanks.rest with
    | nil => exact ⟨rfl, rfl⟩
    | cons c rest =>
      have hc : Text.isBlank c = false := not_isBlank_of_dropWhile hdrop
      simp [hc]
  calc s.skipBlanks.skipBlanks
      = ⟨s.skipBlanks.place.after [], s.skipBlanks.rest⟩ := by
        rw [skipBlanks.eq_def s.skipBlanks, hrest.1, hrest.2]
    _ = s.skipBlanks := rfl

/-- Skipping the white space first makes no difference to a step. -/
theorem next_skipBlanks (s : Scanner) : s.skipBlanks.next = s.next := by
  unfold next
  rw [skipBlanks_skipBlanks]

/-- The answer is the last one that a scanner has: the text ends, or goes on with a character that
begins no token. -/
def IsLast : Except ScanError (Option Token) → Prop
  | .ok none => True
  | .ok (some _) => False
  | .error e => e.fault ≠ .emptySelector

/-- What a step does: it skips white space, and moves on from there if its answer is not the last
one. -/
theorem next_cases (s : Scanner) :
    IsLast s.next.1 ∧ s.next.2 = s.skipBlanks ∨
      ¬IsLast s.next.1 ∧ s.skipBlanks.rest ≠ [] ∧
        ∃ n, 0 < n ∧ s.next.2 = s.skipBlanks.advance n := by
  unfold next
  dsimp only
  split
  · exact .inl ⟨trivial, rfl⟩
  · rename_i c rest hrest
    split
    · rename_i t hread
      exact .inr ⟨not_false, by simp [hrest], _, read_length_pos hread, rfl⟩
    · rename_i fault hread
      obtain ⟨rfl, hpos⟩ | ⟨rfl, hzero⟩ := read_eq_error hread
      · exact .inr ⟨fun hlast => hlast rfl, by simp [hrest], _, hpos, rfl⟩
      · refine .inl ⟨Fault.noConfusion, ?_⟩
        rw [hzero]
        rfl

/-- A step passes over characters, or stays where it is. -/
theorem exists_passes_next (s : Scanner) : ∃ cs, s.Passes cs s.next.2 := by
  obtain ⟨-, hnext⟩ | ⟨-, -, n, -, hnext⟩ := s.next_cases
  · rw [hnext]
    exact ⟨_, s.passes_skipBlanks⟩
  · rw [hnext]
    exact ⟨_, s.passes_skipBlanks.append (passes_advance _ n)⟩

/-- Behind its last answer a scanner stays where it is, and answers the same. -/
theorem next_of_isLast (h : IsLast s.next.1) : s.next.2.next = s.next := by
  obtain ⟨-, hnext⟩ | ⟨hnot, -⟩ := s.next_cases
  · rw [hnext, next_skipBlanks]
  · exact absurd h hnot

/-- A step with any other answer takes up characters. -/
theorem rest_length_lt_of_not_isLast (h : ¬IsLast s.next.1) :
    s.next.2.rest.length < s.rest.length := by
  obtain ⟨hlast, -⟩ | ⟨-, hrest, n, hn, hnext⟩ := s.next_cases
  · exact absurd hlast h
  · have hpos := List.length_pos_iff.2 hrest
    have hle := s.rest_skipBlanks_length_le
    rw [hnext, advance, List.length_drop]
    omega

/-! ## Any number of steps -/

/-- The scanner behind `n` steps, whatever they answer. -/
def driven (s : Scanner) (n : Nat) : Scanner := (fun s => s.next.2)^[n] s

/-- The answer of the step that comes behind `n` steps. -/
def answer (s : Scanner) (n : Nat) : Except ScanError (Option Token) := (s.driven n).next.1

theorem driven_succ (s : Scanner) (n : Nat) : s.driven (n + 1) = (s.driven n).next.2 :=
  Function.iterate_succ_apply' _ _ _

theorem steps_eq (s : Scanner) (n : Nat) : s.steps n = (List.range n).map s.answer := by
  induction n generalizing s with
  | zero => rfl
  | succ n ih =>
    rw [steps, ih, List.range_succ_eq_map, List.map_cons, List.map_map]
    rfl

theorem exists_passes_driven (s : Scanner) (n : Nat) : ∃ cs, s.Passes cs (s.driven n) := by
  induction n with
  | zero => exact ⟨[], .refl s⟩
  | succ n ih =>
    obtain ⟨cs, hcs⟩ := ih
    obtain ⟨ds, hds⟩ := (s.driven n).exists_passes_next
    rw [driven_succ]
    exact ⟨cs ++ ds, hcs.append hds⟩

/-- A last answer is given again and again, at the same place. -/
theorem driven_of_isLast {n : Nat} (h : IsLast (s.answer n)) (k : Nat) :
    s.driven (n + 1 + k) = s.driven (n + 1) ∧ s.answer (n + k) = s.answer n := by
  have hnext : (s.driven (n + 1)).next = (s.driven n).next := by
    rw [driven_succ, next_of_isLast h]
  have hdriven (k : Nat) : s.driven (n + 1 + k) = s.driven (n + 1) := by
    induction k with
    | zero => rfl
    | succ k ih => rw [← Nat.add_assoc, driven_succ, ih, hnext, ← driven_succ]
  refine ⟨hdriven k, ?_⟩
  cases k with
  | zero => rfl
  | succ k =>
    rw [answer, show n + (k + 1) = n + 1 + k by omega, hdriven, hnext]
    rfl

/-- As long as there has been no last answer, every step has taken up a character. -/
theorem rest_length_driven_add_le {n : Nat} (h : ∀ i < n, ¬IsLast (s.answer i)) :
    (s.driven n).rest.length + n ≤ s.rest.length := by
  induction n with
  | zero => exact Nat.le_refl _
  | succ n ih =>
    have hn := ih fun i hi => h i (by omega)
    have hlt := rest_length_lt_of_not_isLast (h n (by omega))
    rw [driven_succ]
    omega

/-- There are no more answers before the last one than characters. -/
theorem exists_isLast (s : Scanner) : ∃ n ≤ s.rest.length, IsLast (s.answer n) := by
  refine Classical.byContradiction fun hnone => ?_
  have hle : (s.driven (s.rest.length + 1)).rest.length + (s.rest.length + 1) ≤ s.rest.length :=
    rest_length_driven_add_le fun i hi hlast => hnone ⟨i, Nat.lt_succ_iff.1 hi, hlast⟩
  omega

end Scanner

/-- **A scanner that is driven on gets further or is at its end.** Its place never goes back and
never leaves the text, and a step takes up a character unless its answer is the last one. A last
answer is given again by all the steps behind it, which leave the scanner where it is; and with as
many steps as the text has characters, the scanner has come to it. -/
theorem driven_settles (text : String) :
    let s := Scanner.ofText text
    let size := (Text.trim text.toList).length
    (∀ n, (s.driven n).place.offset ≤ (s.driven (n + 1)).place.offset ∧
      (s.driven n).place.offset ≤ size) ∧
    (∀ n, ¬Scanner.IsLast (s.answer n) →
      (s.driven n).place.offset < (s.driven (n + 1)).place.offset) ∧
    (∀ n, Scanner.IsLast (s.answer n) → ∀ k, s.driven (n + 1 + k) = s.driven (n + 1) ∧
      s.answer (n + k) = s.answer n) ∧
    ∃ last, Scanner.IsLast last ∧
      ∀ k, s.steps (size + k) = s.steps size ++ List.replicate k last := by
  intro s size
  have hsize (n : Nat) : (s.driven n).place.offset + (s.driven n).rest.length = size := by
    obtain ⟨cs, hcs⟩ := s.exists_passes_driven n
    exact hcs.offset_add_length.trans (Nat.zero_add _)
  refine ⟨fun n => ⟨?_, Nat.le.intro (hsize n)⟩, fun n hmore => ?_,
    fun n => Scanner.driven_of_isLast, ?_⟩
  · obtain ⟨cs, hcs⟩ := (s.driven n).exists_passes_next
    rw [Scanner.driven_succ]
    exact hcs.offset_le
  · have hlt := Scanner.rest_length_lt_of_not_isLast hmore
    rw [← Scanner.driven_succ] at hlt
    have hn := hsize n
    have hsucc := hsize (n + 1)
    omega
  · obtain ⟨n, hn, hlast⟩ := s.exists_isLast
    obtain ⟨i, hi⟩ : ∃ i, size = n + i := Nat.exists_eq_add_of_le hn
    refine ⟨s.answer n, hlast, fun k => ?_⟩
    have hsame (j : Nat) : s.answer (size + j) = s.answer n := by
      rw [hi, Nat.add_assoc]
      exact (Scanner.driven_of_isLast hlast _).2
    rw [Scanner.steps_eq, Scanner.steps_eq, List.range_add, List.map_append, List.map_map]
    refine congrArg _ (List.eq_replicate_iff.2 ⟨by simp, ?_⟩)
    simp [hsame]

/-- A selector without a name, and behind it a character that is never passed. -/
theorem driven_settles_dollar :
    let s := Scanner.ofText " a :+ $ b"
    (s.driven 1).place.offset < (s.driven 2).place.offset ∧
      ∀ k, s.driven (3 + k) = s.driven 3 ∧
        s.answer (2 + k) = .error ⟨.unexpectedCharacter '$', ⟨5, 1, 6⟩⟩ := by
  intro s
  have hselector : s.answer 1 = .error ⟨.emptySelector, ⟨2, 1, 3⟩⟩ := by decide +kernel
  have hdollar : s.answer 2 = .error ⟨.unexpectedCharacter '$', ⟨5, 1, 6⟩⟩ := by decide +kernel
  obtain ⟨-, hmore, hlast, -⟩ := driven_settles " a :+ $ b"
  refine ⟨hmore 1 fun h => ?_, fun k => ?_⟩
  · rw [hselector] at h
    exact h rfl
  · rw [← hdollar]
    exact hlast 2 (by rw [hdollar]; exact Fault.noConfusion) k

end ImportQuery.Token
