import Std.Data.ExtTreeSet

/-!
# Sets of package identifiers

What a query selects: a finite set of identifiers, in the order of their code points. Two sets with
the same members are equal.
-/

namespace ImportQuery

/-- A set of package identifiers. -/
abbrev IdSet := Std.ExtTreeSet String

namespace IdSet

/-- The set of the members of a list. -/
def ofList (ids : List String) : IdSet := Std.ExtTreeSet.ofList ids

/-- Everything that `f` gives for some member of `s`. -/
def flatMap (s : IdSet) (f : String → IdSet) : IdSet :=
  ofList (s.toList.flatMap fun id => (f id).toList)

/-- The union of a list of sets. -/
def unions (sets : List IdSet) : IdSet := sets.foldl (· ∪ ·) ∅

/-- What is in exactly one of two sets. -/
def symmDiff (s t : IdSet) : IdSet := (s \ t) ∪ (t \ s)

@[simp] theorem mem_ofList {ids : List String} {id : String} : id ∈ ofList ids ↔ id ∈ ids := by
  simp [ofList]

@[simp] theorem mem_filter {s : IdSet} {p : String → Bool} {id : String} :
    id ∈ s.filter p ↔ id ∈ s ∧ p id = true := by
  simp [Std.ExtTreeSet.mem_filter]

theorem filter_congr {s : IdSet} {p q : String → Bool} (h : ∀ id ∈ s, p id = q id) :
    s.filter p = s.filter q := by
  refine Std.ExtTreeSet.ext_mem fun id => ?_
  rw [mem_filter, mem_filter]
  exact and_congr_right fun hid => by rw [h id hid]

@[simp] theorem mem_flatMap {s : IdSet} {f : String → IdSet} {id : String} :
    id ∈ s.flatMap f ↔ ∃ x ∈ s, id ∈ f x := by
  simp [flatMap]

@[simp] theorem mem_unions {sets : List IdSet} {id : String} :
    id ∈ unions sets ↔ ∃ s ∈ sets, id ∈ s := by
  suffices h : ∀ t : IdSet, id ∈ sets.foldl (· ∪ ·) t ↔ id ∈ t ∨ ∃ s ∈ sets, id ∈ s by
    simpa [unions] using h ∅
  induction sets with
  | nil => simp
  | cons s sets ih => simp [ih, or_assoc]

@[simp] theorem mem_foldl_inter {first : IdSet} {sets : List IdSet} {id : String} :
    id ∈ sets.foldl (· ∩ ·) first ↔ id ∈ first ∧ ∀ s ∈ sets, id ∈ s := by
  induction sets generalizing first with
  | nil => simp
  | cons s sets ih => simp [ih, and_assoc]

@[simp] theorem mem_symmDiff {s t : IdSet} {id : String} :
    id ∈ symmDiff s t ↔ (id ∈ s ∧ id ∉ t) ∨ (id ∈ t ∧ id ∉ s) := by
  simp [symmDiff]

theorem any_eq {s : IdSet} {p : String → Bool} : s.any p = s.toList.any p := by
  obtain ⟨⟨t⟩⟩ := s
  induction t using Std.ExtDTreeMap.inductionOn with
  | mk t =>
  have hkeys : t.keys = t.toList.map Sigma.fst := Std.DTreeMap.map_fst_toList_eq_keys.symm
  change t.any (fun a _ => p a) = t.keys.any p
  -- the library has no lemma about `any`, which is a loop with an early return
  have hloop : t.any (fun a _ => p a) = Id.run do
      for entry in t do
        if p entry.1 then return true
      return false := rfl
  rw [hloop, Std.DTreeMap.forIn_eq_forIn_toList, hkeys, List.any_map]
  generalize t.toList = entries
  induction entries with
  | nil => rfl
  | cons entry entries ih =>
    cases hp : p entry.1 with
    | true => simp [hp]
    | false => simp [hp, ← ih]

@[simp] theorem any_iff {s : IdSet} {p : String → Bool} :
    s.any p = true ↔ ∃ id ∈ s, p id = true := by
  simp [any_eq]

/-- The members of a set are listed in the order of their code points, each once. -/
theorem pairwise_toList (s : IdSet) : s.toList.Pairwise (· < ·) :=
  s.ordered_toList.imp fun h => compareOfLessAndEq_eq_lt.1 h

/-- Taking away what two sets have in common makes a set smaller, unless it is nothing. -/
theorem size_diff_inter_lt {s t : IdSet} (h : s ∩ t ≠ ∅) : (s \ (s ∩ t)).size < s.size := by
  have hsize := @Std.ExtTreeSet.size_diff_add_size_inter_eq_size_left String compare s (s ∩ t) _
  have hinter : s ∩ (s ∩ t) = s ∩ t := Std.ExtTreeSet.ext_mem fun x => by simp
  have hpos : (s ∩ t).size ≠ 0 := fun h' => h (Std.ExtTreeSet.eq_empty_iff_size_eq_zero.2 h')
  rw [hinter] at hsize
  omega

end IdSet

end ImportQuery
