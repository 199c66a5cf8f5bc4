import ImportQuery.Proofs.Graph.Reachability
import Mathlib.Data.List.Chain

/-!
# Searches with a queue

A walk goes level by level. A search with a queue goes package by package: it takes the first one
out of the queue, follows the steps from there, and puts what it has not found before at the end of
the queue. Both find the same, whichever way the cycles of a graph lead, and the search comes to an
end because what it finds enters the queue only once.

* `Search.Follows.follow` : what each round of a search keeps.
* `Search.Follows.ends` : a search ends, after as many rounds as packages enter its queue, and has
  then found what can be reached.
* `Graph.leads_iff_exists_path` : paths of imports as lists of packages.
* `Graph.Built.dependencies_paths`, `Graph.Built.reaching_paths` : what the walks along and against
  the imports find, in terms of these paths, and how many rounds a search takes to find it.
-/

namespace ImportQuery

/-- A search under way: what it has found, and the packages from which it has not gone on yet. -/
structure Search where
  found : IdSet
  queue : List String

namespace Search

/-! ## Rounds -/

section Rounds

variable (next : String → IdSet) (admits : String → Bool)

/-- What the steps from `x` lead to, as far as it is admitted and has not been found before. -/
def fresh (found : IdSet) (x : String) : IdSet :=
  (next x).filter fun y => admits y && !found.contains y

/-- The search after the steps from `x`, the first in its queue, have been followed. -/
def follow (found : IdSet) (x : String) (rest : List String) : Search :=
  ⟨found ∪ fresh next admits found x, rest ++ (fresh next admits found x).toList⟩

/-- After `n` rounds, and no earlier, the queue of a search is empty, and by then it has found
`ids`. -/
inductive Ends : Search → Nat → IdSet → Prop
  | idle {ids : IdSet} : Ends ⟨ids, []⟩ 0 ids
  | round {found ids : IdSet} {x : String} {rest : List String} {n : Nat}
    (h : Ends (follow next admits found x rest) n ids) : Ends ⟨found, x :: rest⟩ (n + 1) ids

/-- No step leads out of `ids`, not even from `front`. -/
def Closed (front ids : IdSet) : Prop :=
  ∀ x, x ∈ front ∨ x ∈ ids → ∀ y ∈ next x, admits y = true → y ∈ ids

/-- A search from `front` is on its way to `goal`: it has found nothing else, and from what it has
found it has gone on, unless it is still in the queue. -/
structure Follows (front goal : IdSet) (σ : Search) : Prop where
  found : ∀ y ∈ σ.found, y ∈ goal
  queue : ∀ x ∈ σ.queue, x ∈ front ∨ x ∈ σ.found
  left : ∀ x, x ∈ front ∨ x ∈ σ.found → x ∉ σ.queue →
    ∀ y ∈ next x, admits y = true → y ∈ σ.found

end Rounds

variable {next : String → IdSet} {admits : String → Bool} {front goal found : IdSet}
  {x y : String} {rest : List String} {σ : Search}

theorem mem_fresh :
    y ∈ fresh next admits found x ↔ y ∈ next x ∧ admits y = true ∧ y ∉ found := by
  rw [fresh, IdSet.mem_filter, Bool.and_eq_true, Bool.not_eq_true', ← Bool.not_eq_true,
    Std.ExtTreeSet.contains_iff_mem]

/-- **A round keeps a search on its way**, if the goal is closed. -/
theorem Follows.follow (h : Follows next admits front goal ⟨found, x :: rest⟩)
    (hgoal : Closed next admits front goal) :
    Follows next admits front goal (follow next admits found x rest) where
  found y hy := by
    rcases Std.ExtTreeSet.mem_union_iff.1 hy with hy | hy
    · exact h.found y hy
    · obtain ⟨hstep, hadmits, -⟩ := mem_fresh.1 hy
      exact hgoal x ((h.queue x List.mem_cons_self).imp_right (h.found x)) y hstep hadmits
  queue y hy := by
    rw [Search.follow, Std.ExtTreeSet.mem_union_iff]
    rcases List.mem_append.1 hy with hy | hy
    · exact (h.queue y (List.mem_cons_of_mem x hy)).imp_right .inl
    · exact .inr (.inr (Std.ExtTreeSet.mem_toList.1 hy))
  left a ha hqueue b hstep hadmits := by
    simp only [Search.follow, List.mem_append, Std.ExtTreeSet.mem_toList, not_or] at hqueue
    rw [Search.follow, Std.ExtTreeSet.mem_union_iff] at ha ⊢
    by_cases hb : b ∈ found
    · exact .inl hb
    · have hold : a ∈ front ∨ a ∈ found := ha.imp_right fun ha => ha.resolve_right hqueue.2
      -- what had left the queue before has no steps to anything new
      have hx : a = x := by
        by_contra hne
        have hleft : a ∉ x :: rest := List.not_mem_cons_of_ne_of_not_mem hne hqueue.1
        exact hb (h.left a hold hleft b hstep hadmits)
      subst hx
      exact .inr (mem_fresh.2 ⟨hstep, hadmits, hb⟩)

/-- In a round, as much enters the queue as is no longer to be found. -/
theorem Follows.rounds_follow
    (h : Follows next admits front goal (Search.follow next admits found x rest)) :
    (Search.follow next admits found x rest).queue.length +
        (goal \ (Search.follow next admits found x rest).found).size =
      rest.length + (goal \ found).size := by
  have hdiff : goal \ (found ∪ fresh next admits found x) =
      (goal \ found) \ fresh next admits found x := by
    refine Std.ExtTreeSet.ext_mem fun y => ?_
    simp only [Std.ExtTreeSet.mem_diff_iff, Std.ExtTreeSet.mem_union_iff, not_or, and_assoc]
  have hinter : (goal \ found) ∩ fresh next admits found x = fresh next admits found x := by
    refine Std.ExtTreeSet.ext_mem fun y => ?_
    rw [Std.ExtTreeSet.mem_inter_iff, Std.ExtTreeSet.mem_diff_iff, and_iff_right_iff_imp]
    intro hy
    exact ⟨h.found y (Std.ExtTreeSet.mem_union_iff.2 (.inr hy)), (mem_fresh.1 hy).2.2⟩
  have hsize := @Std.ExtTreeSet.size_diff_add_size_inter_eq_size_left String compare
    (goal \ found) (fresh next admits found x) _
  rw [hinter] at hsize
  simp only [Search.follow, hdiff, List.length_append, Std.ExtTreeSet.length_toList]
  omega

/-- A search whose queue is empty is closed. -/
theorem Follows.closed (h : Follows next admits front goal ⟨found, []⟩) :
    Closed next admits front found :=
  fun x hx => h.left x hx List.not_mem_nil

/-- **A search ends**, after as many rounds as packages are in its queue or still to be found, and
has then found its goal, if the goal is the least closed set that has what was found before. -/
theorem Follows.ends (h : Follows next admits front goal σ)
    (hgoal : Closed next admits front goal)
    (hleast : ∀ ids : IdSet, (∀ y ∈ σ.found, y ∈ ids) → Closed next admits front ids →
      ∀ y ∈ goal, y ∈ ids) :
    Ends next admits σ (σ.queue.length + (goal \ σ.found).size) goal := by
  -- by induction on the number of rounds that are left
  generalize hn : σ.queue.length + (goal \ σ.found).size = n
  induction n using Nat.strong_induction_on generalizing σ with
  | _ n ih =>
    obtain ⟨found, _ | ⟨x, rest⟩⟩ := σ
    · obtain rfl : found = goal := Std.ExtTreeSet.ext_mem fun y =>
        ⟨h.found y, hleast found (fun _ hy => hy) h.closed y⟩
      have hnone : found \ found = ∅ := Std.ExtTreeSet.ext_mem fun y => by simp
      obtain rfl : 0 = n := by simpa [hnone] using hn
      exact .idle
    · have hnext := h.follow hgoal
      obtain rfl : rest.length + (goal \ found).size + 1 = n := by
        simp only [List.length_cons] at hn
        omega
      refine .round (ih _ (Nat.lt_succ_self _) hnext (fun ids hids => ?_) hnext.rounds_follow)
      exact hleast ids fun y hy => hids y (Std.ExtTreeSet.mem_union_iff.2 (.inl hy))

/-! ## What a walk finds -/

section Walk

variable {pool base : IdSet} (hpool : ∀ a, ∀ b ∈ next a, (b ∈ pool ↔ admits b = true))
include hpool

/-- What a walk finds is in every closed set. -/
theorem Closed.mem_of_mem_walk (h : Closed next admits front found)
    (hy : y ∈ walk next pool front) : y ∈ found := by
  obtain ⟨x, hx, hpath⟩ := mem_walk.1 hy
  clear hy
  induction hpath with
  | single hstep => exact h x (.inl hx) _ hstep.1 ((hpool _ _ hstep.1).1 hstep.2)
  | tail _ hstep ih => exact h _ (.inr ih) _ hstep.1 ((hpool _ _ hstep.1).1 hstep.2)

/-- A search that has found some of its starting points from the outset finds what a walk finds
besides. -/
theorem ends_union_walk (hbase : ∀ y ∈ base, y ∈ front) :
    Ends next admits ⟨base, front.toList⟩
      (front.size + ((base ∪ walk next pool front) \ base).size)
      (base ∪ walk next pool front) := by
  have hgoal : Closed next admits front (base ∪ walk next pool front) := by
    intro x hx y hstep hadmits
    have hstart : x ∈ front ∨ x ∈ walk next pool front := by
      simpa only [Std.ExtTreeSet.mem_union_iff, ← or_assoc, or_iff_left_of_imp (hbase x)] using hx
    exact Std.ExtTreeSet.mem_union_iff.2
      (.inr (mem_walk_of_step ⟨hstep, (hpool x y hstep).2 hadmits⟩ hstart))
  have hfollows : Follows next admits front (base ∪ walk next pool front)
      ⟨base, front.toList⟩ := by
    refine ⟨fun y hy => ?_, fun x hx => ?_, fun x hx hleft => ?_⟩
    · exact Std.ExtTreeSet.mem_union_iff.2 (.inl hy)
    · exact .inl (Std.ExtTreeSet.mem_toList.1 hx)
    · exact absurd (Std.ExtTreeSet.mem_toList.2 (hx.elim id (hbase x))) hleft
  rw [← Std.ExtTreeSet.length_toList]
  refine hfollows.ends hgoal fun ids hids hclosed y hy => ?_
  exact (Std.ExtTreeSet.mem_union_iff.1 hy).elim (hids y) (hclosed.mem_of_mem_walk hpool)

/-- A search that has found nothing at first finds what a walk finds. -/
theorem ends_walk : Ends next admits ⟨∅, front.toList⟩ (front.size + (walk next pool front).size)
    (walk next pool front) := by
  have hunion : ∅ ∪ walk next pool front = walk next pool front :=
    Std.ExtTreeSet.ext_mem fun y => by simp
  have hdiff : walk next pool front \ ∅ = walk next pool front :=
    Std.ExtTreeSet.ext_mem fun y => by simp
  have hends : Ends next admits ⟨∅, front.toList⟩
      (front.size + ((∅ ∪ walk next pool front) \ ∅).size) (∅ ∪ walk next pool front) :=
    ends_union_walk hpool (by simp)
  rwa [hunion, hdiff] at hends

/-- A search that has found its starting points goes on once from everything it finds. -/
theorem ends_front_union_walk : Ends next admits ⟨front, front.toList⟩
    (front ∪ walk next pool front).size (front ∪ walk next pool front) := by
  have hinter : (front ∪ walk next pool front) ∩ front = front :=
    Std.ExtTreeSet.ext_mem fun y => by simp +contextual
  have hsize := @Std.ExtTreeSet.size_diff_add_size_inter_eq_size_left String compare
    (front ∪ walk next pool front) front _
  rw [hinter, Nat.add_comm] at hsize
  rw [← hsize]
  exact ends_union_walk hpool fun _ hy => hy

end Walk

end Search

namespace Graph

variable {g : Graph} {s : Setting} {x y : String}

/-! ## Paths -/

/-- Every package in the list imports the next one. -/
def IsPath (g : Graph) (path : List String) : Prop := path.IsChain fun x y => y ∈ g.imports x

/-- Imports lead from one package to another if there is a path on which all packages between the
two are visible. -/
theorem leads_iff_exists_path : g.Leads s x y ↔
    ∃ between, g.IsPath (x :: (between ++ [y])) ∧ ∀ z ∈ between, g.isVisible s z = true := by
  constructor
  · intro h
    induction h with
    | direct h => exact ⟨[], .cons_cons h (.singleton _), by simp⟩
    | @through x z y h hz _ ih =>
      obtain ⟨between, hpath, hvisible⟩ := ih
      exact ⟨z :: between, .cons_cons h hpath, List.forall_mem_cons.2 ⟨hz, hvisible⟩⟩
  · rintro ⟨between, hpath, hvisible⟩
    induction between generalizing x with
    | nil => exact .direct (List.isChain_cons_cons.1 hpath).1
    | cons z between ih =>
      obtain ⟨hstep, hpath⟩ := List.isChain_cons_cons.1 hpath
      obtain ⟨hz, hvisible⟩ := List.forall_mem_cons.1 hvisible
      exact .through hstep hz (ih hpath hvisible)

/-! ## What the walks of a graph find -/

/-- The ends of imports are nodes, so that a search along imports finds something visible only among
the visible nodes. -/
theorem Built.mem_visible_iff_of_imports (hg : g.Built) (h : y ∈ g.imports x) :
    y ∈ g.visible s ↔ g.isVisible s y = true := by
  rw [mem_visible_iff, (hg.contains_of_mem_imports h).2, eq_self, true_and]

theorem Built.mem_visible_iff_of_importers (hg : g.Built) (h : y ∈ g.importers x) :
    y ∈ g.visible s ↔ g.isVisible s y = true := by
  rw [mem_visible_iff, (hg.contains_of_mem_imports (hg.mem_importers_iff.1 h)).1, eq_self, true_and]

/-- **Dependencies are what visible paths lead to.** A package is a dependency of a set if a path of
one import or more leads to it from a member of the set, and every package on the path but the first
is visible. A search along the imports ends with the dependencies, after it has gone on once from
every member of the set and once from every dependency. -/
theorem Built.dependencies_paths (hg : g.Built) (s : Setting) (start : IdSet) :
    (∀ y, y ∈ g.dependencies s start ↔ ∃ x ∈ start, ∃ between,
      g.IsPath (x :: (between ++ [y])) ∧ ∀ z ∈ between ++ [y], g.isVisible s z = true) ∧
    Search.Ends g.imports (g.isVisible s) ⟨∅, start.toList⟩
      (start.size + (g.dependencies s start).size) (g.dependencies s start) := by
  refine ⟨fun y => ?_, Search.ends_walk fun x y => hg.mem_visible_iff_of_imports⟩
  rw [hg.mem_dependencies]
  refine exists_congr fun x => and_congr_right fun _ => ?_
  rw [leads_iff_exists_path, ← exists_and_right]
  refine exists_congr fun between => ?_
  rw [List.forall_mem_append, List.forall_mem_singleton, and_assoc]

/-- Two packages that import each other, the second also itself and a test variant of it, which
imports the first. -/
def mutualImports : Graph :=
  .ofEdits [.addNode ⟨"app", true, none⟩, .addNode ⟨"lib", false, none⟩,
    .addNode ⟨"lib.test", false, some "lib"⟩, .addImport "app" "lib", .addImport "lib" "app",
    .addImport "lib" "lib", .addImport "lib" "lib.test", .addImport "lib.test" "app"]

/-- The search goes on from a hidden variant and from a package that is not there, but does not come
back to the variant. -/
theorem dependencies_paths_mutualImports :
    mutualImports.Built ∧
    "lib" ∈ mutualImports.dependencies ⟨false⟩ (.ofList ["gone", "lib.test"]) ∧
    "lib.test" ∉ mutualImports.dependencies ⟨false⟩ (.ofList ["gone", "lib.test"]) ∧
    Search.Ends mutualImports.imports (mutualImports.isVisible ⟨false⟩) ⟨∅, ["gone", "lib.test"]⟩ 4
      (.ofList ["app", "lib"]) := by
  obtain ⟨hpaths, hends⟩ := Built.dependencies_paths (g := mutualImports) ⟨_, rfl⟩ ⟨false⟩
    (.ofList ["gone", "lib.test"])
  refine ⟨⟨_, rfl⟩, (hpaths "lib").2 ?_, fun h => ?_, ?_⟩
  · have hpath : mutualImports.IsPath ["lib.test", "app", "lib"] :=
      .cons_cons (by decide) (.cons_cons (by decide) (.singleton _))
    exact ⟨"lib.test", by decide, ["app"], hpath, by decide⟩
  · obtain ⟨-, -, between, -, hvisible⟩ := (hpaths "lib.test").1 h
    exact absurd (hvisible "lib.test" (by simp)) (by decide)
  · have hvalue : mutualImports.dependencies ⟨false⟩ (.ofList ["gone", "lib.test"]) =
        .ofList ["app", "lib"] := by decide +kernel
    have hstart : (IdSet.ofList ["gone", "lib.test"]).toList = ["gone", "lib.test"] := by decide
    have hcount : (IdSet.ofList ["gone", "lib.test"]).size +
        (IdSet.ofList ["app", "lib"]).size = 4 := by decide
    rwa [hvalue, hstart, hcount] at hends

/-- **The sources that reach a target** are the targets among them and those from which a path of
one import or more leads to a target, where every package on the path but the last is visible. A
search against the imports, which has found the targets from the outset, goes on once from
everything it finds, and the sources among this are the ones that reach a target. -/
theorem Built.reaching_paths (hg : g.Built) (s : Setting) (sources targets : IdSet) :
    (∀ x, x ∈ g.reaching s sources targets ↔ x ∈ sources ∧ (x ∈ targets ∨ ∃ y ∈ targets,
      ∃ between, g.IsPath (x :: (between ++ [y])) ∧
        ∀ z ∈ x :: between, g.isVisible s z = true)) ∧
    ∃ reached, g.reaching s sources targets = sources ∩ reached ∧
      Search.Ends g.importers (g.isVisible s) ⟨targets, targets.toList⟩ reached.size reached := by
  refine ⟨fun x => ?_, _, rfl,
    Search.ends_front_union_walk fun x y => hg.mem_visible_iff_of_importers⟩
  rw [hg.mem_reaching]
  refine and_congr_right fun _ => or_congr_right (exists_congr fun y => and_congr_right fun _ => ?_)
  rw [leads_iff_exists_path, ← exists_and_left]
  refine exists_congr fun between => ?_
  rw [List.forall_mem_cons, and_left_comm]

/-- A hidden variant that is a target is reached, but not passed on the way to another one. -/
theorem reaching_paths_mutualImports :
    mutualImports.Built ∧
    "app" ∈ mutualImports.reaching ⟨false⟩ (.ofList ["app", "lib.test"]) (.ofList ["lib.test"]) ∧
    "lib.test" ∉
      mutualImports.reaching ⟨false⟩ (.ofList ["app", "lib.test"]) (.ofList ["lib"]) := by
  obtain ⟨hpaths, -⟩ := Built.reaching_paths (g := mutualImports) ⟨_, rfl⟩ ⟨false⟩
    (.ofList ["app", "lib.test"]) (.ofList ["lib.test"])
  obtain ⟨hpathsToLib, -⟩ := Built.reaching_paths (g := mutualImports) ⟨_, rfl⟩ ⟨false⟩
    (.ofList ["app", "lib.test"]) (.ofList ["lib"])
  refine ⟨⟨_, rfl⟩, (hpaths "app").2 ⟨by decide, .inr ?_⟩, fun h => ?_⟩
  · have hpath : mutualImports.IsPath ["app", "lib", "lib.test"] :=
      .cons_cons (by decide) (.cons_cons (by decide) (.singleton _))
    exact ⟨"lib.test", by decide, ["lib"], hpath, by decide⟩
  · obtain ⟨-, htarget | ⟨-, -, between, -, hvisible⟩⟩ := (hpathsToLib "lib.test").1 h
    · exact absurd htarget (by decide)
    · exact absurd (hvisible "lib.test" List.mem_cons_self) (by decide)

end Graph

end ImportQuery
