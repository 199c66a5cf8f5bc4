import ImportQuery.Graph.Traversal
import ImportQuery.Proofs.Graph.History
import Mathlib.Logic.Relation

/-!
# What the walks reach

A walk finds what can be reached in one or more steps, whichever way the cycles of the graph lead.
Forwards and backwards, the walks follow the same imports; but a walk passes over the hidden
packages that it comes to, never over those that it starts from, so the one that starts from the
other end passes over others.

* `mem_walk` : a walk finds the transitive closure of its steps.
* `mem_dependencies`, `mem_reaching` : the closure in terms of imports.
* `reaching_eq_searching_iff` : when a walk back from the targets finds the sources from which a
  walk forwards comes to a target.
-/

namespace ImportQuery

/-! ## Walks -/

section Walk

variable {next : String → IdSet} {pool front : IdSet} {x y : String}

theorem walk_eq_empty (h : pool ∩ front.flatMap next = ∅) : walk next pool front = ∅ := by
  rw [walk]
  exact if_pos h

theorem walk_eq_union {met : IdSet} (hmet : met = pool ∩ front.flatMap next) (h : met ≠ ∅) :
    walk next pool front = met ∪ walk next (pool \ met) met := by
  subst hmet
  rw [walk]
  exact if_neg h

/-- What a step from a member of the front leads to, or from something reached, is reached. -/
theorem mem_walk_of_step (hstep : y ∈ next x ∧ y ∈ pool)
    (hx : x ∈ front ∨ x ∈ walk next pool front) : y ∈ walk next pool front := by
  induction pool, front using walk.induct next with
  | case1 pool front met hmet =>
    rcases hx with hx | hx
    · have hy : y ∈ met := by simpa [met] using ⟨hstep.2, x, hx, hstep.1⟩
      simp [hmet] at hy
    · simp [walk_eq_empty hmet] at hx
  | case2 pool front met hmet ih =>
    rw [walk_eq_union rfl hmet, Std.ExtTreeSet.mem_union_iff] at hx ⊢
    by_cases hy : y ∈ met
    · exact .inl hy
    · refine .inr (ih ⟨hstep.1, by simpa using ⟨hstep.2, hy⟩⟩ ?_)
      refine hx.resolve_left fun hfront => hy ?_
      simpa [met] using ⟨hstep.2, x, hfront, hstep.1⟩

/-- **A walk finds what can be reached in one step or more**, and nothing else. -/
theorem mem_walk : y ∈ walk next pool front ↔
    ∃ x ∈ front, Relation.TransGen (fun a b => b ∈ next a ∧ b ∈ pool) x y := by
  constructor
  · intro hy
    induction pool, front using walk.induct next with
    | case1 pool front met hmet => simp [walk_eq_empty hmet] at hy
    | case2 pool front met hmet ih =>
      rw [walk_eq_union rfl hmet, Std.ExtTreeSet.mem_union_iff] at hy
      have hfirst : ∀ z ∈ met, ∃ x ∈ front, z ∈ next x ∧ z ∈ pool := fun z hz => by
        obtain ⟨hpool, x, hx, hnext⟩ : z ∈ pool ∧ ∃ x ∈ front, z ∈ next x := by
          simpa [met] using hz
        exact ⟨x, hx, hnext, hpool⟩
      rcases hy with hy | hy
      · obtain ⟨x, hx, hstep⟩ := hfirst y hy
        exact ⟨x, hx, .single hstep⟩
      · obtain ⟨z, hz, hpath⟩ := ih hy
        obtain ⟨x, hx, hstep⟩ := hfirst z hz
        -- the rest of the path keeps to what is left of the pool
        have hpath' : Relation.TransGen (fun a b => b ∈ next a ∧ b ∈ pool) z y :=
          hpath.lift id fun a b hab => ⟨hab.1, (Std.ExtTreeSet.mem_diff_iff.1 hab.2).1⟩
        exact ⟨x, hx, hpath'.head hstep⟩
  · rintro ⟨x, hx, hpath⟩
    induction hpath with
    | single hstep => exact mem_walk_of_step hstep (.inl hx)
    | tail _ hstep ih => exact mem_walk_of_step hstep (.inr ih)

end Walk

namespace Graph

variable {g : Graph} {s : Setting} {x y : String}

/-! ## Paths of imports -/

/-- Imports lead from `x` to `y`, and every package between the two is visible. -/
inductive Leads (g : Graph) (s : Setting) : String → String → Prop
  | direct {x y : String} (h : y ∈ g.imports x) : Leads g s x y
  | through {x y z : String} (h : y ∈ g.imports x) (hy : g.isVisible s y = true)
    (h' : Leads g s y z) : Leads g s x z

/-- The path of a walk along imports passes visible packages and ends in one. -/
theorem transGen_toVisible_iff :
    Relation.TransGen (fun a b => b ∈ g.imports a ∧ g.isVisible s b = true) x y ↔
      g.Leads s x y ∧ g.isVisible s y = true := by
  constructor
  · intro h
    induction h using Relation.TransGen.head_induction_on with
    | single hstep => exact ⟨.direct hstep.1, hstep.2⟩
    | head hstep _ ih => exact ⟨.through hstep.1 hstep.2 ih.1, ih.2⟩
  · rintro ⟨h, hy⟩
    induction h with
    | direct h => exact .single ⟨h, hy⟩
    | through h hv _ ih => exact .head ⟨h, hv⟩ (ih hy)

/-- The path of a walk against imports passes visible packages and, seen along the imports, starts
from one. -/
theorem transGen_fromVisible_iff :
    Relation.TransGen (fun a b => b ∈ g.imports a ∧ g.isVisible s a = true) x y ↔
      g.isVisible s x = true ∧ g.Leads s x y := by
  constructor
  · intro h
    induction h using Relation.TransGen.head_induction_on with
    | single hstep => exact ⟨hstep.2, .direct hstep.1⟩
    | head hstep _ ih => exact ⟨hstep.2, .through hstep.1 ih.1 ih.2⟩
  · rintro ⟨hx, h⟩
    induction h with
    | direct h => exact .single ⟨h, hx⟩
    | through h hv _ ih => exact .head ⟨h, hx⟩ (ih hv)

theorem mem_visible_iff : x ∈ g.visible s ↔ g.contains x = true ∧ g.isVisible s x = true := by
  rw [visible, IdSet.mem_filter, mem_ids_iff]

theorem mem_visible_of_mem_dependencies {start : IdSet} (h : x ∈ g.dependencies s start) :
    x ∈ g.visible s := by
  obtain ⟨_, -, hpath⟩ := mem_walk.1 h
  obtain ⟨_, -, -, hvisible⟩ := Relation.TransGen.tail'_iff.1 hpath
  exact hvisible

/-- The dependencies of a set are the visible packages to which imports lead from it. -/
theorem Built.mem_dependencies (hg : g.Built) {start : IdSet} :
    y ∈ g.dependencies s start ↔ ∃ x ∈ start, g.Leads s x y ∧ g.isVisible s y = true := by
  -- the ends of imports are nodes, so that the walk loses nothing by staying in the graph
  have hsteps : (fun a b => b ∈ g.imports a ∧ b ∈ g.visible s) =
      fun a b => b ∈ g.imports a ∧ g.isVisible s b = true := by
    funext a b
    refine propext (and_congr_right fun h => ?_)
    rw [mem_visible_iff, (hg.contains_of_mem_imports h).2, eq_self, true_and]
  simp only [dependencies, mem_walk, hsteps, transGen_toVisible_iff]

/-- The sources that reach a target are targets themselves, or visible packages from which imports
lead to a target. -/
theorem Built.mem_reaching (hg : g.Built) {sources targets : IdSet} :
    x ∈ g.reaching s sources targets ↔ x ∈ sources ∧
      (x ∈ targets ∨ ∃ t ∈ targets, g.isVisible s x = true ∧ g.Leads s x t) := by
  have hsteps : (fun a b => b ∈ g.importers a ∧ b ∈ g.visible s) =
      Function.swap fun a b => b ∈ g.imports a ∧ g.isVisible s a = true := by
    funext a b
    refine propext ?_
    change _ ↔ a ∈ g.imports b ∧ g.isVisible s b = true
    rw [hg.mem_importers_iff]
    refine and_congr_right fun h => ?_
    rw [mem_visible_iff, (hg.contains_of_mem_imports h).1, eq_self, true_and]
  have hwalk : x ∈ walk g.importers (g.visible s) targets ↔
      ∃ t ∈ targets, g.isVisible s x = true ∧ g.Leads s x t := by
    rw [mem_walk, hsteps]
    refine exists_congr fun t => and_congr_right fun _ => ?_
    rw [Relation.transGen_swap, transGen_fromVisible_iff]
  rw [reaching, Std.ExtTreeSet.mem_inter_iff, Std.ExtTreeSet.mem_union_iff, hwalk]

/-! ## Searching from each source -/

/-- The members of `sources` that are targets or from which, each on its own, a search forwards
comes to a target. -/
def searching (g : Graph) (s : Setting) (sources targets : IdSet) : IdSet :=
  sources.filter fun id =>
    targets.contains id || (g.dependencies s (.ofList [id])).any targets.contains

theorem Built.mem_searching (hg : g.Built) {sources targets : IdSet} :
    x ∈ g.searching s sources targets ↔ x ∈ sources ∧
      (x ∈ targets ∨ ∃ t ∈ targets, g.Leads s x t ∧ g.isVisible s t = true) := by
  simp only [searching, IdSet.mem_filter, Bool.or_eq_true, Std.ExtTreeSet.contains_iff_mem,
    IdSet.any_iff, hg.mem_dependencies, IdSet.mem_ofList, List.mem_singleton, exists_eq_left]
  refine and_congr_right fun _ => or_congr_right ?_
  exact exists_congr fun t => and_comm

/-- **When searching backwards is searching forwards.** The sources that reach a target are those
from which a search forwards comes to one exactly if, among the sources that are no targets but lead
to one, the visible ones are those that lead to a visible target. A hidden source is passed over on
the way back only, and a hidden target on the way there only. -/
theorem reaching_eq_searching_iff (hg : g.Built) (s : Setting) (sources targets : IdSet) :
    g.reaching s sources targets = g.searching s sources targets ↔
      ∀ x ∈ sources, x ∉ targets → (∃ t ∈ targets, g.Leads s x t) →
        (g.isVisible s x = true ↔ ∃ t ∈ targets, g.Leads s x t ∧ g.isVisible s t = true) := by
  constructor
  · intro heq x hx hout ⟨t, ht, hlead⟩
    constructor
    · intro hvisible
      have hreach : x ∈ g.reaching s sources targets :=
        hg.mem_reaching.2 ⟨hx, .inr ⟨t, ht, hvisible, hlead⟩⟩
      rw [heq] at hreach
      exact (hg.mem_searching.1 hreach).2.resolve_left hout
    · intro hfound
      have hsearch : x ∈ g.searching s sources targets := hg.mem_searching.2 ⟨hx, .inr hfound⟩
      rw [← heq] at hsearch
      obtain ⟨_, _, hvisible, _⟩ := (hg.mem_reaching.1 hsearch).2.resolve_left hout
      exact hvisible
  · intro h
    refine Std.ExtTreeSet.ext_mem fun x => ?_
    rw [hg.mem_reaching, hg.mem_searching]
    refine and_congr_right fun hx => or_congr_right' fun hout => ⟨?_, ?_⟩
    · rintro ⟨t, ht, hvisible, hlead⟩
      exact (h x hx hout ⟨t, ht, hlead⟩).1 hvisible
    · rintro ⟨t, ht, hlead, hvisible⟩
      exact ⟨t, ht, (h x hx hout ⟨t, ht, hlead⟩).2 ⟨t, ht, hlead, hvisible⟩, hlead⟩

/-- A package, its test variant, which imports it, and a tool that imports both. -/
def testedPackage : Graph :=
  .ofEdits [.addNode ⟨"lib", false, none⟩, .addNode ⟨"lib.test", false, some "lib"⟩,
    .addNode ⟨"tool", true, none⟩, .addImport "lib.test" "lib", .addImport "tool" "lib",
    .addImport "tool" "lib.test"]

/-- A hidden target does no harm beside a visible one. -/
theorem reaching_eq_searching_tool :
    testedPackage.Built ∧
    testedPackage.reaching ⟨false⟩ (.ofList ["tool"]) (.ofList ["lib", "lib.test"]) =
      testedPackage.searching ⟨false⟩ (.ofList ["tool"]) (.ofList ["lib", "lib.test"]) := by
  refine ⟨⟨_, rfl⟩, (reaching_eq_searching_iff ⟨_, rfl⟩ _ _ _).2 fun x hx _ _ => ?_⟩
  obtain rfl : x = "tool" := by simpa using hx
  exact ⟨fun _ => ⟨"lib", by decide, .direct (by decide), by decide⟩, fun _ => by decide⟩

/-- A hidden variant imports its package, but does not reach it. -/
theorem reaching_ne_searching_hidden :
    testedPackage.reaching ⟨false⟩ (.ofList ["lib.test"]) (.ofList ["lib"]) ≠
      testedPackage.searching ⟨false⟩ (.ofList ["lib.test"]) (.ofList ["lib"]) := by
  intro heq
  have hbuilt : testedPackage.Built := ⟨_, rfl⟩
  have hsearch : "lib.test" ∈ testedPackage.searching ⟨false⟩ (.ofList ["lib.test"])
      (.ofList ["lib"]) :=
    hbuilt.mem_searching.2 ⟨by decide, .inr ⟨"lib", by decide, .direct (by decide), by decide⟩⟩
  rw [← heq] at hsearch
  obtain ⟨_, htarget | ⟨_, _, hvisible, _⟩⟩ := hbuilt.mem_reaching.1 hsearch
  · exact absurd htarget (by decide)
  · exact absurd hvisible (by decide)

end Graph

end ImportQuery
