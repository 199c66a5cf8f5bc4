import ImportQuery.Proofs.Eval.HiddenTests
import ImportQuery.Proofs.Eval.Selectors

/-!
# Questions with two answers

A graph keeps its imports in both directions. It also keeps the package that a test variant belongs
to twice: in the node, and in an index from packages to variants. So some questions can be put to
either side. Which packages of a set import one of another set is asked of the imports by the
function `incoming`, and of the importers by the selector `importer`. Which test variants there are
is asked of the nodes and of the index by the selector `test`. In a graph with a history the two
sides agree, and so do the answers, except that the selector passes over hidden importers.

* `Graph.Built.inter_find_importers` : the importers among some packages, asked for in both ways.
* `Graph.Built.filter_union_find_variants` : adding test variants before they are taken away.
* `Setup.gives_call` : the value of a call.
* `Session.incoming_agrees`, `Session.test_removed` : what this says about queries.
-/

namespace ImportQuery

namespace Graph

variable {g : Graph} {s : Setting} {ids sources targets : IdSet} {id x : String}

/-! ## Importers -/

theorem mem_incoming : x ∈ GraphFunction.incoming.apply g s [sources, targets] ↔
    x ∈ sources ∧ ∃ y ∈ targets, y ∈ g.imports x := by
  simp only [GraphFunction.apply, IdSet.mem_filter, IdSet.any_iff, Std.ExtTreeSet.contains_iff_mem]
  exact and_congr_right fun _ => exists_congr fun y => and_comm

theorem Built.mem_find_importers (hg : g.Built) : x ∈ Selector.importers.find g s targets ↔
    (∃ y ∈ targets, y ∈ g.imports x) ∧ g.isVisible s x = true := by
  rw [Selector.find, IdSet.mem_filter, IdSet.mem_flatMap]
  refine and_congr_left fun _ => exists_congr fun y => and_congr_right fun _ => ?_
  exact hg.mem_importers_iff

/-- The sources that the selector for importers finds are the visible ones that import a target. -/
theorem Built.inter_find_importers (hg : g.Built) :
    sources ∩ Selector.importers.find g s targets =
      (GraphFunction.incoming.apply g s [sources, targets]).filter (g.isVisible s) := by
  refine Std.ExtTreeSet.ext_mem fun x => ?_
  rw [Std.ExtTreeSet.mem_inter_iff, hg.mem_find_importers, IdSet.mem_filter, mem_incoming,
    and_assoc]

/-- A visible package that imports a target reaches it. -/
theorem Built.mem_reaching_of_mem_find_importers (hg : g.Built) (hx : x ∈ sources)
    (hfound : x ∈ Selector.importers.find g s targets) : x ∈ g.reaching s sources targets := by
  obtain ⟨⟨y, hy, himport⟩, hvisible⟩ := hg.mem_find_importers.1 hfound
  exact hg.mem_reaching.2 ⟨hx, .inr ⟨y, hy, hvisible, .direct himport⟩⟩

/-! ## Test variants -/

/-- Test variants that are added first make no difference to what is left. -/
theorem Built.filter_union_find_variants (hg : g.Built) :
    (ids ∪ Selector.variants.find g s ids).filter (!g.isTest ·) = ids.filter (!g.isTest ·) := by
  refine Std.ExtTreeSet.ext_mem fun id => ?_
  rw [IdSet.mem_filter, IdSet.mem_filter, Std.ExtTreeSet.mem_union_iff, Bool.not_eq_true']
  refine and_congr_left fun htest => or_iff_left fun hfound => ?_
  rw [(hg.mem_find_variants.1 hfound).1] at htest
  cases htest

/-- A package with a test variant that is added before it and has a variant itself, and a variant of
a package that is not there. A variant with the name of the package is refused. -/
def nestedVariants : Graph :=
  .ofEdits [.addNode ⟨"lib.test", false, some "lib"⟩, .addNode ⟨"lib", false, none⟩,
    .addNode ⟨"lib", false, some "gone"⟩, .addNode ⟨"lib.test.test", false, some "lib.test"⟩,
    .addNode ⟨"gone.test", false, some "gone"⟩]

end Graph

/-! ## Evaluations -/

open EvalM

/-- Evaluations that come to the same, whatever the variables are, can take each other's place. -/
theorem EvalM.relates_of_gives_same {α : Type} {m n : EvalM α} {a : α} (h : ∀ sc, Gives sc m a)
    (h' : ∀ sc, Gives sc n a) : Relates Eq Eq m n := by
  intro st st' hst
  obtain ⟨halike, hscope, hscope'⟩ :=
    relates_of_gives (h st.scope) (h' st'.scope) rfl st st' ⟨rfl, rfl⟩
  exact ⟨halike, by rw [hscope, hscope', hst]⟩

namespace Graph

variable {g : Graph} {s : Setting} {sc : Scope} {ids : IdSet}

theorem Built.gives_select_minus_test (hg : g.Built) :
    Gives sc (g.select s ids "-test") (ids.filter (!g.isTest ·)) := by
  have hsel : Selector.ofName? (Tag.ofText "-test").name = some .variants := rfl
  rw [← hg.diff_find_variants]
  exact gives_select hsel

theorem Built.gives_select_plus_minus_test (hg : g.Built) :
    Gives sc (["+test", "-test"].foldlM (g.select s) ids) (ids.filter (!g.isTest ·)) := by
  have hsel : Selector.ofName? (Tag.ofText "+test").name = some .variants := rfl
  have hplus : Gives sc (g.select s ids "+test") (ids ∪ Selector.variants.find g s ids) :=
    gives_select hsel
  rw [← hg.filter_union_find_variants]
  exact hplus.bind (hg.gives_select_minus_test.bind (gives_pure _))

end Graph

namespace Setup

variable {u : Setup} {s : Setting} {sc : Scope}

theorem gives_evalEach {es : List Expr} {sets : List IdSet}
    (h : List.Forall₂ (fun e ids => Gives sc (u.eval s e) ids) es sets) :
    Gives sc (u.evalEach s es) sets := by
  induction h with
  | nil => exact gives_pure _
  | cons he _ ih =>
    rw [evalEach]
    exact he.bind (ih.bind (gives_pure _))

/-- A call comes to what its function makes of the values of its arguments. -/
theorem gives_call {name : String} {f : GraphFunction} {args : List Expr} {sets : List IdSet}
    (hsplit : splitSetting? name = none) (hf : GraphFunction.ofName? name = some f)
    (harity : f.arity.admits args.length = true)
    (hargs : List.Forall₂ (fun e ids => Gives sc (u.eval s e) ids) args sets) :
    Gives sc (u.eval s (.call name args)) (f.apply u.graph s sets) := by
  have hcheck : checkArity name f.arity args.length = pure () := if_pos harity
  rw [eval, hsplit]
  refine (gives_report _).bind ?_
  simp only [hf, hcheck, pure_bind]
  exact (gives_evalEach hargs).bind (gives_pure _)

/-- Whether test variants are added or not before they are removed, an expression denotes the same,
and it fails and binds variables alike. -/
theorem relates_removed (hg : u.graph.Built) (e : Expr) :
    Relates Eq Eq (u.eval s (.selected e ["+test", "-test"]))
      (u.eval s (.selected e ["-test"])) := by
  rw [eval, eval]
  refine ((Simulation.refl u).eval e.within_whole rfl).bind ?_
  rintro ids _ rfl
  exact relates_of_gives_same (fun sc => hg.gives_select_plus_minus_test)
    fun sc => hg.gives_select_minus_test.bind (gives_pure _)

end Setup

namespace Session

/-- **The two ways to ask for importers agree.** Of the sources, the selector finds those that the
function selects and that are visible, and all of these reach a target. It is the same whether the
sets are given or denoted by expressions without assignments. -/
theorem incoming_agrees (σ : Session) (hg : σ.graph.Built) (s : Setting) (sources targets : IdSet) :
    ∃ importing, (∀ st, ((σ.graph.select s targets "importer").run st).1 = .ok importing) ∧
      (∀ x, x ∈ sources ∩ importing ↔
        x ∈ GraphFunction.incoming.apply σ.graph s [sources, targets] ∧
          σ.graph.isVisible s x = true) ∧
      (∀ x ∈ sources ∩ importing, x ∈ σ.graph.reaching s sources targets) ∧
      ∀ strict a b, a.Within .assignmentFree → b.Within .assignmentFree →
        (σ.eval strict s a).1 = .ok sources → (σ.eval strict s b).1 = .ok targets →
          σ.eval strict s (.call "shared" [a, .selected b ["importer"]]) =
            (.ok (sources ∩ importing), σ.scope) ∧
          σ.eval strict s (.call "incoming" [a, b]) =
            (.ok (GraphFunction.incoming.apply σ.graph s [sources, targets]), σ.scope) ∧
          σ.eval strict s (.call "reach" [a, b]) =
            (.ok (σ.graph.reaching s sources targets), σ.scope) := by
  refine ⟨Selector.importers.find σ.graph s targets,
    fun st => (Graph.gives_select_name .importers st rfl).1, fun x => ?_, fun x hx => ?_, ?_⟩
  · rw [hg.inter_find_importers, IdSet.mem_filter]
  · obtain ⟨hsource, hfound⟩ := Std.ExtTreeSet.mem_inter_iff.1 hx
    exact hg.mem_reaching_of_mem_find_importers hsource hfound
  · intro strict a b ha hb hsources htargets
    have hsources := Setup.gives_of_eval ha hsources
    have htargets := Setup.gives_of_eval hb htargets
    have hselected := Setup.gives_selected htargets (Graph.gives_select_name .importers)
    refine ⟨eval_of_gives ?_, eval_of_gives ?_, eval_of_gives ?_⟩
    · exact Setup.gives_call (f := .shared) rfl rfl rfl
        (.cons hsources (.cons hselected .nil))
    · exact Setup.gives_call (f := .incoming) rfl rfl rfl
        (.cons hsources (.cons htargets .nil))
    · exact Setup.gives_call (f := .reach) rfl rfl rfl
        (.cons hsources (.cons htargets .nil))

/-- Of two packages that import a third, the hidden one is selected by the function only. -/
theorem incoming_agrees_mutualImports :
    Graph.mutualImports.Built ∧
    (eval ⟨.mutualImports, .empty⟩ true ⟨false⟩ (.call "incoming"
      [.binary .union (.package "lib.test") (.package "lib"), .package "app"])).1 =
      .ok (.ofList ["lib", "lib.test"]) ∧
    (eval ⟨.mutualImports, .empty⟩ true ⟨false⟩ (.call "shared"
      [.binary .union (.package "lib.test") (.package "lib"),
        .selected (.package "app") ["importer"]])).1 = .ok (.ofList ["lib"]) ∧
    "lib" ∈ Graph.mutualImports.reaching ⟨false⟩ (.ofList ["lib", "lib.test"])
      (.ofList ["app"]) := by
  have hsources : (Expr.binary .union (.package "lib.test") (.package "lib")).Within
      .assignmentFree := .binary trivial (.package trivial) (.package trivial)
  have htargets : (Expr.package "app").Within .assignmentFree := .package trivial
  have hvalue : (eval ⟨.mutualImports, .empty⟩ true ⟨false⟩
      (.binary .union (.package "lib.test") (.package "lib"))).1 =
        .ok (.ofList ["lib", "lib.test"]) := by decide +kernel
  have happ : (eval ⟨.mutualImports, .empty⟩ true ⟨false⟩ (.package "app")).1 =
      .ok (.ofList ["app"]) := by decide +kernel
  obtain ⟨importing, -, hmem, hreach, heval⟩ := incoming_agrees ⟨.mutualImports, .empty⟩
    ⟨_, rfl⟩ ⟨false⟩ (.ofList ["lib", "lib.test"]) (.ofList ["app"])
  obtain ⟨hshared, hincoming, -⟩ := heval true _ _ hsources htargets hvalue happ
  have hboth : GraphFunction.incoming.apply Graph.mutualImports ⟨false⟩
      [.ofList ["lib", "lib.test"], .ofList ["app"]] = .ofList ["lib", "lib.test"] := by
    simp only [GraphFunction.apply, IdSet.any_eq]
    decide +kernel
  have hvisible : IdSet.ofList ["lib", "lib.test"] ∩ importing = .ofList ["lib"] := by
    have hfilter : IdSet.ofList ["lib"] = (IdSet.ofList ["lib", "lib.test"]).filter
        (Graph.mutualImports.isVisible ⟨false⟩) := by decide +kernel
    refine Std.ExtTreeSet.ext_mem fun x => ?_
    rw [hmem, hboth, hfilter, IdSet.mem_filter]
  have hlib : "lib" ∈ IdSet.ofList ["lib", "lib.test"] ∩ importing := by simp [hvisible]
  exact ⟨⟨_, rfl⟩, by rw [hincoming, hboth], by rw [hshared, hvisible], hreach "lib" hlib⟩

/-- **Removing the test variants removes them and nothing else**, whether they have been added first
or not. -/
theorem test_removed (σ : Session) (hg : σ.graph.Built) (s : Setting) :
    (∀ ids st, ((σ.graph.select s ids "-test").run st).1 =
      .ok (ids.filter (!σ.graph.isTest ·))) ∧
    (∀ ids st, ∃ found, ((σ.graph.select s ids "test").run st).1 = .ok found ∧
      ∀ id, id ∈ found ↔
        σ.graph.isTest id = true ∧ (id ∈ ids ∨ ∃ p ∈ ids, id ∈ σ.graph.variants p)) ∧
    (∀ ids st, ((["+test", "-test"].foldlM (σ.graph.select s) ids).run st).1 =
      ((σ.graph.select s ids "-test").run st).1) ∧
    ∀ strict e, σ.eval strict s (.selected e ["+test", "-test"]) =
      σ.eval strict s (.selected e ["-test"]) := by
  have hremove : ∀ ids st, ((σ.graph.select s ids "-test").run st).1 =
      .ok (ids.filter (!σ.graph.isTest ·)) :=
    fun ids st => (hg.gives_select_minus_test st rfl).1
  refine ⟨hremove, fun ids st => ?_, fun ids st => ?_, fun strict e => ?_⟩
  · exact ⟨_, (Graph.gives_select_name .variants st rfl).1, fun id => hg.mem_find_variants⟩
  · rw [hremove]
    exact (hg.gives_select_plus_minus_test st rfl).1
  · obtain ⟨halike, hscope⟩ := Setup.relates_removed (u := ⟨σ.graph, strict⟩) (s := s) hg e
      ⟨σ.scope, []⟩ ⟨σ.scope, []⟩ rfl
    exact Prod.ext (eq_of_alike halike) hscope

/-- A variant of a variant is found, and so is the variant of a package that is not there. The edit
that was refused has made no test variant of the package. -/
theorem test_removed_nestedVariants :
    Graph.nestedVariants.Built ∧
    (∀ st, ((["+test", "-test"].foldlM (Graph.nestedVariants.select ⟨false⟩)
      (.ofList ["gone", "lib", "lib.test"])).run st).1 = .ok (.ofList ["gone", "lib"])) ∧
    ∀ st, ∃ found, ((Graph.nestedVariants.select ⟨false⟩
        (.ofList ["gone", "lib", "lib.test"]) "test").run st).1 = .ok found ∧
      "gone.test" ∈ found ∧ "lib.test.test" ∈ found ∧ "lib" ∉ found := by
  obtain ⟨hremove, hfind, hadd, -⟩ := test_removed ⟨.nestedVariants, .empty⟩ ⟨_, rfl⟩ ⟨false⟩
  refine ⟨⟨_, rfl⟩, fun st => ?_, fun st => ?_⟩
  · rw [hadd, hremove]
    decide +kernel
  · obtain ⟨found, hfound, hmem⟩ := hfind (.ofList ["gone", "lib", "lib.test"]) st
    refine ⟨found, hfound, (hmem _).2 ?_, (hmem _).2 ?_, fun h => ?_⟩
    · exact ⟨by decide, .inr ⟨"gone", by decide, by decide⟩⟩
    · exact ⟨by decide, .inr ⟨"lib.test", by decide, by decide⟩⟩
    · exact absurd ((hmem _).1 h).1 (by decide)

end Session

end ImportQuery
