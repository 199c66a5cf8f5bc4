import ImportQuery.Proofs.Eval.OwnNames
import ImportQuery.Proofs.Graph.Search

/-!
# The algebra of selectors

What a selector finds for a set is what it finds for the members of the set. This holds of the walk
along the imports as well, though a walk from many packages passes over what it has met already. So
a tag that does not remove distributes over unions. And since a walk from what has been reached
reaches nothing new, the selector for everything that is imported is a closure.

* `Selector.memberwise_find` : selectors work member by member.
* `walk_eq_union_walk`, `walk_union_walk` : a walk and its first step, a walk and what it has found.
* `Session.select_union` : a tag of a union is the union of the tags.
* `Session.deps_interchangeable` : `deps(a)` and `(a):import:all` are the same, and `all` is a
  closure.
-/

namespace ImportQuery

/-! ## Functions that work member by member -/

namespace IdSet

/-- What the function makes of a set is made of its members one at a time. -/
structure Memberwise (f : IdSet → IdSet) : Prop where
  empty : f ∅ = ∅
  union (a b : IdSet) : f (a ∪ b) = f a ∪ f b

variable {f h : IdSet → IdSet} {R : String → String → Prop}

/-- A function works member by member if each member contributes what it is related to. -/
theorem memberwise_of_mem (hf : ∀ ids y, y ∈ f ids ↔ ∃ x ∈ ids, R x y) : Memberwise f where
  empty := Std.ExtTreeSet.ext_mem fun y => by simp [hf]
  union a b := Std.ExtTreeSet.ext_mem fun y => by simp [hf, or_and_right, exists_or]

theorem memberwise_id : Memberwise fun ids => ids := ⟨rfl, fun _ _ => rfl⟩

theorem memberwise_filter (p : String → Bool) : Memberwise fun ids => ids.filter p :=
  memberwise_of_mem (R := fun x y => x = y ∧ p y = true) fun ids y => by simp

theorem memberwise_flatMap (look : String → IdSet) : Memberwise fun ids => ids.flatMap look :=
  memberwise_of_mem (R := fun x y => y ∈ look x) fun ids y => by simp

theorem Memberwise.comp (hf : Memberwise f) (hh : Memberwise h) :
    Memberwise fun ids => f (h ids) where
  empty := by rw [hh.empty, hf.empty]
  union a b := by rw [hh.union, hf.union]

theorem Memberwise.beside (hf : Memberwise f) (hh : Memberwise h) :
    Memberwise fun ids => f ids ∪ h ids where
  empty := Std.ExtTreeSet.ext_mem fun y => by simp [hf.empty, hh.empty]
  union a b := Std.ExtTreeSet.ext_mem fun y => by
    simp only [hf.union, hh.union, Std.ExtTreeSet.mem_union_iff]
    exact or_or_or_comm

end IdSet

open IdSet

/-! ## Walks -/

section Walk

variable (next : String → IdSet) (pool front : IdSet)

theorem memberwise_walk : Memberwise (walk next pool) :=
  memberwise_of_mem fun _ _ => mem_walk

/-- A walk finds what its first step leads to, and what a walk finds from there. -/
theorem walk_eq_union_walk : walk next pool front =
    pool ∩ front.flatMap next ∪ walk next pool (pool ∩ front.flatMap next) := by
  refine Std.ExtTreeSet.ext_mem fun y => ?_
  have hfirst : ∀ z, z ∈ pool ∩ front.flatMap next ↔ ∃ x ∈ front, z ∈ next x ∧ z ∈ pool := by
    intro z
    rw [Std.ExtTreeSet.mem_inter_iff, IdSet.mem_flatMap, and_comm, ← exists_and_right]
    exact exists_congr fun x => and_assoc
  rw [Std.ExtTreeSet.mem_union_iff, mem_walk, mem_walk, hfirst]
  constructor
  · rintro ⟨x, hx, hpath⟩
    obtain ⟨z, hstep, hrest⟩ := Relation.TransGen.head'_iff.1 hpath
    rcases Relation.reflTransGen_iff_eq_or_transGen.1 hrest with rfl | hrest
    · exact .inl ⟨x, hx, hstep⟩
    · exact .inr ⟨z, (hfirst z).2 ⟨x, hx, hstep⟩, hrest⟩
  · rintro (⟨x, hx, hstep⟩ | ⟨z, hz, hrest⟩)
    · exact ⟨x, hx, .single hstep⟩
    · obtain ⟨x, hx, hstep⟩ := (hfirst z).1 hz
      exact ⟨x, hx, .head hstep hrest⟩

/-- A walk from what a walk has found finds nothing new. -/
theorem walk_union_walk : walk next pool (front ∪ walk next pool front) = walk next pool front := by
  rw [(memberwise_walk next pool).union]
  refine Std.ExtTreeSet.ext_mem fun y => ?_
  rw [Std.ExtTreeSet.mem_union_iff, or_iff_left_iff_imp]
  intro hy
  obtain ⟨z, hz, hrest⟩ := mem_walk.1 hy
  obtain ⟨x, hx, hpath⟩ := mem_walk.1 hz
  exact mem_walk.2 ⟨x, hx, hpath.trans hrest⟩

end Walk

/-! ## Selectors and their tags -/

/-- **Selectors work member by member.** -/
theorem Selector.memberwise_find (sel : Selector) (g : Graph) (s : Setting) :
    Memberwise (sel.find g s) := by
  cases sel with
  | closure => exact memberwise_id.beside (memberwise_walk _ _)
  | imports => exact (memberwise_filter _).comp (memberwise_flatMap _)
  | importers => exact (memberwise_filter _).comp (memberwise_flatMap _)
  | executables => exact memberwise_filter _
  | variants => exact (memberwise_filter _).beside (memberwise_flatMap _)
  | sources => exact memberwise_filter _

theorem Sign.memberwise_combine {sign : Sign} (hsign : sign ≠ .remove) {f : IdSet → IdSet}
    (hf : Memberwise f) : Memberwise fun ids => sign.combine ids (f ids) := by
  cases sign with
  | replace => exact hf
  | add => exact memberwise_id.beside hf
  | remove => exact absurd rfl hsign

theorem Selector.ofName?_name (sel : Selector) : ofName? sel.name = some sel := by
  cases sel <;> rfl

theorem Tag.ofText_name (sel : Selector) : ofText sel.name = ⟨.replace, sel.name⟩ := by
  cases sel <;> rfl

theorem Tag.ofText_plus_name (sel : Selector) : ofText ("+" ++ sel.name) = ⟨.add, sel.name⟩ := by
  cases sel <;> rfl

/-- The name of a selector, alone or with a plus sign, is a tag that does not remove. -/
theorem Tag.ofText_of_name {sel : Selector} {text : String}
    (htext : text = sel.name ∨ text = "+" ++ sel.name) :
    Selector.ofName? (ofText text).name = some sel ∧ (ofText text).sign ≠ .remove := by
  rcases htext with rfl | rfl
  · rw [ofText_name]
    exact ⟨sel.ofName?_name, nofun⟩
  · rw [ofText_plus_name]
    exact ⟨sel.ofName?_name, nofun⟩

namespace Graph

variable {g : Graph} {s : Setting} {ids : IdSet}

/-- Of a graph with a history, the selector for imports finds what the first step of a walk does. -/
theorem Built.find_imports (hg : g.Built) :
    Selector.imports.find g s ids = g.visible s ∩ ids.flatMap g.imports := by
  refine Std.ExtTreeSet.ext_mem fun y => ?_
  rw [Selector.find, IdSet.mem_filter, Std.ExtTreeSet.mem_inter_iff, and_comm]
  refine and_congr_left fun hy => ?_
  obtain ⟨x, -, himport⟩ := IdSet.mem_flatMap.1 hy
  exact (hg.mem_visible_iff_of_imports himport).symm

/-- The dependencies of a set are what it imports, and everything that is imported from there. -/
theorem Built.find_closure_find_imports (hg : g.Built) :
    Selector.closure.find g s (Selector.imports.find g s ids) = g.dependencies s ids := by
  rw [hg.find_imports, Selector.find, dependencies, dependencies]
  exact (walk_eq_union_walk _ _ _).symm

theorem find_closure_find_closure :
    Selector.closure.find g s (Selector.closure.find g s ids) = Selector.closure.find g s ids := by
  rw [Selector.find, Selector.find, dependencies, dependencies, walk_union_walk]
  exact Std.ExtTreeSet.ext_mem fun y => by simp

end Graph

/-! ## Evaluations -/

open EvalM

namespace Graph

variable {g : Graph} {s : Setting} {sc : Scope} {ids : IdSet}

theorem gives_select {text : String} {sel : Selector}
    (hsel : Selector.ofName? (Tag.ofText text).name = some sel) :
    Gives sc (g.select s ids text) ((Tag.ofText text).sign.combine ids (sel.find g s ids)) := by
  simp only [select, hsel]
  exact (gives_report _).bind (gives_pure _)

theorem gives_select_name (sel : Selector) :
    Gives sc (g.select s ids sel.name) (sel.find g s ids) := by
  have h : Gives sc (g.select s ids sel.name) _ := gives_select (Tag.ofText_of_name (.inl rfl)).1
  rwa [Tag.ofText_name] at h

theorem Built.gives_select_import_all (hg : g.Built) :
    Gives sc (["import", "all"].foldlM (g.select s) ids) (g.dependencies s ids) := by
  rw [← hg.find_closure_find_imports]
  exact (gives_select_name .imports).bind ((gives_select_name .closure).bind (gives_pure _))

theorem gives_select_all_all :
    Gives sc (["all", "all"].foldlM (g.select s) ids) (Selector.closure.find g s ids) := by
  rw [← find_closure_find_closure]
  exact (gives_select_name .closure).bind ((gives_select_name .closure).bind (gives_pure _))

end Graph

namespace Setup

variable {u : Setup} {s : Setting} {e a b : Expr} {ids : IdSet}

theorem gives_selected {sc : Scope} {text : String} {found : IdSet} (he : Gives sc (u.eval s e) ids)
    (htext : Gives sc (u.graph.select s ids text) found) :
    Gives sc (u.eval s (.selected e [text])) found := by
  rw [eval]
  exact he.bind (htext.bind (gives_pure _))

theorem gives_union {sc : Scope} {ids' : IdSet} (ha : Gives sc (u.eval s a) ids)
    (hb : Gives sc (u.eval s b) ids') : Gives sc (u.eval s (.binary .union a b)) (ids ∪ ids') := by
  rw [eval]
  exact ha.bind (hb.bind (gives_pure _))

/-- A call of `deps` denotes what the selectors for imports and for everything that is imported
find one after the other, and it fails and binds variables as they do. -/
theorem relates_deps (hg : u.graph.Built) :
    Relates Eq Eq (u.eval s (.call "deps" [e])) (u.eval s (.selected e ["import", "all"])) := by
  have hsetting : splitSetting? "deps" = none := rfl
  have hfunction : GraphFunction.ofName? "deps" = some .deps := rfl
  have harity : checkArity "deps" GraphFunction.deps.arity [e].length = pure () := rfl
  rw [eval, eval, hsetting]
  refine Relates.report_bind ?_
  simp only [hfunction, harity, evalEach, pure_bind, bind_assoc]
  refine ((Simulation.refl u).eval e.within_whole rfl).bind ?_
  rintro ids _ rfl
  exact relates_pure_of_gives fun sc => hg.gives_select_import_all

end Setup

namespace Session

variable {σ : Session} {strict : Bool} {s : Setting} {e : Expr} {ids : IdSet}

/-- **Tags that do not remove distribute over unions.** What such a tag makes of a set it makes of
the members. So for two expressions without assignments it does not matter whether the tag is
written behind their union or behind each of them. -/
theorem select_union (σ : Session) (s : Setting) {sel : Selector} {text : String}
    (htext : text = sel.name ∨ text = "+" ++ sel.name) :
    ∃ f : IdSet → IdSet, Memberwise f ∧
      (∀ ids st, ((σ.graph.select s ids text).run st).1 = .ok (f ids)) ∧
      ∀ strict a b A B, a.Within .assignmentFree → b.Within .assignmentFree →
        (σ.eval strict s a).1 = .ok A → (σ.eval strict s b).1 = .ok B →
          σ.eval strict s (.selected (.binary .union a b) [text]) = (.ok (f A ∪ f B), σ.scope) ∧
          σ.eval strict s (.binary .union (.selected a [text]) (.selected b [text])) =
            (.ok (f A ∪ f B), σ.scope) := by
  obtain ⟨hname, hsign⟩ := Tag.ofText_of_name htext
  have hfind := Sign.memberwise_combine hsign (sel.memberwise_find σ.graph s)
  refine ⟨_, hfind, fun ids st => (Graph.gives_select hname st rfl).1, ?_⟩
  intro strict a b A B ha hb hA hB
  have hA := Setup.gives_of_eval ha hA
  have hB := Setup.gives_of_eval hb hB
  refine ⟨eval_of_gives ?_, eval_of_gives ?_⟩
  · rw [← hfind.union]
    exact Setup.gives_selected (Setup.gives_union hA hB) (Graph.gives_select hname)
  · exact Setup.gives_union (Setup.gives_selected hA (Graph.gives_select hname))
      (Setup.gives_selected hB (Graph.gives_select hname))

/-- A walk from a hidden variant and from a package that it imports. -/
theorem select_union_mutualImports :
    "+all" = "+" ++ Selector.closure.name ∧
    (Expr.package "lib.test").Within .assignmentFree ∧
    (Expr.package "app").Within .assignmentFree ∧
    (eval ⟨.mutualImports, .empty⟩ true ⟨false⟩ (.package "lib.test")).1 =
      .ok (.ofList ["lib.test"]) ∧
    (eval ⟨.mutualImports, .empty⟩ true ⟨false⟩ (.package "app")).1 = .ok (.ofList ["app"]) ∧
    (eval ⟨.mutualImports, .empty⟩ true ⟨false⟩
      (.selected (.binary .union (.package "lib.test") (.package "app")) ["+all"])).1 =
      .ok (.ofList ["app", "lib", "lib.test"]) := by
  have htext : "+all" = "+" ++ Selector.closure.name := rfl
  have hA : (Expr.package "lib.test").Within .assignmentFree := .package trivial
  have hB : (Expr.package "app").Within .assignmentFree := .package trivial
  have hlibtest : (eval ⟨.mutualImports, .empty⟩ true ⟨false⟩ (.package "lib.test")).1 =
      .ok (.ofList ["lib.test"]) := by decide +kernel
  have happ : (eval ⟨.mutualImports, .empty⟩ true ⟨false⟩ (.package "app")).1 =
      .ok (.ofList ["app"]) := by decide +kernel
  obtain ⟨f, -, -, heval⟩ := select_union ⟨.mutualImports, .empty⟩ ⟨false⟩ (.inr htext)
  obtain ⟨hunion, hparts⟩ := heval true _ _ _ _ hA hB hlibtest happ
  refine ⟨htext, hA, hB, hlibtest, happ, ?_⟩
  rw [hunion, ← hparts]
  decide +kernel

-- a tag that removes does not distribute: what one package imports may be the other
example :
    (eval ⟨.mutualImports, .empty⟩ true ⟨false⟩
      (.selected (.binary .union (.package "lib.test") (.package "app")) ["-import"])).1 ≠
    (eval ⟨.mutualImports, .empty⟩ true ⟨false⟩ (.binary .union
      (.selected (.package "lib.test") ["-import"])
      (.selected (.package "app") ["-import"]))).1 := by
  decide +kernel

/-- **`deps(a)` and `(a):import:all` are interchangeable**, and `all` is a closure: it adds the
dependencies of a set, and adds nothing the second time. -/
theorem deps_interchangeable (σ : Session) (hg : σ.graph.Built) (s : Setting) :
    (∀ ids st, ((["import", "all"].foldlM (σ.graph.select s) ids).run st).1 =
      .ok (σ.graph.dependencies s ids)) ∧
    (∀ ids st, ((σ.graph.select s ids "all").run st).1 =
      .ok (ids ∪ σ.graph.dependencies s ids)) ∧
    (∀ ids st, ((["all", "all"].foldlM (σ.graph.select s) ids).run st).1 =
      ((σ.graph.select s ids "all").run st).1) ∧
    ∀ strict e, σ.eval strict s (.call "deps" [e]) =
      σ.eval strict s (.selected e ["import", "all"]) := by
  have hall : ∀ ids st, ((σ.graph.select s ids "all").run st).1 =
      .ok (Selector.closure.find σ.graph s ids) :=
    fun ids st => (Graph.gives_select_name .closure st rfl).1
  refine ⟨fun ids st => (hg.gives_select_import_all st rfl).1, hall, fun ids st => ?_, ?_⟩
  · rw [hall]
    exact (Graph.gives_select_all_all st rfl).1
  · intro strict e
    obtain ⟨halike, hscope⟩ := Setup.relates_deps (u := ⟨σ.graph, strict⟩) (s := s) (e := e) hg
      ⟨σ.scope, []⟩ ⟨σ.scope, []⟩ rfl
    exact Prod.ext (eq_of_alike halike) hscope

theorem deps_interchangeable_mutualImports :
    Graph.mutualImports.Built ∧
    (eval ⟨.mutualImports, .empty⟩ true ⟨false⟩ (.call "deps" [.package "lib.test"])).1 =
      .ok (.ofList ["app", "lib"]) := by
  obtain ⟨-, -, -, hdeps⟩ := deps_interchangeable ⟨.mutualImports, .empty⟩ ⟨_, rfl⟩ ⟨false⟩
  refine ⟨⟨_, rfl⟩, ?_⟩
  rw [hdeps]
  decide +kernel

end Session

end ImportQuery
