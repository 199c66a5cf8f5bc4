import ImportQuery.Proofs.Graph.Reachability

/-!
# Graphs without their test variants

While test variants are hidden, whatever starts from other packages sees the graph as if it had been
made without the variants. The graph that has been made so is described by what can be looked up in
it: the other nodes, and the imports between them.

* `Built.exists_withoutTests` : every graph could have been made without its test variants.
* `WithoutTests.leads_iff` : between other packages, paths of imports are the same in both graphs.
-/

namespace ImportQuery.Graph

/-- The graph `g'` has been made of the nodes of `g` that are no test variants, and of the imports
between them. -/
structure WithoutTests (g g' : Graph) : Prop where
  built : g'.Built
  node : ∀ id, g'.node? id = (g.node? id).filter (!·.isTest)
  imports : ∀ x y, y ∈ g'.imports x ↔ y ∈ g.imports x ∧ g.isTest x = false ∧ g.isTest y = false

variable {g g' h h' : Graph} {n : Node} {s : Setting} {id x y : String}

theorem isTest_eq_false_iff :
    g.isTest id = false ↔ ∀ n, g.node? id = some n → n.isTest = false := by
  cases hn : g.node? id <;> simp [isTest, hn]

namespace WithoutTests

theorem isTest_eq (hdel : g.WithoutTests h) (id : String) : h.isTest id = false := by
  rw [isTest, hdel.node]
  cases g.node? id with
  | none => rfl
  | some n => cases hn : n.isTest <;> simp [Option.filter, hn]

theorem node?_eq (hdel : g.WithoutTests h) (hid : g.isTest id = false) :
    h.node? id = g.node? id := by
  rw [hdel.node]
  cases hn : g.node? id with
  | none => rfl
  | some n => simp [Option.filter, isTest_eq_false_iff.1 hid n hn]

theorem contains_eq (hdel : g.WithoutTests h) (hid : g.isTest id = false) :
    h.contains id = g.contains id := by
  rw [contains, hdel.node?_eq hid, contains]

theorem mem_imports_iff (hdel : g.WithoutTests h) (hx : g.isTest x = false)
    (hy : g.isTest y = false) : y ∈ h.imports x ↔ y ∈ g.imports x := by
  rw [hdel.imports]
  exact and_iff_left ⟨hx, hy⟩

/-! ## Making the graph -/

theorem empty : Graph.empty.WithoutTests Graph.empty where
  built := ⟨[], rfl⟩
  node := by simp
  imports := by simp

/-- After a node has been added, the graph without test variants is the one before, or the one
before with the same node added. -/
theorem addNode (hdel : g.WithoutTests h) (hg : g.Built) (hadd : g.edit (.addNode n) = .ok g') :
    ∃ h', g'.WithoutTests h' := by
  obtain ⟨hnew, hnode, himports, -, -⟩ := addNode_eq_ok hadd
  have hold : ∀ id, g.contains id = true → g'.isTest id = g.isTest id := fun id hid => by
    have hne : id ≠ n.id := by
      rintro rfl
      rw [not_contains_iff.2 hnew] at hid
      cases hid
    rw [isTest, hnode, if_neg hne, isTest]
  have hends : ∀ x y, (y ∈ g'.imports x ∧ g'.isTest x = false ∧ g'.isTest y = false) ↔
      y ∈ h.imports x := fun x y => by
    rw [himports, hdel.imports]
    refine and_congr_right fun hxy => ?_
    rw [hold x (hg.contains_of_mem_imports hxy).1, hold y (hg.contains_of_mem_imports hxy).2]
  cases htest : n.isTest with
  | true =>
    refine ⟨h, hdel.built, fun id => ?_, fun x y => (hends x y).symm⟩
    rw [hdel.node, hnode]
    split
    · rename_i hid
      simp [hid, hnew, Option.filter, htest]
    · rfl
  | false =>
    have hfree : h.contains n.id = false := by rw [not_contains_iff, hdel.node, hnew, Option.filter]
    obtain ⟨h', hadd'⟩ := exists_addNode hfree
    obtain ⟨-, hnode', himports', -, -⟩ := addNode_eq_ok hadd'
    refine ⟨h', hdel.built.edit hadd', fun id => ?_, fun x y => ?_⟩
    · rw [hnode', hnode, hdel.node]
      split
      · simp [Option.filter, htest]
      · rfl
    · rw [himports']
      exact (hends x y).symm

/-- After an import has been added, the graph without test variants is the one before, or the one
before with the same import added. -/
theorem addImport (hdel : g.WithoutTests h) (hadd : g.edit (.addImport x y) = .ok g') :
    ∃ h', g'.WithoutTests h' := by
  obtain ⟨hfrom, hto, hnode, himports, -, -⟩ := addImport_eq_ok hadd
  have htests : g'.isTest = g.isTest := by
    funext id
    rw [isTest, hnode, isTest]
  by_cases hends : g.isTest x = false ∧ g.isTest y = false
  · rw [← hdel.contains_eq hends.1] at hfrom
    rw [← hdel.contains_eq hends.2] at hto
    obtain ⟨h', hadd'⟩ := exists_addImport hfrom hto
    obtain ⟨-, -, hnode', himports', -, -⟩ := addImport_eq_ok hadd'
    refine ⟨h', hdel.built.edit hadd', fun id => ?_, fun a b => ?_⟩
    · rw [hnode', hnode, hdel.node]
    · rw [himports', himports, htests, hdel.imports, or_and_right]
      refine or_congr_right (iff_self_and.2 ?_)
      rintro ⟨rfl, rfl⟩
      exact hends
  · refine ⟨h, hdel.built, fun id => ?_, fun a b => ?_⟩
    · rw [hnode, hdel.node]
    · rw [himports, htests, hdel.imports, or_and_right]
      refine (or_iff_left ?_).symm
      rintro ⟨⟨rfl, rfl⟩, hab⟩
      exact hends hab

end WithoutTests

/-- Every graph could have been made without its test variants. -/
theorem Built.exists_withoutTests (hg : g.Built) : ∃ h, g.WithoutTests h := by
  obtain ⟨es, rfl⟩ := hg
  induction es using List.reverseRecOn with
  | nil => exact ⟨_, .empty⟩
  | append_singleton es e ih =>
    obtain ⟨h, hdel⟩ := ih
    rw [ofEdits_concat]
    cases hedit : (ofEdits es).edit e with
    | error err => exact ⟨h, (apply_of_error hedit).symm ▸ hdel⟩
    | ok g' =>
      rw [apply_of_ok hedit]
      cases e with
      | addNode n => exact hdel.addNode ⟨es, rfl⟩ hedit
      | addImport x y => exact hdel.addImport hedit

/-! ## What is the same in both graphs -/

theorem isTest_of_isVisible (hs : s.includeTests = false) (hid : g.isVisible s id = true) :
    g.isTest id = false := by
  rw [isVisible, hs, Bool.false_or] at hid
  rw [isTest_eq_false_iff]
  rintro n hn
  simpa [hn] using hid

namespace WithoutTests

variable (hdel : g.WithoutTests h) (hs : s.includeTests = false)
include hdel hs

theorem isVisible_eq (id : String) : h.isVisible s id = g.isVisible s id := by
  rw [isVisible, isVisible, hs, Bool.false_or, Bool.false_or, hdel.node]
  cases g.node? id with
  | none => rfl
  | some n => cases hn : n.isTest <;> simp [Option.filter, hn]

theorem visible_eq : h.visible s = g.visible s := by
  refine Std.ExtTreeSet.ext_mem fun id => ?_
  rw [mem_visible_iff, mem_visible_iff, hdel.isVisible_eq hs]
  refine and_congr_left fun hid => ?_
  rw [hdel.contains_eq (isTest_of_isVisible hs hid)]

/-- Between other packages, imports lead the same ways in both graphs. -/
theorem leads_iff (hx : g.isTest x = false) (hy : g.isTest y = false) :
    h.Leads s x y ↔ g.Leads s x y := by
  constructor
  · intro hlead
    induction hlead with
    | direct himport => exact .direct ((hdel.imports _ _).1 himport).1
    | through himport hv _ ih =>
      rw [hdel.isVisible_eq hs] at hv
      exact .through ((hdel.imports _ _).1 himport).1 hv (ih (isTest_of_isVisible hs hv) hy)
  · intro hlead
    induction hlead with
    | direct himport => exact .direct ((hdel.mem_imports_iff hx hy).2 himport)
    | through himport hv _ ih =>
      have hmid := isTest_of_isVisible hs hv
      refine .through ((hdel.mem_imports_iff hx hmid).2 himport) ?_ (ih hmid hy)
      rw [hdel.isVisible_eq hs]
      exact hv

variable (hg : g.Built)
include hg

theorem dependencies_eq {start : IdSet} (hstart : ∀ id ∈ start, g.isTest id = false) :
    h.dependencies s start = g.dependencies s start := by
  refine Std.ExtTreeSet.ext_mem fun y => ?_
  rw [hdel.built.mem_dependencies, hg.mem_dependencies]
  refine exists_congr fun x => and_congr_right fun hx => ?_
  rw [hdel.isVisible_eq hs]
  exact and_congr_left fun hy => hdel.leads_iff hs (hstart x hx) (isTest_of_isVisible hs hy)

theorem reaching_eq {sources targets : IdSet} (hsources : ∀ id ∈ sources, g.isTest id = false)
    (htargets : ∀ id ∈ targets, g.isTest id = false) :
    h.reaching s sources targets = g.reaching s sources targets := by
  refine Std.ExtTreeSet.ext_mem fun x => ?_
  rw [hdel.built.mem_reaching, hg.mem_reaching]
  refine and_congr_right fun hx => or_congr_right (exists_congr fun t => ?_)
  refine and_congr_right fun ht => ?_
  rw [hdel.isVisible_eq hs, hdel.leads_iff hs (hsources x hx) (htargets t ht)]

/-- The visible packages that import a package are the same. -/
theorem mem_importers_iff (hid : g.isTest id = false) (hv : g.isVisible s x = true) :
    x ∈ h.importers id ↔ x ∈ g.importers id := by
  rw [hdel.built.mem_importers_iff, hg.mem_importers_iff]
  exact hdel.mem_imports_iff (isTest_of_isVisible hs hv) hid

end WithoutTests

end ImportQuery.Graph
