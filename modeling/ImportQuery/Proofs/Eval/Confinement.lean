import ImportQuery.Proofs.Eval.Simulation
import ImportQuery.Session

/-!
# Results stay in the graph

Test variants may belong to packages that are not in the graph, and words may name packages that are
not there. But whatever is selected is a node, because both ends of an import are, and because a
word that names nothing selects nothing.

* `Graph.Built.covers_find` : selectors keep to the nodes.
* `Setup.simulation_covers` : so do expressions.
* `Session.Sound.step` : no request of a session leaves a variable that holds anything else.
* `Session.Reachable.confined` : the results of a session are ordered sets of nodes.
-/

namespace ImportQuery

namespace Graph

variable {g : Graph} {s : Setting} {ids : IdSet} {id : String}

/-- All members of a set are nodes. -/
def Covers (g : Graph) (ids : IdSet) : Prop := ∀ id ∈ ids, g.contains id = true

/-- A selector finds nodes. -/
theorem Built.covers_find (hg : g.Built) (h : g.Covers ids) (sel : Selector) (s : Setting) :
    g.Covers (sel.find g s ids) := by
  intro id hid
  cases sel with
  | closure =>
    rcases Std.ExtTreeSet.mem_union_iff.1 hid with hid | hid
    · exact h id hid
    · exact (mem_visible_iff.1 (mem_visible_of_mem_dependencies hid)).1
  | imports =>
    obtain ⟨x, -, himport⟩ := IdSet.mem_flatMap.1 (IdSet.mem_filter.1 hid).1
    exact (hg.contains_of_mem_imports himport).2
  | importers =>
    obtain ⟨x, -, himporter⟩ := IdSet.mem_flatMap.1 (IdSet.mem_filter.1 hid).1
    exact (hg.contains_of_mem_imports (hg.mem_importers_iff.1 himporter)).1
  | executables | sources => exact h id (IdSet.mem_filter.1 hid).1
  | variants =>
    rcases Std.ExtTreeSet.mem_union_iff.1 hid with hid | hid
    · exact h id (IdSet.mem_filter.1 hid).1
    · obtain ⟨p, -, hvariant⟩ := IdSet.mem_flatMap.1 hid
      obtain ⟨n, hn, -⟩ := hg.mem_variants_iff.1 hvariant
      exact contains_iff.2 ⟨n, hn⟩

theorem contains_apply (h : g.contains id = true) (e : Edit) : (g.apply e).contains id = true := by
  cases hedit : g.edit e with
  | error err =>
    rw [apply_of_error hedit]
    exact h
  | ok g' =>
    rw [apply_of_ok hedit]
    cases e with
    | addNode n =>
      obtain ⟨-, hnode, -⟩ := addNode_eq_ok hedit
      rw [contains, hnode]
      split
      · rfl
      · exact h
    | addImport importer imported =>
      obtain ⟨-, -, hnode, -⟩ := addImport_eq_ok hedit
      rw [contains, hnode]
      exact h

end Graph

/-! ## Expressions -/

namespace Setup

/-- An expression selects nodes, and binds variables to sets of nodes. -/
theorem simulation_covers {g : Graph} (hg : g.Built) (strict : Bool) :
    Simulation .whole ⟨g, strict⟩ ⟨g, strict⟩ Eq (SameWith (g.contains · = true))
      (SameScopeWith (g.contains · = true)) := by
  refine .ofMembers rfl (fun _ _ => ⟨rfl, id⟩) ?_ ?_ ?_ ?_
  · rintro s _ rfl
    exact ⟨fun id hid => (Graph.mem_visible_iff.1 hid).1, rfl⟩
  · rintro text sel s _ ids - - rfl hids
    exact ⟨Sign.forall_mem_combine hids (hg.covers_find hids sel s) _, rfl⟩
  · rintro f s _ args rfl -
    rfl
  · rintro name key value s _ - - rfl
    exact Setting.alike_change (fun _ => rfl) _ _

end Setup

/-! ## Sessions -/

namespace Session

variable {σ : Session}

/-- The graph of a session has a history, and its variables hold nodes only. -/
structure Sound (σ : Session) : Prop where
  built : σ.graph.Built
  covers : ∀ name ids, σ.scope.get? name = some ids → σ.graph.Covers ids

/-- A request that binds a set binds nodes. -/
def Request.Allowed (σ : Session) : Request → Prop
  | .bind _ ids => σ.graph.Covers ids
  | .edit _ | .eval .. => True

/-- The sessions that a sequence of allowed requests leads to. -/
inductive Reachable : Session → Prop
  | start : Reachable start
  | step {σ : Session} {r : Request} (h : Reachable σ) (hr : r.Allowed σ) : Reachable (σ.step r)

theorem sound_start : start.Sound where
  built := ⟨[], rfl⟩
  covers name ids h := by
    rw [start, Scope.get?_empty] at h
    cases h

/-- Whether an expression can be evaluated or not, its result and the variables afterwards hold
nodes only. -/
theorem Sound.eval (h : σ.Sound) (strict : Bool) (s : Setting) (e : Expr) :
    (∀ ids, (σ.eval strict s e).1 = .ok ids → σ.graph.Covers ids) ∧
      ∀ name ids, (σ.eval strict s e).2.get? name = some ids → σ.graph.Covers ids := by
  have hrelates := (Setup.simulation_covers h.built strict).eval e.within_whole (rfl : s = s)
  obtain ⟨hanswer, hscope⟩ := hrelates ⟨σ.scope, []⟩ ⟨σ.scope, []⟩ ⟨h.covers, rfl⟩
  exact ⟨fun ids hok => hanswer.of_ok hok, hscope.1⟩

/-- **A request keeps a session sound**, whether it succeeds or fails. -/
theorem Sound.step (h : σ.Sound) {r : Request} (hr : r.Allowed σ) : (σ.step r).Sound := by
  cases r with
  | edit e =>
    refine ⟨h.built.apply e, fun name ids hvalue id hid => ?_⟩
    exact Graph.contains_apply (h.covers name ids hvalue id hid) e
  | bind name ids =>
    refine ⟨h.built, fun x value hvalue => ?_⟩
    rw [Session.step, Scope.get?_bind] at hvalue
    split at hvalue
    · cases hvalue
      exact hr
    · exact h.covers x value hvalue
  | eval strict s e => exact ⟨h.built, (h.eval strict s e).2⟩

theorem Reachable.sound (h : σ.Reachable) : σ.Sound := by
  induction h with
  | start => exact sound_start
  | step _ hr ih => exact ih.step hr

/-- **Results stay in the graph and are ordered.** After any sequence of requests, of which some may
have failed, every variable holds nodes of the graph only, and what an expression selects are nodes
of the graph, listed in the order of their code points, each once. -/
theorem Reachable.confined (h : σ.Reachable) :
    (∀ name ids, σ.scope.get? name = some ids → ∀ id ∈ ids, σ.graph.contains id = true) ∧
      ∀ strict s e ids, (σ.eval strict s e).1 = .ok ids →
        (∀ id ∈ ids, σ.graph.contains id = true) ∧ ids.toList.Pairwise (· < ·) := by
  refine ⟨h.sound.covers, fun strict s e ids hok => ⟨?_, ids.pairwise_toList⟩⟩
  exact (h.sound.eval strict s e).1 ids hok

/-- A session with an import that is refused, and a program that fails after its first statement. -/
def interrupted : Session :=
  [.edit (.addNode ⟨"lib", false, none⟩), .edit (.addNode ⟨"lib.test", false, some "lib"⟩),
    .edit (.addImport "lib" "tool"), .bind "q" (.ofList ["lib"]),
    .eval true ⟨false⟩ (.program [.assign "r" (.selected (.package "q") ["+test"]),
      .package "tool"])].foldl step start

theorem confined_interrupted :
    interrupted.Reachable ∧ interrupted.scope.get? "r" = some (.ofList ["lib", "lib.test"]) ∧
      ∀ id ∈ IdSet.ofList ["lib", "lib.test"], interrupted.graph.contains id = true := by
  have hreachable : interrupted.Reachable := by
    rw [interrupted]
    simp only [List.foldl_cons, List.foldl_nil]
    refine .step (.step (.step (.step (.step .start trivial) trivial) trivial) ?_) trivial
    intro id hid
    obtain rfl : id = "lib" := by simpa using hid
    decide
  have hvalue : interrupted.scope.get? "r" = some (.ofList ["lib", "lib.test"]) := by decide +kernel
  exact ⟨hreachable, hvalue, (Reachable.confined hreachable).1 _ _ hvalue⟩

end Session

end ImportQuery
