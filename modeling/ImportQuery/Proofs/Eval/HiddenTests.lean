import ImportQuery.Proofs.Eval.Simulation
import ImportQuery.Proofs.Graph.WithoutTests

/-!
# Hidden test variants have no influence

While test variants are hidden, an expression that does not ask for them denotes what it would
denote if they were not in the graph at all. There are three ways to ask for them: to name one, to
have the selector for test variants replace or extend a set, and to change the setting. Removing
them from a set is no such way, for there are none in it.

* `Fragment.testFree` : the expressions that do not ask for test variants.
* `Graph.WithoutTests.combine_eq`, `Graph.WithoutTests.apply_eq` : selectors and functions on both
  graphs.
* `Setup.evaluate_withoutTests` : expressions on both graphs.
-/

namespace ImportQuery

/-! ## Asking for test variants -/

/-- A tag that does not remove is spelled as the name alone or with a plus sign. -/
theorem Tag.text_eq {text : String} (h : (ofText text).sign ≠ .remove) :
    text = (ofText text).name ∨ text = "+" ++ (ofText text).name := by
  unfold ofText at h ⊢
  split at h
  · rename_i name htext
    right
    rw [← String.ofList_toList (s := text), htext]
    simp
  · exact absurd rfl h
  · exact .inl rfl

theorem Selector.name_of_ofName? {name : String} {sel : Selector}
    (h : Selector.ofName? name = some sel) : sel.name = name := by
  simpa using List.find?_some h

/-- The name of a call that changes a setting is the key and the value with a sign between. -/
theorem splitSetting?_eq {name key value : String} (h : splitSetting? name = some (key, value)) :
    name = key ++ "=" ++ value := by
  unfold splitSetting? at h
  split at h
  · cases h
  · rename_i c rest hdrop
    cases h
    have hhead := List.head?_dropWhile_not (· ≠ '=') name.toList
    rw [hdrop] at hhead
    obtain rfl : c = '=' := by simpa using hhead
    calc name
      _ = .ofList (name.toList.takeWhile (· ≠ '=') ++ '=' :: rest) := by
        rw [← hdrop, List.takeWhile_append_dropWhile, String.ofList_toList]
      _ = .ofList (name.toList.takeWhile (· ≠ '=')) ++ "=" ++ .ofList rest := by
        rw [List.append_cons, String.ofList_append, String.ofList_append]

/-- The expressions that do not ask for test variants of a graph. -/
def Fragment.testFree (g : Graph) : Fragment where
  word name := g.isTest name = false
  tag text := text ≠ "test" ∧ text ≠ "+test"
  op _ := True
  call name := name ≠ "test=1" ∧ name ≠ "test=true"
  target _ := True

namespace Fragment

variable {g : Graph}

/-- What such an expression does with test variants that it finds is to remove them. -/
theorem testFree_sign {text : String} (h : (testFree g).tag text)
    (hsel : Selector.ofName? (Tag.ofText text).name = some .variants) :
    (Tag.ofText text).sign = .remove := by
  by_contra hsign
  have htext := Tag.text_eq hsign
  rw [← Selector.name_of_ofName? hsel] at htext
  rcases htext with htext | htext
  · exact h.1 htext
  · exact h.2 htext

/-- No change of the settings in such an expression shows test variants. -/
theorem testFree_change {name key value : String} (h : (testFree g).call name)
    (hsplit : splitSetting? name = some (key, value)) {s t : Setting}
    (hchange : s.change key value = .ok t) : t.includeTests = false := by
  have hname := splitSetting?_eq hsplit
  unfold Setting.change at hchange
  split at hchange
  · rename_i hkey
    subst hkey
    split at hchange
    · rename_i hvalue
      rcases hvalue with rfl | rfl
      · exact absurd hname h.1
      · exact absurd hname h.2
    · split at hchange
      · cases hchange
        rfl
      · cases hchange
  · cases hchange

end Fragment

/-! ## Selectors and functions -/

namespace Graph

variable {g h : Graph} {s : Setting} {ids : IdSet} {id : String}

/-- The selector for test variants finds nothing but test variants: those in the set, and those of
its members. -/
theorem Built.mem_find_variants (hg : g.Built) : id ∈ Selector.variants.find g s ids ↔
    g.isTest id = true ∧ (id ∈ ids ∨ ∃ p ∈ ids, id ∈ g.variants p) := by
  have htest : ∀ p, id ∈ g.variants p → g.isTest id = true := by
    intro p hvariant
    obtain ⟨n, hn, hof⟩ := hg.mem_variants_iff.1 hvariant
    simp [isTest, hn, Node.isTest, hof]
  rw [Selector.find, Std.ExtTreeSet.mem_union_iff, IdSet.mem_filter, IdSet.mem_flatMap]
  constructor
  · rintro (⟨hid, h⟩ | ⟨p, hp, hvariant⟩)
    · exact ⟨h, .inl hid⟩
    · exact ⟨htest p hvariant, .inr ⟨p, hp, hvariant⟩⟩
  · rintro ⟨h, hid⟩
    exact hid.imp_left fun hid => ⟨hid, h⟩

/-- Without what the selector for test variants finds, the members that are no test variants are
left. -/
theorem Built.diff_find_variants (hg : g.Built) :
    ids \ Selector.variants.find g s ids = ids.filter (!g.isTest ·) := by
  refine Std.ExtTreeSet.ext_mem fun id => ?_
  rw [Std.ExtTreeSet.mem_diff_iff, IdSet.mem_filter, hg.mem_find_variants, Bool.not_eq_true',
    ← Bool.not_eq_true]
  refine and_congr_right fun hid => not_congr ?_
  exact and_iff_left (.inl hid)

/-- There are no test variants to remove from a set that has none. -/
theorem Built.diff_find_variants_eq_self (hg : g.Built) (hids : ∀ id ∈ ids, g.isTest id = false) :
    ids \ Selector.variants.find g s ids = ids := by
  refine hg.diff_find_variants.trans (Std.ExtTreeSet.ext_mem fun id => ?_)
  rw [IdSet.mem_filter, and_iff_left_iff_imp, Bool.not_eq_true']
  exact hids id

namespace WithoutTests

variable (hdel : g.WithoutTests h) (hs : s.includeTests = false)
include hdel hs

/-- What is looked up in an index, and then filtered, is the same in both graphs if the visible
packages in it are. -/
theorem filter_flatMap_eq {look look' : String → IdSet}
    (hlook : ∀ x ∈ ids, ∀ y, g.isVisible s y = true → (y ∈ look x ↔ y ∈ look' x)) :
    SameWith (g.isTest · = false) ((ids.flatMap look).filter (g.isVisible s))
      ((ids.flatMap look').filter (h.isVisible s)) := by
  refine ⟨fun y hy => isTest_of_isVisible hs (IdSet.mem_filter.1 hy).2, ?_⟩
  refine Std.ExtTreeSet.ext_mem fun y => ?_
  simp only [IdSet.mem_filter, IdSet.mem_flatMap, hdel.isVisible_eq hs]
  exact and_congr_left fun hv => exists_congr fun x => and_congr_right fun hx => hlook x hx y hv

variable (hg : g.Built)
include hg

/-- The other selectors find the same in both graphs, and no test variants. -/
theorem find_eq (hids : ∀ id ∈ ids, g.isTest id = false) {sel : Selector} (hsel : sel ≠ .variants) :
    SameWith (g.isTest · = false) (sel.find g s ids) (sel.find h s ids) := by
  cases sel with
  | closure =>
    refine ⟨fun id hid => ?_, ?_⟩
    · rcases Std.ExtTreeSet.mem_union_iff.1 hid with hid | hid
      · exact hids id hid
      · exact isTest_of_isVisible hs (mem_visible_iff.1 (mem_visible_of_mem_dependencies hid)).2
    · rw [Selector.find, Selector.find, hdel.dependencies_eq hs hg hids]
  | imports =>
    refine hdel.filter_flatMap_eq hs fun x hx y hv => ?_
    exact (hdel.mem_imports_iff (hids x hx) (isTest_of_isVisible hs hv)).symm
  | importers =>
    refine hdel.filter_flatMap_eq hs fun x hx y hv => ?_
    exact (hdel.mem_importers_iff hs hg (hids x hx) hv).symm
  | executables =>
    refine ⟨fun id hid => hids id (IdSet.mem_filter.1 hid).1, IdSet.filter_congr fun id hid => ?_⟩
    rw [isExecutable, isExecutable, hdel.node?_eq (hids id hid)]
  | sources =>
    refine ⟨fun id hid => hids id (IdSet.mem_filter.1 hid).1, IdSet.filter_congr fun id hid => ?_⟩
    rw [Bool.not_inj_iff, Bool.eq_iff_iff, IdSet.any_iff, IdSet.any_iff]
    refine exists_congr fun x => ?_
    rw [hdel.isVisible_eq hs]
    exact and_congr_left fun hv => (hdel.mem_importers_iff hs hg (hids id hid) hv).symm
  | variants => exact absurd rfl hsel

/-- What a tag makes of a set is the same in both graphs, and has no test variants. -/
theorem combine_eq (hids : ∀ id ∈ ids, g.isTest id = false) {text : String} {sel : Selector}
    (htag : (Fragment.testFree g).tag text)
    (hsel : Selector.ofName? (Tag.ofText text).name = some sel) :
    SameWith (g.isTest · = false) ((Tag.ofText text).sign.combine ids (sel.find g s ids))
      ((Tag.ofText text).sign.combine ids (sel.find h s ids)) := by
  by_cases hvariants : sel = .variants
  · subst hvariants
    rw [Fragment.testFree_sign htag hsel, Sign.combine, Sign.combine,
      hg.diff_find_variants_eq_self hids,
      hdel.built.diff_find_variants_eq_self fun id _ => hdel.isTest_eq id]
    exact ⟨hids, rfl⟩
  · obtain ⟨hfound, heq⟩ := hdel.find_eq hs hg hids hvariants
    rw [← heq]
    exact ⟨Sign.forall_mem_combine hids hfound _, rfl⟩

/-- What a function selects is the same in both graphs. -/
theorem apply_eq (f : GraphFunction) {args : List IdSet}
    (hargs : ∀ ids ∈ args, ∀ id ∈ ids, g.isTest id = false) :
    f.apply g s args = f.apply h s args := by
  unfold GraphFunction.apply
  split
  · rfl
  · simp only [List.forall_mem_cons] at hargs
    exact (hdel.reaching_eq hs hg hargs.1 hargs.2.1).symm
  · simp only [List.forall_mem_cons] at hargs
    refine IdSet.filter_congr fun id hid => ?_
    rw [Bool.eq_iff_iff, IdSet.any_iff, IdSet.any_iff]
    refine exists_congr fun x => and_congr_left fun hx => ?_
    have htarget := hargs.2.1 x (Std.ExtTreeSet.contains_iff_mem.1 hx)
    exact (hdel.mem_imports_iff (hargs.1 id hid) htarget).symm
  · simp only [List.forall_mem_cons] at hargs
    exact (hdel.dependencies_eq hs hg hargs.1).symm
  · rfl
  · rfl
  · rfl

end WithoutTests

end Graph

/-! ## Expressions -/

namespace Setup

open ImportQuery.Graph

variable {g h : Graph}

/-- On a graph with hidden test variants and on the graph without them, an expression that does not
ask for them selects the same, and binds variables to the same. -/
theorem simulation_withoutTests (hg : g.Built) (hdel : g.WithoutTests h) (strict : Bool) :
    Simulation (.testFree g) ⟨g, strict⟩ ⟨h, strict⟩
      (fun s s' => s = s' ∧ s.includeTests = false) (SameWith (g.isTest · = false))
      (SameScopeWith (g.isTest · = false)) := by
  refine .ofMembers rfl ?_ ?_ ?_ ?_ ?_
  · intro name hname
    exact ⟨(hdel.contains_eq hname).symm, fun _ => hname⟩
  · rintro s _ ⟨rfl, hs⟩
    refine ⟨fun id hid => ?_, (hdel.visible_eq hs).symm⟩
    exact isTest_of_isVisible hs (mem_visible_iff.1 hid).2
  · rintro text sel s _ ids htag hsel ⟨rfl, hs⟩ hids
    exact hdel.combine_eq hs hg hids htag hsel
  · rintro f s _ args ⟨rfl, hs⟩ hargs
    exact hdel.apply_eq hs hg f hargs
  · rintro name key value s _ hname hsplit ⟨rfl, -⟩
    cases hchange : s.change key value with
    | ok t => exact .ok ⟨rfl, Fragment.testFree_change hname hsplit hchange⟩
    | error e => exact .error e

/-- **Hidden test variants have no influence.** Every graph can be made without its test variants,
and then an expression that does not ask for them gives the same result, or the same error. -/
theorem evaluate_withoutTests (hg : g.Built) : (∃ h, g.WithoutTests h) ∧
    ∀ h, g.WithoutTests h → ∀ e : Expr, e.Within (.testFree g) → ∀ strict,
      (evaluate ⟨g, strict⟩ ⟨false⟩ e).1 = (evaluate ⟨h, strict⟩ ⟨false⟩ e).1 := by
  refine ⟨hg.exists_withoutTests, fun h hdel e he strict => ?_⟩
  have hsim := simulation_withoutTests hg hdel strict
  exact (hsim.eval he ⟨rfl, rfl⟩ ⟨.empty, []⟩ ⟨.empty, []⟩ sameScopeWith_empty).1.eq

/-- The tool and the package that it imports. -/
def untestedPackage : Graph :=
  .ofEdits [.addNode ⟨"lib", false, none⟩, .addNode ⟨"tool", true, none⟩, .addImport "tool" "lib"]

theorem untestedPackage_records : untestedPackage.Records [.addNode ⟨"lib", false, none⟩,
    .addNode ⟨"tool", true, none⟩, .addImport "tool" "lib"] := records_ofEdits _

theorem testedPackage_records : testedPackage.Records [.addNode ⟨"lib", false, none⟩,
    .addNode ⟨"lib.test", false, some "lib"⟩, .addNode ⟨"tool", true, none⟩,
    .addImport "lib.test" "lib", .addImport "tool" "lib", .addImport "tool" "lib.test"] :=
  records_ofEdits _

theorem testedPackage_withoutTests : testedPackage.WithoutTests untestedPackage where
  built := ⟨_, rfl⟩
  node id := by
    rw [untestedPackage_records.node?_eq_find?, testedPackage_records.node?_eq_find?]
    by_cases hid : "lib" = id ∨ "lib.test" = id ∨ "tool" = id
    · rcases hid with rfl | rfl | rfl <;> decide
    · simp only [not_or] at hid
      simp [Edit.nodes, hid]
  imports x y := by
    rw [untestedPackage_records.imports, testedPackage_records.imports]
    simp only [List.mem_cons, Edit.addImport.injEq, reduceCtorEq, List.not_mem_nil, or_false,
      false_or]
    constructor
    · rintro ⟨rfl, rfl⟩
      decide
    · rintro ⟨⟨rfl, rfl⟩ | ⟨rfl, rfl⟩ | ⟨rfl, rfl⟩, hx, hy⟩
      · cases hx
      · exact ⟨rfl, rfl⟩
      · cases hy

/-- What the tools import, where tests are hidden once more and then removed. -/
def toolQuery : Expr :=
  .program [.assign "tools" (.selected (.package "...") ["main"]),
    .call "test=0" [.selected (.package "tools") ["all", "-test"]]]

theorem evaluate_withoutTests_tool :
    (evaluate ⟨testedPackage, true⟩ ⟨false⟩ toolQuery).1 = .ok (.ofList ["lib", "tool"]) ∧
      (evaluate ⟨untestedPackage, true⟩ ⟨false⟩ toolQuery).1 = .ok (.ofList ["lib", "tool"]) := by
  have hquery : toolQuery.Within (.testFree testedPackage) := by
    refine .program (List.forall_mem_cons.2 ⟨?_, List.forall_mem_singleton.2 ?_⟩)
    · have hword : testedPackage.isTest "..." = false := by decide
      have htags : ∀ tag ∈ ["main"], tag ≠ "test" ∧ tag ≠ "+test" := by decide
      exact .assign trivial (.selected (.package hword) htags)
    · have hword : testedPackage.isTest "tools" = false := by decide
      have htags : ∀ tag ∈ ["all", "-test"], tag ≠ "test" ∧ tag ≠ "+test" := by decide
      have hcall : "test=0" ≠ "test=1" ∧ "test=0" ≠ "test=true" := by decide
      exact .call hcall (List.forall_mem_singleton.2 (.selected (.package hword) htags))
  have hvalue : (evaluate ⟨testedPackage, true⟩ ⟨false⟩ toolQuery).1 =
      .ok (.ofList ["lib", "tool"]) := by decide +kernel
  refine ⟨hvalue, ?_⟩
  rw [← (evaluate_withoutTests ⟨_, rfl⟩).2 _ testedPackage_withoutTests _ hquery true]
  exact hvalue

end Setup

end ImportQuery
