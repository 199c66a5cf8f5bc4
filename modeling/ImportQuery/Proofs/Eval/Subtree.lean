import ImportQuery.Graph.Document
import ImportQuery.Proofs.Eval.Simulation
import ImportQuery.Proofs.Graph.Pattern

/-!
# Queries for subtrees

With test variants shown, `p/...` is meant to select the package `p` and all packages below it. It
does so unless there is a line break in what an identifier has behind `p/`: such an identifier can
be read from a document, but a gap does not reach over the end of a line.

* `Graph.subtree` : a package and the packages below it.
* `Setup.evaluate_subtree` : what `p/...` selects, and when it is the whole subtree.
* `Setup.evaluate_subtree_ne_lineBreak` : a document for which it is not.
-/

namespace ImportQuery

namespace Graph

variable {g : Graph} {p id : String}

/-- The package `p`, if there is one, and the packages whose identifiers begin with `p/`. -/
def subtree (g : Graph) (p : String) : IdSet :=
  g.ids.filter fun id => id = p || (p ++ "/").toList.isPrefixOf id.toList

theorem mem_subtree_iff : id ∈ g.subtree p ↔
    g.contains id = true ∧ (id = p ∨ ∃ rest, id = p ++ "/" ++ rest) := by
  have hprefix : (p ++ "/").toList <+: id.toList ↔ ∃ rest, id = p ++ "/" ++ rest := by
    constructor
    · rintro ⟨rest, hrest⟩
      exact ⟨.ofList rest, String.toList_inj.1 (by simpa using hrest.symm)⟩
    · rintro ⟨rest, rfl⟩
      exact ⟨rest.toList, String.toList_append.symm⟩
  rw [subtree, IdSet.mem_filter, mem_ids_iff, Bool.or_eq_true, decide_eq_true_eq,
    List.isPrefixOf_iff_prefix, hprefix]

end Graph

namespace Setup

/-- A pattern selects the visible packages that fit it. -/
theorem evaluate_pattern (u : Setup) (s : Setting) {name : String}
    (h : (Pattern.ofText name).isLiteral = false) :
    (u.evaluate s (.package name)).1 =
      .ok ((u.graph.visible s).filter (Pattern.ofText name).accepts) := by
  have hrun := u.run_resolve s name ⟨.empty, []⟩
  rw [Scope.get?_empty] at hrun
  simp only [h, Bool.false_eq_true, if_false] at hrun
  simp only [evaluate, eval, hrun]

/-- What `p/...` selects is the subtree of `p` exactly if there is no line break behind `p/`. -/
theorem eq_subtree_iff {g : Graph} {p : String} {ids : IdSet}
    (h : ∀ id, id ∈ ids ↔ g.contains id = true ∧
      (id = p ∨ ∃ rest, id = p ++ "/" ++ rest ∧ '\n' ∉ rest.toList)) :
    ids = g.subtree p ↔ ∀ rest, g.contains (p ++ "/" ++ rest) = true → '\n' ∉ rest.toList := by
  constructor
  · rintro rfl rest hcontains
    obtain ⟨-, hself | ⟨rest', hid, hline⟩⟩ :=
      (h _).1 (Graph.mem_subtree_iff.2 ⟨hcontains, .inr ⟨rest, rfl⟩⟩)
    · have hlength : p.length + "/".length + rest.length = p.length := by
        simpa using congrArg String.length hself
      have hslash : "/".length = 1 := rfl
      omega
    · rwa [(String.append_right_inj _).1 hid]
  · intro hline
    refine Std.ExtTreeSet.ext_mem fun id => ?_
    rw [h, Graph.mem_subtree_iff]
    refine and_congr_right fun hcontains => or_congr_right ⟨?_, ?_⟩
    · rintro ⟨rest, hid, -⟩
      exact ⟨rest, hid⟩
    · rintro ⟨rest, rfl⟩
      exact ⟨rest, rfl, hline rest hcontains⟩

/-- **What a query for a subtree selects.** If there is no gap in `p`, then `p/...` selects with
test variants shown the package `p` and the packages that continue `p/` on the same line. This is
the whole subtree exactly if no identifier has a line break behind `p/`. -/
theorem evaluate_subtree (g : Graph) (strict : Bool) {p : String}
    (hp : ¬ Pattern.gap <:+: p.toList) :
    ∃ ids, (evaluate ⟨g, strict⟩ ⟨true⟩ (.package (p ++ "/..."))).1 = .ok ids ∧
      (∀ id, id ∈ ids ↔ g.contains id = true ∧
        (id = p ∨ ∃ rest, id = p ++ "/" ++ rest ∧ '\n' ∉ rest.toList)) ∧
      (ids = g.subtree p ↔
        ∀ rest, g.contains (p ++ "/" ++ rest) = true → '\n' ∉ rest.toList) := by
  have hliteral : (Pattern.ofText (p ++ "/...")).isLiteral = false := by
    rw [Pattern.ofText_subtree hp]
    rfl
  have hmem : ∀ id, id ∈ (g.visible ⟨true⟩).filter (Pattern.ofText (p ++ "/...")).accepts ↔
      g.contains id = true ∧
        (id = p ∨ ∃ rest, id = p ++ "/" ++ rest ∧ '\n' ∉ rest.toList) := by
    intro id
    have hvisible : g.isVisible ⟨true⟩ id = true := rfl
    rw [IdSet.mem_filter, Graph.mem_visible_iff, Pattern.accepts_subtree_iff hp,
      and_iff_left hvisible]
  exact ⟨_, evaluate_pattern _ _ hliteral, hmem, eq_subtree_iff hmem⟩

/-- The package `..`, its test variant, which lies below it, and a package beside it. -/
def dottedPackages : Graph :=
  .ofEdits [.addNode ⟨"..", false, none⟩, .addNode ⟨"../a b", false, some ".."⟩,
    .addNode ⟨"..-", false, none⟩]

/-- The dots before the slash make no gap together with those behind it. -/
theorem evaluate_subtree_dotted :
    ¬ Pattern.gap <:+: "..".toList ∧
    (∀ rest, dottedPackages.contains (".." ++ "/" ++ rest) = true → '\n' ∉ rest.toList) ∧
    (evaluate ⟨dottedPackages, true⟩ ⟨true⟩ (.package (".." ++ "/..."))).1 =
      .ok (.ofList ["..", "../a b"]) := by
  have hgap : ¬ Pattern.gap <:+: "..".toList := by decide
  have hlines : ∀ id ∈ dottedPackages.ids.toList, '\n' ∉ id.toList := by decide +kernel
  have hbelow : ∀ rest, dottedPackages.contains (".." ++ "/" ++ rest) = true →
      '\n' ∉ rest.toList := by
    intro rest hcontains hbreak
    refine hlines _ (Std.ExtTreeSet.mem_toList.2 (Graph.mem_ids_iff.2 hcontains)) ?_
    rw [String.toList_append]
    exact List.mem_append_right _ hbreak
  obtain ⟨ids, hresult, -, hsubtree⟩ := evaluate_subtree dottedPackages true hgap
  refine ⟨hgap, hbelow, ?_⟩
  rw [hresult, hsubtree.2 hbelow]
  decide +kernel

/-- A document with a package whose identifier has two lines. -/
def lineBreakDocument : Json :=
  .object [("nodes",
    .array [.object [("id", .string "lib")], .object [("id", .string "lib/a\nb")]])]

/-- The package below `lib` is not found. -/
theorem evaluate_subtree_ne_lineBreak :
    ¬ Pattern.gap <:+: "lib".toList ∧
    ∃ g, Graph.ofJson lineBreakDocument = .ok g ∧
      (evaluate ⟨g, true⟩ ⟨true⟩ (.package ("lib" ++ "/..."))).1 ≠ .ok (g.subtree "lib") := by
  refine ⟨by decide, ?_⟩
  have hne : (Graph.ofJson lineBreakDocument).toOption.any (fun g =>
      (evaluate ⟨g, true⟩ ⟨true⟩ (.package ("lib" ++ "/..."))).1 ≠ .ok (g.subtree "lib")) := by
    decide +kernel
  cases h : Graph.ofJson lineBreakDocument with
  | ok g =>
    rw [h] at hne
    exact ⟨g, rfl, of_decide_eq_true hne⟩
  | error err =>
    rw [h] at hne
    cases hne

end Setup

end ImportQuery
