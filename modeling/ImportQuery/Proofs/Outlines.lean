import ImportQuery.Expr.Render
import ImportQuery.Proofs.Expr.Height
import ImportQuery.Proofs.Text.Lines
import ImportQuery.Proofs.TreeShape

/-!
# Outlines show everything

The outline of an expression is a list of lines with levels: every node has a line, and the lines of
the nodes below it come next and are at deeper levels. So the levels alone say how the nodes are put
together, whatever numbers of children they have, and an outline can be read back from its end: a
line takes for its children what stands deeper behind it. In the text of an outline the levels are
white space and the lines end in line feeds, of which there are none in the names and tags of a
query; nor is there a colon in a tag.

* `Expr.forest_induction` : induction over the nodes in the order of their lines.
* `Expr.foldr_plant_outlines` : reading lines back.
* `Expr.readTree_tree` : reading the text back.
* `tree_faithful` : the outlines of queries.
-/

namespace ImportQuery

namespace Expr

/-! ## Forests -/

/-- Induction over forests: over the trees right below the root of the first tree, and over the
trees beside it. -/
@[elab_as_elim]
theorem forest_induction {motive : List Expr → Prop} (nil : motive [])
    (cons : ∀ e es, motive e.children → motive es → motive (e :: es)) (es : List Expr) :
    motive es := by
  induction hn : sizes es using Nat.strongRecOn generalizing es with
  | _ n ih =>
    cases es with
    | nil => exact nil
    | cons e es =>
      rw [sizes, size_eq] at hn
      exact cons e es (ih _ (by omega) _ rfl) (ih _ (by omega) _ rfl)

theorem outline_eq (n : Nat) (e : Expr) :
    outline n e = ⟨n, e.label⟩ :: outlines (n + 1) e.children := by
  cases e <;> simp [outline, outlines, children]

theorem outlines_cons (n : Nat) (e : Expr) (es : List Expr) :
    outlines n (e :: es) = ⟨n, e.label⟩ :: (outlines (n + 1) e.children ++ outlines n es) := by
  rw [outlines, outline_eq, List.cons_append]

theorem outlines_singleton (n : Nat) (e : Expr) : outlines n [e] = outline n e := by
  rw [outlines, outlines, List.append_nil]

variable {e a : Expr} {es : List Expr} {n : Nat} {l : OutlineLine}

/-- There is a line for every node. -/
theorem length_outlines (n : Nat) (es : List Expr) : (outlines n es).length = sizes es := by
  induction es using forest_induction generalizing n with
  | nil => rfl
  | cons e es ihchildren ih =>
    rw [outlines_cons, List.length_cons, List.length_append, ihchildren, ih, sizes, size_eq]
    omega

theorem level_of_mem_outlines (h : l ∈ outlines n es) : l.level + 1 ≤ n + mostLevels es := by
  induction es using forest_induction generalizing n with
  | nil => cases h
  | cons e es ihchildren ih =>
    rw [outlines_cons, List.mem_cons, List.mem_append] at h
    rw [mostLevels, levels_eq]
    rcases h with rfl | h | h
    · dsimp only
      omega
    · have hbelow := ihchildren h
      omega
    · have hbeside := ih h
      omega

/-- One of the lines is as deep as the trees are high. -/
theorem exists_mem_outlines (hes : es ≠ []) (n : Nat) :
    ∃ l ∈ outlines n es, l.level + 1 = n + mostLevels es := by
  induction es using forest_induction generalizing n with
  | nil => exact absurd rfl hes
  | cons e es ihchildren ih =>
    rw [outlines_cons, mostLevels, levels_eq]
    by_cases hbeside : mostLevels e.children + 1 ≤ mostLevels es
    · have hne : es ≠ [] := by
        rintro rfl
        exact absurd hbeside (Nat.not_succ_le_zero _)
      obtain ⟨l, hl, hlevel⟩ := ih hne n
      exact ⟨l, List.mem_cons_of_mem _ (List.mem_append_right _ hl), by omega⟩
    · by_cases hleaf : e.children = []
      · refine ⟨_, List.mem_cons_self, ?_⟩
        rw [hleaf] at hbeside ⊢
        simp only [mostLevels] at hbeside ⊢
        omega
      · obtain ⟨l, hl, hlevel⟩ := ihchildren hleaf (n + 1)
        exact ⟨l, List.mem_cons_of_mem _ (List.mem_append_left _ hl), by omega⟩

theorem occurs_of_mem_children {b : Expr} (hb : b ∈ e.children) (h : b.Occurs a) : e.Occurs a := by
  induction h with
  | root => exact .child .root hb
  | child _ hmem ih => exact .child ih hmem

/-- Every line is that of a node. -/
theorem exists_of_mem_outlines (h : l ∈ outlines n es) :
    ∃ e ∈ es, ∃ a, e.Occurs a ∧ l.label = a.label := by
  induction es using forest_induction generalizing n with
  | nil => cases h
  | cons e es ihchildren ih =>
    rw [outlines_cons, List.mem_cons, List.mem_append] at h
    rcases h with rfl | h | h
    · exact ⟨e, List.mem_cons_self, e, .root, rfl⟩
    · obtain ⟨b, hb, a, ha, hlabel⟩ := ihchildren h
      exact ⟨e, List.mem_cons_self, a, occurs_of_mem_children hb ha, hlabel⟩
    · obtain ⟨b, hb, hlabel⟩ := ih h
      exact ⟨b, List.mem_cons_of_mem _ hb, hlabel⟩

/-! ## Labels -/

/-- The names and tags of a node can be told from what stands around them in an outline. -/
def HasClearLabel : Expr → Prop
  | package name | call name _ | assign name _ => '\n' ∉ name.toList
  | selected _ tags => ∀ tag ∈ tags, '\n' ∉ tag.toList ∧ ':' ∉ tag.toList
  | binary .. | program _ => True

/-- The labels of all nodes of the tree are clear. -/
def IsClear (e : Expr) : Prop := ∀ a, e.Occurs a → a.HasClearLabel

theorem IsClear.of_mem_children (h : e.IsClear) (ha : a ∈ e.children) : a.IsClear :=
  fun b hb => h b (occurs_of_mem_children ha hb)

/-- The node that a label says, with trees below it as far as it has any. -/
def ofLabel? (label : String) (below : List Expr) : Option Expr :=
  let keyword := String.ofList (label.toList.takeWhile (· != ' '))
  let detail := (label.toList.dropWhile (· != ' ')).tail
  match keyword with
  | "Package" => return package (.ofList detail)
  | "Selected" => return selected (← below[0]?) ((detail.splitOn ':').tail.map .ofList)
  | "Union" => return binary .union (← below[0]?) (← below[1]?)
  | "Difference" => return binary .difference (← below[0]?) (← below[1]?)
  | "List" => return call "" below
  | "Call" => return call (.ofList detail) below
  | "Assign" => return assign (.ofList detail) (← below[0]?)
  | "Program" => return program below
  | _ => none

theorem toList_join_tags (tags : List String) :
    (String.join (tags.map (":" ++ ·))).toList = tags.flatMap (':' :: ·.toList) := by
  simp [String.toList_join, List.flatMap_map]

/-- A chain of tags is taken apart at its colons. -/
theorem splitOn_tags {tags : List String} (h : ∀ tag ∈ tags, ':' ∉ tag.toList) {cs : List Char}
    (hcs : ':' ∉ cs) : (cs ++ tags.flatMap (':' :: ·.toList)).splitOn ':' =
      cs :: tags.map String.toList := by
  induction tags generalizing cs with
  | nil => simpa using List.splitOn_eq_singleton hcs
  | cons tag tags ih =>
    obtain ⟨htag, htags⟩ := List.forall_mem_cons.1 h
    rw [List.flatMap_cons, List.cons_append, List.splitOn_append_cons_self_of_not_mem hcs,
      ih htags htag, List.map_cons]

theorem label_call {name : String} (hname : name ≠ "") (args : List Expr) :
    label (call name args) = "Call " ++ name := by
  simp [label]

theorem ofLabel?_label (h : e.HasClearLabel) : ofLabel? e.label e.children = some e := by
  cases e with
  | package name => simp [ofLabel?, label]
  | selected base tags =>
    have hsplit := splitOn_tags (fun tag htag => (h tag htag).2) (List.not_mem_nil (a := ':'))
    rw [List.nil_append, ← toList_join_tags, String.toList_join] at hsplit
    simp [ofLabel?, label, children, hsplit]
  | binary op left right => cases op <;> simp [ofLabel?, label, children]
  | call name args =>
    by_cases hname : name = ""
    · subst hname
      simp [ofLabel?, label, children]
    · simp [ofLabel?, label_call hname, children]
  | assign name value => simp [ofLabel?, label, children]
  | program statements => simp [ofLabel?, label, children]

theorem not_mem_label (h : e.HasClearLabel) : '\n' ∉ e.label.toList := by
  cases e with
  | package name | assign name =>
    have hname : '\n' ∉ name.toList := h
    simpa [label] using hname
  | selected base tags =>
    have htags : ∀ tag ∈ tags, '\n' ∉ tag.toList := fun tag htag => (h tag htag).1
    simpa [label, toList_join_tags] using htags
  | binary op left right => cases op <;> simp [label]
  | call name args =>
    by_cases hempty : name = ""
    · subst hempty
      simp [label]
    · have hname : '\n' ∉ name.toList := h
      simpa [label_call hempty] using hname
  | program statements => simp [label]

theorem head?_label (e : Expr) : e.label.toList.head? ≠ some ' ' := by
  cases e with
  | binary op left right => cases op <;> simp [label]
  | call name args =>
    by_cases hname : name = ""
    · subst hname
      simp [label]
    · simp [label_call hname]
  | package | selected | assign | program => simp [label]

/-! ## Reading lines back -/

/-- A line in front of trees at their levels: the first of these, as far as they are deeper, come to
stand below the node that the line shows. A line that shows no node is passed over. -/
def plant (l : OutlineLine) (forest : List (Nat × Expr)) : List (Nat × Expr) :=
  match ofLabel? l.label ((forest.takeWhile (l.level < ·.1)).map (·.2)) with
  | some e => (l.level, e) :: forest.dropWhile (l.level < ·.1)
  | none => forest

theorem plant_label (h : e.HasClearLabel) {forest : List (Nat × Expr)}
    (hforest : ∀ t ∈ forest.head?, t.1 ≤ n) :
    plant ⟨n, e.label⟩ (e.children.map (n + 1, ·) ++ forest) = (n, e) :: forest := by
  have hbelow : ∀ t ∈ e.children.map (n + 1, ·), decide (n < t.1) = true := by simp
  have hbeside : forest.takeWhile (n < ·.1) = [] ∧ forest.dropWhile (n < ·.1) = forest := by
    cases forest with
    | nil => exact ⟨rfl, rfl⟩
    | cons t forest =>
      have ht : t.1 ≤ n := hforest t rfl
      simp [Nat.not_lt.2 ht]
  have hchildren : (e.children.map (n + 1, ·)).map (·.2) = e.children := by
    rw [List.map_map]
    exact List.map_id _
  rw [plant]
  simp only [List.takeWhile_append_of_pos hbelow, List.dropWhile_append_of_pos hbelow, hbeside,
    List.append_nil, hchildren, ofLabel?_label h]

/-- **Lines are read back to the trees that they show**, with whatever stands behind them at their
level or above it. -/
theorem foldr_plant_outlines (hes : ∀ e ∈ es, e.IsClear) {forest : List (Nat × Expr)}
    (hforest : ∀ t ∈ forest.head?, t.1 ≤ n) :
    (outlines n es).foldr plant forest = es.map (n, ·) ++ forest := by
  induction es using forest_induction generalizing n forest with
  | nil => rfl
  | cons e es ihchildren ih =>
    obtain ⟨he, hes⟩ := List.forall_mem_cons.1 hes
    have hbeside : ∀ t ∈ (es.map (n, ·) ++ forest).head?, t.1 ≤ n := by
      cases es with
      | nil => exact hforest
      | cons => simp
    rw [outlines_cons, List.foldr_cons, List.foldr_append, ih hes hforest,
      ihchildren (fun b hb => he.of_mem_children hb) fun t ht => Nat.le_succ_of_le (hbeside t ht),
      plant_label (he e .root) hbeside, List.map_cons, List.cons_append]

/-! ## The text of an outline -/

/-- The characters of a line, without its end. -/
def OutlineLine.chars (l : OutlineLine) : List Char :=
  List.replicate (2 * l.level) ' ' ++ l.label.toList

/-- The number of spaces that a line begins with. -/
def indentation (cs : List Char) : Nat := (cs.takeWhile (· == ' ')).length

/-- The line of an outline that consists of the characters. -/
def OutlineLine.ofChars (cs : List Char) : OutlineLine :=
  ⟨indentation cs / 2, .ofList (cs.dropWhile (· == ' '))⟩

theorem OutlineLine.toList_text (l : OutlineLine) : l.text.toList = l.chars ++ ['\n'] := by
  have hindent : (String.join (List.replicate l.level "  ")).toList =
      List.replicate (2 * l.level) ' ' := by
    generalize l.level = n
    induction n with
    | zero => rfl
    | succ n ih =>
      rw [List.replicate_succ, String.join_cons, String.toList_append, ih]
      rfl
  rw [text, String.toList_append, String.toList_append, hindent]
  rfl

theorem takeWhile_chars (h : l.label.toList.head? ≠ some ' ') :
    l.chars.takeWhile (· == ' ') = List.replicate (2 * l.level) ' ' ∧
      l.chars.dropWhile (· == ' ') = l.label.toList := by
  have hspaces : ∀ c ∈ List.replicate (2 * l.level) ' ', (c == ' ') = true := by simp
  rw [OutlineLine.chars, List.takeWhile_append_of_pos hspaces, List.dropWhile_append_of_pos hspaces]
  cases hlabel : l.label.toList with
  | nil => simp
  | cons c cs =>
    have hc : c ≠ ' ' := by simpa [hlabel] using h
    simp [hc]

theorem indentation_chars (h : l.label.toList.head? ≠ some ' ') :
    indentation l.chars = 2 * l.level := by
  rw [indentation, (takeWhile_chars h).1, List.length_replicate]

theorem OutlineLine.ofChars_chars (h : l.label.toList.head? ≠ some ' ') :
    ofChars l.chars = l := by
  rw [ofChars, indentation_chars h, (takeWhile_chars h).2, String.ofList_toList,
    Nat.mul_div_cancel_left _ Nat.two_pos]

theorem toList_tree (e : Expr) :
    e.tree.toList = ((outline 0 e).map OutlineLine.chars).flatMap (· ++ ['\n']) := by
  simp only [tree, String.toList_join, List.flatMap_map, OutlineLine.toList_text]

theorem head?_label_of_mem (h : l ∈ outline n e) : l.label.toList.head? ≠ some ' ' := by
  rw [← outlines_singleton] at h
  obtain ⟨-, -, a, -, hlabel⟩ := exists_of_mem_outlines h
  rw [hlabel]
  exact a.head?_label

/-- The lines of the text are the lines of the outline. -/
theorem lines_tree (h : e.IsClear) :
    Text.lines e.tree.toList = (outline 0 e).map OutlineLine.chars ++ [[]] := by
  rw [toList_tree, Text.lines_flatMap]
  refine List.forall_mem_map.2 fun l hl => ?_
  rw [← outlines_singleton] at hl
  obtain ⟨b, hb, a, ha, hlabel⟩ := exists_of_mem_outlines hl
  obtain rfl := List.mem_singleton.1 hb
  simpa [OutlineLine.chars, hlabel] using not_mem_label (h a ha)

/-- The trees that a text shows, with their levels. -/
def readTree (text : String) : List (Nat × Expr) :=
  ((Text.lines text.toList).dropLast.map OutlineLine.ofChars).foldr plant []

/-- **The text of an outline is read back to the expression.** -/
theorem readTree_tree (h : e.IsClear) : readTree e.tree = [(0, e)] := by
  have hlines : ((outline 0 e).map OutlineLine.chars).map OutlineLine.ofChars = outline 0 e := by
    rw [List.map_map]
    refine (List.map_congr_left fun l hl => ?_).trans (List.map_id _)
    exact OutlineLine.ofChars_chars (head?_label_of_mem hl)
  rw [readTree, lines_tree h, List.dropLast_concat, hlines, ← outlines_singleton,
    foldr_plant_outlines (List.forall_mem_singleton.2 h) (by simp)]
  rfl

/-! ## Queries -/

theorem break_not_mem_name {name : String} (h : Token.IsName name) : '\n' ∉ name.toList := by
  intro hmem
  exact absurd (h.apart _ hmem).1 (by decide)

/-- In a tag there are only signs and the characters of words. -/
theorem not_mem_tag {tag : String} (h : Token.IsSignedName tag) {c : Char}
    (hc : Token.isWordChar c = false) (hsigns : c ∉ ['+', '-']) : c ∉ tag.toList := by
  obtain ⟨sign, name, htag, hsign, -, hname⟩ := h
  rw [htag, List.mem_append]
  rintro (hmem | hmem)
  · refine hsigns ?_
    simp only [List.mem_cons, List.not_mem_nil, or_false] at hsign
    rcases hsign with rfl | rfl | rfl
    · cases hmem
    · exact List.mem_cons.2 (.inl (List.mem_singleton.1 hmem))
    · exact List.mem_cons_of_mem _ hmem
  · rw [hname c hmem] at hc
    cases hc

/-- The names and tags of queries are clear. -/
theorem Sound.isClear (h : e.Sound) : e.IsClear := by
  intro a ha
  cases a with
  | package name => exact break_not_mem_name (h.packages name ha)
  | selected base tags =>
    intro tag htag
    have hsigned := (h.tags base tags ha).2 tag htag
    exact ⟨not_mem_tag hsigned (by decide +kernel) (by decide),
      not_mem_tag hsigned (by decide +kernel) (by decide)⟩
  | binary | program => exact trivial
  | call name args =>
    by_cases hempty : name = ""
    · subst hempty
      exact List.not_mem_nil
    · exact break_not_mem_name (h.functions name args ha hempty)
  | assign name value => exact break_not_mem_name (h.bound name value ha)

end Expr

open ImportQuery.Expr

/-- **The outline of a query shows its tree.** There is a line for every node, and the deepest line
is indented by two spaces for every level of the tree below the root. No two trees of queries have
the same outline, not even if they differ only in how a chain of selectors is put together. -/
theorem tree_faithful {query : String} {e : Expr} (h : compile query = .ok (some e)) :
    (∃ ls, Text.lines e.tree.toList = ls ++ [[]] ∧ ls.length = e.size ∧
      (∀ l ∈ ls, indentation l ≤ 2 * (e.height - 1)) ∧
      ∃ l ∈ ls, indentation l = 2 * (e.height - 1)) ∧
    ∀ query' e', compile query' = .ok (some e') → e.tree = e'.tree → e = e' := by
  have hclear := (isQuery_of_compile h).sound.isClear
  have hheight : mostLevels [e] = e.height := by
    rw [mostLevels, mostLevels, height_eq_levels, Nat.max_zero]
  refine ⟨⟨_, lines_tree hclear, ?_, ?_, ?_⟩, fun query' e' h' htree => ?_⟩
  · rw [List.length_map, ← outlines_singleton, length_outlines, sizes, sizes, Nat.add_zero]
  · refine List.forall_mem_map.2 fun l hl => ?_
    rw [indentation_chars (head?_label_of_mem hl)]
    rw [← outlines_singleton] at hl
    have hlevel := level_of_mem_outlines hl
    omega
  · obtain ⟨l, hl, hlevel⟩ := exists_mem_outlines (List.cons_ne_nil e []) 0
    rw [outlines_singleton] at hl
    refine ⟨_, List.mem_map_of_mem hl, ?_⟩
    rw [indentation_chars (head?_label_of_mem hl)]
    omega
  · have hread := readTree_tree hclear
    rw [htree, readTree_tree (isQuery_of_compile h').sound.isClear] at hread
    simpa using hread.symm

/-- A selector behind a group, and the chain that has the same canonical form. -/
theorem tree_faithful_group :
    compile "(a:import):test" =
      .ok (some (.selected (.selected (.package "a") ["import"]) ["test"])) ∧
    compile "a:import:test" = .ok (some (.selected (.package "a") ["import", "test"])) ∧
    (Expr.selected (.selected (.package "a") ["import"]) ["test"]).tree ≠
      (Expr.selected (.package "a") ["import", "test"]).tree ∧
    ∃ ls, Text.lines (Expr.selected (.selected (.package "a") ["import"]) ["test"]).tree.toList =
        ls ++ [[]] ∧
      ls.length = 3 ∧ ∃ l ∈ ls, indentation l = 4 := by
  have hgroup : compile "(a:import):test" =
      .ok (some (.selected (.selected (.package "a") ["import"]) ["test"])) :=
    compile_of_tokens [⟨.openParen, "("⟩, ⟨.package, "a"⟩, ⟨.selector, "import"⟩,
      ⟨.closeParen, ")"⟩, ⟨.selector, "test"⟩] (by decide +kernel) rfl
  have hchain : compile "a:import:test" =
      .ok (some (.selected (.package "a") ["import", "test"])) :=
    compile_of_tokens [⟨.package, "a"⟩, ⟨.selector, "import"⟩, ⟨.selector, "test"⟩]
      (by decide +kernel) rfl
  obtain ⟨⟨ls, hlines, hlength, -, hdeepest⟩, hinj⟩ := tree_faithful hgroup
  have hheight : (Expr.selected (.selected (.package "a") ["import"]) ["test"]).height = 3 := by
    rw [height_eq_levels]
    rfl
  rw [hheight] at hdeepest
  refine ⟨hgroup, hchain, fun htree => ?_, ls, hlines, hlength, hdeepest⟩
  simpa using hinj _ _ hchain htree

-- the end of the last line is the end of the text
example : (Expr.selected (.selected (.package "a") ["import"]) ["test"]).tree =
    "Selected :test\n  Selected :import\n    Package a\n" := by
  decide +kernel

end ImportQuery
