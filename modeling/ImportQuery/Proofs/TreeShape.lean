import ImportQuery.Proofs.RoundTrip

/-!
# What compiled trees look like

Printing, drawing and evaluating an expression rely on things that the type of expressions does not
say. They are stated here node by node, for every node of a tree, and hold of all trees that texts
compile to.

* `Expr.Occurs` : the nodes of a tree.
* `Expr.Sound` : what is true of them.
* `sound_of_compile` : trees of queries are so.
-/

namespace ImportQuery

open Token

/-- The text is a word: it begins like one, and it holds neither white space nor a mark. -/
structure Token.IsName (text : String) : Prop where
  begins : ∃ c cs, text.toList = c :: cs ∧ isWordStart c = true
  isWordChar : ∀ c ∈ text.toList, isWordChar c = true
  apart : ∀ c ∈ text.toList, Text.isBlank c = false ∧ c ∉ ['(', ')', ',', ';', ':', '+']

/-- The text is a run of word characters, and perhaps a sign before it. -/
def Token.IsSignedName (text : String) : Prop :=
  ∃ sign name, text.toList = sign ++ name ∧ sign ∈ [[], ['+'], ['-']] ∧ name ≠ [] ∧
    ∀ c ∈ name, isWordChar c = true

namespace Expr

/-- The nodes of a tree, each as the tree below it. -/
inductive Occurs (e : Expr) : Expr → Prop
  | root : Occurs e e
  | child {a b : Expr} (h : Occurs e a) (hb : b ∈ a.children) : Occurs e b

/-- What is true of the nodes of a compiled tree. -/
structure Sound (e : Expr) : Prop where
  /-- Only the root is a program. -/
  program_root : ∀ a, e.Occurs a → ∀ ss, .program ss ∉ a.children
  /-- A program has several statements, and all but the last are assignments. -/
  statements : ∀ ss, e.Occurs (.program ss) →
    2 ≤ ss.length ∧ ∀ s ∈ ss.dropLast, s.isAssignment = true
  /-- Below the root, assignments are statements of the program. -/
  assignment_root : ∀ a, e.Occurs a → ∀ b ∈ a.children, b.isAssignment = true →
    a = e ∧ ∃ ss, e = .program ss
  bound : ∀ name value, e.Occurs (.assign name value) → IsName name
  tags : ∀ base ts, e.Occurs (.selected base ts) → ts ≠ [] ∧ ∀ tag ∈ ts, IsSignedName tag
  /-- A list has several items. -/
  items : ∀ args, e.Occurs (.call "" args) → 2 ≤ args.length
  packages : ∀ name, e.Occurs (.package name) → IsName name
  functions : ∀ name args, e.Occurs (.call name args) → name ≠ "" → IsName name

end Expr

/-! ## Words and tags -/

theorem Token.isName_of_isWord {text : String} (h : isWord text.toList = true) : IsName text := by
  obtain ⟨hstart, hall⟩ := Bool.and_eq_true_iff.1 h
  have hmarks : ['(', ')', ',', ';', ':', '+'].all (!isWordChar ·) = true := by decide +kernel
  refine ⟨?_, List.all_eq_true.1 hall, fun c hc => ?_⟩
  · rw [Option.any_eq_true] at hstart
    obtain ⟨c, hc, hstart⟩ := hstart
    obtain ⟨cs, hcs⟩ := List.head?_eq_some_iff.1 hc
    exact ⟨c, cs, hcs, hstart⟩
  · have hword := List.all_eq_true.1 hall c hc
    refine ⟨not_isBlank_of_isWordChar hword, fun hmark => ?_⟩
    simpa [hword] using List.all_eq_true.1 hmarks c hmark

theorem Token.isSignedName_of_isTag {text : String} (h : isTag text.toList = true) :
    IsSignedName text := by
  obtain ⟨sign, name, htext, hsign⟩ := exists_signs text.toList
  rw [htext, isTag_append_iff hsign] at h
  obtain ⟨hne, hall, -⟩ := h
  refine ⟨sign, name, htext, ?_, hne, List.all_eq_true.1 hall⟩
  cases hsign with
  | unsigned => simp
  | signed hc =>
    rw [isSign, Bool.or_eq_true_iff, beq_iff_eq, beq_iff_eq] at hc
    rcases hc with rfl | rfl <;> simp

/-! ## Nodes -/

namespace Expr

variable {e a b : Expr}

/-- The nodes below a list are lists again. -/
theorem Plain.of_mem_children (h : Plain e) (ha : a ∈ e.children) : Plain a := by
  cases h with
  | package => simp [children] at ha
  | selected hbase =>
    obtain rfl := List.mem_singleton.1 ha
    exact hbase
  | binary hleft hright =>
    obtain rfl | rfl : a = _ ∨ a = _ := by simpa [children] using ha
    · exact hleft
    · exact hright
  | call _ hargs => exact hargs a ha
  | tuple hargs _ => exact hargs a ha

theorem Plain.isAssignment (h : Plain e) : e.isAssignment = false := by
  cases h <;> rfl

theorem IsStatement.plain_of_mem_children (h : IsStatement e) (ha : a ∈ e.children) : Plain a := by
  cases h with
  | list h => exact h.of_mem_children ha
  | assign _ h =>
    obtain rfl := List.mem_singleton.1 ha
    exact h

/-- Every node of the tree of a query is the root, or a statement or something below one. -/
theorem IsQuery.of_occurs (h : IsQuery e) (ha : e.Occurs a) : a = e ∨ IsStatement a := by
  induction ha with
  | root => exact .inl rfl
  | child _ hb ih =>
    rcases ih with rfl | hstatement
    · cases h with
      | single h => exact .inr (.list (h.plain_of_mem_children hb))
      | several h => exact .inr (h _ hb)
    · exact .inr (.list (hstatement.plain_of_mem_children hb))

/-- A node that is no program is a statement or something below one. -/
theorem IsQuery.isStatement_of_occurs (h : IsQuery e) (ha : e.Occurs a)
    (hne : ∀ ss, a ≠ .program ss) : IsStatement a := by
  rcases h.of_occurs ha with rfl | hstatement
  · cases h with
    | single h => exact h
    | several => exact absurd rfl (hne _)
  · exact hstatement

/-- A node that is neither a program nor an assignment belongs to a list. -/
theorem IsQuery.plain_of_occurs (h : IsQuery e) (ha : e.Occurs a) (hne : ∀ ss, a ≠ .program ss)
    (hassign : a.isAssignment = false) : Plain a := by
  cases h.isStatement_of_occurs ha hne with
  | list h => exact h
  | assign => cases hassign

theorem IsQuery.sound (h : IsQuery e) : e.Sound where
  program_root a ha ss hmem := by
    rcases h.of_occurs ha with rfl | hstatement
    · cases h with
      | single h => cases h.plain_of_mem_children hmem
      | several h =>
        cases h _ hmem with
        | list h => cases h
    · cases hstatement.plain_of_mem_children hmem
  statements ss hss := by
    rcases h.of_occurs hss with rfl | hstatement
    · cases h with
      | single h =>
        cases h with
        | list h => cases h
      | several _ hlength hassign => exact ⟨hlength, hassign⟩
    · cases hstatement with
      | list h => cases h
  assignment_root a ha b hb hassign := by
    have hplain : ¬Plain b := fun hplain => by simp [hplain.isAssignment] at hassign
    rcases h.of_occurs ha with rfl | hstatement
    · cases h with
      | single h => exact absurd (h.plain_of_mem_children hb) hplain
      | several => exact ⟨rfl, _, rfl⟩
    · exact absurd (hstatement.plain_of_mem_children hb) hplain
  bound name value hoccurs := by
    cases h.isStatement_of_occurs hoccurs (by simp) with
    | list h => cases h
    | assign hname => exact isName_of_isWord hname
  tags base ts hoccurs := by
    cases h.plain_of_occurs hoccurs (by simp) rfl with
    | selected _ hne htags => exact ⟨hne, fun tag htag => isSignedName_of_isTag (htags tag htag)⟩
  items args hoccurs := by
    cases h.plain_of_occurs hoccurs (by simp) rfl with
    | call hname => cases hname
    | tuple _ hlength => exact hlength
  packages name hoccurs := by
    cases h.plain_of_occurs hoccurs (by simp) rfl with
    | package hname => exact isName_of_isWord hname
  functions name args hoccurs hne := by
    cases h.plain_of_occurs hoccurs (by simp) rfl with
    | call hname => exact isName_of_isWord hname
    | tuple => exact absurd rfl hne

end Expr

/-- **The trees of queries are sound.** Programs and assignments stand at the root or are statements
of the program there, selectors and lists are not empty, and all names and tags are made of the
characters of words. -/
theorem sound_of_compile {query : String} {e : Expr} (h : compile query = .ok (some e)) :
    e.Sound :=
  (isQuery_of_compile h).sound

/-- A program with selectors in a list and behind it. -/
def selectingProgram : Expr :=
  .program
    [.assign "q" (.selected (.call "" [.package "a", .selected (.package "b") ["all"]]) ["-test"]),
      .call "f" [.package "q"]]

theorem sound_of_compile_selectingProgram :
    compile "q := (a b:all):-test; f(q)" = .ok (some selectingProgram) ∧
      selectingProgram.Sound := by
  have hquery : compile "q := (a b:all):-test; f(q)" = .ok (some selectingProgram) :=
    compile_of_tokens [⟨.package, "q"⟩, ⟨.assign, ":="⟩, ⟨.openParen, "("⟩, ⟨.package, "a"⟩,
      ⟨.package, "b"⟩, ⟨.selector, "all"⟩, ⟨.closeParen, ")"⟩, ⟨.selector, "-test"⟩,
      ⟨.semicolon, ";"⟩, ⟨.function, "f"⟩, ⟨.openParen, "("⟩, ⟨.package, "q"⟩, ⟨.closeParen, ")"⟩]
      (by decide +kernel) rfl
  exact ⟨hquery, sound_of_compile hquery⟩

end ImportQuery
