import ImportQuery.Proofs.Eval.OwnNames

/-!
# Showing test variants

Patterns and traversals find more if test variants take part in them, and what is found for a set is
found for a larger one as well. So an expression that takes nothing away selects more if it is
evaluated with test variants shown. It takes something away if it has a difference or a tag that
removes, and also if it asks which members nobody imports, or what is in one set only: these have
fewer answers when there are more packages to look at.

* `Selector.included_find`, `GraphFunction.included_apply` : selectors and functions on larger sets.
* `Fragment.positive` : the expressions that take nothing away.
* `Session.eval_included` : what they select with test variants hidden and shown.
-/

namespace ImportQuery

/-! ## Larger sets -/

/-- Every member of the first set is a member of the second. -/
def IdSet.Included (a b : IdSet) : Prop := ∀ id ∈ a, id ∈ b

namespace IdSet

variable {a a' b b' : IdSet} {p p' : String → Bool} {as bs : List IdSet} {id : String}

theorem Included.refl (a : IdSet) : Included a a := fun _ h => h

theorem Included.union (h : Included a b) (h' : Included a' b') : Included (a ∪ a') (b ∪ b') := by
  intro id hid
  rw [Std.ExtTreeSet.mem_union_iff] at hid ⊢
  exact hid.imp (h id) (h' id)

theorem Included.inter (h : Included a b) (h' : Included a' b') : Included (a ∩ a') (b ∩ b') := by
  intro id hid
  rw [Std.ExtTreeSet.mem_inter_iff] at hid ⊢
  exact hid.imp (h id) (h' id)

theorem Included.filter (h : Included a b) (hp : ∀ id, p id = true → p' id = true) :
    Included (a.filter p) (b.filter p') := by
  intro id hid
  rw [mem_filter] at hid ⊢
  exact hid.imp (h id) (hp id)

theorem Included.flatMap (h : Included a b) (f : String → IdSet) :
    Included (a.flatMap f) (b.flatMap f) := by
  intro id hid
  obtain ⟨x, hx, hid⟩ := mem_flatMap.1 hid
  exact mem_flatMap.2 ⟨x, h x hx, hid⟩

theorem exists_mem_of_forall₂ (h : List.Forall₂ Included as bs) (hid : ∃ a ∈ as, id ∈ a) :
    ∃ b ∈ bs, id ∈ b := by
  induction h with
  | nil => simp at hid
  | cons hab _ ih =>
    rw [List.exists_mem_cons_iff] at hid ⊢
    exact hid.imp (hab id) ih

theorem forall_mem_of_forall₂ (h : List.Forall₂ Included as bs) (hid : ∀ a ∈ as, id ∈ a) :
    ∀ b ∈ bs, id ∈ b := by
  induction h with
  | nil => simp
  | cons hab _ ih =>
    rw [List.forall_mem_cons] at hid ⊢
    exact hid.imp (hab id) ih

theorem included_unions (h : List.Forall₂ Included as bs) : Included (unions as) (unions bs) := by
  intro id hid
  rw [mem_unions] at hid ⊢
  exact exists_mem_of_forall₂ h hid

end IdSet

open IdSet

/-! ## More that is visible -/

/-- A walk finds more if it starts from more, or has more to find. -/
theorem included_walk {next : String → IdSet} {pool pool' front front' : IdSet}
    (hpool : Included pool pool') (hfront : Included front front') :
    Included (walk next pool front) (walk next pool' front') := by
  intro y hy
  obtain ⟨x, hx, hpath⟩ := mem_walk.1 hy
  have hsteps : ∀ a b, b ∈ next a ∧ b ∈ pool → b ∈ next a ∧ b ∈ pool' :=
    fun a b h => ⟨h.1, hpool b h.2⟩
  exact mem_walk.2 ⟨x, hfront x hx, Relation.TransGen.mono hsteps x y hpath⟩

section

variable {g : Graph} {s s' : Setting} {a b a' b' : IdSet}

namespace Graph

theorem isVisible_of_le (hs : s.includeTests ≤ s'.includeTests) {id : String}
    (h : g.isVisible s id = true) : g.isVisible s' id = true := by
  rw [isVisible, Bool.or_eq_true] at h ⊢
  exact h.imp_left (Bool.le_iff_imp.1 hs)

theorem included_visible (hs : s.includeTests ≤ s'.includeTests) :
    Included (g.visible s) (g.visible s') :=
  (Included.refl _).filter fun _ => isVisible_of_le hs

theorem included_dependencies (hs : s.includeTests ≤ s'.includeTests) (h : Included a b) :
    Included (g.dependencies s a) (g.dependencies s' b) :=
  included_walk (included_visible hs) h

theorem included_reaching (hs : s.includeTests ≤ s'.includeTests) (h : Included a b)
    (h' : Included a' b') : Included (g.reaching s a a') (g.reaching s' b b') :=
  h.inter (h'.union (included_walk (included_visible hs) h'))

end Graph

/-- **Selectors find more for larger sets**, except for the one that asks what is not imported. -/
theorem Selector.included_find {sel : Selector} (hsel : sel ≠ .sources)
    (hs : s.includeTests ≤ s'.includeTests) (h : Included a b) :
    Included (sel.find g s a) (sel.find g s' b) := by
  cases sel with
  | closure => exact h.union (Graph.included_dependencies hs h)
  | imports => exact (h.flatMap _).filter fun _ => Graph.isVisible_of_le hs
  | importers => exact (h.flatMap _).filter fun _ => Graph.isVisible_of_le hs
  | executables => exact h.filter fun _ => id
  | variants => exact (h.filter fun _ => id).union (h.flatMap _)
  | sources => exact absurd rfl hsel

theorem Sign.included_combine {sign : Sign} (hsign : sign ≠ .remove) (h : Included a b)
    (h' : Included a' b') : Included (sign.combine a a') (sign.combine b b') := by
  cases sign with
  | replace => exact h'
  | add => exact h.union h'
  | remove => exact absurd rfl hsign

/-- **Functions select more from larger sets**, except for the one that asks what is in one of two
sets only. -/
theorem GraphFunction.included_apply {f : GraphFunction} (hf : f ≠ .xor)
    (hs : s.includeTests ≤ s'.includeTests) {as bs : List IdSet}
    (harity : f.arity.admits as.length = true) (h : List.Forall₂ Included as bs) :
    Included (f.apply g s as) (f.apply g s' bs) := by
  cases f with
  | list => exact included_unions h
  | reach =>
    obtain ⟨a, a', rfl⟩ := List.length_eq_two.1 (by simpa [arity, Arity.admits] using harity)
    rcases h with _ | ⟨hsources, _ | ⟨htargets, ⟨⟩⟩⟩
    exact Graph.included_reaching hs hsources htargets
  | incoming =>
    obtain ⟨a, a', rfl⟩ := List.length_eq_two.1 (by simpa [arity, Arity.admits] using harity)
    rcases h with _ | ⟨hsources, _ | ⟨htargets, ⟨⟩⟩⟩
    refine hsources.filter fun id hid => ?_
    rw [any_iff] at hid ⊢
    exact hid.imp fun x hx => hx.imp_right fun h => by simpa using htargets x (by simpa using h)
  | deps =>
    obtain ⟨a, rfl⟩ := List.length_eq_one_iff.1 (by simpa [arity, Arity.admits] using harity)
    rcases h with _ | ⟨hstart, ⟨⟩⟩
    exact Graph.included_dependencies hs hstart
  | shared =>
    cases h with
    | nil => exact .refl _
    | cons hfirst hrest =>
      intro id hid
      obtain ⟨hid, hall⟩ := mem_foldl_inter.1 hid
      exact mem_foldl_inter.2 ⟨hfirst id hid, forall_mem_of_forall₂ hrest hall⟩
  | xor => exact absurd rfl hf

end

/-! ## Expressions that take nothing away -/

/-- The expressions without differences, without tags that remove, and without the selector and the
function that find less in larger sets. -/
def Fragment.positive : Fragment where
  word _ := True
  tag text := (Tag.ofText text).sign ≠ .remove ∧
    Selector.ofName? (Tag.ofText text).name ≠ some .sources
  op op := op = .union
  call name := GraphFunction.ofName? name ≠ some .xor
  target _ := True

/-- The scopes have the same variables, with more in the values of the second. -/
def Scope.Included (sc sc' : Scope) : Prop :=
  ∀ name, Option.Rel IdSet.Included (sc.get? name) (sc'.get? name)

theorem Scope.Included.refl (sc : Scope) : sc.Included sc := by
  intro name
  cases sc.get? name with
  | none => exact .none
  | some ids => exact .some (.refl ids)

theorem Scope.Included.bind {sc sc' : Scope} (h : sc.Included sc') {a b : IdSet}
    (hab : IdSet.Included a b) (name : String) : (sc.bind name a).Included (sc'.bind name b) := by
  intro x
  rw [get?_bind, get?_bind]
  split
  · exact .some hab
  · exact h x

/-- An expression that takes nothing away selects more where more is shown, and from variables with
more in them. -/
theorem Setup.simulation_positive (u : Setup) :
    Simulation .positive u u (fun s s' => s.includeTests ≤ s'.includeTests) IdSet.Included
      Scope.Included where
  empty := .refl ∅
  resolve _ hs := EvalM.relates_resolve rfl (fun _ _ h => h _) rfl (.refl ∅) (fun _ => .refl _)
    ((Graph.included_visible hs).filter fun _ => id)
  select htag hsel hs hab := by
    refine Sign.included_combine htag.1 hab (Selector.included_find ?_ hs hab)
    rintro rfl
    exact htag.2 hsel
  op := by
    rintro _ _ _ _ _ rfl h h'
    exact h.union h'
  unions := included_unions
  function hname hf harity hs h := by
    refine GraphFunction.included_apply ?_ hs harity h
    rintro rfl
    exact hname hf
  change _ _ _ := Setting.alike_change (fun shown => le_refl shown) _ _
  bind _ hab hsc := hsc.bind hab _

/-- **Showing test variants only adds results** to an expression that takes nothing away. With them
and without them it fails alike, or what it selects with them includes what it selects without them;
and so do the values that it leaves in the variables. -/
theorem Session.eval_included (σ : Session) (strict : Bool) {e : Expr} (he : e.Within .positive) :
    Alike IdSet.Included (σ.eval strict ⟨false⟩ e).1 (σ.eval strict ⟨true⟩ e).1 ∧
      (σ.eval strict ⟨false⟩ e).2.Included (σ.eval strict ⟨true⟩ e).2 := by
  have hsettings : (⟨false⟩ : Setting).includeTests ≤ (⟨true⟩ : Setting).includeTests :=
    Bool.false_le true
  exact related_eval σ σ (Setup.simulation_positive _) he hsettings (.refl σ.scope)

/-- A program with a variable that holds more if test variants are shown, and a function in which
they are hidden. -/
def growingProgram : Expr :=
  .program [.assign "t" (.selected (.package "tool") ["all", "+test"]),
    .binary .union (.call "deps" [.package "t"])
      (.call "test=0" [.call "reach" [.package "t", .package "lib"]])]

/-- Nothing is lost of what the program selects without test variants. -/
theorem Session.eval_included_growing :
    growingProgram.Within .positive ∧
    ∃ ids, (eval ⟨.testedPackage, .empty⟩ true ⟨true⟩ growingProgram).1 = .ok ids ∧
      IdSet.Included (.ofList ["lib", "tool"]) ids := by
  have hwithin : growingProgram.Within .positive := by
    have htag : ∀ text ∈ ["all", "+test"], Fragment.positive.tag text := by
      simp only [List.forall_mem_cons, Fragment.positive]
      decide +kernel
    have hcall : ∀ name ∈ ["deps", "test=0", "reach"], Fragment.positive.call name := by
      simp only [List.forall_mem_cons, Fragment.positive]
      decide +kernel
    have hword (name : String) : (Expr.package name).Within .positive := .package trivial
    have hreach : (Expr.call "reach" [.package "t", .package "lib"]).Within .positive :=
      .call (hcall _ (by simp)) (List.forall_mem_cons.2 ⟨hword _,
        List.forall_mem_singleton.2 (hword _)⟩)
    refine .program (List.forall_mem_cons.2 ⟨.assign trivial (.selected (hword _) htag),
      List.forall_mem_singleton.2 (.binary rfl ?_ ?_)⟩)
    · exact .call (hcall _ (by simp)) (List.forall_mem_singleton.2 (hword _))
    · exact .call (hcall _ (by simp)) (List.forall_mem_singleton.2 hreach)
  have hhidden : (eval ⟨.testedPackage, .empty⟩ true ⟨false⟩ growingProgram).1 =
      .ok (.ofList ["lib", "tool"]) := by
    decide +kernel
  have halike := (eval_included ⟨.testedPackage, .empty⟩ true hwithin).1
  rw [hhidden] at halike
  generalize (eval ⟨.testedPackage, .empty⟩ true ⟨true⟩ growingProgram).1 = shown at halike ⊢
  cases halike with
  | ok hids => exact ⟨hwithin, _, rfl, hids⟩

-- what a difference takes away may be hidden
example :
    let e : Expr := .binary .difference (.package "lib.test") (.call "deps" [.package "tool"])
    (Session.eval ⟨.testedPackage, .empty⟩ true ⟨false⟩ e).1 = .ok (.ofList ["lib.test"]) ∧
      (Session.eval ⟨.testedPackage, .empty⟩ true ⟨true⟩ e).1 = .ok ∅ := by
  decide +kernel

end ImportQuery
