import ImportQuery.Eval.Basic
import ImportQuery.Proofs.Graph.Reachability
import Mathlib.Data.List.Forall2

/-!
# Two evaluations side by side

An expression is evaluated twice, on two graphs, under two settings or from two scopes, and what the
two evaluations give is compared. The comparison follows the evaluator and needs to be made only
once: if what a single word, selector, operator or function gives is related whenever its arguments
are, then so is what an expression gives that is made of them.

* `EvalM.Relates` : two evaluations fail alike or give related sets, and leave related scopes.
* `Fragment`, `Expr.Within` : the expressions in which only some words, tags and calls occur.
* `Simulation.eval` : the comparison of two evaluations of an expression.
-/

namespace ImportQuery

variable {α β γ δ : Type}

/-! ## Related evaluations -/

/-- Two outcomes are alike if they are the same error, or results that are related. -/
inductive Alike {ε : Type} (P : α → β → Prop) : Except ε α → Except ε β → Prop
  | ok {a : α} {b : β} (h : P a b) : Alike P (.ok a) (.ok b)
  | error (e : ε) : Alike P (.error e) (.error e)

theorem Alike.error_iff {ε : Type} {P : α → β → Prop} {r : Except ε α} {r' : Except ε β}
    (h : Alike P r r') (e : ε) : r = .error e ↔ r' = .error e := by
  cases h with
  | ok => simp
  | error e' => simp

theorem eq_of_alike {ε : Type} {r r' : Except ε α} (h : Alike Eq r r') : r = r' := by
  cases h with
  | ok h => rw [h]
  | error e => rfl

/-- A change takes the place of what the setting was before, so whatever settings are changed, the
two changes are alike if settings with the new value are related. -/
theorem Setting.alike_change {S : Setting → Setting → Prop} {s s' : Setting}
    (h : ∀ shown, S { s with includeTests := shown } { s' with includeTests := shown })
    (key value : String) : Alike S (s.change key value) (s'.change key value) := by
  unfold change
  split
  · split
    · exact .ok (h true)
    · split
      · exact .ok (h false)
      · exact .error _
  · exact .error _

/-- The state after an event has been reported. -/
def EvalState.record (st : EvalState) (event : Event) : EvalState :=
  { st with trace := st.trace ++ [event] }

namespace EvalM

/-- From scopes that are related by `R`, two evaluations come to outcomes that are alike and to
scopes that are related again. -/
def Relates (R : Scope → Scope → Prop) (P : α → β → Prop) (m : EvalM α) (n : EvalM β) : Prop :=
  ∀ st st' : EvalState, R st.scope st'.scope →
    Alike P (m.run st).1 (n.run st').1 ∧ R (m.run st).2.scope (n.run st').2.scope

variable {R : Scope → Scope → Prop} {P : α → β → Prop} {Q : γ → δ → Prop}
  {m : EvalM α} {n : EvalM β} {f : α → EvalM γ} {f' : β → EvalM δ}

theorem relates_pure {a : α} {b : β} (h : P a b) : Relates R P (pure a) (pure b) :=
  fun _ _ hR => ⟨.ok h, hR⟩

theorem relates_throw (e : EvalError) : Relates R P (throw e) (throw e) :=
  fun _ _ hR => ⟨.error e, hR⟩

theorem run_report (event : Event) (st : EvalState) :
    (report event).run st = (.ok (), st.record event) := rfl

theorem Relates.bind (h : Relates R P m n) (h' : ∀ a b, P a b → Relates R Q (f a) (f' b)) :
    Relates R Q (m >>= f) (n >>= f') := by
  intro st st' hR
  obtain ⟨hout, hscope⟩ := h st st' hR
  rw [run_bind, run_bind]
  rcases hm : m.run st with ⟨r, mid⟩
  rcases hn : n.run st' with ⟨r', mid'⟩
  rw [hm, hn] at hout hscope
  cases hout with
  | ok hab => exact h' _ _ hab mid mid' hscope
  | error e => exact ⟨.error e, hscope⟩

theorem relates_get_bind {f : EvalState → EvalM γ} {f' : EvalState → EvalM δ}
    (h : ∀ st st' : EvalState, R st.scope st'.scope → Relates R Q (f st) (f' st')) :
    Relates R Q (get >>= f) (get >>= f') :=
  fun st st' hR => h st st' hR st st' hR

theorem relates_report (e e' : Event) :
    Relates R (fun _ _ => True) (report e) (report e') :=
  fun _ _ hR => ⟨.ok trivial, hR⟩

theorem relates_bindName {name : String} {a b : IdSet}
    (h : ∀ sc sc', R sc sc' → R (sc.bind name a) (sc'.bind name b)) :
    Relates R (fun _ _ => True) (bindName name a) (bindName name b) :=
  fun _ _ hR => ⟨.ok trivial, h _ _ hR⟩

theorem relates_checkArity (function : String) (expected : Arity) (found : Nat) :
    Relates R (fun _ _ => expected.admits found = true) (checkArity function expected found)
      (checkArity function expected found) := by
  unfold checkArity
  split
  · rename_i h
    exact relates_pure h
  · exact relates_throw _

/-- The values of a word are related if they are for a variable, for a package and for a pattern. -/
theorem relates_resolve {u u' : Setup} {name : String} {s s' : Setting}
    {P : IdSet → IdSet → Prop} (hstrict : u.strict = u'.strict)
    (hvariable : ∀ sc sc', R sc sc' → Option.Rel P (sc.get? name) (sc'.get? name))
    (hcontains : u.graph.contains name = u'.graph.contains name) (hempty : P ∅ ∅)
    (hpackage : u.graph.contains name = true → P (.ofList [name]) (.ofList [name]))
    (hpattern : P ((u.graph.visible s).filter (Pattern.ofText name).accepts)
      ((u'.graph.visible s').filter (Pattern.ofText name).accepts)) :
    Relates R P (u.resolve s name) (u'.resolve s' name) := by
  unfold Setup.resolve
  refine relates_get_bind fun st st' hR => ?_
  have hvalue := hvariable _ _ hR
  generalize st.scope.get? name = value at hvalue
  generalize st'.scope.get? name = value' at hvalue
  cases hvalue with
  | some hab => exact relates_pure hab
  | none =>
    simp only [← hcontains, ← hstrict]
    split
    · split
      · rename_i hname
        exact relates_pure (hpackage hname)
      · split
        · exact relates_throw _
        · exact (relates_report _ _).bind fun _ _ _ => relates_pure hempty
    · exact relates_pure hpattern

end EvalM

/-- What comes of looking up a word. -/
theorem Setup.run_resolve (u : Setup) (s : Setting) (name : String) (st : EvalState) :
    (u.resolve s name).run st =
      match st.scope.get? name with
      | some ids => (.ok ids, st)
      | none =>
        if (Pattern.ofText name).isLiteral then
          if u.graph.contains name then (.ok (.ofList [name]), st)
          else if u.strict then (.error (.unresolvedPackage name), st)
          else (.ok ∅, st.record (.unmatched name))
        else (.ok ((u.graph.visible s).filter (Pattern.ofText name).accepts), st) := by
  rw [resolve, run_get_bind]
  cases st.scope.get? name with
  | some ids => rfl
  | none =>
    dsimp only
    split_ifs <;> rfl

/-! ## Parts of the language -/

/-- Which words, tags, operators, names of calls and variables may occur in an expression. -/
structure Fragment where
  word : String → Prop
  tag : String → Prop
  op : SetOp → Prop
  call : String → Prop
  /-- The names that are assigned to. -/
  target : String → Prop

/-- The whole language. -/
def Fragment.whole : Fragment where
  word _ := True
  tag _ := True
  op _ := True
  call _ := True
  target _ := True

/-- In an expression nothing occurs but what the fragment has. -/
inductive Expr.Within (F : Fragment) : Expr → Prop
  | package {name : String} (hname : F.word name) : Within F (.package name)
  | selected {base : Expr} {tags : List String} (hbase : Within F base)
    (htags : ∀ tag ∈ tags, F.tag tag) : Within F (.selected base tags)
  | binary {op : SetOp} {left right : Expr} (hop : F.op op) (hleft : Within F left)
    (hright : Within F right) : Within F (.binary op left right)
  | call {name : String} {args : List Expr} (hname : F.call name)
    (hargs : ∀ e ∈ args, Within F e) : Within F (.call name args)
  | assign {name : String} {value : Expr} (hname : F.target name) (hvalue : Within F value) :
    Within F (.assign name value)
  | program {statements : List Expr} (h : ∀ e ∈ statements, Within F e) :
    Within F (.program statements)

mutual

theorem Expr.within_whole (e : Expr) : e.Within .whole := by
  cases e with
  | package name => exact .package trivial
  | selected base tags => exact .selected (within_whole base) fun _ _ => trivial
  | binary op left right => exact .binary trivial (within_whole left) (within_whole right)
  | call name args => exact .call trivial (all_within_whole args)
  | assign name value => exact .assign trivial (within_whole value)
  | program statements => exact .program (all_within_whole statements)

theorem Expr.all_within_whole (es : List Expr) : ∀ e ∈ es, e.Within .whole := by
  cases es with
  | nil => simp
  | cons e es => exact List.forall_mem_cons.2 ⟨within_whole e, all_within_whole es⟩

end

/-! ## Simulations -/

/-- What two setups give is related, for the words, selectors, operators and calls of a fragment one
at a time. Settings are related by `S`, sets by `P`, scopes by `R`. -/
structure Simulation (F : Fragment) (u u' : Setup) (S : Setting → Setting → Prop)
    (P : IdSet → IdSet → Prop) (R : Scope → Scope → Prop) : Prop where
  empty : P ∅ ∅
  resolve {name : String} {s s' : Setting} : F.word name → S s s' →
    EvalM.Relates R P (u.resolve s name) (u'.resolve s' name)
  select {text : String} {sel : Selector} {s s' : Setting} {a b : IdSet} : F.tag text →
    Selector.ofName? (Tag.ofText text).name = some sel → S s s' → P a b →
      P ((Tag.ofText text).sign.combine a (sel.find u.graph s a))
        ((Tag.ofText text).sign.combine b (sel.find u'.graph s' b))
  op {op : SetOp} {a b a' b' : IdSet} : F.op op → P a b → P a' b' →
    P (op.apply a a') (op.apply b b')
  unions {as bs : List IdSet} : List.Forall₂ P as bs → P (.unions as) (.unions bs)
  function {name : String} {f : GraphFunction} {s s' : Setting} {as bs : List IdSet} :
    F.call name → GraphFunction.ofName? name = some f → f.arity.admits as.length = true →
      S s s' → List.Forall₂ P as bs → P (f.apply u.graph s as) (f.apply u'.graph s' bs)
  change {name key value : String} {s s' : Setting} : F.call name →
    splitSetting? name = some (key, value) → S s s' →
      Alike S (s.change key value) (s'.change key value)
  bind {name : String} {a b : IdSet} {sc sc' : Scope} : F.target name → P a b → R sc sc' →
    R (sc.bind name a) (sc'.bind name b)

namespace Simulation

open EvalM

variable {F : Fragment} {u u' : Setup} {S : Setting → Setting → Prop}
  {P : IdSet → IdSet → Prop} {R : Scope → Scope → Prop} {s s' : Setting}

theorem select_tag (h : Simulation F u u' S P R) (hs : S s s') {a b : IdSet} (hab : P a b)
    {text : String} (htext : F.tag text) :
    Relates R P (u.graph.select s a text) (u'.graph.select s' b text) := by
  cases hsel : Selector.ofName? (Tag.ofText text).name with
  | none =>
    simp only [Graph.select, hsel]
    exact relates_throw _
  | some sel =>
    simp only [Graph.select, hsel]
    refine (relates_report _ _).bind fun _ _ _ => relates_pure ?_
    exact h.select htext hsel hs hab

theorem select_tags (h : Simulation F u u' S P R) (hs : S s s') {tags : List String}
    (htags : ∀ tag ∈ tags, F.tag tag) {a b : IdSet} (hab : P a b) :
    Relates R P (tags.foldlM (u.graph.select s) a) (tags.foldlM (u'.graph.select s') b) := by
  induction tags generalizing a b with
  | nil => exact relates_pure hab
  | cons tag tags ih =>
    obtain ⟨htag, htags⟩ := List.forall_mem_cons.1 htags
    rw [List.foldlM_cons, List.foldlM_cons]
    exact (h.select_tag hs hab htag).bind fun _ _ hab => ih htags hab

theorem evalEach {es es' : List Expr}
    (h : List.Forall₂ (fun e e' => Relates R P (u.eval s e) (u'.eval s' e')) es es') :
    Relates R (fun as bs => as.length = es.length ∧ List.Forall₂ P as bs) (u.evalEach s es)
      (u'.evalEach s' es') := by
  induction h with
  | nil => exact relates_pure ⟨rfl, .nil⟩
  | cons he _ ih =>
    rw [Setup.evalEach, Setup.evalEach]
    refine he.bind fun a b hab => ih.bind fun as bs hall => relates_pure ⟨?_, ?_⟩
    · rw [List.length_cons, List.length_cons, hall.1]
    · exact .cons hab hall.2

theorem evalInOrder {es es' : List Expr}
    (h : List.Forall₂ (fun e e' => Relates R P (u.eval s e) (u'.eval s' e')) es es')
    {a b : IdSet} (hab : P a b) :
    Relates R P (u.evalInOrder s a es) (u'.evalInOrder s' b es') := by
  induction h generalizing a b with
  | nil => exact relates_pure hab
  | cons he _ ih =>
    rw [Setup.evalInOrder, Setup.evalInOrder]
    exact he.bind fun _ _ hab => ih hab

/-- A call that changes a setting gives related sets if its arguments do under related settings. -/
theorem eval_setting (h : Simulation F u u' S P R) {name key value : String} {args : List Expr}
    (hname : F.call name) (hsplit : splitSetting? name = some (key, value)) (hs : S s s')
    (hargs : ∀ t t', S t t' →
      List.Forall₂ (fun e e' => Relates R P (u.eval t e) (u'.eval t' e')) args args) :
    Relates R P (u.eval s (.call name args)) (u'.eval s' (.call name args)) := by
  rw [Setup.eval, Setup.eval, hsplit]
  refine (relates_checkArity _ _ _).bind fun _ _ _ => ?_
  have hchange := h.change hname hsplit hs
  generalize s.change key value = next at hchange
  generalize s'.change key value = next' at hchange
  cases hchange with
  | error e => exact relates_throw _
  | ok ht =>
    refine (relates_report _ _).bind fun _ _ _ => ?_
    exact (evalEach (hargs _ _ ht)).bind fun as bs hall => relates_pure (h.unions hall.2)

/-- The call of a function gives related sets if its arguments do. -/
theorem eval_function (h : Simulation F u u' S P R) {name : String} {args args' : List Expr}
    (hname : F.call name) (hsplit : splitSetting? name = none) (hs : S s s')
    (hargs : List.Forall₂ (fun e e' => Relates R P (u.eval s e) (u'.eval s' e')) args args') :
    Relates R P (u.eval s (.call name args)) (u'.eval s' (.call name args')) := by
  rw [Setup.eval, Setup.eval, hsplit, hargs.length_eq]
  refine (relates_report _ _).bind fun _ _ _ => ?_
  cases hf : GraphFunction.ofName? name with
  | none => exact relates_throw _
  | some f =>
    refine (relates_checkArity _ _ _).bind fun _ _ harity => ?_
    refine (evalEach hargs).bind fun as bs hall => relates_pure ?_
    rw [← hargs.length_eq, ← hall.1] at harity
    exact h.function hname hf harity hs hall.2

/-- **What is related for the parts is related for the whole.** -/
theorem eval (h : Simulation F u u' S P R) {e : Expr} (he : e.Within F) (hs : S s s') :
    Relates R P (u.eval s e) (u'.eval s' e) := by
  induction he generalizing s s' with
  | package hname => exact h.resolve hname hs
  | selected _ htags ih =>
    rw [Setup.eval, Setup.eval]
    exact (ih hs).bind fun _ _ hab => h.select_tags hs htags hab
  | binary hop _ _ ihleft ihright =>
    rw [Setup.eval, Setup.eval]
    refine (ihleft hs).bind fun _ _ hab => (ihright hs).bind fun _ _ hab' => ?_
    exact relates_pure (h.op hop hab hab')
  | @call name args hname _ ih =>
    have hargs : ∀ t t', S t t' →
        List.Forall₂ (fun e e' => Relates R P (u.eval t e) (u'.eval t' e')) args args :=
      fun t t' ht => List.forall₂_same.2 fun e he => ih e he ht
    cases hsplit : splitSetting? name with
    | some setting => exact h.eval_setting hname hsplit hs hargs
    | none => exact h.eval_function hname hsplit hs (hargs s s' hs)
  | assign hname _ ih =>
    rw [Setup.eval, Setup.eval]
    refine (ih hs).bind fun a b hab => (relates_report _ _).bind fun _ _ _ => ?_
    exact (relates_bindName fun _ _ hR => h.bind hname hab hR).bind fun _ _ _ =>
      relates_pure hab
  | program _ ih =>
    rw [Setup.eval, Setup.eval]
    exact evalInOrder (List.forall₂_same.2 fun e he => ih e he hs) h.empty

/-- Every setup simulates itself from scopes in which the words that occur have the same values, if
this remains so whatever is bound in both. -/
theorem self (hsame : ∀ name sc sc', F.word name → R sc sc' → sc.get? name = sc'.get? name)
    (hbind : ∀ name ids sc sc', F.target name → R sc sc' →
      R (sc.bind name ids) (sc'.bind name ids)) : Simulation F u u Eq Eq R where
  empty := rfl
  resolve {name s _} hname := by
    rintro rfl
    refine relates_resolve rfl (fun sc sc' hsc => ?_) rfl rfl (fun _ => rfl) rfl
    rw [hsame name sc sc' hname hsc]
    cases sc'.get? name with
    | none => exact .none
    | some ids => exact .some rfl
  select _ _ := by
    rintro rfl rfl
    rfl
  op _ := by
    rintro rfl rfl
    rfl
  unions h := by
    rw [List.forall₂_eq_eq_eq] at h
    rw [h]
  function _ _ _ := by
    rintro rfl h
    rw [List.forall₂_eq_eq_eq] at h
    rw [h]
  change _ _ := by
    rintro rfl
    exact Setting.alike_change (fun _ => rfl) _ _
  bind htarget := by
    rintro rfl hsc
    exact hbind _ _ _ _ htarget hsc

/-- Every setup simulates itself, whatever has been reported before. -/
theorem refl (u : Setup) : Simulation .whole u u Eq Eq Eq :=
  self (fun _ _ _ _ h => by rw [h]) fun _ _ _ _ _ h => by rw [h]

end Simulation

/-! ## Equal sets with members of a kind -/

/-- Two sets are the same, and their members have the property `q`. -/
def SameWith (q : String → Prop) (a b : IdSet) : Prop := (∀ id ∈ a, q id) ∧ a = b

/-- Two scopes are the same, and the members of all values have the property `q`. -/
def SameScopeWith (q : String → Prop) (sc sc' : Scope) : Prop :=
  (∀ name ids, sc.get? name = some ids → ∀ id ∈ ids, q id) ∧ sc = sc'

section SameWith

variable {q : String → Prop} {F : Fragment} {u u' : Setup} {S : Setting → Setting → Prop}

theorem forall₂_sameWith_iff {as bs : List IdSet} :
    List.Forall₂ (SameWith q) as bs ↔ (∀ a ∈ as, ∀ id ∈ a, q id) ∧ as = bs := by
  have heq : List.Forall₂ (@Eq IdSet) as bs ↔ as = bs := by rw [List.forall₂_eq_eq_eq]
  rw [← heq]
  exact List.forall₂_and_left as bs

theorem Alike.eq {ε : Type} {r r' : Except ε IdSet} (h : Alike (SameWith q) r r') : r = r' := by
  cases h with
  | ok h => rw [h.2]
  | error e => rfl

theorem Alike.of_ok {ε : Type} {r r' : Except ε IdSet} {ids : IdSet}
    (h : Alike (SameWith q) r r') (hr : r = .ok ids) : ∀ id ∈ ids, q id := by
  subst hr
  cases h with
  | ok h => exact h.1

theorem sameScopeWith_empty : SameScopeWith q .empty .empty := by
  refine ⟨fun name ids h => ?_, rfl⟩
  rw [Scope.get?_empty] at h
  cases h

theorem Sign.forall_mem_combine {ids found : IdSet} (hids : ∀ id ∈ ids, q id)
    (hfound : ∀ id ∈ found, q id) (sign : Sign) : ∀ id ∈ sign.combine ids found, q id := by
  intro id hid
  cases sign with
  | replace => exact hfound id hid
  | add => exact (Std.ExtTreeSet.mem_union_iff.1 hid).elim (hids id) (hfound id)
  | remove => exact hids id (Std.ExtTreeSet.mem_diff_iff.1 hid).1

/-- What a function selects is in one of its arguments, or visible. -/
theorem GraphFunction.mem_apply {f : GraphFunction} {g : Graph} {s : Setting} {args : List IdSet}
    {id : String} (h : id ∈ f.apply g s args) : (∃ ids ∈ args, id ∈ ids) ∨ id ∈ g.visible s := by
  unfold GraphFunction.apply at h
  split at h
  · exact .inl (IdSet.mem_unions.1 h)
  · exact .inl ⟨_, List.mem_cons_self .., (Std.ExtTreeSet.mem_inter_iff.1 h).1⟩
  · exact .inl ⟨_, List.mem_cons_self .., (IdSet.mem_filter.1 h).1⟩
  · exact .inr (Graph.mem_visible_of_mem_dependencies h)
  · exact .inl ⟨_, List.mem_cons_self .., (IdSet.mem_foldl_inter.1 h).1⟩
  · rcases IdSet.mem_symmDiff.1 h with ⟨h, -⟩ | ⟨h, -⟩
    · exact .inl ⟨_, List.mem_cons_self .., h⟩
    · exact .inl ⟨_, List.mem_cons_of_mem _ (List.mem_cons_self ..), h⟩
  · simp at h

/-- Operators and functions keep to what their arguments and the visible packages have. So two
setups simulate each other if they agree on packages, patterns, selectors, functions and
settings. -/
theorem Simulation.ofMembers (hstrict : u.strict = u'.strict)
    (hcontains : ∀ name, F.word name → u.graph.contains name = u'.graph.contains name ∧
      (u.graph.contains name = true → q name))
    (hvisible : ∀ s s', S s s' → SameWith q (u.graph.visible s) (u'.graph.visible s'))
    (hselect : ∀ text sel s s' ids, F.tag text →
      Selector.ofName? (Tag.ofText text).name = some sel → S s s' → (∀ id ∈ ids, q id) →
        SameWith q ((Tag.ofText text).sign.combine ids (sel.find u.graph s ids))
          ((Tag.ofText text).sign.combine ids (sel.find u'.graph s' ids)))
    (hfunction : ∀ f : GraphFunction, ∀ s s' args, S s s' → (∀ ids ∈ args, ∀ id ∈ ids, q id) →
      f.apply u.graph s args = f.apply u'.graph s' args)
    (hchange : ∀ name key value s s', F.call name → splitSetting? name = some (key, value) →
      S s s' → Alike S (s.change key value) (s'.change key value)) :
    Simulation F u u' S (SameWith q) (SameScopeWith q) where
  empty := ⟨by simp, rfl⟩
  resolve {name s s'} hname hs := by
    refine EvalM.relates_resolve hstrict ?_ (hcontains name hname).1 ⟨by simp, rfl⟩ ?_ ?_
    · rintro sc sc' ⟨hsc, rfl⟩
      cases hvalue : sc.get? name with
      | none => exact .none
      | some ids => exact .some ⟨hsc name ids hvalue, rfl⟩
    · intro h
      exact ⟨by simpa using (hcontains name hname).2 h, rfl⟩
    · obtain ⟨hq, heq⟩ := hvisible s s' hs
      rw [← heq]
      exact ⟨fun id hid => hq id (IdSet.mem_filter.1 hid).1, rfl⟩
  select htag hsel hs := by
    rintro ⟨hq, rfl⟩
    exact hselect _ _ _ _ _ htag hsel hs hq
  op {op a b a' b'} _ := by
    rintro ⟨ha, rfl⟩ ⟨ha', rfl⟩
    refine ⟨fun id hid => ?_, rfl⟩
    cases op with
    | union => exact (Std.ExtTreeSet.mem_union_iff.1 hid).elim (ha id) (ha' id)
    | difference => exact ha id (Std.ExtTreeSet.mem_diff_iff.1 hid).1
  unions h := by
    obtain ⟨hq, rfl⟩ := forall₂_sameWith_iff.1 h
    refine ⟨fun id hid => ?_, rfl⟩
    obtain ⟨ids, hids, hid⟩ := IdSet.mem_unions.1 hid
    exact hq ids hids id hid
  function _ _ _ hs h := by
    obtain ⟨hq, rfl⟩ := forall₂_sameWith_iff.1 h
    refine ⟨fun id hid => ?_, hfunction _ _ _ _ hs hq⟩
    rcases GraphFunction.mem_apply hid with ⟨ids, hids, hid⟩ | hid
    · exact hq ids hids id hid
    · exact (hvisible _ _ hs).1 id hid
  change := hchange _ _ _ _ _
  bind {name a b sc sc'} _ := by
    rintro ⟨ha, rfl⟩ ⟨hsc, rfl⟩
    refine ⟨fun x ids h => ?_, rfl⟩
    rw [Scope.get?_bind] at h
    split at h
    · cases h
      exact ha
    · exact hsc x ids h

end SameWith

end ImportQuery
