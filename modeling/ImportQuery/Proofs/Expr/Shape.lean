import ImportQuery.Proofs.Expr.Grammar
import ImportQuery.Proofs.Token.Spelling

/-!
# The shape of the trees of queries

Not every tree is the tree of a query. Names and tags are texts that the scanner can have read,
selectors and lists are not empty, and statements stand at the root only. Printing, comparing and
re-reading expressions depend on it.

* `Plain` : the trees of lists, without assignments and programs.
* `IsQuery` : the trees of whole queries.
* `DerivesProgram.isQuery` : what the grammar derives from proper tokens is the tree of a query.
-/

namespace ImportQuery.Expr

open Token (isWord isTag)

/-- The trees of lists. -/
inductive Plain : Expr → Prop
  | package {name : String} (hname : isWord name.toList = true) : Plain (.package name)
  | selected {base : Expr} {tags : List String} (hbase : Plain base) (hne : tags ≠ [])
    (htags : ∀ tag ∈ tags, isTag tag.toList = true) : Plain (.selected base tags)
  | binary {op : SetOp} {left right : Expr} (hleft : Plain left) (hright : Plain right) :
    Plain (.binary op left right)
  | call {name : String} {args : List Expr} (hname : isWord name.toList = true)
    (hargs : ∀ e ∈ args, Plain e) : Plain (.call name args)
  | tuple {args : List Expr} (hargs : ∀ e ∈ args, Plain e) (hlength : 2 ≤ args.length) :
    Plain (.call "" args)

/-- The trees of statements. -/
inductive IsStatement : Expr → Prop
  | list {e : Expr} (h : Plain e) : IsStatement e
  | assign {name : String} {value : Expr} (hname : isWord name.toList = true) (h : Plain value) :
    IsStatement (.assign name value)

/-- The trees of queries. -/
inductive IsQuery : Expr → Prop
  | single {e : Expr} (h : IsStatement e) : IsQuery e
  | several {ss : List Expr} (h : ∀ s ∈ ss, IsStatement s) (hss : 2 ≤ ss.length)
    (hassign : ∀ s ∈ ss.dropLast, s.isAssignment = true) : IsQuery (.program ss)

/-- The trees that a phrase carries. -/
def Phrase.trees : Phrase → List Expr
  | primary e | term e | chain e | list e => [e]
  | bracket es | items es | more es => es
  | operands rest => rest.map (·.2)

theorem plain_grouped {first : Expr} {rest : List (SetOp × Expr)} (hfirst : Plain first)
    (hrest : ∀ e ∈ rest.map (·.2), Plain e) : Plain (grouped first rest) := by
  induction rest generalizing first with
  | nil => exact hfirst
  | cons operand rest ih =>
    refine ih (.binary hfirst (hrest _ (List.mem_cons_self ..))) fun e he => ?_
    exact hrest e (List.mem_cons_of_mem _ he)

/-- The grammar makes plain trees of proper tokens. -/
theorem Derives.plain {limit d : Nat} {φ : Phrase} {ts : List Token} (h : Derives limit d φ ts)
    (hts : ∀ t ∈ ts, t.isProper = true) : ∀ e ∈ φ.trees, Plain e := by
  induction h with
  | package =>
    have hname := hts _ (List.mem_singleton_self _)
    simpa [Phrase.trees] using Plain.package hname
  | callNothing =>
    have hname := hts _ (List.mem_cons_self ..)
    simpa [Phrase.trees] using Plain.call hname (List.forall_mem_nil Plain)
  | call _ ih =>
    obtain ⟨hname, hts⟩ := List.forall_mem_cons.1 hts
    simpa [Phrase.trees] using Plain.call hname (ih hts)
  | prefixed _ ih =>
    have hargs := ih (List.forall_mem_cons.1 hts).2
    simp only [Phrase.trees, List.mem_cons, List.not_mem_nil, or_false, forall_eq_or_imp,
      forall_eq] at hargs ⊢
    exact .binary hargs.1 hargs.2
  | tuple _ hes ih => simpa [Phrase.trees] using Plain.tuple (ih hts) hes
  | bracket _ _ ih =>
    refine ih fun t ht => hts t ?_
    simp [ht]
  | group _ ih | lastItem _ ih | bare _ ih | single _ ih | alone _ ih => exact ih hts
  | item _ _ ih ih' =>
    obtain ⟨hleft, hright⟩ := List.forall_mem_append.1 hts
    have he := ih hleft _ (List.mem_singleton_self _)
    exact List.forall_mem_cons.2 ⟨he, ih' (List.forall_mem_cons.1 hright).2⟩
  | @selected _ _ tags _ _ htags ih =>
    obtain ⟨hbase, hright⟩ := List.forall_mem_append.1 hts
    have he := ih hbase _ (List.mem_singleton_self _)
    have hproper : ∀ tag ∈ tags, isTag tag.toList = true := fun tag htag =>
      hright _ (List.mem_map_of_mem htag)
    simpa [Phrase.trees] using Plain.selected he htags hproper
  | noOperand | noMore => simp [Phrase.trees]
  | operand _ _ ih ih' =>
    obtain ⟨hleft, hright⟩ := List.forall_mem_append.1 (List.forall_mem_cons.1 hts).2
    exact List.forall_mem_cons.2 ⟨ih hleft _ (List.mem_singleton_self _), ih' hright⟩
  | chain _ _ _ _ ih ih' =>
    obtain ⟨hleft, hright⟩ := List.forall_mem_append.1 hts
    have hfirst := ih hleft _ (List.mem_singleton_self _)
    simpa [Phrase.trees] using plain_grouped hfirst (ih' hright)
  | more _ _ _ ih ih' =>
    obtain ⟨hleft, hright⟩ := List.forall_mem_append.1 hts
    exact List.forall_mem_cons.2 ⟨ih hleft _ (List.mem_singleton_self _), ih' hright⟩
  | @juxtaposed _ e es _ _ _ _ hes ih ih' =>
    obtain ⟨hleft, hright⟩ := List.forall_mem_append.1 hts
    have hfirst := ih hleft _ (List.mem_singleton_self _)
    have hargs : ∀ a ∈ e :: es, Plain a := List.forall_mem_cons.2 ⟨hfirst, ih' hright⟩
    have hpos := List.length_pos_iff.2 hes
    have htuple := Plain.tuple hargs (by rw [List.length_cons]; omega)
    simpa [Phrase.trees] using htuple

theorem DerivesStatement.isStatement {limit d : Nat} {e : Expr} {ts : List Token}
    (h : DerivesStatement limit d e ts) (hts : ∀ t ∈ ts, t.isProper = true) : IsStatement e := by
  cases h with
  | list h => exact .list (h.plain hts _ (List.mem_singleton_self _))
  | assign h =>
    obtain ⟨hname, hts⟩ := List.forall_mem_cons.1 hts
    obtain ⟨-, hts⟩ := List.forall_mem_cons.1 hts
    exact .assign hname (h.plain hts _ (List.mem_singleton_self _))

theorem Separated.forall_mem {α : Type} {separator : Token.Kind} {G : α → List Token → Prop}
    {P : Token → Prop} {Q : α → Prop} (hG : ∀ a ts, G a ts → (∀ t ∈ ts, P t) → Q a)
    {as : List α} {ts : List Token} (h : Separated separator G as ts) (hts : ∀ t ∈ ts, P t) :
    ∀ a ∈ as, Q a := by
  induction h with
  | last h => simpa using hG _ _ h hts
  | cons h _ ih =>
    obtain ⟨hleft, hright⟩ := List.forall_mem_append.1 hts
    exact List.forall_mem_cons.2 ⟨hG _ _ h hleft, ih (List.forall_mem_cons.1 hright).2⟩

/-- **What the grammar derives from proper tokens is the tree of a query.** -/
theorem DerivesProgram.isQuery {limit : Nat} {e : Expr} {ts : List Token}
    (h : DerivesProgram limit e ts) (hts : ∀ t ∈ ts, t.isProper = true) : IsQuery e := by
  cases h with
  | single h => exact .single (h.isStatement hts)
  | several h hss hassign =>
    have hall := h.forall_mem (fun _ _ hs => hs.isStatement) hts
    exact .several hall hss hassign

end ImportQuery.Expr
