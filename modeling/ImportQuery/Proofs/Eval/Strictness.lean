import ImportQuery.Proofs.Eval.Simulation

/-!
# Strict evaluation

Where a word names nothing, an evaluation warns and goes on with the empty set, unless it is strict:
then it fails. Nothing else depends on strictness. So a strict evaluation is the one that is not,
cut at its first warning; what has been bound and reported until then has been bound and reported in
both.

The comparison needs the variables at the moment of the warning, in the middle of an evaluation.
They are given by `Setup.Warns`, which follows an evaluation down to the word.

* `EvalM.CutAt` : an evaluation is another one, or is cut at the first warning of the other.
* `Setup.cutAt_eval` : strict evaluations are cut like that.
* `Setup.Warns.run_strict` : it is at the word of which the other one warns that they fail.
* `Setup.strict_eq_cut` : the two evaluations of an expression compared by their traces.
-/

namespace ImportQuery

/-- There is no warning among the events. -/
def Trace.Quiet (trace : Trace) : Prop := ∀ event ∈ trace, event.level ≠ .warn

/-- What comes before the first warning of a trace is determined by the trace. -/
theorem Trace.Quiet.inj {before before' after after' : Trace} {p p' : String} (h : before.Quiet)
    (h' : before'.Quiet)
    (heq : before ++ .unmatched p :: after = before' ++ .unmatched p' :: after') :
    before = before' ∧ p = p' := by
  have htake : ∀ (quiet rest : Trace) (q : String), quiet.Quiet →
      (quiet ++ .unmatched q :: rest).takeWhile (fun event => event.level ≠ .warn) = quiet := by
    intro quiet rest q hquiet
    rw [List.takeWhile_append_of_pos (by simpa [Quiet] using hquiet),
      List.takeWhile_cons_of_neg (by simp [Event.level]), List.append_nil]
  obtain rfl : before = before' := by rw [← htake before after p h, heq, htake _ _ _ h']
  rw [List.append_cancel_left_eq] at heq
  cases heq
  exact ⟨rfl, rfl⟩

namespace EvalState

/-- Between two states there has been no warning. -/
def QuietTo (st st' : EvalState) : Prop :=
  ∃ trace : Trace, st'.trace = st.trace ++ trace ∧ trace.Quiet

variable {st mid st' : EvalState}

theorem QuietTo.refl (st : EvalState) : st.QuietTo st := ⟨[], by simp, by simp [Trace.Quiet]⟩

theorem QuietTo.trans (h : st.QuietTo mid) (h' : mid.QuietTo st') : st.QuietTo st' := by
  obtain ⟨trace, htrace, hquiet⟩ := h
  obtain ⟨trace', htrace', hquiet'⟩ := h'
  refine ⟨trace ++ trace', ?_, List.forall_mem_append.2 ⟨hquiet, hquiet'⟩⟩
  rw [htrace', htrace, List.append_assoc]

theorem QuietTo.trace_le (h : st.QuietTo st') : st.trace <+: st'.trace := by
  obtain ⟨trace, htrace, -⟩ := h
  exact ⟨trace, htrace.symm⟩

theorem QuietTo.split (h : st.QuietTo st') (hmid : st.trace <+: mid.trace)
    (hmid' : mid.trace <+: st'.trace) : st.QuietTo mid ∧ mid.QuietTo st' := by
  obtain ⟨trace, htrace, hquiet⟩ := h
  obtain ⟨first, hfirst⟩ := hmid
  obtain ⟨second, hsecond⟩ := hmid'
  rw [← hsecond, ← hfirst, List.append_assoc, List.append_cancel_left_eq] at htrace
  subst htrace
  obtain ⟨hquiet, hquiet'⟩ := List.forall_mem_append.1 hquiet
  exact ⟨⟨first, hfirst.symm, hquiet⟩, ⟨second, hsecond.symm, hquiet'⟩⟩

theorem quietTo_record {event : Event} (h : event.level ≠ .warn) : st.QuietTo (st.record event) :=
  ⟨[event], rfl, by simpa [Trace.Quiet] using h⟩

theorem trace_le_record (st : EvalState) (event : Event) :
    st.trace <+: (st.record event).trace := ⟨[event], rfl⟩

/-- A warning cannot be overlooked. -/
theorem not_quietTo_of_record {p : String} (h : (st.record (.unmatched p)).trace <+: st'.trace) :
    ¬ st.QuietTo st' := by
  intro hquiet
  obtain ⟨trace, htrace, hquiet⟩ := (hquiet.split (trace_le_record st _) h).1
  obtain rfl : [Event.unmatched p] = trace := List.append_cancel_left htrace
  exact hquiet (.unmatched p) (by simp) rfl

theorem ne_record (st : EvalState) (event : Event) : st ≠ st.record event := by
  intro h
  have hlength := congrArg (fun st => st.trace.length) h
  simp [record] at hlength

end EvalState

/-! ## Moments of an evaluation -/

namespace Setup

/-- When expressions are evaluated in turn, and those before it can be evaluated, the turn comes to
`x` in the state `st'`. -/
inductive ComesTo (u : Setup) (s : Setting) (x : Expr) (st' : EvalState) :
    List Expr → EvalState → Prop
  | head {es : List Expr} : ComesTo u s x st' (x :: es) st'
  | next {e : Expr} {es : List Expr} {st mid : EvalState} {ids : IdSet}
    (he : (u.eval s e).run st = (.ok ids, mid)) (h : ComesTo u s x st' es mid) :
    ComesTo u s x st' (e :: es) st

/-- In the course of an evaluation, one warns in the state `mid` that `p` names nothing: the
evaluation comes to the word `p` in this state, and goes on with the empty set. -/
inductive Warns (u : Setup) (p : String) (mid : EvalState) : Setting → Expr → EvalState → Prop
  | package {s : Setting} (h : (u.resolve s p).run mid = (.ok ∅, mid.record (.unmatched p))) :
    Warns u p mid s (.package p) mid
  | base {s : Setting} {base : Expr} {tags : List String} {st : EvalState}
    (h : Warns u p mid s base st) : Warns u p mid s (.selected base tags) st
  | left {s : Setting} {op : SetOp} {left right : Expr} {st : EvalState}
    (h : Warns u p mid s left st) : Warns u p mid s (.binary op left right) st
  | right {s : Setting} {op : SetOp} {left right : Expr} {st st' : EvalState} {ids : IdSet}
    (hleft : (u.eval s left).run st = (.ok ids, st')) (h : Warns u p mid s right st') :
    Warns u p mid s (.binary op left right) st
  | setting {s inner : Setting} {name key value : String} {args : List Expr} {x : Expr}
    {st st' : EvalState} (hsplit : splitSetting? name = some (key, value))
    (hchange : s.change key value = .ok inner)
    (harg : u.ComesTo inner x st' args (st.record (.changedSetting args.length key value)))
    (h : Warns u p mid inner x st') : Warns u p mid s (.call name args) st
  | function {s : Setting} {name : String} {f : GraphFunction} {args : List Expr} {x : Expr}
    {st st' : EvalState} (hsplit : splitSetting? name = none)
    (hf : GraphFunction.ofName? name = some f) (harity : f.arity.admits args.length = true)
    (harg : u.ComesTo s x st' args (st.record (.called name args.length)))
    (h : Warns u p mid s x st') : Warns u p mid s (.call name args) st
  | value {s : Setting} {name : String} {value : Expr} {st : EvalState}
    (h : Warns u p mid s value st) : Warns u p mid s (.assign name value) st
  | statement {s : Setting} {statements : List Expr} {x : Expr} {st st' : EvalState}
    (hstatement : u.ComesTo s x st' statements st) (h : Warns u p mid s x st') :
    Warns u p mid s (.program statements) st

/-- Statements are evaluated like arguments, except that only the last set is kept. -/
theorem evalInOrder_eq (u : Setup) (s : Setting) (result : IdSet) (es : List Expr) :
    u.evalInOrder s result es = (do
      let sets ← u.evalEach s es
      return sets.getLastD result) := by
  induction es generalizing result with
  | nil => rfl
  | cons e es ih =>
    rw [evalInOrder, evalEach, bind_assoc]
    refine bind_congr fun ids => ?_
    rw [ih, bind_assoc]
    refine bind_congr fun sets => ?_
    rw [pure_bind, List.getLastD_cons]

end Setup

/-! ## Evaluations that are cut -/

namespace EvalM

variable {α β : Type} {L L' : String → EvalState → Prop} {st : EvalState} {m n : EvalM α}

/-- Started in `st`, the evaluation `n` is `m` if `m` does not warn, and is cut at the first warning
of `m` otherwise. `L` holds of the package of which `m` warns and of the state in which it does. -/
inductive CutAt (L : String → EvalState → Prop) (st : EvalState) (m n : EvalM α) : Prop
  | whole (hquiet : st.QuietTo (m.run st).2) (heq : n.run st = m.run st)
  | cut {p : String} {mid : EvalState} (hquiet : st.QuietTo mid) (hwarns : L p mid)
    (hlater : (mid.record (.unmatched p)).trace <+: (m.run st).2.trace)
    (hfails : n.run st = (.error (.unresolvedPackage p), mid))

theorem CutAt.mono (h : CutAt L st m n) (hL : ∀ p mid, L p mid → L' p mid) :
    CutAt L' st m n := by
  cases h with
  | whole hquiet heq => exact .whole hquiet heq
  | cut hquiet hwarns hlater hfails => exact .cut hquiet (hL _ _ hwarns) hlater hfails

theorem CutAt.trace_le (h : CutAt L st m n) : st.trace <+: (m.run st).2.trace := by
  cases h with
  | whole hquiet => exact hquiet.trace_le
  | cut hquiet _ hlater =>
    exact hquiet.trace_le.trans ((EvalState.trace_le_record _ _).trans hlater)

/-- Without a warning, nothing is cut. -/
theorem CutAt.eq_of_quiet (h : CutAt L st m n) (hquiet : st.QuietTo (m.run st).2) :
    n.run st = m.run st := by
  cases h with
  | whole _ heq => exact heq
  | cut hbefore _ hlater =>
    have hle := (EvalState.trace_le_record _ _).trans hlater
    exact absurd (hquiet.split hbefore.trace_le hle).2 (EvalState.not_quietTo_of_record hlater)

theorem cutAt_silent (h : (m.run st).2.trace = st.trace) : CutAt L st m m :=
  .whole ⟨[], by rw [h, List.append_nil], by simp [Trace.Quiet]⟩ rfl

theorem cutAt_pure (a : α) : CutAt L st (pure a) (pure a) := cutAt_silent rfl

theorem cutAt_throw (e : EvalError) : CutAt L st (throw e : EvalM α) (throw e) := cutAt_silent rfl

theorem cutAt_report {event : Event} (h : event.level ≠ .warn) :
    CutAt L st (report event) (report event) :=
  .whole (EvalState.quietTo_record h) rfl

theorem CutAt.bind {f f' : α → EvalM β} (hm : CutAt L st m n)
    (hf : ∀ a st', m.run st = (.ok a, st') → CutAt L st' (f a) (f' a)) :
    CutAt L st (m >>= f) (n >>= f') := by
  rcases hrun : m.run st with ⟨err | a, st'⟩
  · have hbind : (m >>= f).run st = (.error err, st') := run_bind_error hrun
    cases hm with
    | whole hquiet heq =>
      rw [hrun] at hquiet heq
      exact .whole (by rwa [hbind]) (by rw [hbind, run_bind_error heq])
    | cut hquiet hwarns hlater hfails =>
      rw [hrun] at hlater
      exact .cut hquiet hwarns (by rwa [hbind]) (run_bind_error hfails)
  · have hbind : (m >>= f).run st = (f a).run st' := run_bind_ok hrun
    have hnext := hf a st' hrun
    cases hm with
    | whole hquiet heq =>
      rw [hrun] at hquiet heq
      have hbind' : (n >>= f').run st = (f' a).run st' := run_bind_ok heq
      cases hnext with
      | whole hquiet' heq' =>
        exact .whole (by rw [hbind]; exact hquiet.trans hquiet') (by rw [hbind, hbind', heq'])
      | cut hquiet' hwarns' hlater' hfails' =>
        exact .cut (hquiet.trans hquiet') hwarns' (by rwa [hbind]) (by rw [hbind', hfails'])
    | cut hquiet hwarns hlater hfails =>
      rw [hrun] at hlater
      refine .cut hquiet hwarns ?_ (run_bind_error hfails)
      rw [hbind]
      exact hlater.trans hnext.trace_le

/-- A number of arguments that passes changes nothing. -/
theorem run_checkArity_iff {function : String} {expected : Arity} {found : Nat}
    {st st' : EvalState} :
    (checkArity function expected found).run st = (.ok (), st') ↔
      expected.admits found = true ∧ st' = st := by
  unfold checkArity
  by_cases hadmits : expected.admits found = true
  · rw [if_pos hadmits]
    constructor
    · rintro ⟨⟩
      exact ⟨hadmits, rfl⟩
    · rintro ⟨-, rfl⟩
      rfl
  · rw [if_neg hadmits]
    constructor
    · rintro ⟨⟩
    · rintro ⟨h, -⟩
      exact absurd h hadmits

theorem cutAt_checkArity (function : String) (expected : Arity) (found : Nat) :
    CutAt L st (checkArity function expected found) (checkArity function expected found) := by
  unfold checkArity
  split
  · exact cutAt_pure _
  · exact cutAt_throw _

end EvalM

/-! ## Expressions -/

namespace Setup

open EvalM

variable {L : String → EvalState → Prop} {g : Graph} {s : Setting} {st : EvalState}

theorem cutAt_select (ids : IdSet) (tag : String) :
    CutAt L st (g.select s ids tag) (g.select s ids tag) := by
  unfold Graph.select
  dsimp only
  split
  · exact cutAt_throw _
  · exact (cutAt_report (by simp [Event.level])).bind fun _ _ _ => cutAt_pure _

theorem cutAt_tags (ids : IdSet) (tags : List String) :
    CutAt L st (tags.foldlM (g.select s) ids) (tags.foldlM (g.select s) ids) := by
  induction tags generalizing ids st with
  | nil => exact cutAt_pure ids
  | cons tag tags ih =>
    rw [List.foldlM_cons]
    exact (cutAt_select ids tag).bind fun ids' _ _ => ih ids'

/-- Looking up a word is the only place where it matters whether an evaluation is strict. -/
theorem run_resolve_strict (g : Graph) (s : Setting) (name : String) (st : EvalState) :
    ((resolve ⟨g, false⟩ s name).run st).2 = st ∧
        (resolve ⟨g, true⟩ s name).run st = (resolve ⟨g, false⟩ s name).run st ∨
      (resolve ⟨g, false⟩ s name).run st = (.ok ∅, st.record (.unmatched name)) ∧
        (resolve ⟨g, true⟩ s name).run st = (.error (.unresolvedPackage name), st) := by
  rw [run_resolve, run_resolve]
  cases st.scope.get? name with
  | some ids => exact .inl ⟨rfl, rfl⟩
  | none =>
    simp only [Bool.false_eq_true, if_false, if_true]
    split_ifs
    · exact .inl ⟨rfl, rfl⟩
    · exact .inr ⟨rfl, rfl⟩
    · exact .inl ⟨rfl, rfl⟩

theorem cutAt_resolve (name : String) :
    CutAt (fun p mid => Warns ⟨g, false⟩ p mid s (.package name) st) st
      (resolve ⟨g, false⟩ s name) (resolve ⟨g, true⟩ s name) := by
  rcases run_resolve_strict g s name st with ⟨hsilent, heq⟩ | ⟨hwarns, hfails⟩
  · exact .whole (by rw [hsilent]; exact .refl st) heq
  · exact .cut (.refl st) (.package hwarns) (by simp [hwarns]) hfails

theorem cutAt_evalEach {es : List Expr}
    (h : ∀ e ∈ es, ∀ st, CutAt (fun p mid => Warns ⟨g, false⟩ p mid s e st) st
      (eval ⟨g, false⟩ s e) (eval ⟨g, true⟩ s e)) :
    CutAt (fun p mid => ∃ x st', ComesTo ⟨g, false⟩ s x st' es st ∧ Warns ⟨g, false⟩ p mid s x st')
      st (evalEach ⟨g, false⟩ s es) (evalEach ⟨g, true⟩ s es) := by
  induction es generalizing st with
  | nil => exact cutAt_pure _
  | cons e es ih =>
    obtain ⟨he, hes⟩ := List.forall_mem_cons.1 h
    rw [evalEach, evalEach]
    refine CutAt.bind ((he st).mono fun p mid hwarns => ⟨e, st, .head, hwarns⟩)
      fun ids mid hrun => ?_
    refine CutAt.bind ((ih hes).mono ?_) fun sets _ _ => cutAt_pure _
    rintro p mid ⟨x, st', hturn, hwarns⟩
    exact ⟨x, st', .next hrun hturn, hwarns⟩

/-- **Strict evaluations are cut at the first warning.** -/
theorem cutAt_eval (g : Graph) (s : Setting) (e : Expr) (st : EvalState) :
    CutAt (fun p mid => Warns ⟨g, false⟩ p mid s e st) st (eval ⟨g, false⟩ s e)
      (eval ⟨g, true⟩ s e) := by
  -- `Within` and not `Expr`, whose own induction says nothing about the members of a list
  induction e.within_whole generalizing s st with
  | @package name _ =>
    rw [eval, eval]
    exact cutAt_resolve name
  | selected _ _ ih =>
    rw [eval, eval]
    exact ((ih s st).mono fun _ _ h => .base h).bind fun ids _ _ => cutAt_tags ids _
  | binary _ _ _ ihleft ihright =>
    rw [eval, eval]
    refine ((ihleft s st).mono fun _ _ h => .left h).bind fun ids st' hleft => ?_
    exact ((ihright s st').mono fun _ _ h => .right hleft h).bind fun _ _ _ => cutAt_pure _
  | @call name args _ _ ih =>
    rw [eval, eval]
    -- in both kinds of calls, whatever can be wrong with the call itself is found before an
    -- argument is evaluated, so an argument can warn only if all of it is right
    cases hsplit : splitSetting? name with
    | some setting =>
      refine (cutAt_checkArity _ _ _).bind fun _ st' hrun => ?_
      obtain ⟨-, rfl⟩ := run_checkArity_iff.1 hrun
      cases hchange : s.change setting.1 setting.2 with
      | error e => exact cutAt_throw _
      | ok inner =>
        refine (cutAt_report (by simp [Event.level])).bind ?_
        rintro _ _ ⟨⟩
        refine ((cutAt_evalEach fun e he => ih e he inner).mono ?_).bind fun _ _ _ => cutAt_pure _
        rintro p mid ⟨x, st', harg, hwarns⟩
        exact .setting hsplit hchange harg hwarns
    | none =>
      refine (cutAt_report (by simp [Event.level])).bind ?_
      rintro _ _ ⟨⟩
      cases hf : GraphFunction.ofName? name with
      | none => exact cutAt_throw _
      | some f =>
        refine (cutAt_checkArity _ _ _).bind fun _ st' hrun => ?_
        obtain ⟨harity, rfl⟩ := run_checkArity_iff.1 hrun
        refine ((cutAt_evalEach fun e he => ih e he s).mono ?_).bind fun _ _ _ => cutAt_pure _
        rintro p mid ⟨x, st', harg, hwarns⟩
        exact .function hsplit hf harity harg hwarns
  | assign _ _ ih =>
    rw [eval, eval]
    refine ((ih s st).mono fun _ _ h => .value h).bind fun ids st' _ => ?_
    refine (cutAt_report (by simp [Event.level])).bind fun _ _ _ => ?_
    exact CutAt.bind (cutAt_silent rfl) fun _ _ _ => cutAt_pure _
  | program _ ih =>
    rw [eval, eval, evalInOrder_eq, evalInOrder_eq]
    refine ((cutAt_evalEach fun e he => ih e he s).mono ?_).bind fun _ _ _ => cutAt_pure _
    rintro p mid ⟨x, st', hstatement, hwarns⟩
    exact .statement hstatement hwarns

/-! ## Where strict evaluations end -/

variable {p : String} {e x : Expr} {es : List Expr} {st' mid : EvalState}

theorem trace_le_of_run {r : Except EvalError IdSet}
    (h : (eval ⟨g, false⟩ s e).run st = (r, st')) : st.trace <+: st'.trace := by
  have hle := (cutAt_eval g s e st).trace_le
  rwa [h] at hle

theorem ComesTo.trace_le (h : ComesTo ⟨g, false⟩ s x st' es st) : st.trace <+: st'.trace := by
  induction h with
  | head => exact List.prefix_rfl
  | next he _ ih => exact (trace_le_of_run he).trans ih

theorem Warns.trace_le (h : Warns ⟨g, false⟩ p mid s e st) : st.trace <+: mid.trace := by
  induction h with
  | package _ => exact List.prefix_rfl
  | base _ ih => exact ih
  | left _ ih => exact ih
  | right hleft _ ih => exact (trace_le_of_run hleft).trans ih
  | setting _ _ harg _ ih =>
    exact (EvalState.trace_le_record _ _).trans (harg.trace_le.trans ih)
  | function _ _ _ harg _ ih =>
    exact (EvalState.trace_le_record _ _).trans (harg.trace_le.trans ih)
  | value _ ih => exact ih
  | statement hstatement _ ih => exact hstatement.trace_le.trans ih

/-- What is evaluated without a warning is evaluated alike if the evaluation is strict. -/
theorem run_strict_of_ok {ids : IdSet} (h : (eval ⟨g, false⟩ s e).run st = (.ok ids, st'))
    (hquiet : st.QuietTo st') : (eval ⟨g, true⟩ s e).run st = (.ok ids, st') := by
  rw [(cutAt_eval g s e st).eq_of_quiet (by rwa [h]), h]

/-- If the turn comes to an expression that fails in `mid`, what has been evaluated before it was
evaluated alike. -/
theorem ComesTo.run_strict {err : EvalError} (h : ComesTo ⟨g, false⟩ s x st' es st)
    (hquiet : st.QuietTo mid) (hle : st'.trace <+: mid.trace)
    (hx : st'.QuietTo mid → (eval ⟨g, true⟩ s x).run st' = (.error err, mid)) :
    (evalEach ⟨g, true⟩ s es).run st = (.error err, mid) := by
  induction h with
  | head =>
    rw [evalEach]
    exact run_bind_error (hx hquiet)
  | next he hrest ih =>
    obtain ⟨hfirst, hlater⟩ := hquiet.split (trace_le_of_run he) (hrest.trace_le.trans hle)
    rw [evalEach, run_bind_ok (run_strict_of_ok he hfirst)]
    exact run_bind_error (ih hlater)

/-- Strict evaluations fail at the word of which the others warn, in the same state, unless there
has been a warning before. -/
theorem Warns.run_strict (h : Warns ⟨g, false⟩ p mid s e st) (hquiet : st.QuietTo mid) :
    (eval ⟨g, true⟩ s e).run st = (.error (.unresolvedPackage p), mid) := by
  induction h with
  | @package s h =>
    rw [eval]
    rcases run_resolve_strict g s p mid with ⟨hsilent, -⟩ | ⟨-, hfails⟩
    · -- a warning changes the trace, so this look-up was not a silent one
      rw [h] at hsilent
      exact absurd hsilent.symm (EvalState.ne_record mid _)
    · exact hfails
  | base _ ih =>
    rw [eval]
    exact run_bind_error (ih hquiet)
  | left _ ih =>
    rw [eval]
    exact run_bind_error (ih hquiet)
  | right hleft h ih =>
    obtain ⟨hfirst, hlater⟩ := hquiet.split (trace_le_of_run hleft) h.trace_le
    rw [eval, run_bind_ok (run_strict_of_ok hleft hfirst)]
    exact run_bind_error (ih hlater)
  | @setting s inner name key value args x st st' hsplit hchange harg h ih =>
    have harity : (Arity.atLeast 1).admits args.length = true := by
      cases harg with
      | head => simp [Arity.admits]
      | next => simp [Arity.admits]
    obtain ⟨-, hquiet⟩ := hquiet.split (EvalState.trace_le_record _ _)
      (harg.trace_le.trans h.trace_le)
    rw [eval, hsplit]
    dsimp only
    rw [run_bind_ok (run_checkArity_iff.2 ⟨harity, rfl⟩), hchange]
    dsimp only
    rw [run_bind_ok (run_report _ _)]
    exact run_bind_error (harg.run_strict hquiet h.trace_le ih)
  | function hsplit hf harity harg h ih =>
    obtain ⟨-, hquiet⟩ := hquiet.split (EvalState.trace_le_record _ _)
      (harg.trace_le.trans h.trace_le)
    rw [eval, hsplit]
    dsimp only
    rw [run_bind_ok (run_report _ _), hf]
    dsimp only
    rw [run_bind_ok (run_checkArity_iff.2 ⟨harity, rfl⟩)]
    exact run_bind_error (harg.run_strict hquiet h.trace_le ih)
  | value _ ih =>
    rw [eval]
    exact run_bind_error (ih hquiet)
  | statement hstatement h ih =>
    rw [eval, evalInOrder_eq]
    exact run_bind_error (hstatement.run_strict hquiet h.trace_le ih)

/-- **Strict evaluation.** If an evaluation does not warn, the strict one is the same, in what it
gives as in what it binds and reports. If it warns, and of `p` first, the strict one fails because
of `p`, in the state in which the other evaluation has come to its first warning. -/
theorem strict_eq_cut (g : Graph) (s : Setting) (e : Expr) (sc : Scope) :
    let lenient := (eval ⟨g, false⟩ s e).run ⟨sc, []⟩
    let strict := (eval ⟨g, true⟩ s e).run ⟨sc, []⟩
    (lenient.2.trace.Quiet → strict = lenient) ∧
      ∀ (before after : Trace) (p : String),
        lenient.2.trace = before ++ .unmatched p :: after → before.Quiet →
          (∃ mid, Warns ⟨g, false⟩ p mid s e ⟨sc, []⟩ ∧ mid.trace = before) ∧
            ∀ mid, Warns ⟨g, false⟩ p mid s e ⟨sc, []⟩ → mid.trace = before →
              strict = (.error (.unresolvedPackage p), mid) := by
  intro lenient strict
  refine ⟨fun hquiet => (cutAt_eval g s e _).eq_of_quiet ⟨_, rfl, hquiet⟩, ?_⟩
  intro before after p htrace hbefore
  refine ⟨?_, fun mid hwarns hmid => hwarns.run_strict ⟨before, hmid, hbefore⟩⟩
  cases cutAt_eval g s e ⟨sc, []⟩ with
  | whole hquiet =>
    obtain ⟨trace, htrace', hquiet⟩ := hquiet
    obtain rfl : before ++ .unmatched p :: after = trace := htrace.symm.trans htrace'
    exact absurd rfl (hquiet (.unmatched p) (by simp))
  | @cut p' mid hquiet hwarns hlater =>
    obtain ⟨before', hmid, hbefore'⟩ := hquiet
    obtain ⟨after', hafter⟩ := hlater
    obtain rfl : mid.trace = before' := hmid
    rw [EvalState.record, List.append_assoc, List.singleton_append] at hafter
    obtain ⟨hfirst, rfl⟩ := hbefore'.inj hbefore (hafter.trans htrace)
    exact ⟨mid, hwarns, hfirst⟩

/-- A statement, one in which a package is misspelled, and one that cannot be evaluated. -/
def misspelledQuery : Expr :=
  .program [.assign "t" (.selected (.package "lib") ["test"]),
    .assign "u" (.call "deps" [.package "lbi"]), .call "nope" []]

/-- The strict evaluation does not come to the error that the other one meets. -/
theorem strict_eq_cut_misspelled :
    ((eval ⟨.testedPackage, false⟩ ⟨false⟩ misspelledQuery).run ⟨.empty, []⟩).1 =
        .error (.undefinedFunction "nope") ∧
      ∃ mid, Warns ⟨.testedPackage, false⟩ "lbi" mid ⟨false⟩ misspelledQuery ⟨.empty, []⟩ ∧
        mid.scope.get? "t" = some (.ofList ["lib.test"]) ∧
        (∀ x, x ≠ "t" → mid.scope.get? x = none) ∧
        (eval ⟨.testedPackage, true⟩ ⟨false⟩ misspelledQuery).run ⟨.empty, []⟩ =
          (.error (.unresolvedPackage "lbi"), mid) := by
  have htrace : ((eval ⟨.testedPackage, false⟩ ⟨false⟩ misspelledQuery).run ⟨.empty, []⟩).2.trace =
      [.matched "test" 1 1, .bound "t" 1, .called "deps" 1] ++
        .unmatched "lbi" :: [.bound "u" 0, .called "nope" 0] := by decide +kernel
  have hbefore : Trace.Quiet [.matched "test" 1 1, .bound "t" 1, .called "deps" 1] := by
    simp [Trace.Quiet, Event.level]
  obtain ⟨⟨mid, hwarns, hmid⟩, hstrict⟩ :=
    (strict_eq_cut .testedPackage ⟨false⟩ misspelledQuery .empty).2 _ _ _ htrace hbefore
  have hscope : ((eval ⟨.testedPackage, true⟩ ⟨false⟩ misspelledQuery).run ⟨.empty, []⟩).2.scope =
      Scope.empty.bind "t" (.ofList ["lib.test"]) := by decide +kernel
  rw [hstrict mid hwarns hmid] at hscope
  refine ⟨by decide +kernel, mid, hwarns, ?_, fun x hx => ?_, hstrict mid hwarns hmid⟩
  · rw [hscope]
    decide
  · rw [hscope, Scope.get?_bind, if_neg hx, Scope.get?_empty]

end Setup

end ImportQuery
