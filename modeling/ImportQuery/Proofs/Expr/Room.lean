import ImportQuery.Proofs.Expr.Acceptance

/-!
# Room for parentheses

How many parentheses may be opened decides whether a query nests too deeply, and nothing else. A
reader with less room does what the same reader with more room does, step by step, until it meets a
parenthesis or a chain that does not fit. So what the grammar derives within some limit is read with
less room as the same tree, or not at all because it nests too deeply.

* `Stricter` : doing what another reader does, or failing like that.
* `stricter_list` : lists that are read with less room.
* `parse_of_derives` : what comes of a query that would be read with more room.
-/

namespace ImportQuery.Expr

open ParseM ImportQuery.Expr.Parser

/-- The reader `p` does what `q` does, unless it fails because the query nests too deeply. -/
def Stricter {α : Type} (p q : ParseM α) : Prop :=
  ∀ c, p.run c = q.run c ∨ ∃ i c', Fails p c (.tooDeep i) c'

section

variable {α β : Type} {p q : ParseM α} {f f' : α → ParseM β}

theorem Stricter.refl (p : ParseM α) : Stricter p p := fun _ => .inl rfl

theorem stricter_tooDeep (q : ParseM α) : Stricter tooDeep q :=
  fun c => .inr ⟨c.index, c, fails_tooDeep.2 ⟨rfl, rfl⟩⟩

theorem Stricter.bind (h : Stricter p q) (hf : ∀ a, Stricter (f a) (f' a)) :
    Stricter (p >>= f) (q >>= f') := by
  intro c
  rcases h c with hsame | ⟨i, c', hfails⟩
  · rcases hp : p.run c with ⟨e | a, d⟩
    · left
      rw [run_andThen, run_andThen, ← hsame, hp]
    · rcases hf a d with hsame' | ⟨i, c', hfails⟩
      · left
        rw [run_andThen, run_andThen, ← hsame, hp]
        exact hsame'
      · exact .inr ⟨i, c', fails_bind.2 (.inr ⟨a, d, hp, hfails⟩)⟩
  · exact .inr ⟨i, c', fails_bind.2 (.inl hfails)⟩

theorem Stricter.many {more : Cursor → Bool} (h : Stricter p q) :
    Stricter (many more p) (many more q) := by
  have hfor (clock : Nat) : Stricter (manyFor more p clock) (manyFor more q clock) := by
    induction clock with
    | zero => exact .refl _
    | succ clock ih =>
      rw [manyFor, manyFor]
      refine (Stricter.refl cursor).bind fun c => ?_
      split
      · exact h.bind fun _ => ih.bind fun _ => .refl _
      · exact .refl _
  exact (Stricter.refl cursor).bind fun _ => hfor _

/-- What is read with less room, if anything, is the same. -/
theorem Stricter.reads {a : α} {c c' : Cursor} (h : Stricter p q) (hreads : Reads q c a c') :
    Reads p c a c' ∨ ∃ i c', Fails p c (.tooDeep i) c' :=
  (h c).imp_left fun hsame => hsame.trans hreads

end

/-! ## The readers of the parser -/

/-- The reader for lists inside parentheses has less room, or there is none. -/
inductive StricterInside : Option (ParseM Expr) → Option (ParseM Expr) → Prop
  | none (inner : Option (ParseM Expr)) : StricterInside none inner
  | some {p q : ParseM Expr} (h : Stricter p q) : StricterInside (some p) (some q)

section

variable {p q : ParseM Expr} {inner inner' : Option (ParseM Expr)} {room room' : Nat}

theorem stricter_items (h : Stricter p q) : Stricter (items p) (items q) :=
  h.bind fun _ => ((Stricter.refl _).bind fun _ => h).many.bind fun _ => .refl _

theorem stricter_bracketed (h : StricterInside inner inner') (mayBeEmpty : Bool)
    (closing : Expected) :
    Stricter (bracketed inner mayBeEmpty closing) (bracketed inner' mayBeEmpty closing) := by
  cases h with
  | none => exact stricter_tooDeep _
  | some h =>
    refine (Stricter.refl enter).bind fun _ => (Stricter.refl cursor).bind fun c => ?_
    dsimp only
    split
    · exact .refl _
    · exact (stricter_items h).bind fun _ => .refl _

theorem stricter_primary (h : StricterInside inner inner') :
    Stricter (primary inner) (primary inner') := by
  refine (Stricter.refl cursor).bind fun c => ?_
  split
  · exact .refl _
  · exact (Stricter.refl _).bind fun _ => (Stricter.refl _).bind fun _ =>
      (stricter_bracketed h _ _).bind fun _ => .refl _
  · refine (Stricter.refl _).bind fun _ => ?_
    split
    · exact .refl _
    · exact (Stricter.refl _).bind fun _ => (stricter_bracketed h _ _).bind fun _ => .refl _
  · exact (Stricter.refl _).bind fun _ => (stricter_bracketed h _ _).bind fun _ => .refl _
  · exact .refl _

theorem stricter_term (h : StricterInside inner inner') : Stricter (term inner) (term inner') :=
  (stricter_primary h).bind fun _ => .refl _

/-- With less room, a chain ends with a failure where it becomes too high. -/
theorem stricter_chainFor (h : Stricter p q) (hroom : room ≤ room') (clock : Nat)
    (chain : Chain) : Stricter (chainFor room p clock chain) (chainFor room' q clock chain) := by
  induction clock generalizing chain with
  | zero => exact .refl _
  | succ clock ih =>
    rw [chainFor, chainFor]
    refine (Stricter.refl cursor).bind fun c => ?_
    split
    · split
      · exact .refl _
      · rename_i op _
        refine (Stricter.refl _).bind fun _ => h.bind fun right => ?_
        dsimp only
        by_cases hfits : room < (chain.join op right).height
        · rw [if_pos hfits]
          exact stricter_tooDeep _
        · rw [if_neg hfits, if_neg (by omega)]
          exact ih _
    · exact .refl _

theorem stricter_chain (h : StricterInside inner inner') (hroom : room ≤ room') :
    Stricter (Parser.chain room inner) (Parser.chain room' inner') :=
  (stricter_term h).bind fun _ => (Stricter.refl cursor).bind fun _ =>
    (stricter_chainFor (stricter_term h) hroom _ _).bind fun _ => .refl _

theorem stricter_juxtaposed (h : StricterInside inner inner') (hroom : room ≤ room') :
    Stricter (juxtaposed room inner) (juxtaposed room' inner') :=
  (stricter_chain h hroom).bind fun _ => (stricter_chain h hroom).many.bind fun _ => .refl _

theorem stricter_list (hroom : room ≤ room') : Stricter (Parser.list room) (Parser.list room') := by
  induction room generalizing room' with
  | zero =>
    rw [list_eq, list_eq]
    exact stricter_juxtaposed (.none _) hroom
  | succ room ih =>
    cases room' with
    | zero => omega
    | succ room' =>
      -- the readers for lists inside parentheses have one less on both sides
      exact stricter_juxtaposed (.some (ih (by omega))) hroom

theorem stricter_statement (hroom : room ≤ room') :
    Stricter (Parser.statement room) (Parser.statement room') := by
  refine (Stricter.refl cursor).bind fun c => ?_
  split
  · exact (Stricter.refl _).bind fun _ => (stricter_list hroom).bind fun _ => .refl _
  · exact stricter_list hroom

theorem stricter_statements (hroom : room ≤ room') :
    Stricter (Parser.statements room) (Parser.statements room') :=
  (stricter_statement hroom).bind fun _ =>
    ((Stricter.refl _).bind fun _ => stricter_statement hroom).many.bind fun _ => .refl _

end

/-! ## Phrases with more room -/

/-- What can be derived where there is some room can be derived where there is no less of it. -/
theorem Derives.relocate {limit limit' d d' : Nat} {φ : Phrase} {ts : List Token}
    (h : Derives limit d φ ts) (hroom : d' + limit ≤ d + limit') : Derives limit' d' φ ts := by
  induction h generalizing d' with
  | package => exact .package
  | callNothing hd => exact .callNothing (by omega)
  | call _ ih => exact .call (ih hroom)
  | prefixed _ ih => exact .prefixed (ih hroom)
  | group _ ih => exact .group (ih hroom)
  | tuple _ hes ih => exact .tuple (ih hroom) hes
  | bracket hd _ ih => exact .bracket (by omega) (ih (by omega))
  | lastItem _ ih => exact .lastItem (ih hroom)
  | item _ _ ih ih' => exact .item (ih hroom) (ih' hroom)
  | bare _ ih => exact .bare (ih hroom)
  | selected _ htags ih => exact .selected (ih hroom) htags
  | noOperand => exact .noOperand
  | operand _ _ ih ih' => exact .operand (ih hroom) (ih' hroom)
  | single _ ih => exact .single (ih hroom)
  | chain _ _ hrest hfits ih ih' => exact .chain (ih hroom) (ih' hroom) hrest (by omega)
  | noMore => exact .noMore
  | more _ hop _ ih ih' => exact .more (ih hroom) hop (ih' hroom)
  | alone _ ih => exact .alone (ih hroom)
  | juxtaposed _ _ hes ih ih' => exact .juxtaposed (ih hroom) (ih' hroom) hes

/-! ## Programs -/

/-- **What the grammar derives with more room** is read as the same tree, or not at all because it
nests too deeply. -/
theorem parse_of_derives {limit : Nat} {tokens : List Token} {e : Expr}
    (h : DerivesProgram limit e tokens) (hlimit : maxDepth ≤ limit) :
    parse tokens = .ok (some e) ∨ ∃ i, parse tokens = .error (.tooDeep i) := by
  obtain ⟨ss, hss, hall, rfl⟩ := derivesProgram_iff.1 h
  have htokens : (Cursor.ofTokens tokens).rest = tokens ++ [] := (List.append_nil _).symm
  have hne : tokens ≠ [] := hss.ne_nil fun _ _ => DerivesStatement.ne_nil
  obtain ⟨d, hreads, hrest⟩ :=
    (recognizes_statements (Nat.zero_add limit)).complete hss htokens rfl
  rcases (stricter_statements hlimit).reads hreads with hreads | ⟨i, c', hfails⟩
  · have hprogram : ∃ c', Reads Parser.program (.ofTokens tokens) (some (ofStatements ss)) c' :=
      ⟨_, reads_program.2 ⟨ss, d, fun h => hne h.2, hreads, hrest, hall, rfl, rfl⟩⟩
    obtain ⟨c', hprogram⟩ := hprogram
    exact .inl (congrArg Prod.fst hprogram)
  · have hprogram : Fails Parser.program (.ofTokens tokens) (.tooDeep i) c' := by
      rw [Parser.program, fails_cursor_bind]
      dsimp only
      rw [if_neg fun h => hne h.2]
      exact fails_bind.2 (.inl hfails)
    exact .inr ⟨i, congrArg Prod.fst hprogram⟩

end ImportQuery.Expr
