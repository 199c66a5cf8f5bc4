import ImportQuery.Proofs.Expr.Running

/-!
# What the parser does on its way

A reader takes a cursor to what comes of it, and the cursor that it leaves does not say on which
way. Its journal does: these are the moves that the reader makes, each with the cursor where it is
made. The journals of the parser are read for slips here. No move goes past the last token, none
closes a parenthesis that was not opened on the way, none opens more of them than the limit allows;
and reading ends for want of an operator, or of the parenthesis of a call, only where one is
wanting.

* `ParseM.journal` : what a run does, and where.
* `path_journal` : a run is the path of its acts.
* `exists_missing_of_fails` : errors that are about a token are in the journal.
* `Allowed` : what may be done at a cursor.
* `Steady` : readers that do only what is allowed, and close what they open.
* `sound_program` : the parser is of that kind.
-/

namespace ImportQuery.Expr

open ParseM ImportQuery.Expr.Parser
open Token (startsWith)

/-! ## Journals -/

/-- What is done at a cursor: it is moved, or reading ends there, because the next token is not what
was expected. -/
inductive Act
  | move (m : Move)
  | missing (expected : Expected)

/-- The cursor behind an act. -/
def Act.apply : Act → Cursor → Cursor
  | move m, c => m.apply c
  | missing _, c => c

/-- What a run of the reader does, and the cursors where it is done. -/
def ParseM.journal : ∀ {α : Type}, ParseM α → Cursor → List (Act × Cursor)
  | _, found _, _ => []
  | _, andThen p f, c => p.journal c ++
    match p.run c with
    | (.ok a, c) => (f a).journal c
    | (.error _, _) => []
  | _, cursor, _ => []
  | _, move m, c => [(.move m, c)]
  | _, unexpected expected, c => [(.missing expected, c)]
  | _, fail _ _, _ => []

/-- The acts lead from the first cursor to the last one, each from where the one before it led. -/
inductive Path : Cursor → List (Act × Cursor) → Cursor → Prop
  | nil {c : Cursor} : Path c [] c
  | cons {act : Act} {entries : List (Act × Cursor)} {c c' : Cursor}
    (h : Path (act.apply c) entries c') : Path c ((act, c) :: entries) c'

theorem Path.append {entries entries' : List (Act × Cursor)} {c d c' : Cursor}
    (h : Path c entries d) (h' : Path d entries' c') : Path c (entries ++ entries') c' := by
  induction h with
  | nil => exact h'
  | cons _ ih => exact .cons (ih h')

namespace ParseM

variable {α β : Type} {p : ParseM α} {f : α → ParseM β} {c c' d : Cursor} {e : ParseError}
  {a : α}

theorem journal_bind_of_reads (h : Reads p c a d) :
    (p >>= f).journal c = p.journal c ++ (f a).journal d := by
  change (andThen p f).journal c = _
  rw [journal, show p.run c = _ from h]

theorem journal_bind_of_fails (h : Fails p c e d) : (p >>= f).journal c = p.journal c := by
  change (andThen p f).journal c = _
  rw [journal, show p.run c = _ from h, List.append_nil]

theorem mem_journal_bind {x : Act × Cursor} :
    x ∈ (p >>= f).journal c ↔
      x ∈ p.journal c ∨ ∃ a d, Reads p c a d ∧ x ∈ (f a).journal d := by
  rcases hrun : p.run c with ⟨e | a, d⟩
  · rw [journal_bind_of_fails hrun]
    simp [Reads, hrun]
  · rw [journal_bind_of_reads hrun, List.mem_append]
    simp [Reads, hrun, and_assoc]

/-- A run of a reader is the path of its acts. -/
theorem path_journal (p : ParseM α) (c : Cursor) : Path c (p.journal c) (p.run c).2 := by
  induction p generalizing c with
  | found | cursor | fail => exact .nil
  | move | unexpected => exact .cons .nil
  | andThen p f ihp ihf =>
    have hp := ihp c
    change Path c ((p >>= f).journal c) ((p >>= f).run c).2
    rw [run_andThen]
    rcases hrun : p.run c with ⟨e | a, d⟩
    · rw [journal_bind_of_fails hrun]
      rwa [hrun] at hp
    · rw [journal_bind_of_reads hrun]
      rw [hrun] at hp
      exact hp.append (ihf a d)

/-- A run that fails because of a token has come to an act that says so. -/
theorem exists_missing_of_fails (h : Fails p c e c') (hplace : e.place? ≠ none) :
    ∃ expected, (.missing expected, c') ∈ p.journal c ∧
      Fails (unexpected expected : ParseM α) c' e c' := by
  induction p generalizing c with
  | found => exact absurd h not_fails_pure
  | cursor => exact absurd h not_fails_cursor
  | move => exact absurd h not_fails_move
  | unexpected expected =>
    obtain ⟨-, rfl⟩ := fails_unexpected h
    exact ⟨expected, .head _, h⟩
  | fail e' he =>
    obtain ⟨rfl, -⟩ := fails_fail.1 h
    exact absurd he hplace
  | andThen p f ihp ihf =>
    obtain h | ⟨a, d, ha, h⟩ := fails_bind.1 h
    · obtain ⟨expected, hmem, hfails⟩ := ihp h
      exact ⟨expected, mem_journal_bind.2 (.inl hmem), fails_unexpected_iff.2
        (fails_unexpected_iff.1 hfails)⟩
    · obtain ⟨expected, hmem, hfails⟩ := ihf a h
      exact ⟨expected, mem_journal_bind.2 (.inr ⟨a, d, ha, hmem⟩), hfails⟩

end ParseM

/-! ## What may be done -/

/-- From `c` one may come to `v`: tokens lie between, the parentheses that are open at `c` are still
open, and not too many are. -/
structure Cursor.Within (c v : Cursor) : Prop where
  leads : ∃ ts, c.Leads ts v
  depth_le : c.depth ≤ v.depth
  le_maxDepth : v.depth ≤ maxDepth

/-- What may be done at `v`, where a run has come from `c`. -/
def Act.Sound (c v : Cursor) : Act → Prop
  | move (.advance n) => n ≤ v.rest.length
  | move .enter => v.depth < maxDepth
  | move .leave => c.depth < v.depth
  | move (.report _) => True
  | missing .openingCall =>
    v.sees .openParen = false ∧ ∃ ts name, c.rest = ts ++ ⟨.function, name⟩ :: v.rest
  | missing .operator => ∃ symbol, ⟨.operator, symbol⟩ ∈ c.rest ∧ SetOp.ofSymbol? symbol = none
  | missing _ => True

/-- The act may be done at `v`, and `v` is a cursor that one may come to from `c`. -/
structure Allowed (c : Cursor) (act : Act) (v : Cursor) : Prop where
  within : c.Within v
  sound : act.Sound c v

section

variable {c v : Cursor} {act : Act}

theorem Cursor.Passes.within {ts : List Token} (h : c.Passes ts v) (hc : c.depth ≤ maxDepth) :
    c.Within v where
  leads := ⟨ts, h.leads⟩
  depth_le := Nat.le_of_eq h.depth.symm
  le_maxDepth := by rw [h.depth]; exact hc

theorem Cursor.within_refl (hc : c.depth ≤ maxDepth) : c.Within c :=
  (Passes.nil c).within hc

theorem Cursor.Within.trans {o : Cursor} (h : o.Within c) (h' : c.Within v) : o.Within v := by
  obtain ⟨ts, hts⟩ := h.leads
  obtain ⟨us, hus⟩ := h'.leads
  exact ⟨⟨ts ++ us, hts.append hus⟩, Nat.le_trans h.depth_le h'.depth_le, h'.le_maxDepth⟩

theorem Cursor.leads_advance_of_le {n : Nat} (h : n ≤ c.rest.length) :
    c.Leads (c.rest.take n) (c.advance n) where
  rest := (List.take_append_drop n c.rest).symm
  index := by rw [index_advance, List.length_take, Nat.min_eq_left h]

/-- What may be done leads to where one may come. -/
theorem Allowed.within_apply (h : Allowed c act v) : c.Within (act.apply v) := by
  obtain ⟨⟨⟨ts, hleads⟩, hdepth, hlimit⟩, hsound⟩ := h
  cases act with
  | missing expected => exact ⟨⟨ts, hleads⟩, hdepth, hlimit⟩
  | move m =>
    cases m with
    | advance n =>
      exact ⟨⟨_, hleads.append (Cursor.leads_advance_of_le hsound)⟩, hdepth, hlimit⟩
    | enter => exact ⟨⟨ts, hleads.rest, hleads.index⟩, Nat.le_succ_of_le hdepth, hsound⟩
    | leave =>
      exact ⟨⟨ts, hleads.rest, hleads.index⟩, Nat.le_sub_one_of_lt hsound,
        Nat.le_trans (Nat.sub_le _ _) hlimit⟩
    | report e => exact ⟨⟨ts, hleads.rest, hleads.index⟩, hdepth, hlimit⟩

/-- A path of acts that may be done leads to where one may come. -/
theorem Path.within {entries : List (Act × Cursor)} {o c' : Cursor} (h : Path c entries c')
    (hc : o.Within c) (hallowed : ∀ act v, (act, v) ∈ entries → Allowed o act v) :
    o.Within c' := by
  induction h with
  | nil => exact hc
  | cons _ ih =>
    exact ih (hallowed _ _ (.head _)).within_apply fun act v h => hallowed act v (.tail _ h)

/-- What may be done in a run from a cursor may be done in a run that comes to that cursor. -/
theorem Allowed.of_within {o : Cursor} (h : Allowed c act v) (ho : o.Within c) :
    Allowed o act v := by
  obtain ⟨ts, hts⟩ := ho.leads
  obtain ⟨hwithin, hsound⟩ := h
  refine ⟨ho.trans hwithin, ?_⟩
  cases act with
  | move m =>
    cases m with
    | leave => exact Nat.lt_of_le_of_lt ho.depth_le hsound
    | advance | enter | report => exact hsound
  | missing expected =>
    cases expected with
    | openingCall =>
      obtain ⟨hsees, vs, name, hrest⟩ := hsound
      exact ⟨hsees, ts ++ vs, name, by rw [hts.rest, hrest, List.append_assoc]⟩
    | operator =>
      obtain ⟨symbol, hmem, hop⟩ := hsound
      exact ⟨symbol, by rw [hts.rest]; exact List.mem_append_right _ hmem, hop⟩
    | closingCall | closingOperands | closingGroup | expression | endOfStatement => trivial

end

namespace ParseM

/-! ## Sound runs -/

variable {α β : Type} {p : ParseM α} {f : α → ParseM β} {a : α} {o c : Cursor} {ts : List Token}
  {room : Nat}

/-- A run of the reader from `c`, in a run that has come from `o`, does only what may be done. -/
def Safe (o : Cursor) (p : ParseM α) (c : Cursor) : Prop :=
  ∀ act v, (act, v) ∈ p.journal c → Allowed o act v

theorem Safe.bind (hp : Safe o p c) (hf : ∀ a d, Reads p c a d → Safe o (f a) d) :
    Safe o (p >>= f) c := by
  intro act v hmem
  obtain hmem | ⟨a, d, hreads, hmem⟩ := mem_journal_bind.1 hmem
  · exact hp act v hmem
  · exact hf a d hreads act v hmem

/-- A run is safe, and if it reads something, the parentheses that are open then are those that were
open at `o`. -/
structure Sound (o : Cursor) (p : ParseM α) (c : Cursor) : Prop where
  safe : Safe o p c
  passes : ∀ {a : α} {d : Cursor}, Reads p c a d → ∃ ts, o.Passes ts d

/-- Behind a reader that leaves parentheses open, what follows has to close them. -/
theorem Safe.sound_bind (hp : Safe o p c) (hf : ∀ a d, Reads p c a d → Sound o (f a) d) :
    Sound o (p >>= f) c where
  safe := hp.bind fun a d hreads => (hf a d hreads).safe
  passes hreads := by
    obtain ⟨a, d, ha, hb⟩ := reads_bind.1 hreads
    exact (hf a d ha).passes hb

theorem Sound.bind (hp : Sound o p c) (hf : ∀ a d ts, o.Passes ts d → Sound o (f a) d) :
    Sound o (p >>= f) c :=
  hp.safe.sound_bind fun a d hreads => (hp.passes hreads).elim (hf a d)

theorem sound_pure (h : o.Passes ts c) : Sound o (pure a) c where
  safe _ _ hmem := by cases hmem
  passes hreads := by
    obtain ⟨-, rfl⟩ := reads_pure.1 hreads
    exact ⟨ts, h⟩

theorem sound_fail {e : ParseError} {h : e.place? = none} : Sound o (fail e h : ParseM α) c where
  safe _ _ hmem := by cases hmem
  passes hreads := absurd hreads not_reads_fail

theorem safe_unexpected {expected : Expected} (h : Allowed o (.missing expected) c) :
    Safe o (unexpected expected : ParseM α) c := by
  intro act v hmem
  cases List.mem_singleton.1 hmem
  exact h

theorem sound_unexpected {expected : Expected} (h : Allowed o (.missing expected) c) :
    Sound o (unexpected expected : ParseM α) c where
  safe := safe_unexpected h
  passes hreads := absurd hreads not_reads_unexpected

theorem safe_cursor {g : Cursor → ParseM α} (h : Safe o (g c) c) : Safe o (do g (← cursor)) c :=
  Safe.bind (fun _ _ hmem => by cases hmem) fun a d hreads => by
    obtain ⟨rfl, rfl⟩ := reads_cursor.1 hreads
    exact h

theorem sound_cursor {g : Cursor → ParseM α} (h : Sound o (g c) c) :
    Sound o (do g (← cursor)) c where
  safe := safe_cursor h.safe
  passes hreads := h.passes (reads_cursor_bind.1 hreads)

theorem safe_move {m : Move} (h : Allowed o (.move m) c) : Safe o (move m) c := by
  intro act v hmem
  cases List.mem_singleton.1 hmem
  exact h

theorem sound_move {m : Move} (h : Allowed o (.move m) c) (hp : Sound o p (m.apply c)) :
    Sound o (do move m; p) c :=
  (safe_move h).sound_bind fun a d hreads => by
    obtain rfl := reads_move.1 hreads
    exact hp

theorem sound_tooDeep : Sound o (tooDeep : ParseM α) c :=
  sound_cursor sound_fail

theorem sound_advance (hc : o.Within c) {n : Nat} (hn : n ≤ c.rest.length)
    (hp : Sound o p (c.advance n)) : Sound o (do advance n; p) c :=
  sound_move ⟨hc, hn⟩ hp

theorem sound_expect {kind : Token.Kind} {expected : Expected} (hc : o.Within c)
    (hmissing : c.sees kind = false → (Act.missing expected).Sound o c)
    (hp : ∀ t us, c.rest = t :: us → Sound o p (c.advance 1)) :
    Sound o (do expect kind expected; p) c := by
  have hnext (h : c.sees kind = true) : ∃ t us, c.rest = t :: us := by
    obtain ⟨text, us, hrest⟩ := startsWith_singleton.1 ((sees_eq c kind).symm.trans h)
    exact ⟨_, us, hrest⟩
  have hsafe : Safe o (expect kind expected) c := by
    refine safe_cursor ?_
    split
    · rename_i hsees
      obtain ⟨t, us, hrest⟩ := hnext hsees
      exact safe_move ⟨hc, show 1 ≤ c.rest.length by simp [hrest]⟩
    · rename_i hsees
      exact safe_unexpected ⟨hc, hmissing (by simpa using hsees)⟩
  refine hsafe.sound_bind fun _ d hreads => ?_
  obtain ⟨hsees, rfl⟩ := reads_expect.1 hreads
  obtain ⟨t, us, hrest⟩ := hnext hsees
  exact hp t us hrest

/-! ## Steady readers -/

/-- Where `room` more parentheses may be opened, all runs of the reader are sound. -/
def Steady (room : Nat) (p : ParseM α) : Prop :=
  ∀ ⦃o c ts⦄, o.depth + room = maxDepth → o.Passes ts c → Sound o p c

theorem Steady.bind (hp : Steady room p) (hf : ∀ a, Steady room (f a)) :
    Steady room (p >>= f) :=
  fun _ _ _ ho hc => (hp ho hc).bind fun a _ _ hd => hf a ho hd

theorem steady_pure : Steady room (pure a : ParseM α) := fun _ _ _ _ hc => sound_pure hc

theorem steady_cursor {g : Cursor → ParseM α} (h : ∀ c, Steady room (g c)) :
    Steady room (do g (← cursor)) :=
  fun _ c _ ho hc => sound_cursor (h c ho hc)

theorem within_of_passes (ho : o.depth + room = maxDepth) (hc : o.Passes ts c) : o.Within c :=
  hc.within (Nat.le.intro ho)

/-- A repetition is steady if its items are sound where it goes on. -/
theorem steady_many {more : Cursor → Bool}
    (h : ∀ ⦃o c ts⦄, o.depth + room = maxDepth → o.Passes ts c → more c = true → Sound o p c) :
    Steady room (many more p) := by
  have hfor (clock : Nat) : Steady room (manyFor more p clock) := by
    induction clock with
    | zero => exact steady_pure
    | succ clock ih =>
      intro o c ts ho hc
      refine sound_cursor ?_
      split
      · rename_i hmore
        exact (h ho hc hmore).bind fun _ _ _ hd => (ih ho hd).bind fun _ _ _ => sound_pure
      · exact sound_pure hc
  exact steady_cursor fun _ => hfor _

/-- Items with a token of the kind `separator` before each. -/
theorem steady_separated {separator : Token.Kind} (h : Steady room p) :
    Steady room (many (·.sees separator) (do advance 1; p)) := by
  refine steady_many fun o c ts ho hc hmore => ?_
  obtain ⟨text, us, hrest⟩ := startsWith_singleton.1 ((sees_eq c separator).symm.trans hmore)
  exact sound_advance (within_of_passes ho hc) (by simp [hrest])
    (h ho (hc.append (Cursor.passes_advance_one hrest)))

/-! ## The readers of the parser -/

/-- The readers for lists inside a parenthesis, where `room` parentheses may be opened. -/
def SteadyInside (room : Nat) (inner : Option (ParseM Expr)) : Prop :=
  ∀ list ∈ inner, ∃ r, room = r + 1 ∧ Steady r list

section

variable {inner : Option (ParseM Expr)} {list : ParseM Expr}

theorem steady_items (h : Steady room list) : Steady room (items list) :=
  h.bind fun _ => (steady_separated h).bind fun _ => steady_pure

theorem steady_bracketed (h : SteadyInside room inner) (mayBeEmpty : Bool) (closing : Expected)
    (hclosing : ∀ o c, (Act.missing closing).Sound o c) :
    Steady room (bracketed inner mayBeEmpty closing) := by
  intro o c ts ho hc
  cases inner with
  | none => exact sound_tooDeep
  | some list =>
    obtain ⟨r, rfl, hlist⟩ := h list rfl
    have henter : Allowed o (.move .enter) c :=
      ⟨within_of_passes ho hc, show c.depth < maxDepth by rw [hc.depth]; omega⟩
    let opened : Cursor := Move.enter.apply c
    have hopened : o.Within opened := henter.within_apply
    have hroom : opened.depth + r = maxDepth := by
      change c.depth + 1 + r = maxDepth
      rw [hc.depth]
      omega
    have hclosed (es : List Expr) {d : Cursor} {us : List Token} (hd : opened.Passes us d) :
        Sound o (do expect .closeParen closing; leave; return es) d := by
      have hwithin {vs : List Token} {e : Cursor} (he : opened.Passes vs e) : o.Within e :=
        hopened.trans (he.within hopened.le_maxDepth)
      refine sound_expect (hwithin hd) (fun _ => hclosing o d) fun t vs hrest => ?_
      have hall := hd.append (Cursor.passes_advance_one hrest)
      have hdepth : (d.advance 1).depth = c.depth + 1 := hall.depth
      have hpasses : c.Passes (us ++ [t]) (Move.leave.apply (d.advance 1)) :=
        ⟨hall.rest, hall.index, by rw [Move.apply, hdepth]; rfl⟩
      exact sound_move ⟨hwithin hall, show o.depth < _ by rw [hdepth, hc.depth]; omega⟩
        (sound_pure (hc.append hpasses))
    -- The contents are read with the parenthesis open, so they are sound from there and not from
    -- `o`.
    have hcontents {p : ParseM (List Expr)} (hp : Sound opened p opened) :
        Sound o (do let es ← p; expect .closeParen closing; leave; return es) opened := by
      refine Safe.sound_bind (fun act v hmem => (hp.safe act v hmem).of_within hopened)
        fun es d hreads => ?_
      obtain ⟨us, hus⟩ := hp.passes hreads
      exact hclosed es hus
    refine sound_move henter (sound_cursor ?_)
    split
    · exact hcontents (sound_pure (.nil opened))
    · exact hcontents (steady_items hlist hroom (.nil opened))

theorem steady_primary (h : SteadyInside room inner) : Steady room (primary inner) := by
  intro o c ts ho hc
  have hwithin : o.Within c := within_of_passes ho hc
  have hlength {t : Token} {us : List Token} (hrest : c.rest = t :: us) : 1 ≤ c.rest.length := by
    simp [hrest]
  refine sound_cursor ?_
  split
  · rename_i hrest
    exact sound_advance hwithin (hlength hrest)
      (sound_pure (hc.append (Cursor.passes_advance_one hrest)))
  · rename_i name us hrest
    have hname := hc.append (Cursor.passes_advance_one hrest)
    refine sound_advance hwithin (hlength hrest) ?_
    refine sound_expect (within_of_passes ho hname) (fun hsees => ⟨hsees, ts, name, ?_⟩)
      fun t vs hrest' => ?_
    · rw [hc.rest, hrest, Cursor.rest_advance, hrest]
      rfl
    · have hopening := hname.append (Cursor.passes_advance_one hrest')
      exact (steady_bracketed h true .closingCall (fun _ _ => trivial) ho hopening).bind
        fun _ _ _ => sound_pure
  · rename_i symbol opening us hrest
    have hsymbol := hc.append (Cursor.passes_advance_one hrest)
    refine sound_advance hwithin (hlength hrest) ?_
    split
    · rename_i hop
      refine sound_unexpected ⟨within_of_passes ho hsymbol, symbol, ?_, hop⟩
      simp [hc.rest, hrest]
    · have hrest' : (c.advance 1).rest = ⟨.openParen, opening⟩ :: us := by
        rw [Cursor.rest_advance, hrest]
        rfl
      have hopening := hsymbol.append (Cursor.passes_advance_one hrest')
      refine sound_advance (within_of_passes ho hsymbol) (by simp [hrest]) ?_
      refine (steady_bracketed h false .closingOperands (fun _ _ => trivial) ho hopening).bind
        fun es d vs hd => ?_
      split
      · exact sound_pure hd
      · exact sound_fail
  · rename_i opening us hrest
    refine sound_advance hwithin (hlength hrest) ?_
    have hopening := hc.append (Cursor.passes_advance_one hrest)
    refine (steady_bracketed h false .closingGroup (fun _ _ => trivial) ho hopening).bind
      fun es d vs hd => ?_
    split <;> exact sound_pure hd
  · exact sound_unexpected ⟨hwithin, trivial⟩

theorem steady_tags : Steady room tags := by
  intro o c ts ho hc
  refine sound_cursor ?_
  have hrest : c.rest = c.rest.takeWhile (·.kind == .selector) ++
      c.rest.dropWhile (·.kind == .selector) := List.takeWhile_append_dropWhile.symm
  exact sound_advance (within_of_passes ho hc) (List.takeWhile_prefix _).length_le
    (sound_pure (hc.append (Cursor.passes_advance hrest)))

theorem steady_term (h : SteadyInside room inner) : Steady room (term inner) :=
  (steady_primary h).bind fun _ => steady_tags.bind fun tags => by
    split <;> exact steady_pure

theorem steady_chainFor {term : ParseM Expr} {limit : Nat} (h : Steady room term) (clock : Nat)
    (chain : Chain) : Steady room (chainFor limit term clock chain) := by
  induction clock generalizing chain with
  | zero => exact steady_pure
  | succ clock ih =>
    intro o c ts ho hc
    refine sound_cursor ?_
    split
    · rename_i symbol us hrest
      split
      · rename_i hop
        refine sound_unexpected ⟨within_of_passes ho hc, symbol, ?_, hop⟩
        simp [hc.rest, hrest]
      · refine sound_advance (within_of_passes ho hc) (by simp [hrest]) ?_
        have hsymbol := hc.append (Cursor.passes_advance_one hrest)
        refine (h ho hsymbol).bind fun right d vs hd => ?_
        dsimp only
        split
        · exact sound_tooDeep
        · exact ih _ ho hd
    · exact sound_pure hc

theorem steady_chain {limit : Nat} (h : SteadyInside room inner) :
    Steady room (chain limit inner) :=
  (steady_term h).bind fun _ => steady_cursor fun _ =>
    (steady_chainFor (steady_term h) _ _).bind fun _ => steady_pure

theorem steady_juxtaposed {limit : Nat} (h : SteadyInside room inner) :
    Steady room (juxtaposed limit inner) := by
  refine (steady_chain h).bind fun _ =>
    (steady_many fun _ _ _ ho hc _ => steady_chain h ho hc).bind fun more => ?_
  split <;> exact steady_pure

end

theorem steady_list (room : Nat) : Steady room (list room) := by
  induction room with
  | zero => exact steady_juxtaposed fun _ h => nomatch h
  | succ room ih =>
    refine steady_juxtaposed fun inner h => ⟨room, rfl, ?_⟩
    obtain rfl := Option.mem_some_iff.1 h
    exact ih

theorem steady_statement (room : Nat) : Steady room (statement room) := by
  intro o c ts ho hc
  refine sound_cursor ?_
  split
  · rename_i name sign us hrest
    have hsign := hc.append (Cursor.passes_advance
      (show c.rest = [⟨.package, name⟩, ⟨.assign, sign⟩] ++ us from hrest))
    refine sound_advance (within_of_passes ho hc) (by simp [hrest]) ?_
    refine (steady_list room ho hsign).bind fun value d vs hd => ?_
    exact sound_move ⟨within_of_passes ho hd, trivial⟩
      (sound_pure ⟨hd.rest, hd.index, hd.depth⟩)
  · exact steady_list room ho hc

theorem steady_statements (room : Nat) : Steady room (statements room) :=
  (steady_statement room).bind fun _ =>
    (steady_separated (steady_statement room)).bind fun _ => steady_pure

/-- **The parser does only what may be done**, and closes the parentheses that it opens, from any
cursor that is not nested too deeply. -/
theorem sound_program (hc : c.depth ≤ maxDepth) : Sound c Parser.program c := by
  refine sound_cursor ?_
  split
  · exact sound_pure (.nil c)
  have hroom : c.depth + (maxDepth - c.depth) = maxDepth := by omega
  refine (steady_statements _ hroom (.nil c)).bind fun ss d ts hd => ?_
  have hwithin : c.Within d := hd.within hc
  refine sound_cursor ?_
  dsimp only
  by_cases hrest : d.rest ≠ []
  · rw [if_pos hrest]
    have hend : Safe c (unexpected .endOfStatement : ParseM PUnit) d :=
      safe_unexpected ⟨hwithin, trivial⟩
    exact hend.sound_bind fun _ _ hreads => absurd hreads not_reads_unexpected
  · rw [if_neg hrest]
    split
    · exact sound_fail
    · refine sound_move ⟨hwithin, trivial⟩ ?_
      split <;> exact sound_pure ⟨hd.rest, hd.index, hd.depth⟩

end ParseM

end ImportQuery.Expr
