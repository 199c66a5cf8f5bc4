import ImportQuery.Proofs.Expr.Acceptance
import ImportQuery.Proofs.Expr.Forms
import ImportQuery.Proofs.Expr.Running

/-!
# Reading past what cannot be told apart

A reader looks at one token to decide how to go on, and at two where an operator or the first word
of a statement comes next. So if the tokens that it reads agree for a while with the tokens of a
phrase, it goes on as it does on that phrase at least as long as they agree, and over one more
token if they agree in that one too and it is no operator. An error that points at a token then
points behind that.

* `Fork` : what is read and what the phrase has in its place, where they part.
* `Near` : how far reading has come in both.
* `Tracks` : readers that follow a phrase up to the fork.
* `follows_program` : programs.
-/

namespace ImportQuery.Expr

open ParseM ImportQuery.Expr.Parser
open Token (startsWith)

/-! ## Forks -/

/-- The tokens `x` are read where a phrase has `w`: the same, or others behind the same first token,
which is no operator. -/
inductive Fork : List Token → List Token → Prop
  | same {x : List Token} : Fork x x
  | behind {t : Token} {x w : List Token} (ht : t.kind ≠ .operator) : Fork (t :: x) (t :: w)

/-- The tokens `a` are read where a phrase has `g`, up to the fork and behind it. -/
def Along (x w a g : List Token) : Prop := ∃ s, a = s ++ x ∧ g = s ++ w

/-- The tokens `a` are read where a phrase has `g`, or reading has passed the fork. -/
def Near (x w a g : List Token) : Prop := Along x w a g ∨ a.length < x.length

section

variable {x w a g : List Token} {t : Token}

theorem Along.startsWith_eq (h : Along x w a g) (hfork : Fork x w) (kinds : List Token.Kind) :
    startsWith kinds a = startsWith kinds g := by
  obtain ⟨s, rfl, rfl⟩ := h
  cases s with
  | nil => cases hfork <;> rfl
  | cons => rfl

/-- The next token of the phrase is read next, too. -/
theorem Along.exists_cons (h : Along x w a (t :: g)) (hfork : Fork x w) :
    ∃ b, a = t :: b ∧ Near x w b g := by
  obtain ⟨s, rfl, hs⟩ := h
  cases s with
  | nil =>
    obtain rfl : t :: g = w := hs
    cases hfork with
    | same => exact ⟨g, rfl, .inr (by simp)⟩
    | behind => exact ⟨_, rfl, .inr (by simp)⟩
  | cons t' s =>
    obtain ⟨rfl, rfl⟩ := List.cons.inj hs
    exact ⟨s ++ x, rfl, .inl ⟨s, rfl, rfl⟩⟩

/-- The first of the tokens is the first one at the fork, or it stands before the fork. -/
theorem Along.of_cons (h : Along x w a (t :: g)) : a = x ∨ ∃ b, a = t :: b ∧ Along x w b g := by
  obtain ⟨s, rfl, hs⟩ := h
  cases s with
  | nil => exact .inl rfl
  | cons t' s =>
    obtain ⟨rfl, rfl⟩ := List.cons.inj hs
    exact .inr ⟨s ++ x, rfl, s, rfl, rfl⟩

theorem Along.of_cons_left (h : Along x w (t :: a) g) :
    t :: a = x ∨ ∃ b, g = t :: b ∧ Along x w a b := by
  obtain ⟨s, hs, rfl⟩ := h
  cases s with
  | nil => exact .inl hs
  | cons t' s =>
    obtain ⟨rfl, rfl⟩ := List.cons.inj hs
    exact .inr ⟨s ++ w, rfl, s, rfl, rfl⟩

/-- Behind an operator of the phrase, one more token is the same. -/
theorem Along.exists_cons_cons {t' : Token} (h : Along x w a (t :: t' :: g)) (hfork : Fork x w)
    (ht : t.kind = .operator) : ∃ b, a = t :: t' :: b ∧ Near x w b g := by
  obtain rfl | ⟨b, rfl, hb⟩ := h.of_cons
  · obtain ⟨s, hs, hs'⟩ := h
    obtain rfl : s = [] := by simpa using hs
    rw [List.nil_append] at hs'
    subst hs'
    cases hfork with
    | same => exact ⟨g, rfl, .inr (Nat.lt_add_of_pos_right (by decide : 0 < 2))⟩
    | behind hne => exact absurd ht hne
  · obtain ⟨b, rfl, hnear⟩ := hb.exists_cons hfork
    exact ⟨b, rfl, hnear⟩

end

/-! ## Readers that follow a phrase -/

/-- The reader leaves what the phrase has left, `us`, or passes the fork; and so do its errors that
point at a token. -/
abbrev Follows {α : Type} (x w : List Token) (p : ParseM α) (c : Cursor) (us : List Token) : Prop :=
  Ensures p c (fun c' => Near x w c'.rest us)
    (fun e c' => e.place? = none ∨ c'.rest.length < x.length)

/-- The reader follows what `G` says, if none of `ends` comes behind it. -/
def Tracks {α : Type} (x w : List Token) (p : ParseM α) (G : List Token → Prop)
    (ends : List Token.Kind) : Prop :=
  ∀ ⦃c : Cursor⦄ ⦃ts us : List Token⦄, G ts → Along x w c.rest (ts ++ us) →
    startsWith ends us = false → Follows x w p c us

section

variable {α : Type} {x w : List Token} {p : ParseM α} {c : Cursor} {us : List Token}
  {G : List Token → Prop} {ends : List Token.Kind}

theorem follows_tooDeep : Follows x w (tooDeep : ParseM α) c us :=
  ensures_cursor_bind (ensures_fail (.inl rfl))

/-- Once the fork is passed, nothing brings it back. -/
theorem follows_past (p : ParseM α) (hc : c.rest.length < x.length) : Follows x w p c us where
  reads hreads := .inr (Nat.lt_of_le_of_lt hreads.rest_suffix.length_le hc)
  fails hfails := .inr (Nat.lt_of_le_of_lt hfails.rest_suffix.length_le hc)

theorem Tracks.follows {ts : List Token} (h : Tracks x w p G ends) (hts : G ts)
    (hnear : Near x w c.rest (ts ++ us)) (hend : startsWith ends us = false) :
    Follows x w p c us := by
  obtain halong | hpast := hnear
  · exact h hts halong hend
  · exact follows_past p hpast

end

variable {x w : List Token} (hfork : Fork x w)

include hfork

theorem follows_expect {kind : Token.Kind} {text : String} {expected : Expected} {c : Cursor}
    {us : List Token} (h : Near x w c.rest (⟨kind, text⟩ :: us)) :
    Follows x w (expect kind expected) c us := by
  obtain halong | hpast := h
  · obtain ⟨b, hrest, hb⟩ := halong.exists_cons hfork
    have hsees : c.sees kind = true := by rw [sees_eq, hrest]; simp
    refine ensures_cursor_bind ?_
    rw [if_pos hsees]
    exact ensures_move (by simpa [hrest] using hb)
  · exact follows_past _ hpast

/-! ## Rows -/

section

variable {α : Type} {item : ParseM α} {G : List Token → Prop} {ends : List Token.Kind}
  {separator : Token.Kind} (h : Tracks x w item G ends)
  (hproductive : Productive (·.sees separator) (do advance 1; item)) (hk : separator ∉ ends)

include h hproductive hk

theorem tracks_rest : Tracks x w (many (·.sees separator) (do advance 1; item))
    (RowRest separator G) ([separator] ++ ends) := by
  intro c ts us hts halong hend
  induction hn : c.rest.length using Nat.strongRecOn generalizing c ts with
  | ind n ih =>
    have hsees : c.sees separator = startsWith [separator] (ts ++ us) :=
      (sees_eq c separator).trans (halong.startsWith_eq hfork _)
    obtain ⟨hsep, hus⟩ : startsWith [separator] us = false ∧ startsWith ends us = false := by
      simpa only [startsWith_union, Bool.or_eq_false_iff] using hend
    obtain rfl | ⟨text, ts, rfl, hrow⟩ := hts
    · exact hproductive.ensures_many_end (hsees.trans hsep) (.inl halong)
    · obtain ⟨ts₁, ts₂, rfl, hts₁, hts₂⟩ := hrow.exists_append
      obtain ⟨b, hrest, hb⟩ := halong.exists_cons hfork
      have hmore : c.sees separator = true := by simp [hsees]
      have hend' : startsWith ends (ts₂ ++ us) = false :=
        startsWith_append_of_disjoint hts₂.begins (by simpa using hk) hus
      have hitem : Follows x w (do advance 1; item) c (ts₂ ++ us) :=
        ensures_advance_bind (h.follows hts₁ (by simpa [hrest] using hb) hend')
      refine hproductive.ensures_many_more hmore hitem fun a d hreads hnear => ?_
      obtain halong' | hpast := hnear
      · have hlt := hproductive.rest_length_lt hmore hreads
        exact ih _ (by omega) hts₂ halong' rfl
      · exact follows_past _ hpast

theorem tracks_separated :
    Tracks x w (separated separator item) (Row separator G) ([separator] ++ ends) := by
  intro c ts us hts halong hend
  have hus : startsWith ends us = false := by
    rw [startsWith_union, Bool.or_eq_false_iff] at hend
    exact hend.2
  obtain ⟨ts₁, ts₂, rfl, hts₁, hts₂⟩ := hts.exists_append
  have hend' : startsWith ends (ts₂ ++ us) = false :=
    startsWith_append_of_disjoint hts₂.begins (by simpa using hk) hus
  rw [List.append_assoc] at halong
  refine (h hts₁ halong hend').bind fun a d _ hnear => ?_
  exact ((tracks_rest hfork h hproductive hk).follows hts₂ hnear hend).bind
    fun _ _ _ hnear => ensures_pure hnear

end

/-! ## Parentheses -/

section

variable {limit d room : Nat} {inner : Option (ParseM Expr)}

/-- What stands behind an opening parenthesis, up to its end, or its end if that is allowed. -/
def Contents (mayBeEmpty : Bool) (ts : List Token) : Prop :=
  Forms .contents ts ∨ mayBeEmpty = true ∧ ∃ closing, ts = [⟨.closeParen, closing⟩]

theorem follows_closed {closing : Expected} {text : String} {es : List Expr} {c : Cursor}
    {us : List Token} (h : Near x w c.rest (⟨.closeParen, text⟩ :: us)) :
    Follows x w (do expect .closeParen closing; leave; return es : ParseM (List Expr)) c us :=
  (follows_expect hfork h).bind fun _ _ _ hnear =>
    have hleave : Follows x w leave _ us := ensures_move hnear
    hleave.bind fun _ _ _ hnear => ensures_pure hnear

variable (h : RecognizesInside limit d inner)
  (hinner : ∀ list ∈ inner, Tracks x w list (Forms .list) listKinds)

include h hinner

theorem tracks_bracketed (mayBeEmpty : Bool) (closing : Expected) :
    Tracks x w (bracketed inner mayBeEmpty closing) (Contents mayBeEmpty) [] := by
  intro c ts us hts halong _
  cases inner with
  | none => exact follows_tooDeep
  | some list =>
    obtain ⟨-, hlist⟩ := h
    have hsees : c.deeper.sees .closeParen = startsWith [.closeParen] (ts ++ us) :=
      (sees_eq c.deeper .closeParen).trans (halong.startsWith_eq hfork _)
    have henter : Follows x w enter c (ts ++ us) := ensures_move (.inl halong)
    refine henter.bind fun _ d' hd' _ => ?_
    obtain rfl : d' = c.deeper := reads_enter.1 hd'
    refine ensures_cursor_bind ?_
    dsimp only
    obtain hcontents | ⟨hempty, text, rfl⟩ := hts
    · cases hcontents with
      | @contents text ts hitems =>
        have hopen : c.deeper.sees .closeParen = false := by
          rw [hsees]
          exact startsWith_of_disjoint
            (startsWith_append_of (startsWith_append_of hitems.begins)) (by decide)
        rw [hopen, Bool.and_false, if_neg (by simp)]
        rw [List.append_assoc] at halong
        have hread : Follows x w (items list) c.deeper (⟨.closeParen, text⟩ :: us) :=
          (tracks_separated hfork (hinner list rfl) hlist.productive (by decide))
            (forms_items_iff.1 hitems) halong rfl
        exact hread.bind fun _ _ _ => follows_closed hfork
    · have hopen : c.deeper.sees .closeParen = true := hsees
      rw [hopen, hempty, if_pos (by rfl)]
      have hread : Follows x w (pure [] : ParseM (List Expr)) c.deeper
          (⟨.closeParen, text⟩ :: us) :=
        ensures_pure (.inl halong)
      exact hread.bind fun _ _ _ => follows_closed hfork

/-! ## Primaries and terms -/

theorem tracks_primary : Tracks x w (primary inner) (Forms .primary) [] := by
  intro c ts us hts halong hend
  have hcall {c : Cursor} {name opening : String} {ts : List Token} (hts : Contents true ts)
      (halong : Along x w c.rest (⟨.function, name⟩ :: ⟨.openParen, opening⟩ :: (ts ++ us))) :
      Follows x w (primary inner) c us := by
    obtain ⟨b, hrest, hb⟩ := halong.exists_cons hfork
    refine ensures_cursor_bind ?_
    rw [hrest]
    refine ensures_advance_bind ?_
    refine (follows_expect hfork (by simpa [hrest] using hb)).bind fun _ d' _ hnear => ?_
    exact ((tracks_bracketed hfork h hinner true _).follows hts hnear hend).bind
      fun _ _ _ hnear => ensures_pure hnear
  cases hts with
  | package =>
    obtain ⟨b, hrest, hb⟩ := halong.exists_cons hfork
    refine ensures_cursor_bind ?_
    rw [hrest]
    exact ensures_advance_bind (ensures_pure (by simpa [hrest] using hb))
  | callNothing => exact hcall (.inr ⟨rfl, _, rfl⟩) halong
  | call hcontents => exact hcall (.inl hcontents) halong
  | prefixed hcontents =>
    obtain ⟨b, hrest, hb⟩ := halong.exists_cons_cons hfork rfl
    refine ensures_cursor_bind ?_
    rw [hrest]
    dsimp only
    rw [SetOp.ofSymbol?_eq_some_iff.2 rfl]
    refine ensures_advance_bind (ensures_advance_bind ?_)
    refine ((tracks_bracketed hfork h hinner false _).follows (.inl hcontents)
      (by simpa [hrest] using hb) hend).bind fun _ _ _ hnear => ?_
    split
    · exact ensures_pure hnear
    · exact ensures_fail (.inl rfl)
  | group hcontents =>
    obtain ⟨b, hrest, hb⟩ := halong.exists_cons hfork
    refine ensures_cursor_bind ?_
    rw [hrest]
    refine ensures_advance_bind ?_
    refine ((tracks_bracketed hfork h hinner false _).follows (.inl hcontents)
      (by simpa [hrest] using hb) hend).bind fun _ _ _ hnear => ?_
    split <;> exact ensures_pure hnear

omit h hinner in
theorem near_dropWhile_selectors {chain : List String} {a us : List Token}
    (hnear : Near x w a (chain.map (Token.mk .selector) ++ us))
    (hus : startsWith [.selector] us = false) :
    Near x w (a.dropWhile (·.kind == .selector)) us := by
  induction chain generalizing a with
  | nil =>
    obtain halong | hpast := hnear
    · have hsees := (halong.startsWith_eq hfork [.selector]).trans hus
      cases a with
      | nil => exact .inl halong
      | cons t a =>
        have ht : (t.kind == .selector) = false := by simpa using hsees
        rw [List.dropWhile_cons, ht, if_neg (by simp)]
        exact .inl halong
    · exact .inr (Nat.lt_of_le_of_lt (List.dropWhile_suffix _).length_le hpast)
  | cons tag chain ih =>
    obtain halong | hpast := hnear
    · obtain ⟨b, rfl, hb⟩ := halong.exists_cons hfork
      rw [List.dropWhile_cons, if_pos (by rfl)]
      exact ih hb
    · exact .inr (Nat.lt_of_le_of_lt (List.dropWhile_suffix _).length_le hpast)

omit h hinner in
theorem tracks_tags : Tracks x w tags
    (fun ts => ∃ chain : List String, ts = chain.map (Token.mk .selector)) [.selector] := by
  intro c ts us hts halong hend
  obtain ⟨chain, rfl⟩ := hts
  have hdrop : c.rest.drop (c.rest.takeWhile (·.kind == .selector)).length =
      c.rest.dropWhile (·.kind == .selector) := by
    calc c.rest.drop (c.rest.takeWhile (·.kind == .selector)).length
        = (c.rest.takeWhile (·.kind == .selector) ++ c.rest.dropWhile (·.kind == .selector)).drop
            (c.rest.takeWhile (·.kind == .selector)).length := by
          rw [List.takeWhile_append_dropWhile]
      _ = c.rest.dropWhile (·.kind == .selector) := List.drop_left
  refine ensures_cursor_bind (ensures_advance_bind (ensures_pure ?_))
  rw [Cursor.rest_advance, hdrop]
  exact near_dropWhile_selectors hfork (.inl halong) hend

theorem tracks_term : Tracks x w (term inner) (Forms .term) [.selector] := by
  intro c ts us hts halong hend
  cases hts with
  | @term ts hts chain =>
    rw [List.append_assoc] at halong
    refine (tracks_primary hfork h hinner hts halong startsWith_kinds_nil).bind
      fun _ _ _ hnear => ?_
    refine ((tracks_tags hfork).follows ⟨chain, rfl⟩ hnear hend).bind fun _ _ _ hnear => ?_
    split <;> exact ensures_pure hnear

/-! ## Chains -/

theorem follows_chainFor {clock : Nat} {chain : Chain} {c : Cursor} {ts us : List Token}
    (hclock : c.rest.length ≤ clock) (hts : Forms .operands ts)
    (hnear : Near x w c.rest (ts ++ us)) (hend : startsWith [.selector, .operator] us = false) :
    Follows x w (chainFor room (term inner) clock chain) c us := by
  have hterm := tracks_term hfork h hinner
  obtain ⟨hsel, hop⟩ := startsWith_termKinds_eq_false.1 hend
  induction clock generalizing c ts chain with
  | zero =>
    obtain halong | hpast := hnear
    · have hnil : c.rest = [] := List.length_eq_zero_iff.1 (Nat.le_zero.1 hclock)
      cases hts with
      | noOperand => exact ensures_pure (.inl halong)
      | operand =>
        obtain ⟨_, hrest, -⟩ := halong.exists_cons hfork
        rw [hnil] at hrest
        cases hrest
    · exact ensures_pure (.inr hpast)
  | succ clock ih =>
    obtain halong | hpast := hnear
    · refine ensures_cursor_bind ?_
      cases hts with
      | noOperand =>
        have hsees := (halong.startsWith_eq hfork [.operator]).trans hop
        split
        · rename_i hrest
          rw [hrest] at hsees
          cases hsees
        · exact ensures_pure (.inl halong)
      | @operand op ts us' hts hs =>
        obtain ⟨b, hrest, hb⟩ := halong.exists_cons hfork
        rw [hrest]
        dsimp only
        rw [SetOp.ofSymbol?_eq_some_iff.2 rfl]
        have hend' : startsWith [.selector] (us' ++ us) = false :=
          startsWith_append_of_disjoint hs.begins (by decide) hsel
        have hnear : Near x w (c.advance 1).rest (ts ++ (us' ++ us)) := by
          simpa [hrest] using hb
        refine ensures_advance_bind ((hterm.follows hts hnear hend').bind
          fun right d' hreads hnear => ?_)
        split
        · exact follows_tooDeep
        · refine ih ?_ hs hnear
          have hlength := hreads.rest_suffix.length_le
          rw [Cursor.rest_advance, hrest] at hlength
          rw [hrest] at hclock
          simp only [List.drop_succ_cons, List.drop_zero, List.length_cons] at hlength hclock
          omega
    · exact follows_past _ hpast

theorem tracks_chain :
    Tracks x w (Parser.chain room inner) (Forms .chain) [.selector, .operator] := by
  intro c ts us hts halong hend
  cases hts with
  | @chain ts us' hts hs =>
    have hend' : startsWith [.selector] (us' ++ us) = false :=
      startsWith_append_of_disjoint hs.begins (by decide) (startsWith_termKinds_eq_false.1 hend).1
    rw [List.append_assoc] at halong
    refine (tracks_term hfork h hinner hts halong hend').bind fun _ _ _ hnear => ?_
    refine ensures_cursor_bind ?_
    exact (follows_chainFor hfork h hinner (Nat.le_refl _) hs hnear hend).bind
      fun _ _ _ hnear => ensures_pure hnear

/-! ## Lists -/

variable (hroom : d + room = limit)

include hroom

theorem tracks_more :
    Tracks x w (many startsChain (Parser.chain room inner)) (Forms .more) listKinds := by
  intro c ts us hts halong hend
  have hchain : Tracks x w (Parser.chain room inner) (Forms .chain) [.selector, .operator] :=
    tracks_chain hfork h hinner
  have hproductive :=
    productive_chain (recognizes_chain hroom (recognizes_term (recognizes_primary h)))
  obtain ⟨hstops, hmore⟩ : startsWith [.selector, .operator] us = false ∧
      startsWith moreKinds us = false := by
    simpa only [listKinds, startsWith_union, Bool.or_eq_false_iff] using hend
  induction hn : c.rest.length using Nat.strongRecOn generalizing c ts with
  | ind n ih =>
    have hsees : startsChain c = startsWith moreKinds (ts ++ us) :=
      (startsChain_eq c).trans (halong.startsWith_eq hfork _)
    have hbegins := hts.begins
    cases hts with
    | noMore => exact hproductive.ensures_many_end (hsees.trans hmore) (.inl halong)
    | @more ts us' hts hop hs =>
      have hstarts : startsWith moreKinds (ts ++ us') = true := by
        refine hbegins.resolve_left fun hnil => ?_
        exact ne_nil_of_startsWith hts.begins (List.append_eq_nil_iff.1 hnil).1
      have hend' : startsWith [.selector, .operator] (us' ++ us) = false :=
        startsWith_append_of_disjoint hs.begins (by decide) hstops
      rw [List.append_assoc] at halong
      refine hproductive.ensures_many_more (hsees.trans (startsWith_append_of hstarts))
        (hchain hts halong hend') fun a d' hreads hnear => ?_
      obtain halong' | hpast := hnear
      · have hlt := hproductive.rest_length_lt (hsees.trans (startsWith_append_of hstarts)) hreads
        exact ih _ (by omega) hs halong' rfl
      · exact follows_past _ hpast

theorem tracks_juxtaposed : Tracks x w (juxtaposed room inner) (Forms .list) listKinds := by
  intro c ts us hts halong hend
  cases hts with
  | @list ts us' hts hs =>
    have hstops : startsWith [.selector, .operator] us = false := by
      rw [listKinds, startsWith_union, Bool.or_eq_false_iff] at hend
      exact hend.1
    have hend' : startsWith [.selector, .operator] (us' ++ us) = false :=
      startsWith_append_of_disjoint hs.begins (by decide) hstops
    rw [List.append_assoc] at halong
    refine (tracks_chain hfork h hinner hts halong hend').bind fun _ _ _ hnear => ?_
    refine ((tracks_more hfork h hinner hroom).follows hs hnear hend).bind fun _ _ _ hnear => ?_
    split <;> exact ensures_pure hnear

end

section

variable {limit d room : Nat}

theorem tracks_list (hroom : d + room = limit) :
    Tracks x w (Parser.list room) (Forms .list) listKinds := by
  induction room generalizing d with
  | zero =>
    rw [list_eq]
    exact tracks_juxtaposed hfork (recognizesInside hroom) (by simp [inside]) hroom
  | succ room ih =>
    rw [list_eq]
    refine tracks_juxtaposed hfork (recognizesInside hroom) (fun list hlist => ?_) hroom
    obtain rfl := Option.some.inj hlist
    exact ih (d := d + 1) (by omega)

/-! ## Statements and programs -/

omit hfork in
/-- A word where the fork is passes it, whether it is read as the name of an assignment or not. -/
theorem follows_statement_package (hroom : d + room = limit) {name : String}
    {c : Cursor} {rest us : List Token} (hx : c.rest = x)
    (hrest : c.rest = ⟨.package, name⟩ :: rest) :
    Follows x w (Parser.statement room) c us := by
  refine ensures_cursor_bind ?_
  split
  · rename_i name sign ts htokens
    refine ensures_advance_bind ?_
    refine follows_past _ ?_
    rw [Cursor.rest_advance, ← hx, htokens]
    simp only [List.drop_succ_cons, List.drop_zero, List.length_cons]
    omega
  · -- As a list, the word alone is complete, and reading it leads behind it.
    have hword : Fork x [⟨.package, name⟩] := by
      rw [← hx, hrest]
      exact .behind (by simp)
    have halong : Along x [⟨.package, name⟩] c.rest ([⟨.package, name⟩] ++ []) := ⟨[], hx, rfl⟩
    have hlist := tracks_list hword hroom (forms_word name) halong rfl
    refine ⟨fun hreads => ?_, hlist.fails⟩
    obtain ⟨s, -, hs⟩ | hpast := hlist.reads hreads
    · simp at hs
    · exact .inr hpast

theorem tracks_statement (hroom : d + room = limit) :
    Tracks x w (Parser.statement room) (Forms .statement) (listKinds ++ [.assign]) := by
  intro c ts us hts halong hend
  obtain ⟨hlist, hassign⟩ : startsWith listKinds us = false ∧
      startsWith [.assign] us = false := by
    simpa only [startsWith_union, Bool.or_eq_false_iff] using hend
  cases hts with
  | bare hts =>
    by_cases hsign : ∃ name sign rest, c.rest = ⟨.package, name⟩ :: ⟨.assign, sign⟩ :: rest
    · obtain ⟨name, sign, rest, hrest⟩ := hsign
      rw [hrest] at halong
      obtain hx | ⟨b, hb, halong'⟩ := halong.of_cons_left
      · exact follows_statement_package hroom (hrest.trans hx) hrest
      · have hsign := (halong'.startsWith_eq hfork [.assign]).symm.trans
          (by simp : startsWith [.assign] (⟨.assign, sign⟩ :: rest) = true)
        rw [hts.startsWith_assign_tail hassign hb] at hsign
        cases hsign
    · refine ensures_cursor_bind ?_
      split
      · rename_i hrest
        exact absurd ⟨_, _, _, hrest⟩ hsign
      · exact tracks_list hfork hroom hts halong hlist
  | @assign name sign ts hts =>
    obtain hx | ⟨b, hrest, halong'⟩ := Along.of_cons halong
    · obtain ⟨rest, hrest, -⟩ := halong.exists_cons hfork
      exact follows_statement_package hroom hx hrest
    · obtain ⟨b, rfl, hnear⟩ := halong'.exists_cons hfork
      refine ensures_cursor_bind ?_
      rw [hrest]
      refine ensures_advance_bind ?_
      refine ((tracks_list hfork hroom).follows hts (by simpa [hrest] using hnear) hlist).bind
        fun _ d' _ hnear => ?_
      have hreport : Follows x w (report (.readAssignment name)) d' us := ensures_move hnear
      exact hreport.bind fun _ _ _ hnear => ensures_pure hnear

end

/-- Where the tokens begin like a program, an error points at a token behind the fork, if at any. -/
theorem follows_program {c c' : Cursor} {e : ParseError} {ts : List Token}
    (hts : Forms .program ts) (halong : Along x w c.rest ts)
    (hfails : Fails Parser.program c e c') : e.place? = none ∨ c'.rest.length < x.length := by
  have hroom : c.depth + (maxDepth - c.depth) = max c.depth maxDepth := by omega
  rw [← List.append_nil ts] at halong
  have hstatements : Follows x w (statements (maxDepth - c.depth)) c [] :=
    (tracks_separated hfork (tracks_statement hfork hroom) (recognizes_statement hroom).productive
      (by decide)) (forms_program_iff.1 hts) halong rfl
  obtain hfails | ⟨ss, hss, hrest, -⟩ | hplace := fails_program hfails
  · exact hstatements.fails hfails
  · obtain ⟨s, hc', hs⟩ | hpast := hstatements.reads hss
    · obtain ⟨rfl, rfl⟩ := List.append_eq_nil_iff.1 hs.symm
      cases hfork
      exact absurd hc' hrest
    · exact .inr hpast
  · exact .inl hplace

end ImportQuery.Expr
