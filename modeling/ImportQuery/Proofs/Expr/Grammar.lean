import ImportQuery.Expr.Cursor

/-!
# The grammar of queries as a relation

What the reader of queries is meant to accept, stated without a reader. `Derives limit d φ ts` says
that the tokens `ts` are a phrase `φ` where `d` parentheses are open: `φ` names the syntactic
category and carries the tree that the tokens stand for. At most `limit` parentheses are open
anywhere, and the tree of a chain of operators must fit into what is left of the limit.

`DerivesProgram` is the same for whole queries.
-/

namespace ImportQuery

/-- The first token has one of the given kinds. -/
def Token.startsWith (kinds : List Token.Kind) (ts : List Token) : Bool :=
  ts.head?.any fun t => kinds.contains t.kind

theorem SetOp.ofSymbol?_eq_some_iff {symbol : String} {op : SetOp} :
    SetOp.ofSymbol? symbol = some op ↔ symbol = op.symbol.toString := by
  unfold SetOp.ofSymbol?
  split
  · cases op <;> decide
  · cases op <;> decide
  · rename_i hplus hminus
    cases op with
    | union => exact ⟨fun h => (nomatch h), fun h => absurd h hplus⟩
    | difference => exact ⟨fun h => (nomatch h), fun h => absurd h hminus⟩

namespace Expr

open Token (startsWith)

/-- The tree of a chain: the first term, and the operators with their right operands, grouped to the
left. -/
def grouped (first : Expr) (rest : List (SetOp × Expr)) : Expr :=
  rest.foldl (fun left (op, right) => .binary op left right) first

/-- The syntactic categories below statements, with the trees that their phrases stand for. -/
inductive Phrase
  /-- A package, a call, an operator before its operands, or a group. -/
  | primary (e : Expr)
  /-- A parenthesis with lists in it. -/
  | bracket (es : List Expr)
  /-- Lists between commas. -/
  | items (es : List Expr)
  /-- A primary with its selectors. -/
  | term (e : Expr)
  /-- Terms, each behind an operator. -/
  | operands (rest : List (SetOp × Expr))
  /-- Terms between operators. -/
  | chain (e : Expr)
  /-- Chains that begin with no operator. -/
  | more (es : List Expr)
  /-- Chains without anything between them. -/
  | list (e : Expr)

/-- The phrases that tokens can be, inside `d` open parentheses. -/
inductive Derives (limit : Nat) : Nat → Phrase → List Token → Prop
  | package {d : Nat} {name : String} :
    Derives limit d (.primary (.package name)) [⟨.package, name⟩]
  | callNothing {d : Nat} {name opening closing : String} (hd : d < limit) :
    Derives limit d (.primary (.call name []))
      [⟨.function, name⟩, ⟨.openParen, opening⟩, ⟨.closeParen, closing⟩]
  | call {d : Nat} {name : String} {es : List Expr} {ts : List Token}
    (h : Derives limit d (.bracket es) ts) :
    Derives limit d (.primary (.call name es)) (⟨.function, name⟩ :: ts)
  | prefixed {d : Nat} {op : SetOp} {left right : Expr} {ts : List Token}
    (h : Derives limit d (.bracket [left, right]) ts) :
    Derives limit d (.primary (.binary op left right)) (⟨.operator, op.symbol.toString⟩ :: ts)
  | group {d : Nat} {e : Expr} {ts : List Token} (h : Derives limit d (.bracket [e]) ts) :
    Derives limit d (.primary e) ts
  | tuple {d : Nat} {es : List Expr} {ts : List Token} (h : Derives limit d (.bracket es) ts)
    (hes : 2 ≤ es.length) : Derives limit d (.primary (.call "" es)) ts
  | bracket {d : Nat} {opening closing : String} {es : List Expr} {ts : List Token}
    (hd : d < limit) (h : Derives limit (d + 1) (.items es) ts) :
    Derives limit d (.bracket es) (⟨.openParen, opening⟩ :: (ts ++ [⟨.closeParen, closing⟩]))
  | lastItem {d : Nat} {e : Expr} {ts : List Token} (h : Derives limit d (.list e) ts) :
    Derives limit d (.items [e]) ts
  | item {d : Nat} {e : Expr} {es : List Expr} {comma : String} {ts us : List Token}
    (h : Derives limit d (.list e) ts) (hs : Derives limit d (.items es) us) :
    Derives limit d (.items (e :: es)) (ts ++ ⟨.comma, comma⟩ :: us)
  | bare {d : Nat} {e : Expr} {ts : List Token} (h : Derives limit d (.primary e) ts) :
    Derives limit d (.term e) ts
  | selected {d : Nat} {e : Expr} {tags : List String} {ts : List Token}
    (h : Derives limit d (.primary e) ts) (htags : tags ≠ []) :
    Derives limit d (.term (.selected e tags)) (ts ++ tags.map (Token.mk .selector))
  | noOperand {d : Nat} : Derives limit d (.operands []) []
  | operand {d : Nat} {op : SetOp} {e : Expr} {rest : List (SetOp × Expr)} {ts us : List Token}
    (h : Derives limit d (.term e) ts) (hs : Derives limit d (.operands rest) us) :
    Derives limit d (.operands ((op, e) :: rest))
      (⟨.operator, op.symbol.toString⟩ :: (ts ++ us))
  | single {d : Nat} {e : Expr} {ts : List Token} (h : Derives limit d (.term e) ts) :
    Derives limit d (.chain e) ts
  | chain {d : Nat} {e : Expr} {rest : List (SetOp × Expr)} {ts us : List Token}
    (h : Derives limit d (.term e) ts) (hs : Derives limit d (.operands rest) us)
    (hrest : rest ≠ []) (hfits : d + (grouped e rest).height ≤ limit) :
    Derives limit d (.chain (grouped e rest)) (ts ++ us)
  | noMore {d : Nat} : Derives limit d (.more []) []
  | more {d : Nat} {e : Expr} {es : List Expr} {ts us : List Token}
    (h : Derives limit d (.chain e) ts) (hop : startsWith [.operator] ts = false)
    (hs : Derives limit d (.more es) us) : Derives limit d (.more (e :: es)) (ts ++ us)
  | alone {d : Nat} {e : Expr} {ts : List Token} (h : Derives limit d (.chain e) ts) :
    Derives limit d (.list e) ts
  | juxtaposed {d : Nat} {e : Expr} {es : List Expr} {ts us : List Token}
    (h : Derives limit d (.chain e) ts) (hs : Derives limit d (.more es) us) (hes : es ≠ []) :
    Derives limit d (.list (.call "" (e :: es))) (ts ++ us)

/-- The statements that tokens can be: an assignment or a list. -/
inductive DerivesStatement (limit d : Nat) : Expr → List Token → Prop
  | list {e : Expr} {ts : List Token} (h : Derives limit d (.list e) ts) :
    DerivesStatement limit d e ts
  | assign {name sign : String} {e : Expr} {ts : List Token} (h : Derives limit d (.list e) ts) :
    DerivesStatement limit d (.assign name e) (⟨.package, name⟩ :: ⟨.assign, sign⟩ :: ts)

/-- Phrases of one kind, with a token of the kind `separator` between neighbours. -/
inductive Separated {α : Type} (separator : Token.Kind) (G : α → List Token → Prop) :
    List α → List Token → Prop
  | last {a : α} {ts : List Token} (h : G a ts) : Separated separator G [a] ts
  | cons {a : α} {as : List α} {text : String} {ts us : List Token} (h : G a ts)
    (hs : Separated separator G as us) :
    Separated separator G (a :: as) (ts ++ ⟨separator, text⟩ :: us)

/-- The queries that tokens can be: one statement, which stands for itself, or several, of which all
but the last are assignments. -/
inductive DerivesProgram (limit : Nat) : Expr → List Token → Prop
  | single {e : Expr} {ts : List Token} (h : DerivesStatement limit 0 e ts) :
    DerivesProgram limit e ts
  | several {ss : List Expr} {ts : List Token}
    (h : Separated .semicolon (DerivesStatement limit 0) ss ts)
    (hss : 2 ≤ ss.length) (hassign : ∀ s ∈ ss.dropLast, s.isAssignment = true) :
    DerivesProgram limit (.program ss) ts

/-! ## First tokens -/

section

variable {kinds : List Token.Kind} {t : Token} {ts us : List Token}

@[simp] theorem startsWith_cons : startsWith kinds (t :: ts) = kinds.contains t.kind := rfl

theorem startsWith_union (kinds' : List Token.Kind) :
    startsWith (kinds ++ kinds') ts = (startsWith kinds ts || startsWith kinds' ts) := by
  cases ts with
  | nil => rfl
  | cons t ts =>
    simp only [startsWith_cons]
    rw [Bool.eq_iff_iff]
    simp

theorem startsWith_kinds_nil : startsWith [] ts = false := by
  cases ts <;> rfl

/-- The first token, if it is of the only kind that it may be of. -/
theorem startsWith_singleton {kind : Token.Kind} :
    startsWith [kind] ts = true ↔ ∃ text us, ts = ⟨kind, text⟩ :: us := by
  constructor
  · intro h
    cases ts with
    | nil => cases h
    | cons t ts =>
      obtain ⟨kind', text⟩ := t
      obtain rfl : kind' = kind := by simpa using h
      exact ⟨text, ts, rfl⟩
  · rintro ⟨text, us, rfl⟩
    simp

theorem ne_nil_of_startsWith (h : startsWith kinds ts = true) : ts ≠ [] := by
  rintro rfl
  cases h

/-- What comes behind some tokens does not change how they begin. -/
theorem startsWith_append (h : ts ≠ []) : startsWith kinds (ts ++ us) = startsWith kinds ts := by
  cases ts with
  | nil => exact absurd rfl h
  | cons => rfl

theorem startsWith_append_of (h : startsWith kinds ts = true) :
    startsWith kinds (ts ++ us) = true := by
  rw [startsWith_append (ne_nil_of_startsWith h), h]

theorem startsWith_mono {kinds' : List Token.Kind} (h : startsWith kinds ts = true)
    (hsub : kinds ⊆ kinds') : startsWith kinds' ts = true := by
  cases ts with
  | nil => cases h
  | cons t ts =>
    rw [startsWith_cons, List.contains_iff_mem] at h ⊢
    exact hsub h

theorem startsWith_of_disjoint {kinds' : List Token.Kind} (h : startsWith kinds ts = true)
    (hdisjoint : ∀ k ∈ kinds, k ∉ kinds') : startsWith kinds' ts = false := by
  cases ts with
  | nil => rfl
  | cons t ts =>
    rw [startsWith_cons, List.contains_iff_mem] at h
    simpa using hdisjoint _ h

/-- Behind tokens that begin with none of the kinds, the kinds are looked for in vain. -/
theorem startsWith_append_of_disjoint {kinds' : List Token.Kind}
    (h : ts = [] ∨ startsWith kinds ts = true) (hdisjoint : ∀ k ∈ kinds, k ∉ kinds')
    (hus : startsWith kinds' us = false) : startsWith kinds' (ts ++ us) = false := by
  obtain rfl | hts := h
  · exact hus
  · exact startsWith_of_disjoint (startsWith_append_of hts) hdisjoint

end

/-- The kinds of the tokens that a primary can begin with. -/
def primaryKinds : List Token.Kind := [.package, .function, .openParen, .operator]

/-- The kinds of the tokens that a chain behind another one can begin with. -/
def moreKinds : List Token.Kind := [.package, .function, .openParen]

/-- How the tokens of a phrase can begin. -/
def Phrase.Begins : Phrase → List Token → Prop
  | bracket _, ts => startsWith [.openParen] ts = true
  | operands _, ts => ts = [] ∨ startsWith [.operator] ts = true
  | more es, ts => (es = [] ∧ ts = []) ∨ startsWith moreKinds ts = true
  | _, ts => startsWith primaryKinds ts = true

theorem Derives.begins {limit d : Nat} {φ : Phrase} {ts : List Token}
    (h : Derives limit d φ ts) : φ.Begins ts := by
  induction h with
  | package | callNothing | call | prefixed | bracket => rfl
  | group _ ih | tuple _ _ ih => exact startsWith_mono ih (by decide)
  | lastItem _ ih | bare _ ih | single _ ih | alone _ ih => exact ih
  | item _ _ ih _ | selected _ _ ih | chain _ _ _ _ ih _ | juxtaposed _ _ _ ih _ =>
    exact startsWith_append_of ih
  | noOperand => exact .inl rfl
  | noMore => exact .inl ⟨rfl, rfl⟩
  | operand => exact .inr rfl
  | @more _ _ _ ts _ _ hop _ ih _ =>
    have hmore : startsWith moreKinds ts = true := by
      cases ts with
      | nil => cases ih
      | cons t ts => simp_all [Phrase.Begins, primaryKinds, moreKinds]
    exact .inr (startsWith_append_of hmore)

theorem Derives.ne_nil_of_list {limit d : Nat} {e : Expr} {ts : List Token}
    (h : Derives limit d (.list e) ts) : ts ≠ [] :=
  ne_nil_of_startsWith h.begins

theorem DerivesStatement.ne_nil {limit d : Nat} {e : Expr} {ts : List Token}
    (h : DerivesStatement limit d e ts) : ts ≠ [] := by
  cases h with
  | list h => exact h.ne_nil_of_list
  | assign => simp

theorem Separated.length_pos {α : Type} {separator : Token.Kind} {G : α → List Token → Prop}
    {as : List α} {ts : List Token} (h : Separated separator G as ts) : 0 < as.length := by
  cases h <;> simp

theorem Separated.ne_nil {α : Type} {separator : Token.Kind} {G : α → List Token → Prop}
    (hG : ∀ a ts, G a ts → ts ≠ []) {as : List α} {ts : List Token}
    (h : Separated separator G as ts) : ts ≠ [] := by
  cases h with
  | last h => exact hG _ _ h
  | cons => simp

/-- Assignment signs and semicolons belong to statements and programs only. -/
theorem Derives.kind_ne {limit d : Nat} {φ : Phrase} {ts : List Token}
    (h : Derives limit d φ ts) : ∀ t ∈ ts, t.kind ≠ .assign ∧ t.kind ≠ .semicolon := by
  induction h with
  | group _ ih | tuple _ _ ih | lastItem _ ih | bare _ ih | single _ ih | alone _ ih => exact ih
  | package | callNothing | noOperand | noMore => simp
  | call _ ih | prefixed _ ih => simpa using ih
  | bracket _ _ ih =>
    intro t ht
    rcases List.mem_cons.1 ht with rfl | ht
    · simp
    · rcases List.mem_append.1 ht with ht | ht
      · exact ih t ht
      · obtain rfl := List.mem_singleton.1 ht
        simp
  | item _ _ ih ih' =>
    intro t ht
    rcases List.mem_append.1 ht with ht | ht
    · exact ih t ht
    · rcases List.mem_cons.1 ht with rfl | ht
      · simp
      · exact ih' t ht
  | operand _ _ ih ih' =>
    intro t ht
    rcases List.mem_cons.1 ht with rfl | ht
    · simp
    · exact (List.mem_append.1 ht).elim (ih t) (ih' t)
  | selected _ _ ih =>
    intro t ht
    rcases List.mem_append.1 ht with ht | ht
    · exact ih t ht
    · obtain ⟨tag, -, rfl⟩ := List.mem_map.1 ht
      simp
  | chain _ _ _ _ ih ih' | more _ _ _ ih ih' | juxtaposed _ _ _ ih ih' =>
    intro t ht
    exact (List.mem_append.1 ht).elim (ih t) (ih' t)

end Expr

end ImportQuery
