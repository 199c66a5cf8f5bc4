import ImportQuery.Proofs.Expr.Brackets

/-!
# The grammar without its side conditions

Which tokens form a program if only their order counts: how deeply parentheses nest, how many
operands stand behind an operator and which statements are assignments does not matter here. A
syntax error is a token, or the end of the tokens, that no program in this sense has in its place.

* `Forms` : the phrases of this grammar.
* `Derives.forms` : what the grammar derives is among them.
* `Begun` : tokens that begin a phrase.
-/

namespace ImportQuery.Expr

open Token (startsWith)

/-- The syntactic categories. -/
inductive Category
  /-- A package, a call, an operator before its operands, or a group. -/
  | primary
  /-- What stands behind an opening parenthesis, up to its end. -/
  | contents
  /-- Lists between commas. -/
  | items
  /-- A primary with its selectors. -/
  | term
  /-- Terms, each behind an operator. -/
  | operands
  /-- Terms between operators. -/
  | chain
  /-- Chains that begin with no operator. -/
  | more
  /-- Chains without anything between them. -/
  | list
  /-- An assignment or a list. -/
  | statement
  /-- Statements between semicolons. -/
  | program

/-- The tokens form a phrase of the category. -/
inductive Forms : Category → List Token → Prop
  | package {name : String} : Forms .primary [⟨.package, name⟩]
  | callNothing {name opening closing : String} :
    Forms .primary [⟨.function, name⟩, ⟨.openParen, opening⟩, ⟨.closeParen, closing⟩]
  | call {name opening : String} {ts : List Token} (h : Forms .contents ts) :
    Forms .primary (⟨.function, name⟩ :: ⟨.openParen, opening⟩ :: ts)
  | prefixed {op : SetOp} {opening : String} {ts : List Token} (h : Forms .contents ts) :
    Forms .primary (⟨.operator, op.symbol.toString⟩ :: ⟨.openParen, opening⟩ :: ts)
  | group {opening : String} {ts : List Token} (h : Forms .contents ts) :
    Forms .primary (⟨.openParen, opening⟩ :: ts)
  | contents {closing : String} {ts : List Token} (h : Forms .items ts) :
    Forms .contents (ts ++ [⟨.closeParen, closing⟩])
  | lastItem {ts : List Token} (h : Forms .list ts) : Forms .items ts
  | item {comma : String} {ts us : List Token} (h : Forms .list ts) (hs : Forms .items us) :
    Forms .items (ts ++ ⟨.comma, comma⟩ :: us)
  | term {ts : List Token} (h : Forms .primary ts) (tags : List String) :
    Forms .term (ts ++ tags.map (Token.mk .selector))
  | noOperand : Forms .operands []
  | operand {op : SetOp} {ts us : List Token} (h : Forms .term ts) (hs : Forms .operands us) :
    Forms .operands (⟨.operator, op.symbol.toString⟩ :: (ts ++ us))
  | chain {ts us : List Token} (h : Forms .term ts) (hs : Forms .operands us) :
    Forms .chain (ts ++ us)
  | noMore : Forms .more []
  | more {ts us : List Token} (h : Forms .chain ts) (hop : startsWith [.operator] ts = false)
    (hs : Forms .more us) : Forms .more (ts ++ us)
  | list {ts us : List Token} (h : Forms .chain ts) (hs : Forms .more us) : Forms .list (ts ++ us)
  | bare {ts : List Token} (h : Forms .list ts) : Forms .statement ts
  | assign {name sign : String} {ts : List Token} (h : Forms .list ts) :
    Forms .statement (⟨.package, name⟩ :: ⟨.assign, sign⟩ :: ts)
  | lastStatement {ts : List Token} (h : Forms .statement ts) : Forms .program ts
  | statement {mark : String} {ts us : List Token} (h : Forms .statement ts)
    (hs : Forms .program us) : Forms .program (ts ++ ⟨.semicolon, mark⟩ :: us)

/-! ## Phrases with separators -/

/-- Tokens with a token of the kind `separator` between neighbouring runs, each of which is as `G`
says. -/
inductive Row (separator : Token.Kind) (G : List Token → Prop) : List Token → Prop
  | last {ts : List Token} (h : G ts) : Row separator G ts
  | cons {text : String} {ts us : List Token} (h : G ts) (hs : Row separator G us) :
    Row separator G (ts ++ ⟨separator, text⟩ :: us)

theorem Separated.row {α : Type} {separator : Token.Kind} {G : α → List Token → Prop}
    {H : List Token → Prop} (hG : ∀ a ts, G a ts → H ts) {as : List α} {ts : List Token}
    (h : Separated separator G as ts) : Row separator H ts := by
  induction h with
  | last h => exact .last (hG _ _ h)
  | cons h _ ih => exact .cons (hG _ _ h) ih

/-- What stands behind the first phrase of a row: nothing, or a separator and a row. -/
def RowRest (separator : Token.Kind) (G : List Token → Prop) (ts : List Token) : Prop :=
  ts = [] ∨ ∃ text us, ts = ⟨separator, text⟩ :: us ∧ Row separator G us

theorem RowRest.begins {separator : Token.Kind} {G : List Token → Prop} {ts : List Token}
    (h : RowRest separator G ts) : ts = [] ∨ startsWith [separator] ts = true := by
  obtain rfl | ⟨text, us, rfl, -⟩ := h
  · exact .inl rfl
  · exact .inr (by simp)

theorem row_append {separator : Token.Kind} {G : List Token → Prop} {ts us : List Token}
    (h : G ts) (hs : RowRest separator G us) : Row separator G (ts ++ us) := by
  obtain rfl | ⟨text, us, rfl, hs⟩ := hs
  · rw [List.append_nil]
    exact .last h
  · exact .cons h hs

theorem Row.exists_append {separator : Token.Kind} {G : List Token → Prop} {ts : List Token}
    (h : Row separator G ts) : ∃ us vs, ts = us ++ vs ∧ G us ∧ RowRest separator G vs := by
  cases h with
  | last h => exact ⟨_, [], (List.append_nil _).symm, h, .inl rfl⟩
  | cons h hs => exact ⟨_, _, rfl, h, .inr ⟨_, _, rfl, hs⟩⟩

theorem forms_items_iff {ts : List Token} : Forms .items ts ↔ Row .comma (Forms .list) ts := by
  constructor
  · generalize hcategory : Category.items = category
    intro h
    induction h with
    | lastItem h => exact .last h
    | item h _ _ ih => exact .cons h (ih rfl)
    | _ => cases hcategory
  · intro h
    induction h with
    | last h => exact .lastItem h
    | cons h _ ih => exact .item h ih

theorem forms_program_iff {ts : List Token} :
    Forms .program ts ↔ Row .semicolon (Forms .statement) ts := by
  constructor
  · generalize hcategory : Category.program = category
    intro h
    induction h with
    | lastStatement h => exact .last h
    | statement h _ _ ih => exact .cons h (ih rfl)
    | _ => cases hcategory
  · intro h
    induction h with
    | last h => exact .lastStatement h
    | cons h _ ih => exact .statement h ih

/-! ## What the grammar derives -/

/-- The tokens are a phrase of the same category. -/
def Phrase.Formed : Phrase → List Token → Prop
  | primary _, ts => Forms .primary ts
  | bracket _, ts => ∃ opening us, ts = ⟨.openParen, opening⟩ :: us ∧ Forms .contents us
  | items _, ts => Forms .items ts
  | term _, ts => Forms .term ts
  | operands _, ts => Forms .operands ts
  | chain _, ts => Forms .chain ts
  | more _, ts => Forms .more ts
  | list _, ts => Forms .list ts

/-- What the grammar derives is formed as it should be. -/
theorem Derives.formed {limit d : Nat} {φ : Phrase} {ts : List Token} (h : Derives limit d φ ts) :
    φ.Formed ts := by
  induction h with
  | package => exact Forms.package
  | callNothing => exact Forms.callNothing
  | call _ ih =>
    obtain ⟨_, _, rfl, ih⟩ := ih
    exact Forms.call ih
  | prefixed _ ih =>
    obtain ⟨_, _, rfl, ih⟩ := ih
    exact Forms.prefixed ih
  | group _ ih | tuple _ _ ih =>
    obtain ⟨_, _, rfl, ih⟩ := ih
    exact Forms.group ih
  | bracket _ _ ih => exact ⟨_, _, rfl, .contents ih⟩
  | lastItem _ ih => exact Forms.lastItem ih
  | item _ _ ih ih' => exact Forms.item ih ih'
  | bare _ ih => simpa [Phrase.Formed] using Forms.term ih []
  | selected _ _ ih => exact Forms.term ih _
  | noOperand => exact Forms.noOperand
  | operand _ _ ih ih' => exact Forms.operand ih ih'
  | single _ ih => simpa [Phrase.Formed] using Forms.chain ih .noOperand
  | chain _ _ _ _ ih ih' => exact Forms.chain ih ih'
  | noMore => exact Forms.noMore
  | more _ hop _ ih ih' => exact Forms.more ih hop ih'
  | alone _ ih => simpa [Phrase.Formed] using Forms.list ih .noMore
  | juxtaposed _ _ _ ih ih' => exact Forms.list ih ih'

theorem DerivesStatement.forms {limit d : Nat} {e : Expr} {ts : List Token}
    (h : DerivesStatement limit d e ts) : Forms .statement ts := by
  cases h with
  | list h => exact .bare h.formed
  | assign h => exact .assign h.formed

/-! ## First tokens -/

/-- How the tokens of a phrase can begin, below statements. -/
def Category.Begins : Category → List Token → Prop
  | operands, ts => ts = [] ∨ startsWith [.operator] ts = true
  | more, ts => ts = [] ∨ startsWith moreKinds ts = true
  | statement, _ | program, _ => True
  | _, ts => startsWith primaryKinds ts = true

theorem Forms.begins {category : Category} {ts : List Token} (h : Forms category ts) :
    category.Begins ts := by
  induction h with
  | package | callNothing | call | prefixed | group => rfl
  | lastItem _ ih => exact ih
  | contents _ ih | item _ _ ih _ | term _ _ ih | chain _ _ ih _ | list _ _ ih _ =>
    exact startsWith_append_of ih
  | noOperand | noMore => exact .inl rfl
  | operand => exact .inr rfl
  | @more ts _ _ hop _ ih _ =>
    have hmore : startsWith moreKinds ts = true := by
      cases ts with
      | nil => cases ih
      | cons t ts => simp_all [Category.Begins, primaryKinds, moreKinds]
    exact .inr (startsWith_append_of hmore)
  | bare | assign | lastStatement | statement => trivial

/-- Assignment signs belong to statements and programs only. -/
theorem Forms.kind_ne_assign {category : Category} {ts : List Token} (h : Forms category ts)
    (hcategory : category ≠ .statement ∧ category ≠ .program) : ∀ t ∈ ts, t.kind ≠ .assign := by
  induction h with
  | package | callNothing | noOperand | noMore => simp
  | call _ ih | prefixed _ ih | group _ ih => simpa using ih (by simp)
  | contents _ ih =>
    intro t ht
    rcases List.mem_append.1 ht with ht | ht
    · exact ih (by simp) t ht
    · obtain rfl := List.mem_singleton.1 ht
      simp
  | lastItem _ ih => exact ih (by simp)
  | item _ _ ih ih' =>
    intro t ht
    rcases List.mem_append.1 ht with ht | ht
    · exact ih (by simp) t ht
    · rcases List.mem_cons.1 ht with rfl | ht
      · simp
      · exact ih' (by simp) t ht
  | term _ tags ih =>
    intro t ht
    rcases List.mem_append.1 ht with ht | ht
    · exact ih (by simp) t ht
    · obtain ⟨tag, -, rfl⟩ := List.mem_map.1 ht
      simp
  | operand _ _ ih ih' =>
    intro t ht
    rcases List.mem_cons.1 ht with rfl | ht
    · simp
    · exact (List.mem_append.1 ht).elim (ih (by simp) t) (ih' (by simp) t)
  | chain _ _ ih ih' | more _ _ _ ih ih' | list _ _ ih ih' =>
    intro t ht
    exact (List.mem_append.1 ht).elim (ih (by simp) t) (ih' (by simp) t)
  | bare | assign => exact absurd rfl hcategory.1
  | lastStatement | statement => exact absurd rfl hcategory.2

/-- Behind the first token of a list stands no assignment sign, unless one follows the list. -/
theorem Forms.startsWith_assign_tail {t : Token} {ts us vs : List Token} (h : Forms .list ts)
    (hus : startsWith [.assign] us = false) (htokens : ts ++ us = t :: vs) :
    startsWith [.assign] vs = false := by
  have hne := h.kind_ne_assign (by simp)
  match ts, h.begins with
  | [_], _ =>
    obtain ⟨-, rfl⟩ := List.cons.inj htokens
    exact hus
  | _ :: t' :: _, _ =>
    obtain ⟨-, rfl⟩ := List.cons.inj htokens
    simpa using hne t' (by simp)

/-! ## Tokens that begin a phrase -/

/-- The tokens can be continued to what `G` says. What continues them does not begin with an
operator, so that one is not the first token unless it is among the given ones. -/
def Begun (G : List Token → Prop) (ts : List Token) : Prop :=
  ∃ us, startsWith [.operator] us = false ∧ G (ts ++ us)

theorem Begun.of_forms {G : List Token → Prop} {ts : List Token} (h : G ts) : Begun G ts :=
  ⟨[], rfl, by rwa [List.append_nil]⟩

/-- A word alone is a phrase of all categories that are not empty. -/
theorem forms_word (name : String) : Forms .list [⟨.package, name⟩] :=
  .list (.chain (.term .package []) .noOperand) .noMore

end ImportQuery.Expr
