import ImportQuery.Proofs.Expr.Flatten
import ImportQuery.Proofs.Expr.Shape

/-!
# The tokens of canonical forms

The canonical form of the tree of a query can be taken apart again. Its tokens are given here by
recursion on the tree, and the text is shown to spell them; nothing in the text runs together with
what stands next to it.

* `IsQuery.spells_render` : the canonical form spells its tokens.
* `IsQuery.tokenize_render` : it is scanned into them.
-/

namespace ImportQuery.Expr

open Token

/-- Phrases with the separator between neighbours. -/
def joined (separator : Token) : List (List Token) → List Token
  | [] => []
  | [ts] => ts
  | ts :: tss => ts ++ separator :: joined separator tss

/-- The tokens in parentheses. -/
def parenthesized (ts : List Token) : List Token :=
  ⟨.openParen, "("⟩ :: (ts ++ [⟨.closeParen, ")"⟩])

mutual

/-- The tokens of the canonical form of an expression. -/
def tokens : Expr → List Token
  | package name => [⟨.package, name⟩]
  | selected base tags => base.tokens ++ tags.map (Token.mk .selector)
  | binary op left right =>
    ⟨.operator, op.symbol.toString⟩ ::
      parenthesized (joined ⟨.comma, ","⟩ [left.tokens, right.tokens])
  | call name args =>
    (if name = "" then [] else [⟨.function, name⟩]) ++
      parenthesized (joined ⟨.comma, ","⟩ (tokensOfEach args))
  | assign name value => ⟨.package, name⟩ :: ⟨.assign, ":="⟩ :: value.tokens
  | program statements => joined ⟨.semicolon, ";"⟩ (tokensOfEach statements)

/-- The tokens of the canonical forms of some expressions. -/
def tokensOfEach : List Expr → List (List Token)
  | [] => []
  | e :: es => e.tokens :: tokensOfEach es

end

theorem tokensOfEach_eq_map (es : List Expr) : tokensOfEach es = es.map tokens := by
  induction es with
  | nil => rfl
  | cons e es ih => rw [tokensOfEach, ih, List.map_cons]

/-! ## Texts that can stand anywhere -/

/-- The text spells the tokens wherever it is not followed by what could belong to its last word. -/
def Spelled (text : String) (ts : List Token) : Prop :=
  ∀ (cs : List Char) (us : List Token), Kind.package.endsBefore cs = true → Spells cs us →
    Spells (text.toList ++ cs) (ts ++ us)

theorem Spelled.spells {text : String} {ts : List Token} (h : Spelled text ts) :
    Spells text.toList ts := by
  simpa using h [] [] (by decide) .nil

/-- A text that spells tokens spells them wherever its last word may end. -/
theorem spelled_of_spells {text : String} {ts : List Token} (h : Spells text.toList ts) :
    Spelled text ts :=
  fun _ _ hend hspells => h.append hend hspells

theorem spells_mark {c : Char} {kind : Kind} {cs : List Char} {us : List Token}
    (hc : punctuation? c = some kind) (h : Spells cs us) :
    Spells (c :: cs) (⟨kind, c.toString⟩ :: us) := by
  obtain ⟨hproper, hspelling, hend⟩ := proper_of_punctuation hc
  have hspells := Spells.token hproper (hend cs) h
  rwa [hspelling] at hspells

/-- A word ends before white space and before the marks that stand behind operands. -/
theorem endsBefore_mark {c : Char} (hc : c ∈ [')', ',', ';', ':', ' ']) (cs : List Char) :
    Kind.package.endsBefore (c :: cs) = true := by
  have hall : [')', ',', ';', ':', ' '].all (fun c => !isWordChar c && c != '(') = true := by
    decide +kernel
  obtain ⟨hword, hopen⟩ := Bool.and_eq_true_iff.1 (List.all_eq_true.1 hall c hc)
  rw [Kind.endsBefore, endsWord, List.head?_cons, Option.any_some, hword, Bool.true_and]
  simpa using hopen

theorem spelled_package {name : String} (hname : isWord name.toList = true) :
    Spelled name [⟨.package, name⟩] := by
  intro cs us hend h
  exact .token (t := ⟨.package, name⟩) hname hend h

theorem Spelled.tag {text tag : String} {ts : List Token} (h : Spelled text ts)
    (htag : isTag tag.toList = true) :
    Spelled (text ++ (":" ++ tag)) (ts ++ [⟨.selector, tag⟩]) := by
  intro cs us hend hspells
  have hword : Kind.selector.endsBefore cs = true := (Bool.and_eq_true_iff.1 hend).1
  have hselector : Spells (':' :: (tag.toList ++ cs)) (⟨.selector, tag⟩ :: us) :=
    .token (t := ⟨.selector, tag⟩) htag hword hspells
  have hall := h _ _ (endsBefore_mark (by decide) _) hselector
  rwa [String.toList_append, String.toList_append, List.append_assoc, List.append_assoc,
    List.append_assoc]

theorem Spelled.tags {text : String} {tags : List String} {ts : List Token} (h : Spelled text ts)
    (htags : ∀ tag ∈ tags, isTag tag.toList = true) :
    Spelled (text ++ String.join (tags.map (":" ++ ·))) (ts ++ tags.map (Token.mk .selector)) := by
  induction tags generalizing text ts with
  | nil => simpa using h
  | cons tag tags ih =>
    obtain ⟨htag, htags⟩ := List.forall_mem_cons.1 htags
    have hall := ih (h.tag htag) htags
    rw [List.map_cons, List.map_cons, String.join_cons, ← String.append_assoc]
    rwa [List.append_assoc] at hall

/-- Phrases that can stand anywhere can stand in a row. -/
theorem spelled_renderJoined {separator : String} (mark : Char) {kind : Kind} {es : List Expr}
    (hsep : separator.toList = [mark, ' ']) (hmark : punctuation? mark = some kind)
    (hend : ∀ cs, Kind.package.endsBefore (mark :: cs) = true)
    (h : ∀ e ∈ es, Spelled e.render e.tokens) :
    Spelled (renderJoined separator es) (joined ⟨kind, mark.toString⟩ (es.map tokens)) := by
  induction es with
  | nil => exact fun _ _ _ hspells => hspells
  | cons e es ih =>
    obtain ⟨he, hes⟩ := List.forall_mem_cons.1 h
    cases es with
    | nil => exact he
    | cons e' es =>
      intro cs us hclosed hspells
      have hblank : Text.isBlank ' ' = true := by decide
      have hrest := spells_mark hmark (.blank hblank (ih hes cs us hclosed hspells))
      have hall := he _ _ (hend _) hrest
      rw [renderJoined_cons_cons, String.toList_append, String.toList_append, hsep,
        List.append_assoc, List.append_assoc]
      rw [List.map_cons, List.map_cons, joined, ← List.map_cons, List.append_assoc]
      · exact hall
      · simp

/-- A parenthesis ends itself, so that anything may follow. -/
theorem Spelled.parenthesized {text : String} {ts : List Token} {cs : List Char} {us : List Token}
    (h : Spelled text ts) (hspells : Spells cs us) :
    Spells ('(' :: (text.toList ++ ')' :: cs)) (Expr.parenthesized ts ++ us) := by
  have hclosing : Spells (')' :: cs) (⟨.closeParen, ")"⟩ :: us) := spells_mark rfl hspells
  have hopening := spells_mark (c := '(') rfl (h _ _ (endsBefore_mark (by decide) _) hclosing)
  rw [Expr.parenthesized, List.cons_append, List.append_assoc]
  exact hopening

theorem Spelled.call {name text : String} {ts : List Token} (hname : isWord name.toList = true)
    (h : Spelled text ts) :
    Spelled (name ++ "(" ++ text ++ ")") (⟨.function, name⟩ :: Expr.parenthesized ts) := by
  intro cs us _ hspells
  have hall : Spells (name.toList ++ _) (⟨.function, name⟩ :: _) :=
    .token (t := ⟨.function, name⟩) hname rfl (h.parenthesized hspells)
  simpa using hall

theorem Spelled.space {text text' : String} {ts ts' : List Token} (h : Spelled text ts)
    (h' : Spelled text' ts') : Spelled (text ++ " " ++ text') (ts ++ ts') := by
  intro cs us hend hspells
  have hblank : Text.isBlank ' ' = true := by decide
  have hall := h _ _ (endsBefore_mark (by decide) _) (.blank hblank (h' cs us hend hspells))
  simpa using hall

theorem Spelled.assign {name text : String} {ts : List Token} (hname : isWord name.toList = true)
    (h : Spelled text ts) :
    Spelled (name ++ " := " ++ text) (⟨.package, name⟩ :: ⟨.assign, ":="⟩ :: ts) := by
  intro cs us hend hspells
  have hblank : Text.isBlank ' ' = true := by decide
  have hsign : Spells (':' :: '=' :: ' ' :: (text.toList ++ cs)) (⟨.assign, ":="⟩ :: (ts ++ us)) :=
    .token (t := ⟨.assign, ":="⟩) rfl rfl (.blank hblank (h cs us hend hspells))
  have hall := spelled_package hname _ _ (endsBefore_mark (by decide) _) (.blank hblank hsign)
  simpa using hall

/-- The comma or semicolon of a canonical form. -/
theorem endsBefore_separator {mark : Char} (hmark : mark = ',' ∨ mark = ';') (cs : List Char) :
    Kind.package.endsBefore (mark :: cs) = true := by
  rcases hmark with rfl | rfl <;> exact endsBefore_mark (by decide) cs

theorem spelled_items {es : List Expr} (h : ∀ e ∈ es, Spelled e.render e.tokens) :
    Spelled (renderJoined ", " es) (joined ⟨.comma, ","⟩ (es.map tokens)) :=
  spelled_renderJoined ',' rfl rfl (endsBefore_separator (.inl rfl)) h

/-! ## Canonical forms -/

theorem ne_empty_of_isWord {name : String} (h : isWord name.toList = true) : name ≠ "" := by
  rintro rfl
  cases h

/-- The canonical form of a plain expression spells its tokens. -/
theorem Plain.spelled_render {e : Expr} (h : Plain e) : Spelled e.render e.tokens := by
  induction h with
  | package hname => exact spelled_package hname
  | selected _ _ htags ih => exact ih.tags htags
  | @binary op left right _ _ ihleft ihright =>
    intro cs us _ hspells
    have hitems : Spelled (renderJoined ", " [left, right]) _ :=
      spelled_items (by simpa using ⟨ihleft, ihright⟩)
    have hgroup := hitems.parenthesized hspells
    have hmark : punctuation? op.symbol = some .operator := by cases op <;> rfl
    have hall := spells_mark hmark hgroup
    simpa [render, tokens, renderJoined] using hall
  | @call name args hname _ ih =>
    rw [tokens, if_neg (ne_empty_of_isWord hname), tokensOfEach_eq_map, render]
    exact (spelled_items ih).call hname
  | @tuple args _ _ ih =>
    intro cs us _ hspells
    have hgroup := (spelled_items ih).parenthesized hspells
    rw [tokens, if_pos rfl, tokensOfEach_eq_map, render]
    simpa using hgroup

theorem IsStatement.spelled_render {e : Expr} (h : IsStatement e) : Spelled e.render e.tokens := by
  cases h with
  | list h => exact h.spelled_render
  | @assign name value hname hvalue =>
    rw [render, tokens]
    exact hvalue.spelled_render.assign hname

theorem IsQuery.spelled_render {e : Expr} (h : IsQuery e) : Spelled e.render e.tokens := by
  cases h with
  | single h => exact h.spelled_render
  | several h =>
    rw [tokens, tokensOfEach_eq_map]
    exact spelled_renderJoined ';' rfl rfl (endsBefore_separator (.inr rfl))
      fun s hs => (h s hs).spelled_render

/-- The canonical form of the tree of a query spells its tokens. -/
theorem IsQuery.spells_render {e : Expr} (h : IsQuery e) : Spells e.render.toList e.tokens :=
  h.spelled_render.spells

/-- The canonical form of the tree of a query is scanned into its tokens. -/
theorem IsQuery.tokenize_render {e : Expr} (h : IsQuery e) : tokenize e.render = .ok e.tokens :=
  tokenize_eq_ok_iff.2 h.spells_render

end ImportQuery.Expr
