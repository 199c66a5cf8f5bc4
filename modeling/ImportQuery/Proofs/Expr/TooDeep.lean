import ImportQuery.Proofs.Expr.Rereading
import ImportQuery.Proofs.Expr.Room

/-!
# Canonical forms that nest too deeply

The canonical form of an expression may open more parentheses inside each other than the text that
the expression was read from, as operators between operands and lists without parentheses get
parentheses there. Where it opens too many, it is not read back: with enough room it would be, so
reading can only fail because the query nests too deeply.

* `openBehind` : the parentheses that tokens leave open, unless they open too many.
* `DerivesProgram.openBehind_eq` : what the grammar derives does not open too many.
* `IsQuery.balanced_tokens` : when a canonical form does.
* `IsQuery.parse_tokens` : the parser fails on a canonical form with too many brackets.
-/

namespace ImportQuery.Expr

/-! ## Counting parentheses -/

/-- The number of open parentheses behind a token, if that is within the limit. -/
def countParen (limit d : Nat) (t : Token) : Option Nat :=
  match t.kind with
  | .openParen => if d < limit then some (d + 1) else none
  | .closeParen => some (d - 1)
  | _ => some d

/-- The number of open parentheses behind some tokens, if it is within the limit all the time. -/
def openBehind (limit d : Nat) (ts : List Token) : Option Nat := ts.foldlM (countParen limit) d

section

variable {limit d : Nat} {ts us : List Token}

@[simp] theorem openBehind_nil : openBehind limit d [] = some d := rfl

theorem openBehind_cons (t : Token) :
    openBehind limit d (t :: ts) = (countParen limit d t).bind (openBehind limit · ts) := rfl

theorem openBehind_append : openBehind limit d (ts ++ us) =
    (openBehind limit d ts).bind (openBehind limit · us) :=
  List.foldlM_append

theorem openBehind_cons_of_ne {t : Token} (ho : t.kind ≠ .openParen) (hc : t.kind ≠ .closeParen) :
    openBehind limit d (t :: ts) = openBehind limit d ts := by
  have hcount : countParen limit d t = some d := by
    unfold countParen
    split
    · contradiction
    · contradiction
    · rfl
  rw [openBehind_cons, hcount, Option.bind_some]

@[simp] theorem openBehind_selectors (tags : List String) :
    openBehind limit d (tags.map (Token.mk .selector)) = some d := by
  induction tags with
  | nil => rfl
  | cons tag tags ih =>
    rw [List.map_cons, openBehind_cons_of_ne (by simp) (by simp), ih]

end

/-- What the grammar derives stays within the limit and closes what it opens. -/
theorem Derives.openBehind_eq {limit d : Nat} {φ : Phrase} {ts : List Token}
    (h : Derives limit d φ ts) : openBehind limit d ts = some d := by
  induction h with
  | package => rfl
  | callNothing hd => simp [openBehind_cons, countParen, hd]
  | call _ ih | prefixed _ ih => rwa [openBehind_cons_of_ne (by simp) (by simp)]
  | bracket hd _ ih => simp [openBehind_cons, openBehind_append, countParen, hd, ih]
  | group _ ih | tuple _ _ ih | lastItem _ ih | bare _ ih | single _ ih | alone _ ih => exact ih
  | item _ _ ih ih' =>
    rw [openBehind_append, ih, Option.bind_some, openBehind_cons_of_ne (by simp) (by simp), ih']
  | selected _ _ ih => simp [openBehind_append, ih]
  | noOperand | noMore => rfl
  | operand _ _ ih ih' =>
    rw [openBehind_cons_of_ne (by simp) (by simp), openBehind_append, ih, Option.bind_some, ih']
  | chain _ _ _ _ ih ih' | more _ _ _ ih ih' | juxtaposed _ _ _ ih ih' =>
    simp [openBehind_append, ih, ih']

theorem DerivesStatement.openBehind_eq {limit d : Nat} {e : Expr} {ts : List Token}
    (h : DerivesStatement limit d e ts) : openBehind limit d ts = some d := by
  cases h with
  | list h => exact h.openBehind_eq
  | assign h =>
    rw [openBehind_cons_of_ne (by simp) (by simp), openBehind_cons_of_ne (by simp) (by simp),
      h.openBehind_eq]

theorem DerivesProgram.openBehind_eq {limit : Nat} {e : Expr} {ts : List Token}
    (h : DerivesProgram limit e ts) : openBehind limit 0 ts = some 0 := by
  obtain ⟨ss, hss, -⟩ := derivesProgram_iff.1 h
  clear h
  induction hss with
  | last h => exact h.openBehind_eq
  | cons h _ ih =>
    rw [openBehind_append, h.openBehind_eq, Option.bind_some,
      openBehind_cons_of_ne (by simp) (by simp), ih]

/-! ## Canonical forms -/

section

variable {e : Expr} {es : List Expr}

/-- The tokens close what they open, and stay within the limit if the given number of brackets
does. -/
def Balanced (brackets : Nat) (ts : List Token) : Prop :=
  ∀ limit d, d ≤ limit → openBehind limit d ts = if d + brackets ≤ limit then some d else none

theorem Balanced.append {m n : Nat} {ts us : List Token} (h : Balanced m ts) (h' : Balanced n us) :
    Balanced (max m n) (ts ++ us) := by
  intro limit d hd
  rw [openBehind_append, h limit d hd]
  split
  · rw [Option.bind_some, h' limit d hd]
    split
    · rw [if_pos (by omega)]
    · rw [if_neg (by omega)]
  · rw [if_neg (by omega)]
    rfl

theorem Balanced.cons {n : Nat} {ts : List Token} (h : Balanced n ts) {t : Token}
    (ho : t.kind ≠ .openParen) (hc : t.kind ≠ .closeParen) : Balanced n (t :: ts) := by
  intro limit d hd
  rw [openBehind_cons_of_ne ho hc, h limit d hd]

theorem balanced_nil : Balanced 0 [] := fun _ _ hd => (if_pos hd).symm

theorem balanced_selectors (tags : List String) : Balanced 0 (tags.map (Token.mk .selector)) :=
  fun _ _ hd => (openBehind_selectors tags).trans (if_pos hd).symm

theorem Balanced.parenthesized {n : Nat} {ts : List Token} (h : Balanced n ts) :
    Balanced (n + 1) (Expr.parenthesized ts) := by
  intro limit d hd
  rw [Expr.parenthesized, openBehind_cons]
  by_cases hopen : d < limit
  · have hcount : countParen limit d ⟨.openParen, "("⟩ = some (d + 1) := if_pos hopen
    rw [hcount, Option.bind_some, openBehind_append, h limit (d + 1) hopen]
    split
    · rw [if_pos (by omega)]
      rfl
    · rw [if_neg (by omega)]
      rfl
  · have hcount : countParen limit d ⟨.openParen, "("⟩ = none := if_neg hopen
    rw [hcount, if_neg (by omega)]
    rfl

/-- Phrases in a row are as deep as the deepest of them. -/
theorem balanced_joined {separator : Token} (ho : separator.kind ≠ .openParen)
    (hc : separator.kind ≠ .closeParen) (h : ∀ e ∈ es, Balanced e.brackets e.tokens) :
    Balanced (mostBrackets es) (joined separator (es.map tokens)) := by
  induction es with
  | nil => exact balanced_nil
  | cons e es ih =>
    obtain ⟨he, hes⟩ := List.forall_mem_cons.1 h
    cases es with
    | nil => simpa [mostBrackets, joined] using he
    | cons e' es => exact he.append ((ih hes).cons ho hc)

/-- The parentheses of a plain expression's canonical form nest as deeply as `brackets` says. -/
theorem Plain.balanced_tokens (h : Plain e) : Balanced e.brackets e.tokens := by
  induction h with
  | package => exact balanced_nil.cons (by simp) (by simp)
  | @selected base tags _ _ _ ih =>
    rw [brackets, tokens, ← Nat.max_zero base.brackets]
    exact ih.append (balanced_selectors tags)
  | @binary op left right _ _ ihleft ihright =>
    have hargs : Balanced (mostBrackets [left, right])
        (joined ⟨.comma, ","⟩ ([left, right].map tokens)) :=
      balanced_joined (by simp) (by simp) (by simpa using ⟨ihleft, ihright⟩)
    rw [mostBrackets, mostBrackets, mostBrackets, Nat.max_zero] at hargs
    exact hargs.parenthesized.cons (by simp) (by simp)
  | @call name args hname _ ih =>
    rw [tokens, if_neg (ne_empty_of_isWord hname), tokensOfEach_eq_map]
    exact (balanced_joined (by simp) (by simp) ih).parenthesized.cons (by simp) (by simp)
  | @tuple args _ _ ih =>
    rw [tokens, if_pos rfl, tokensOfEach_eq_map]
    exact (balanced_joined (by simp) (by simp) ih).parenthesized

theorem IsStatement.balanced_tokens (h : IsStatement e) : Balanced e.brackets e.tokens := by
  cases h with
  | list h => exact h.balanced_tokens
  | assign _ h => exact (h.balanced_tokens.cons (by simp) (by simp)).cons (by simp) (by simp)

theorem IsQuery.balanced_tokens (h : IsQuery e) : Balanced e.brackets e.tokens := by
  cases h with
  | single h => exact h.balanced_tokens
  | several h =>
    rw [tokens, tokensOfEach_eq_map]
    exact balanced_joined (by simp) (by simp) fun s hs => (h s hs).balanced_tokens

/-- The parser fails on a canonical form with too many brackets. -/
theorem IsQuery.parse_tokens (h : IsQuery e) (hdeep : maxDepth < e.brackets) :
    ∃ i, parse e.tokens = .error (.tooDeep i) := by
  have hder := h.derivesProgram_tokens (Nat.le_refl e.brackets)
  refine (parse_of_derives hder (Nat.le_of_lt hdeep)).resolve_left fun hparse => ?_
  have hbehind := (parse_eq_ok_iff.1 hparse).openBehind_eq
  rw [h.balanced_tokens maxDepth 0 (Nat.zero_le _), if_neg (by omega)] at hbehind
  cases hbehind

end

end ImportQuery.Expr
