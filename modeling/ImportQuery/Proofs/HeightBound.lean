import ImportQuery.Proofs.Statements
import Mathlib.Data.List.Chain

/-!
# How high the tree of a query can be

The limit on nesting counts parentheses, and the levels that operators between operands add inside
of them. It counts neither selectors nor lists without parentheses, assignments and programs, but
of these only so many fit between two parentheses: a call with selectors in a list makes three
levels for its one parenthesis, and three more levels lie inside of the last and outside of the
first.

* `Derives.height_le` : the trees of a phrase, by the number of parentheses that may be opened.
* `Nested.length_le_height` : the height bounds every recursion on a tree.
* `compile_tallestQuery` : a query that is as high as the limit allows.
-/

namespace ImportQuery

open Token

namespace Expr

/-! ## The bound -/

/-- The largest height of the trees of a phrase where `room` more parentheses may be opened. -/
def Phrase.maxHeight (room : Nat) : Phrase → Nat
  | bracket _ => 3 * room
  | primary _ => 3 * room + 1
  | term _ | operands _ | chain _ | more _ => 3 * room + 2
  | items _ | list _ => 3 * room + 3

variable {limit d : Nat}

theorem Derives.height_le {φ : Phrase} {ts : List Token} (h : Derives limit d φ ts) :
    ∀ e ∈ φ.trees, e.height ≤ φ.maxHeight (limit - d) := by
  induction h with
  | package | callNothing =>
    exact List.forall_mem_singleton.2 (height_le_succ_iff.2 (List.forall_mem_nil _))
  | call _ ih | prefixed _ ih | tuple _ _ ih | selected _ _ ih =>
    exact List.forall_mem_singleton.2 (height_le_succ_iff.2 ih)
  | juxtaposed _ _ _ ih ih' =>
    refine List.forall_mem_singleton.2 (height_le_succ_iff.2 (List.forall_mem_cons.2 ⟨?_, ih'⟩))
    exact ih _ (List.mem_singleton_self _)
  | bracket _ _ ih | group _ ih | bare _ ih | alone _ ih =>
    intro e he
    have hinside := ih e he
    simp only [Phrase.maxHeight] at hinside ⊢
    omega
  | chain _ _ _ hfits =>
    refine List.forall_mem_singleton.2 ?_
    simp only [Phrase.maxHeight]
    omega
  | lastItem _ ih | single _ ih => exact ih
  | item _ _ ih ih' | operand _ _ ih ih' | more _ _ _ ih ih' =>
    exact List.forall_mem_cons.2 ⟨ih _ (List.mem_singleton_self _), ih'⟩
  | noOperand | noMore => exact List.forall_mem_nil _

theorem DerivesStatement.height_le {e : Expr} {ts : List Token}
    (h : DerivesStatement limit 0 e ts) : e.height ≤ 3 * limit + 4 := by
  cases h with
  | list h =>
    have hlist : e.height ≤ 3 * limit + 3 := h.height_le e (List.mem_singleton_self e)
    omega
  | assign h =>
    exact height_le_succ_iff.2 h.height_le

theorem DerivesProgram.height_le {e : Expr} {ts : List Token} (h : DerivesProgram limit e ts) :
    e.height ≤ 3 * limit + 5 := by
  cases h with
  | single h =>
    have hstatement := h.height_le
    omega
  | several h =>
    refine height_le_succ_iff.2 fun s hs => ?_
    exact h.forall_mem (P := fun _ => True) (fun _ _ hs _ => hs.height_le) (by simp) s hs

/-! ## Recursion -/

/-- Every expression of the list is directly inside the one before it, as the expressions are that a
recursion on the first of them is at work on at one time. -/
def Nested (es : List Expr) : Prop := es.IsChain fun outer inner => inner ∈ outer.children

theorem Nested.length_le_height {e : Expr} {es : List Expr} (h : Nested (e :: es)) :
    (e :: es).length ≤ e.height := by
  induction es generalizing e with
  | nil => exact e.height_pos
  | cons e' es ih =>
    obtain ⟨hchild, hrest⟩ := List.isChain_cons_cons.1 h
    have hlength := ih hrest
    have hheight := height_lt_of_mem_children hchild
    simp only [List.length_cons] at hlength ⊢
    omega

/-! ## A tree that attains it -/

/-- The list of a package and what a selector makes of the expression. -/
def beside (e : Expr) : Expr := .call "" [.package "b", .selected e ["all"]]

/-- Calls inside each other, each in a list and with a selector. -/
def tower : Nat → Expr
  | 0 => .package "a"
  | n + 1 => .call "f" [beside (tower n)]

/-- A query for the tower. Its lists have no parentheses. -/
def towerQuery : Nat → String
  | 0 => "a"
  | n + 1 => "f(b " ++ towerQuery n ++ ":all" ++ ")"

/-- The tokens of a list of a package and something with a selector. -/
def besideTokens (ts : List Token) : List Token :=
  [⟨.package, "b"⟩] ++ (ts ++ [⟨.selector, "all"⟩])

/-- The tokens of the query for the tower. -/
def towerTokens : Nat → List Token
  | 0 => [⟨.package, "a"⟩]
  | n + 1 => ⟨.function, "f"⟩ :: parenthesized (besideTokens (towerTokens n))

theorem height_beside (e : Expr) : (beside e).height = e.height + 2 := by
  simp only [beside, height_eq_levels, levels, mostLevels]
  omega

theorem height_tower (n : Nat) : (tower n).height = 3 * n + 1 := by
  induction n with
  | zero => simp [tower, height_eq, children]
  | succ n ih =>
    have hcall : (tower (n + 1)).height = (beside (tower n)).height + 1 := by
      simp [tower, height_eq_levels, levels, mostLevels]
    rw [hcall, height_beside, ih]
    omega

theorem spelled_beside {text : String} {ts : List Token} (h : Spelled text ts) :
    Spelled ("b" ++ " " ++ (text ++ (":" ++ "all"))) (besideTokens ts) :=
  (spelled_package (by decide +kernel)).space (h.tag (by decide +kernel))

theorem spelled_towerQuery (n : Nat) : Spelled (towerQuery n) (towerTokens n) := by
  induction n with
  | zero => exact spelled_package (by decide +kernel)
  | succ n ih =>
    have hname : isWord "f".toList = true := by decide +kernel
    have htext : towerQuery (n + 1) =
        "f" ++ "(" ++ ("b" ++ " " ++ (towerQuery n ++ (":" ++ "all"))) ++ ")" := by
      simp [towerQuery, ← String.append_assoc]
    rw [htext]
    exact (spelled_beside ih).call hname

theorem derives_beside {limit d : Nat} {e : Expr} {ts : List Token}
    (h : Derives limit d (.primary e) ts) (hop : startsWith [.operator] ts = false) :
    Derives limit d (.list (beside e)) (besideTokens ts) := by
  have hterm : Derives limit d (.term (.selected e ["all"])) (ts ++ [⟨.selector, "all"⟩]) :=
    h.selected (by simp)
  have hmore := Derives.more (.single hterm) ?_ .noMore
  · rw [List.append_nil] at hmore
    exact Derives.juxtaposed (.single (.bare .package)) hmore (by simp)
  · rwa [startsWith_append (ne_nil_of_startsWith h.begins)]

theorem derives_tower {limit d n : Nat} (hfits : d + n ≤ limit) :
    Derives limit d (.primary (tower n)) (towerTokens n) := by
  induction n generalizing d with
  | zero => exact .package
  | succ n ih =>
    have hop : startsWith [.operator] (towerTokens n) = false := by cases n <;> rfl
    have hlist := derives_beside (ih (show d + 1 + n ≤ limit by omega)) hop
    exact .call (.bracket (by omega) (.lastItem hlist))

end Expr

/-! ## Queries -/

open ImportQuery.Expr

/-- An assignment that makes use of the whole limit, and a second statement. -/
def tallestQuery : String :=
  ";".intercalate ["x" ++ " := " ++ ("b" ++ " " ++ (towerQuery maxDepth ++ (":" ++ "all"))), "a"]

/-- The tree of the query. -/
def tallest : Expr := .program [.assign "x" (beside (tower maxDepth)), .package "a"]

theorem compile_tallestQuery : compile tallestQuery = .ok (some tallest) := by
  have hlist : Derives maxDepth 0 (.list (beside (tower maxDepth)))
      (besideTokens (towerTokens maxDepth)) :=
    derives_beside (derives_tower (Nat.le_of_eq (Nat.zero_add _))) rfl
  have hspells := ((spelled_beside (spelled_towerQuery maxDepth)).assign
    (show isWord "x".toList = true by decide +kernel)).spells
  have hassign := compile_eq_ok_iff.2 ⟨_, hspells, .single (.assign hlist)⟩
  have hpackage : compile "a" = .ok (some (.package "a")) :=
    compile_of_tokens [⟨.package, "a"⟩] (by decide +kernel) rfl
  refine compile_intercalate (.cons hassign (.cons hpackage .nil)) ?_ ?_ ?_
  · simp
  · simp
  · simp [isAssignment]

theorem height_tallest : tallest.height = 3 * maxDepth + 5 := by
  have hheight : tallest.height = max ((beside (tower maxDepth)).height + 1) 1 + 1 := by
    simp [tallest, height_eq_levels, levels, mostLevels]
  rw [hheight, height_beside, height_tower]
  omega

/-- **The nesting limit bounds every tree.** The tree of a query has at most `3 * maxDepth + 5`
levels, so that no recursion on it is at work on more expressions at one time; and there is a query
whose tree has as many levels. -/
theorem height_le_and_attained :
    (∀ (query : String) (e : Expr), compile query = .ok (some e) →
      e.height ≤ 3 * maxDepth + 5 ∧
        ∀ es, Nested (e :: es) → (e :: es).length ≤ 3 * maxDepth + 5) ∧
    ∃ (query : String) (e : Expr), compile query = .ok (some e) ∧
      e.height = 3 * maxDepth + 5 := by
  refine ⟨fun query e h => ?_, tallestQuery, tallest, compile_tallestQuery, height_tallest⟩
  obtain ⟨ts, -, hder⟩ := compile_eq_ok_iff.1 h
  exact ⟨hder.height_le, fun es hes => Nat.le_trans hes.length_le_height hder.height_le⟩

example : 3 * maxDepth + 5 = 389 := rfl

theorem height_le_tallest :
    compile tallestQuery = .ok (some tallest) ∧ tallest.height ≤ 3 * maxDepth + 5 ∧
      ∀ es, Nested (tallest :: es) → (tallest :: es).length ≤ 3 * maxDepth + 5 :=
  ⟨compile_tallestQuery, height_le_and_attained.1 _ _ compile_tallestQuery⟩

end ImportQuery
