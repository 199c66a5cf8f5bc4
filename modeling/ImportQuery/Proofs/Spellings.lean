import ImportQuery.Proofs.Expr.Room
import ImportQuery.Proofs.RoundTrip

/-!
# Equivalent spellings

The same tree can be written in several ways: a list with or without commas, an operator between
its operands or before them, and anything in one more parenthesis. That is so whatever the operands
are, as a parenthesis keeps them apart from what stands around it, as text and as tokens. Only the
depth of the query may differ, so a spelling may nest too deeply where another one does not.

* `Expr.Operand` : texts that can be put into a parenthesis, with their trees.
* `compile_spellings` : the spellings of groups, lists, operators and calls.
-/

namespace ImportQuery

open Token

/-- The text compiles to the expression, unless it nests too deeply. -/
def CompilesTo (text : String) (e : Expr) : Prop :=
  compile text = .ok (some e) ∨ ∃ i, compile text = .error (.parse (.tooDeep i))

namespace Expr

/-- The expression is no statement of its own: neither an assignment nor a program. -/
def isOperand : Expr → Bool
  | assign .. | program _ => false
  | _ => true

/-- The text spells the tokens wherever it stands, and they are a list with the given tree wherever
a query has a parenthesis more. -/
structure Operand (text : String) (ts : List Token) (e : Expr) : Prop where
  spelled : Spelled text ts
  derives : ∀ {limit : Nat}, maxDepth < limit → Derives limit 1 (.list e) ts

theorem Operand.of_compile {text : String} {e : Expr} (h : compile text = .ok (some e))
    (he : e.isOperand = true) : ∃ ts, Operand text ts e := by
  obtain ⟨ts, hts, hder⟩ := compile_eq_ok_iff.1 h
  refine ⟨ts, spelled_of_spells hts, fun hlimit => ?_⟩
  cases hder with
  | several => cases he
  | single hstatement =>
    cases hstatement with
    | assign => cases he
    | list hlist => exact hlist.relocate (by omega)

/-! ## Texts in parentheses and behind operators -/

section

variable {text text' : String} {ts ts' : List Token}

theorem Spelled.group (h : Spelled text ts) :
    Spelled ("(" ++ text ++ ")") (Expr.parenthesized ts) := by
  intro cs us _ hspells
  simpa using h.parenthesized hspells

theorem Spelled.comma (h : Spelled text ts) (h' : Spelled text' ts') :
    Spelled (text ++ ", " ++ text') (ts ++ ⟨.comma, ","⟩ :: ts') := by
  intro cs us hend hspells
  have hblank : Text.isBlank ' ' = true := by decide
  have hrest := spells_mark (c := ',') rfl (.blank hblank (h' cs us hend hspells))
  simpa using h _ _ (endsBefore_mark (by decide) _) hrest

/-- An operator is a token of its own before anything. -/
theorem Spelled.prefixed (h : Spelled text ts) (op : SetOp) :
    Spelled (op.symbol.toString ++ text) (⟨.operator, op.symbol.toString⟩ :: ts) := by
  intro cs us hend hspells
  have hmark : punctuation? op.symbol = some .operator := by cases op <;> rfl
  simpa using spells_mark hmark (h cs us hend hspells)

/-- White space in front of a text spells nothing. -/
theorem Spelled.indented (h : Spelled text ts) : Spelled (" " ++ text) ts := by
  intro cs us hend hspells
  have hblank : Text.isBlank ' ' = true := by decide
  simpa using Spells.blank hblank (h cs us hend hspells)

end

/-- A text is compiled to the list that its tokens are with more room. -/
theorem compilesTo_of_derives {text : String} {ts : List Token} {e : Expr} {limit : Nat}
    (hts : Spelled text ts) (hder : Derives limit 0 (.list e) ts) (hlimit : maxDepth ≤ limit) :
    CompilesTo text e := by
  have hcompile := compile_eq_parse (tokenize_eq_ok_iff.2 hts.spells)
  rcases parse_of_derives (.single (.list hder)) hlimit with hparse | ⟨i, hparse⟩
  · exact .inl (by rw [hcompile, hparse]; rfl)
  · exact .inr ⟨i, by rw [hcompile, hparse]; rfl⟩

/-! ## Groups, lists, operators and calls -/

section

variable {x y : String} {ts us : List Token} {ex ey : Expr} {limit : Nat}

theorem Operand.derives_single (hx : Operand x ts ex) (hlimit : maxDepth < limit) :
    Derives limit 0 (.bracket [ex]) (parenthesized ts) :=
  .bracket (by omega) (.lastItem (hx.derives hlimit))

theorem Operand.derives_group (hx : Operand x ts ex) (hlimit : maxDepth < limit) :
    Derives limit 0 (.term ex) (parenthesized ts) :=
  .bare (.group (hx.derives_single hlimit))

theorem Operand.derives_pair (hx : Operand x ts ex) (hy : Operand y us ey)
    (hlimit : maxDepth < limit) :
    Derives limit 0 (.bracket [ex, ey]) (parenthesized (ts ++ ⟨.comma, ","⟩ :: us)) :=
  .bracket (by omega) (.item (hx.derives hlimit) (.lastItem (hy.derives hlimit)))

theorem Operand.compilesTo_group (hx : Operand x ts ex) : CompilesTo ("(" ++ x ++ ")") ex :=
  compilesTo_of_derives hx.spelled.group
    (.alone (.single (hx.derives_group (Nat.lt_succ_self maxDepth)))) (Nat.le_succ maxDepth)

theorem Operand.compilesTo_juxtaposed (hx : Operand x ts ex) (hy : Operand y us ey) :
    CompilesTo ("(" ++ x ++ ") (" ++ y ++ ")") (.call "" [ex, ey]) := by
  have htext : "(" ++ x ++ ") (" ++ y ++ ")" = "(" ++ x ++ ")" ++ " " ++ ("(" ++ y ++ ")") :=
    String.toList_inj.1 (by simp)
  have hlimit := Nat.lt_succ_self maxDepth
  have hmore : Derives (maxDepth + 1) 0 (.more [ey]) (parenthesized us ++ []) :=
    .more (.single (hy.derives_group hlimit)) rfl .noMore
  rw [List.append_nil] at hmore
  rw [htext]
  exact compilesTo_of_derives (hx.spelled.group.space hy.spelled.group)
    (.juxtaposed (.single (hx.derives_group hlimit)) hmore (by simp)) (Nat.le_succ maxDepth)

theorem Operand.compilesTo_tuple (hx : Operand x ts ex) (hy : Operand y us ey) :
    CompilesTo ("(" ++ x ++ ", " ++ y ++ ")") (.call "" [ex, ey]) := by
  have htext : "(" ++ x ++ ", " ++ y ++ ")" = "(" ++ (x ++ ", " ++ y) ++ ")" :=
    String.toList_inj.1 (by simp)
  have hpair := hx.derives_pair hy (Nat.lt_succ_self maxDepth)
  rw [htext]
  exact compilesTo_of_derives (hx.spelled.comma hy.spelled).group
    (.alone (.single (.bare (.tuple hpair (by simp))))) (Nat.le_succ maxDepth)

/-- Between its operands, an operator has room if the tree of the operands fits. -/
theorem Operand.compilesTo_between (hx : Operand x ts ex) (hy : Operand y us ey) (op : SetOp) :
    CompilesTo ("(" ++ x ++ ") " ++ op.symbol.toString ++ " (" ++ y ++ ")") (.binary op ex ey) := by
  have htext : "(" ++ x ++ ") " ++ op.symbol.toString ++ " (" ++ y ++ ")" =
      "(" ++ x ++ ")" ++ " " ++ (op.symbol.toString ++ (" " ++ ("(" ++ y ++ ")"))) :=
    String.toList_inj.1 (by simp)
  have hlimit : maxDepth < maxDepth + 1 + (Expr.binary op ex ey).height := by omega
  have hright : Derives _ 0 (.operands [(op, ey)])
      (⟨.operator, op.symbol.toString⟩ :: (parenthesized us ++ [])) :=
    .operand (hy.derives_group hlimit) .noOperand
  rw [List.append_nil] at hright
  have hchain : Derives _ 0 (.chain (grouped ex [(op, ey)])) _ :=
    .chain (hx.derives_group hlimit) hright (by simp) (Nat.zero_add _ ▸ Nat.le_add_left ..)
  rw [htext]
  exact compilesTo_of_derives (hx.spelled.group.space (hy.spelled.group.indented.prefixed op))
    (.alone hchain) (Nat.le_of_lt hlimit)

theorem Operand.compilesTo_prefixed (hx : Operand x ts ex) (hy : Operand y us ey) (op : SetOp) :
    CompilesTo (op.symbol.toString ++ "(" ++ x ++ ", " ++ y ++ ")") (.binary op ex ey) := by
  have htext : op.symbol.toString ++ "(" ++ x ++ ", " ++ y ++ ")" =
      op.symbol.toString ++ ("(" ++ (x ++ ", " ++ y) ++ ")") :=
    String.toList_inj.1 (by simp)
  have hpair := hx.derives_pair hy (Nat.lt_succ_self maxDepth)
  rw [htext]
  exact compilesTo_of_derives ((hx.spelled.comma hy.spelled).group.prefixed op)
    (.alone (.single (.bare (.prefixed hpair)))) (Nat.le_succ maxDepth)

theorem Operand.compilesTo_call (hx : Operand x ts ex) (hy : Operand y us ey) {f : String}
    (hf : isWord f.toList = true) :
    CompilesTo (f ++ "(" ++ x ++ ", " ++ y ++ ")") (.call f [ex, ey]) := by
  have htext : f ++ "(" ++ x ++ ", " ++ y ++ ")" = f ++ "(" ++ (x ++ ", " ++ y) ++ ")" :=
    String.toList_inj.1 (by simp)
  have hpair := hx.derives_pair hy (Nat.lt_succ_self maxDepth)
  rw [htext]
  exact compilesTo_of_derives ((hx.spelled.comma hy.spelled).call hf)
    (.alone (.single (.bare (.call hpair)))) (Nat.le_succ maxDepth)

end

end Expr

open ImportQuery.Expr

/-- **Equivalent spellings compile to the same tree**, whatever the two texts in them are, as long
as they compile to expressions: a group to what is in it, lists with and without commas to the list,
an operator between and before its operands to the operation, and a call to the call. -/
theorem compile_spellings {x y f : String} {ex ey : Expr} (op : SetOp)
    (hx : compile x = .ok (some ex)) (hex : ex.isOperand = true)
    (hy : compile y = .ok (some ey)) (hey : ey.isOperand = true)
    (hf : isWord f.toList = true) :
    CompilesTo ("(" ++ x ++ ")") ex ∧
    CompilesTo ("(" ++ x ++ ") (" ++ y ++ ")") (.call "" [ex, ey]) ∧
    CompilesTo ("(" ++ x ++ ", " ++ y ++ ")") (.call "" [ex, ey]) ∧
    CompilesTo ("(" ++ x ++ ") " ++ op.symbol.toString ++ " (" ++ y ++ ")") (.binary op ex ey) ∧
    CompilesTo (op.symbol.toString ++ "(" ++ x ++ ", " ++ y ++ ")") (.binary op ex ey) ∧
    CompilesTo (f ++ "(" ++ x ++ ", " ++ y ++ ")") (.call f [ex, ey]) := by
  obtain ⟨ts, hx⟩ := Operand.of_compile hx hex
  obtain ⟨us, hy⟩ := Operand.of_compile hy hey
  exact ⟨hx.compilesTo_group, hx.compilesTo_juxtaposed hy, hx.compilesTo_tuple hy,
    hx.compilesTo_between hy op, hx.compilesTo_prefixed hy op, hx.compilesTo_call hy hf⟩

/-- A list without commas, and an operator that stands before its operands. -/
theorem compile_spellings_listAndPrefixed :
    compile " a b:all" = .ok (some (.call "" [.package "a", .selected (.package "b") ["all"]])) ∧
    compile "-(c, d) " = .ok (some (.binary .difference (.package "c") (.package "d"))) ∧
    isWord "test=1".toList = true ∧
    CompilesTo "( a b:all) - (-(c, d) )" (.binary .difference
      (.call "" [.package "a", .selected (.package "b") ["all"]])
      (.binary .difference (.package "c") (.package "d"))) := by
  have hlist : compile " a b:all" =
      .ok (some (.call "" [.package "a", .selected (.package "b") ["all"]])) :=
    compile_of_tokens [⟨.package, "a"⟩, ⟨.package, "b"⟩, ⟨.selector, "all"⟩] (by decide +kernel) rfl
  have hprefixed : compile "-(c, d) " =
      .ok (some (.binary .difference (.package "c") (.package "d"))) :=
    compile_of_tokens [⟨.operator, "-"⟩, ⟨.openParen, "("⟩, ⟨.package, "c"⟩, ⟨.comma, ","⟩,
      ⟨.package, "d"⟩, ⟨.closeParen, ")"⟩] (by decide +kernel) rfl
  have hword : isWord "test=1".toList = true := by decide +kernel
  obtain ⟨-, -, -, hinfix, -⟩ := compile_spellings .difference hlist rfl hprefixed rfl hword
  exact ⟨hlist, hprefixed, hword, hinfix⟩

end ImportQuery
