import ImportQuery.Proofs.Expr.Acceptance
import ImportQuery.Proofs.Expr.CanonicalTokens

/-!
# Reading a canonical form

What the grammar makes of the tokens of a canonical form. No operator stands between operands in it
and every list has its parentheses, so that only `brackets` counts for the depth. Within the limit,
the tree is the old one with merged selectors.

* `Plain.derivesMerged` : the tokens are a primary with all the selectors of the expression.
* `IsQuery.derivesProgram_tokens` : the grammar derives the flattened tree within the limit.
-/

namespace ImportQuery.Expr

open ParseM ImportQuery.Expr.Parser
open Token (startsWith isWord)

/-! ## Within the limit -/

section

variable {limit d : Nat} {e : Expr}

/-- The expression with the given selectors, if there are any. -/
def withTags (e : Expr) (tags : List String) : Expr :=
  if tags = [] then e else .selected e tags

theorem select_withTags (he : ∀ b us, e ≠ .selected b us) {tags more : List String}
    (hmore : more ≠ []) : (e.withTags tags).select more = e.withTags (tags ++ more) := by
  have hne : tags ++ more ≠ [] := by simp [hmore]
  rw [withTags, withTags, if_neg hne]
  by_cases htags : tags = []
  · rw [if_pos htags, htags, List.nil_append]
    cases e with
    | selected b us => exact absurd rfl (he b us)
    | package | binary | call | assign | program => rfl
  · rw [if_neg htags, select]

theorem Derives.term_withTags {tags : List String} {ts : List Token}
    (h : Derives limit d (.primary e) ts) :
    Derives limit d (.term (e.withTags tags)) (ts ++ tags.map (Token.mk .selector)) := by
  by_cases htags : tags = []
  · subst htags
    simpa [withTags] using Derives.bare h
  · rw [withTags, if_neg htags]
    exact .selected h htags

theorem separated_joined {α : Type} (separator : Token) {G : α → List Token → Prop}
    {f : Expr → α} {es : List Expr} (hne : es ≠ []) (h : ∀ e ∈ es, G (f e) e.tokens) :
    Separated separator.kind G (es.map f) (joined separator (es.map tokens)) := by
  induction es with
  | nil => exact absurd rfl hne
  | cons e es ih =>
    obtain ⟨he, hes⟩ := List.forall_mem_cons.1 h
    cases es with
    | nil => exact .last he
    | cons e' es => exact .cons he (ih (by simp) hes)

theorem derives_parenthesized {es : List Expr} (hd : d < limit) (hne : es ≠ [])
    (h : ∀ e ∈ es, Derives limit (d + 1) (.list e.flatten) e.tokens) :
    Derives limit d (.bracket (es.map flatten))
      (parenthesized (joined ⟨.comma, ","⟩ (es.map tokens))) :=
  .bracket hd (derives_items_iff.2
    (separated_joined ⟨.comma, ","⟩ (G := fun e => Derives limit (d + 1) (.list e)) hne h))

/-- The tokens are a primary with all the selectors of the expression: the primary is no selection
itself. -/
def DerivesMerged (limit d : Nat) (e : Expr) (ts : List Token) : Prop :=
  ∃ base tags us, Derives limit d (.primary base) us ∧ (∀ b more, base ≠ .selected b more) ∧
    e = base.withTags tags ∧ ts = us ++ tags.map (Token.mk .selector)

theorem Derives.merged {ts : List Token} (h : Derives limit d (.primary e) ts)
    (hne : ∀ b more, e ≠ .selected b more) : DerivesMerged limit d e ts :=
  ⟨e, [], ts, h, hne, rfl, (List.append_nil ts).symm⟩

theorem DerivesMerged.list {ts : List Token} (h : DerivesMerged limit d e ts) :
    Derives limit d (.list e) ts := by
  obtain ⟨base, tags, us, hbase, -, rfl, rfl⟩ := h
  exact .alone (.single hbase.term_withTags)

/-- The arguments fit into what is left inside the parenthesis. -/
theorem derives_args {args : List Expr} (hfits : d + (mostBrackets args + 1) ≤ limit)
    (h : ∀ e ∈ args, ∀ {d : Nat}, d + e.brackets ≤ limit →
      DerivesMerged limit d e.flatten e.tokens) :
    ∀ e ∈ args, Derives limit (d + 1) (.list e.flatten) e.tokens := by
  intro e he
  have hmost := mostBrackets_le_iff.1 (Nat.le_refl _) e he
  exact (h e he (by omega)).list

theorem Plain.derivesMerged (h : Plain e) (hfits : d + e.brackets ≤ limit) :
    DerivesMerged limit d e.flatten e.tokens := by
  induction h generalizing d with
  | package => exact Derives.merged .package (by simp [flatten])
  | @selected base more _ hmore _ ih =>
    obtain ⟨b, tags, ts, hb, hne, hflatten, htokens⟩ := ih hfits
    refine ⟨b, tags ++ more, ts, hb, hne, ?_, ?_⟩
    · rw [flatten, hflatten, select_withTags hne hmore]
    · rw [tokens, htokens, List.map_append, List.append_assoc]
  | @binary op left right _ _ ihleft ihright =>
    rw [brackets] at hfits
    have hargs : ∀ e ∈ [left, right], Derives limit (d + 1) (.list e.flatten) e.tokens :=
      derives_args (by simpa only [mostBrackets, Nat.max_zero] using hfits)
        (by simpa using ⟨ihleft, ihright⟩)
    have hd : d < limit := by omega
    have hbracket := derives_parenthesized hd (by simp) hargs
    exact Derives.merged (.prefixed hbracket) (by simp [flatten])
  | @call name args hname _ ih =>
    rw [brackets] at hfits
    rw [flatten, tokens, if_neg (ne_empty_of_isWord hname), flattenAll_eq_map,
      tokensOfEach_eq_map]
    have hd : d < limit := by omega
    by_cases hne : args = []
    · subst hne
      exact Derives.merged (.callNothing hd) (by simp)
    · have hbracket := derives_parenthesized hd hne (derives_args hfits ih)
      exact Derives.merged (.call hbracket) (by simp)
  | @tuple args _ hlength ih =>
    rw [brackets] at hfits
    rw [flatten, tokens, if_pos rfl, List.nil_append, flattenAll_eq_map, tokensOfEach_eq_map]
    have hne : args ≠ [] := by
      rintro rfl
      simp at hlength
    have hd : d < limit := by omega
    have hbracket := derives_parenthesized hd hne (derives_args hfits ih)
    exact Derives.merged (.tuple hbracket (by simpa using hlength)) (by simp)

theorem IsStatement.derivesStatement (h : IsStatement e) (hfits : d + e.brackets ≤ limit) :
    DerivesStatement limit d e.flatten e.tokens := by
  cases h with
  | list h => exact .list (h.derivesMerged hfits).list
  | assign _ h => exact .assign (h.derivesMerged hfits).list

theorem isAssignment_flatten (e : Expr) : e.flatten.isAssignment = e.isAssignment := by
  cases e with
  | selected base tags =>
    rw [flatten]
    cases base.flatten <;> rfl
  | package | binary | call | assign | program => rfl

/-- Within the limit, the grammar derives the tree with merged selectors from the tokens of the
canonical form. -/
theorem IsQuery.derivesProgram_tokens (h : IsQuery e) (hfits : e.brackets ≤ limit) :
    DerivesProgram limit e.flatten e.tokens := by
  cases h with
  | single h => exact .single (h.derivesStatement (by omega))
  | @several ss h hss hassign =>
    rw [flatten, tokens, flattenAll_eq_map, tokensOfEach_eq_map]
    have hne : ss ≠ [] := by
      rintro rfl
      simp at hss
    have hall : ∀ s ∈ ss, DerivesStatement limit 0 s.flatten s.tokens := fun s hs =>
      (h s hs).derivesStatement (by
        have hmost := mostBrackets_le_iff.1 hfits s hs
        omega)
    refine .several (separated_joined ⟨.semicolon, ";"⟩ hne hall) (by simpa using hss) ?_
    intro s hs
    rw [← List.map_dropLast] at hs
    obtain ⟨s', hs', rfl⟩ := List.mem_map.1 hs
    rw [isAssignment_flatten, hassign s' hs']

end

end ImportQuery.Expr
