import ImportQuery.Expr.Basic

/-!
# Height by recursion

The height of an expression is computed by a loop over a list of pending subexpressions. Here it is
shown to be the number of levels that one counts by recursion on the tree (`height_eq_levels`), so
that it is one more than the largest height among the children (`height_eq`). In which order the
loop takes what is pending makes no difference (`climbs_iff`).
-/

namespace ImportQuery.Expr

mutual

/-- The number of levels of a tree, by recursion on the tree. -/
def levels : Expr → Nat
  | package _ => 1
  | selected base _ => base.levels + 1
  | binary _ left right => max left.levels right.levels + 1
  | call _ args => mostLevels args + 1
  | assign _ value => value.levels + 1
  | program statements => mostLevels statements + 1

/-- The largest number of levels among some trees. -/
def mostLevels : List Expr → Nat
  | [] => 0
  | e :: es => max e.levels (mostLevels es)

end

theorem levels_eq (e : Expr) : e.levels = mostLevels e.children + 1 := by
  cases e <;> simp [levels, mostLevels, children]

/-- The deepest level that the pending expressions reach. -/
def deepest : List (Expr × Nat) → Nat
  | [] => 0
  | (e, level) :: pending => max (level + mostLevels e.children) (deepest pending)

/-- The children of a node at `level` reach as deep as the node does, or do not exist. -/
theorem max_deepest_children (es : List Expr) (level : Nat) (pending : List (Expr × Nat)) :
    max level (deepest (es.map (·, level + 1) ++ pending)) =
      max (level + mostLevels es) (deepest pending) := by
  induction es with
  | nil => simp [mostLevels]
  | cons e es ih =>
    have he := e.levels_eq
    simp only [List.map_cons, List.cons_append, deepest, mostLevels]
    omega

/-- The loop finds the deepest level of what is pending, unless it has seen a deeper one. -/
theorem tallest_eq (best : Nat) (pending : List (Expr × Nat)) :
    tallest best pending = max best (deepest pending) := by
  induction best, pending using tallest.induct with
  | case1 best => simp [tallest, deepest]
  | case2 best e level pending ih =>
    have hchildren := max_deepest_children e.children level pending
    rw [tallest, ih, deepest]
    omega

theorem height_eq_levels (e : Expr) : e.height = e.levels := by
  have he := e.levels_eq
  rw [height, tallest_eq, deepest, deepest]
  omega

theorem mostLevels_eq (es : List Expr) : mostLevels es = (es.map height).foldr max 0 := by
  induction es with
  | nil => rfl
  | cons e es ih => simp only [mostLevels, List.map_cons, List.foldr_cons, ih, height_eq_levels]

/-- A tree is one level higher than the highest of its children. -/
theorem height_eq (e : Expr) : e.height = (e.children.map height).foldr max 0 + 1 := by
  rw [height_eq_levels, levels_eq, mostLevels_eq]

theorem height_pos (e : Expr) : 0 < e.height := by
  rw [height_eq]
  exact Nat.succ_pos _

theorem height_package (name : String) : (package name).height = 1 := by
  rw [height_eq_levels, levels]

theorem mostLevels_le_iff {es : List Expr} {n : Nat} :
    mostLevels es ≤ n ↔ ∀ e ∈ es, e.height ≤ n := by
  induction es with
  | nil => simp [mostLevels]
  | cons e es ih => rw [mostLevels, Nat.max_le, ih, List.forall_mem_cons, height_eq_levels]

theorem height_le_succ_iff {e : Expr} {n : Nat} :
    e.height ≤ n + 1 ↔ ∀ a ∈ e.children, a.height ≤ n := by
  rw [height_eq_levels, levels_eq, Nat.add_le_add_iff_right, mostLevels_le_iff]

theorem height_lt_of_mem_children {e a : Expr} (h : a ∈ e.children) : a.height < e.height := by
  have hmost := mostLevels_le_iff.1 (Nat.le_refl _) a h
  rw [height_eq_levels e, levels_eq]
  omega

theorem height_binary (op : SetOp) (left right : Expr) :
    (binary op left right).height = max left.height right.height + 1 := by
  simp only [height_eq_levels, levels]

/-! ## The order of what is pending -/

/-- A run of the loop that takes the pending expressions in any order and puts their children
anywhere among them: started with `best` and `pending`, it ends with `result`. -/
inductive Climbs : Nat → List (Expr × Nat) → Nat → Prop
  | stop {best : Nat} : Climbs best [] best
  | take {best level result : Nat} {e : Expr} {pending others next : List (Expr × Nat)}
    (hpending : pending.Perm ((e, level) :: others))
    (hnext : next.Perm (e.children.map (·, level + 1) ++ others))
    (h : Climbs (max best level) next result) : Climbs best pending result

theorem deepest_perm {pending pending' : List (Expr × Nat)} (h : pending.Perm pending') :
    deepest pending = deepest pending' := by
  induction h with
  | nil => rfl
  | cons p _ ih => rw [deepest, deepest, ih]
  | swap p q pending =>
    simp only [deepest]
    omega
  | trans _ _ ih ih' => rw [ih, ih']

theorem climbs_tallest (best : Nat) (pending : List (Expr × Nat)) :
    Climbs best pending (tallest best pending) := by
  induction best, pending using tallest.induct with
  | case1 best =>
    rw [tallest]
    exact .stop
  | case2 best e level pending ih =>
    rw [tallest]
    exact .take (.refl _) (.refl _) ih

/-- Every run of the loop finds the same, whatever it takes first. -/
theorem climbs_iff {best result : Nat} {pending : List (Expr × Nat)} :
    Climbs best pending result ↔ result = tallest best pending := by
  constructor
  · intro h
    induction h with
    | stop => rw [tallest]
    | @take best level result e pending others next hpending hnext _ ih =>
      have hchildren := max_deepest_children e.children level others
      have hdeepest : deepest pending = max (level + mostLevels e.children) (deepest others) :=
        deepest_perm hpending
      rw [ih, tallest_eq, tallest_eq, deepest_perm hnext]
      omega
  · rintro rfl
    exact climbs_tallest best pending

end ImportQuery.Expr
