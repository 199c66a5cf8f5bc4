import ImportQuery.Graph.Edit
import Mathlib.Data.List.Induction

/-!
# What a graph tells of its history

A graph is the product of the edits that succeeded while it was made, and what can be looked up in
it says which these were. Each edit keeps the four indexes up to date on its own, so that they agree
is an invariant of the history.

* `apply_of_error` : an edit that fails leaves the graph as it was, although it works in place.
* `Records` : what can be looked up in a graph is what the given edits have put there.
* `Records.edit` : an edit that succeeds keeps the invariant, with the edit recorded.
* `records_ofEdits` : every graph records the edits that were accepted in its making.
* `ofEdits_represents` : the invariant, the order of the nodes, and which edits fail and change
  nothing, for every sequence of edits.
* `Built.ext` : two graphs are equal if nothing that can be looked up in them is different.
-/

namespace ImportQuery

/-! ## Changes of a state that may fail -/

section

variable {ε σ α β : Type} {m : ExceptT ε (StateM σ) α} {f : α → ExceptT ε (StateM σ) β} {s s' : σ}

theorem run_bind (m : ExceptT ε (StateM σ) α) (f : α → ExceptT ε (StateM σ) β) (s : σ) :
    (m >>= f).run s = match m.run s with
      | (.ok a, s') => (f a).run s'
      | (.error e, s') => (.error e, s') := by
  rw [ExceptT.run_bind]
  simp only [bind, StateT.bind]
  rcases m.run s with ⟨_ | _, _⟩
  · rfl
  · rfl

theorem run_bind_ok {a : α} (h : m.run s = (.ok a, s')) : (m >>= f).run s = (f a).run s' := by
  rw [run_bind, h]

theorem run_bind_error {e : ε} (h : m.run s = (.error e, s')) :
    (m >>= f).run s = (.error e, s') := by
  rw [run_bind, h]

theorem run_get_bind (f : σ → ExceptT ε (StateM σ) β) (s : σ) :
    (get >>= f).run s = (f s).run s := rfl

end

/-! ## Indexes -/

/-- An index keeps no empty sets. -/
def Index.Tight (ix : Index) : Prop :=
  ∀ (key : String) (ids : IdSet), ix.entries[key]? = some ids → ids ≠ ∅

theorem Index.tight_empty : empty.Tight := by simp [Tight, empty]

theorem Index.Tight.relate {ix : Index} (h : ix.Tight) (key id : String) :
    (ix.relate key id).Tight := by
  intro x ids hids
  rw [Index.relate, Std.ExtTreeMap.getElem?_insert] at hids
  split at hids
  · cases hids
    exact Std.ExtTreeSet.insert_ne_empty
  · exact h x ids hids

/-- Tight indexes are equal if the same is found in them. -/
theorem Index.Tight.ext {ix ix' : Index} (h : ix.Tight) (h' : ix'.Tight)
    (hfind : ∀ key, ix.find key = ix'.find key) : ix = ix' := by
  suffices hentries : ix.entries = ix'.entries by
    cases ix
    cases ix'
    exact congrArg Index.mk hentries
  refine Std.ExtTreeMap.ext_getElem? fun key => ?_
  have hkey := hfind key
  rw [find, find, Std.ExtTreeMap.getD_eq_getD_getElem?, Std.ExtTreeMap.getD_eq_getD_getElem?]
    at hkey
  cases hids : ix.entries[key]? with
  | none =>
    cases hids' : ix'.entries[key]? with
    | none => rfl
    | some ids' =>
      rw [hids, hids'] at hkey
      exact absurd hkey.symm (h' key ids' hids')
  | some ids =>
    cases hids' : ix'.entries[key]? with
    | none =>
      rw [hids, hids'] at hkey
      exact absurd hkey (h key ids hids)
    | some ids' =>
      rw [hids, hids'] at hkey
      exact congrArg some hkey

namespace Graph

variable {g g' : Graph} {n : Node} {importer imported id p : String}

/-! ## One edit -/

@[simp] theorem node?_empty (id : String) : empty.node? id = none := by simp [node?, empty]

@[simp] theorem imports_empty (id : String) : empty.imports id = ∅ := Index.find_empty id

@[simp] theorem importers_empty (id : String) : empty.importers id = ∅ := Index.find_empty id

@[simp] theorem variants_empty (id : String) : empty.variants id = ∅ := Index.find_empty id

theorem contains_iff : g.contains id = true ↔ ∃ n, g.node? id = some n := by
  rw [contains, Option.isSome_iff_exists]

theorem not_contains_iff : g.contains id = false ↔ g.node? id = none := by
  rw [contains, Option.isSome_eq_false_iff, Option.isNone_iff_eq_none]

theorem run_requireFree (h : g.contains id = false) : (requireFree id).run g = (.ok (), g) := by
  rw [requireFree, run_get_bind, h]
  rfl

theorem run_requireFree_taken (h : g.contains id = true) :
    (requireFree id).run g = (.error (.duplicateNode id), g) := by
  rw [requireFree, run_get_bind, h]
  rfl

theorem run_requireNode (h : g.contains id = true) : (requireNode id).run g = (.ok (), g) := by
  rw [requireNode, run_get_bind, h]
  rfl

theorem run_requireNode_missing (h : g.contains id = false) :
    (requireNode id).run g = (.error (.unknownNode id), g) := by
  rw [requireNode, run_get_bind, h]
  rfl

/-- Adding a node where its identifier is free. -/
theorem run_addNode (h : g.contains n.id = false) :
    (Edit.addNode n).run g = (.ok (), { g with
      nodes := g.nodes.insert n.id n
      variantIndex := n.testFor.elim g.variantIndex (g.variantIndex.relate · n.id) }) := by
  rw [Edit.run, Edit.perform, addNode, run_bind_ok (run_requireFree h)]
  cases n.testFor with
  | none => rfl
  | some package => rfl

theorem run_addNode_taken (h : g.contains n.id = true) :
    (Edit.addNode n).run g = (.error (.duplicateNode n.id), g) :=
  run_bind_error (run_requireFree_taken h)

/-- Adding an import where both its ends are nodes. -/
theorem run_addImport (hfrom : g.contains importer = true) (hto : g.contains imported = true) :
    (Edit.addImport importer imported).run g = (.ok (), { g with
      importIndex := g.importIndex.relate importer imported
      importerIndex := g.importerIndex.relate imported importer }) := by
  rw [Edit.run, Edit.perform, addImport, run_bind_ok (run_requireNode hfrom),
    run_bind_ok (run_requireNode hto)]
  rfl

theorem run_addImport_from (h : g.contains importer = false) :
    (Edit.addImport importer imported).run g = (.error (.unknownNode importer), g) :=
  run_bind_error (run_requireNode_missing h)

theorem run_addImport_to (hfrom : g.contains importer = true) (h : g.contains imported = false) :
    (Edit.addImport importer imported).run g = (.error (.unknownNode imported), g) := by
  rw [Edit.run, Edit.perform, addImport, run_bind_ok (run_requireNode hfrom)]
  exact run_bind_error (run_requireNode_missing h)

theorem edit_eq_ok_iff {e : Edit} : g.edit e = .ok g' ↔ e.run g = (.ok (), g') := by
  rw [edit]
  rcases e.run g with ⟨_ | ⟨⟩, _⟩ <;> simp [Except.map]

theorem edit_eq_error_iff {e : Edit} {err : GraphError} :
    g.edit e = .error err ↔ (e.run g).1 = .error err := by
  rw [edit]
  rcases e.run g with ⟨_ | ⟨⟩, _⟩ <;> simp [Except.map]

theorem addNode_eq_error_iff {err : GraphError} :
    g.edit (.addNode n) = .error err ↔ g.contains n.id = true ∧ err = .duplicateNode n.id := by
  rw [edit_eq_error_iff]
  cases hnew : g.contains n.id with
  | true => simp [run_addNode_taken hnew, @eq_comm _ err]
  | false => simp [run_addNode hnew]

theorem addImport_eq_error_iff {err : GraphError} :
    g.edit (.addImport importer imported) = .error err ↔
      (g.contains importer = false ∧ err = .unknownNode importer) ∨
      (g.contains importer = true ∧ g.contains imported = false ∧ err = .unknownNode imported) := by
  rw [edit_eq_error_iff]
  cases hfrom : g.contains importer with
  | false => simp [run_addImport_from hfrom, @eq_comm _ err]
  | true =>
    cases hto : g.contains imported with
    | false => simp [run_addImport_to hfrom hto, @eq_comm _ err]
    | true => simp [run_addImport hfrom hto]

/-- A node is added only where its identifier is free. -/
theorem edit_addNode_iff : g.edit (.addNode n) = .ok g' ↔ g.contains n.id = false ∧ { g with
      nodes := g.nodes.insert n.id n
      variantIndex := n.testFor.elim g.variantIndex (g.variantIndex.relate · n.id) } = g' := by
  rw [edit_eq_ok_iff]
  cases hnew : g.contains n.id with
  | true => simp [run_addNode_taken hnew]
  | false => simp [run_addNode hnew]

/-- An import is added only between nodes. -/
theorem edit_addImport_iff : g.edit (.addImport importer imported) = .ok g' ↔
    g.contains importer = true ∧ g.contains imported = true ∧ { g with
      importIndex := g.importIndex.relate importer imported
      importerIndex := g.importerIndex.relate imported importer } = g' := by
  rw [edit_eq_ok_iff]
  cases hfrom : g.contains importer with
  | false => simp [run_addImport_from hfrom]
  | true =>
    cases hto : g.contains imported with
    | false => simp [run_addImport_to hfrom hto]
    | true => simp [run_addImport hfrom hto]

theorem exists_addNode (h : g.contains n.id = false) : ∃ g', g.edit (.addNode n) = .ok g' :=
  ⟨_, edit_addNode_iff.2 ⟨h, rfl⟩⟩

theorem exists_addImport (hfrom : g.contains importer = true) (hto : g.contains imported = true) :
    ∃ g', g.edit (.addImport importer imported) = .ok g' :=
  ⟨_, edit_addImport_iff.2 ⟨hfrom, hto, rfl⟩⟩

theorem apply_of_ok {e : Edit} (h : g.edit e = .ok g') : g.apply e = g' := by
  rw [Graph.apply, edit_eq_ok_iff.1 h]

/-- **An edit that fails leaves the graph as it was.** -/
theorem apply_of_error {e : Edit} {err : GraphError} (h : g.edit e = .error err) :
    g.apply e = g := by
  rw [Graph.apply]
  cases e with
  | addNode n => rw [run_addNode_taken (addNode_eq_error_iff.1 h).1]
  | addImport importer imported =>
    rcases addImport_eq_error_iff.1 h with ⟨hfrom, -⟩ | ⟨hfrom, hto, -⟩
    · rw [run_addImport_from hfrom]
    · rw [run_addImport_to hfrom hto]

/-- All that can be seen of a graph after a node has been added. -/
theorem addNode_eq_ok (h : g.edit (.addNode n) = .ok g') :
    g.node? n.id = none ∧ (∀ id, g'.node? id = if id = n.id then some n else g.node? id) ∧
      g'.imports = g.imports ∧ g'.importers = g.importers ∧
      ∀ p id, id ∈ g'.variants p ↔ id ∈ g.variants p ∨ (n.testFor = some p ∧ id = n.id) := by
  obtain ⟨hnew, rfl⟩ := edit_addNode_iff.1 h
  refine ⟨not_contains_iff.1 hnew, fun id => ?_, rfl, rfl, fun p id => ?_⟩
  · by_cases hid : id = n.id
    · simp [node?, hid]
    · simp [node?, Std.ExtTreeMap.getElem?_insert, hid, Ne.symm hid]
  · cases hfor : n.testFor with
    | none => simp [variants]
    | some package => simp [variants, or_comm, @eq_comm _ package]

/-- All that can be seen of a graph after an import has been added. -/
theorem addImport_eq_ok (h : g.edit (.addImport importer imported) = .ok g') :
    g.contains importer = true ∧ g.contains imported = true ∧ g'.node? = g.node? ∧
      (∀ x y, y ∈ g'.imports x ↔ y ∈ g.imports x ∨ (x = importer ∧ y = imported)) ∧
      (∀ x y, x ∈ g'.importers y ↔ x ∈ g.importers y ∨ (x = importer ∧ y = imported)) ∧
      g'.variants = g.variants := by
  obtain ⟨hfrom, hto, rfl⟩ := edit_addImport_iff.1 h
  refine ⟨hfrom, hto, rfl, fun x y => ?_, fun x y => ?_, rfl⟩
  · simp [imports, or_comm]
  · simp [importers, or_comm, and_comm]

/-! ## The edits that succeed -/

/-- The edits of `es` that succeed when they are made in order, from `g` on. -/
def accepted (g : Graph) : List Edit → List Edit
  | [] => []
  | e :: es =>
    match g.edit e with
    | .ok g' => e :: accepted g' es
    | .error _ => accepted g es

/-- The nodes that edits add, in order. -/
def Edit.nodes (es : List Edit) : List Node :=
  es.filterMap fun
    | .addNode n => some n
    | .addImport .. => none

theorem Edit.nodes_append (es es' : List Edit) : nodes (es ++ es') = nodes es ++ nodes es' :=
  List.filterMap_append

@[simp] theorem Edit.nodes_addNode (n : Node) : nodes [.addNode n] = [n] := rfl

@[simp] theorem Edit.nodes_addImport (importer imported : String) :
    nodes [.addImport importer imported] = [] := rfl

theorem ofEdits_concat (es : List Edit) (e : Edit) :
    ofEdits (es ++ [e]) = (ofEdits es).apply e := by
  simp [ofEdits]

theorem accepted_append (g : Graph) (es es' : List Edit) :
    g.accepted (es ++ es') = g.accepted es ++ (es.foldl apply g).accepted es' := by
  induction es generalizing g with
  | nil => rfl
  | cons e es ih =>
    cases h : g.edit e with
    | ok g' => simp [accepted, h, apply_of_ok h, ih]
    | error err => simp [accepted, h, apply_of_error h, ih]

/-! ## The invariant -/

/-- What can be looked up in a graph is what the edits in `made` have put there. -/
structure Records (g : Graph) (made : List Edit) : Prop where
  /-- A lookup finds the node of the one edit that has added it. -/
  node : ∀ id, (Edit.nodes made).filter (·.id = id) = (g.node? id).toList
  imports : ∀ x y, y ∈ g.imports x ↔ .addImport x y ∈ made
  importers : ∀ x y, x ∈ g.importers y ↔ .addImport x y ∈ made
  /-- Both ends of an import are nodes. -/
  closed : ∀ x y, .addImport x y ∈ made → g.contains x = true ∧ g.contains y = true
  variants : ∀ p id, id ∈ g.variants p ↔ ∃ n, g.node? id = some n ∧ n.testFor = some p

theorem Records.node?_eq_find? {made : List Edit} (hg : g.Records made) (id : String) :
    g.node? id = (Edit.nodes made).find? (·.id = id) := by
  rw [← List.head?_filter, hg.node]
  cases g.node? id <;> rfl

theorem records_empty : empty.Records [] where
  node := by simp [Edit.nodes]
  imports := by simp
  importers := by simp
  closed := by simp
  variants := by simp

theorem Records.addNode {made : List Edit} (hg : g.Records made)
    (h : g.edit (.addNode n) = .ok g') : g'.Records (made ++ [.addNode n]) := by
  obtain ⟨hnew, hnode, himports, himporters, hvariants⟩ := addNode_eq_ok h
  refine ⟨fun id => ?_, ?_, ?_, fun x y hxy => ?_, fun p id => ?_⟩
  · rw [Edit.nodes_append, List.filter_append, hg.node, hnode]
    by_cases hid : id = n.id
    · subst hid
      simp [hnew]
    · simp [hid, Ne.symm hid]
  · simpa [himports] using hg.imports
  · simpa [himporters] using hg.importers
  · have hold := hg.closed x y (by simpa using hxy)
    have hkeep : ∀ id, g.contains id = true → g'.contains id = true := fun id => by
      rw [contains, contains, hnode]
      split <;> simp
    exact ⟨hkeep x hold.1, hkeep y hold.2⟩
  · rw [hvariants, hg.variants, hnode]
    by_cases hid : id = n.id
    · subst hid
      simp [hnew]
    · simp [hid]

theorem Records.addImport {made : List Edit} (hg : g.Records made)
    (h : g.edit (.addImport importer imported) = .ok g') :
    g'.Records (made ++ [.addImport importer imported]) := by
  obtain ⟨hfrom, hto, hnode, himports, himporters, hvariants⟩ := addImport_eq_ok h
  have hcontains : g'.contains = g.contains := by
    funext id
    rw [contains, contains, hnode]
  refine ⟨fun id => ?_, fun x y => ?_, fun x y => ?_, fun x y hxy => ?_, fun p id => ?_⟩
  · simpa [Edit.nodes_append, hnode] using hg.node id
  · simp [himports, hg.imports]
  · simp [himporters, hg.importers]
  · rw [hcontains]
    rcases List.mem_append.1 hxy with hold | hlast
    · exact hg.closed x y hold
    · simp only [List.mem_singleton, Edit.addImport.injEq] at hlast
      rw [hlast.1, hlast.2]
      exact ⟨hfrom, hto⟩
  · rw [hvariants, hnode, hg.variants]

/-- **An edit that succeeds is recorded**, and nothing else changes. -/
theorem Records.edit {made : List Edit} {e : Edit} (hg : g.Records made) (h : g.edit e = .ok g') :
    g'.Records (made ++ [e]) := by
  cases e with
  | addNode n => exact hg.addNode h
  | addImport importer imported => exact hg.addImport h

/-- Every graph records the edits that were accepted in its making. -/
theorem records_ofEdits (es : List Edit) : (ofEdits es).Records (empty.accepted es) := by
  induction es using List.reverseRecOn with
  | nil => exact records_empty
  | append_singleton es e ih =>
    rw [ofEdits_concat, accepted_append]
    change (Graph.apply _ e).Records (_ ++ (ofEdits es).accepted [e])
    cases h : (ofEdits es).edit e with
    | ok g' => simpa [accepted, h, apply_of_ok h] using ih.edit h
    | error err => simpa [accepted, h, apply_of_error h] using ih

theorem mem_ids_iff : id ∈ g.ids ↔ g.contains id = true := by
  rw [ids, IdSet.mem_ofList, Std.ExtTreeMap.mem_keys, contains, node?,
    Std.ExtTreeMap.mem_iff_isSome_getElem?]

/-- **A graph represents its history.** After any sequence of edits the graph records those that
were accepted; its nodes are listed in the order of their code points, each once; a node is refused
if there is one with its identifier, and an import if there is no node at one of its ends, of which
the error names the first; and an edit that is refused leaves everything as it was. -/
theorem ofEdits_represents (es : List Edit) :
    (ofEdits es).Records (empty.accepted es) ∧
    ((ofEdits es).ids.toList.Pairwise (· < ·) ∧
      ∀ id, id ∈ (ofEdits es).ids.toList ↔ (ofEdits es).contains id = true) ∧
    (∀ n err, (ofEdits es).edit (.addNode n) = .error err ↔
      (ofEdits es).contains n.id = true ∧ err = .duplicateNode n.id) ∧
    (∀ x y err, (ofEdits es).edit (.addImport x y) = .error err ↔
      ((ofEdits es).contains x = false ∧ err = .unknownNode x) ∨
      ((ofEdits es).contains x = true ∧ (ofEdits es).contains y = false ∧
        err = .unknownNode y)) ∧
    ∀ e err, (ofEdits es).edit e = .error err →
      ofEdits (es ++ [e]) = ofEdits es ∧
        empty.accepted (es ++ [e]) = empty.accepted es := by
  refine ⟨records_ofEdits es, ⟨IdSet.pairwise_toList _, fun id => ?_⟩,
    fun _ _ => addNode_eq_error_iff, fun _ _ _ => addImport_eq_error_iff, fun e err h => ⟨?_, ?_⟩⟩
  · rw [Std.ExtTreeSet.mem_toList, mem_ids_iff]
  · rw [ofEdits_concat, apply_of_error h]
  · have hlast : (ofEdits es).accepted [e] = [] := by simp [accepted, h]
    rw [accepted_append]
    exact (congrArg (_ ++ ·) hlast).trans (List.append_nil _)

/-! ## Graphs with a history -/

theorem Built.apply (hg : g.Built) (e : Edit) : (g.apply e).Built := by
  obtain ⟨es, rfl⟩ := hg
  exact ⟨es ++ [e], (ofEdits_concat es e).symm⟩

theorem Built.edit (hg : g.Built) {e : Edit} (h : g.edit e = .ok g') : g'.Built :=
  apply_of_ok h ▸ hg.apply e

theorem Built.exists_records (hg : g.Built) : ∃ made, g.Records made := by
  obtain ⟨es, rfl⟩ := hg
  exact ⟨_, records_ofEdits es⟩

theorem Built.mem_importers_iff (hg : g.Built) :
    importer ∈ g.importers id ↔ id ∈ g.imports importer := by
  obtain ⟨made, hmade⟩ := hg.exists_records
  rw [hmade.importers, hmade.imports]

theorem Built.contains_of_mem_imports (hg : g.Built) (h : imported ∈ g.imports importer) :
    g.contains importer = true ∧ g.contains imported = true := by
  obtain ⟨made, hmade⟩ := hg.exists_records
  exact hmade.closed _ _ ((hmade.imports _ _).1 h)

theorem Built.mem_variants_iff (hg : g.Built) :
    id ∈ g.variants p ↔ ∃ n, g.node? id = some n ∧ n.testFor = some p := by
  obtain ⟨made, hmade⟩ := hg.exists_records
  exact hmade.variants p id

/-! ## Graphs that cannot be told apart -/

/-- No index of the graph keeps empty sets. -/
structure Tight (g : Graph) : Prop where
  imports : g.importIndex.Tight
  importers : g.importerIndex.Tight
  variants : g.variantIndex.Tight

theorem tight_empty : empty.Tight := ⟨Index.tight_empty, Index.tight_empty, Index.tight_empty⟩

theorem Tight.edit {e : Edit} (hg : g.Tight) (h : g.edit e = .ok g') : g'.Tight := by
  cases e with
  | addNode n =>
    obtain ⟨-, rfl⟩ := edit_addNode_iff.1 h
    refine ⟨hg.imports, hg.importers, ?_⟩
    cases n.testFor with
    | none => exact hg.variants
    | some package => exact hg.variants.relate package n.id
  | addImport importer imported =>
    obtain ⟨-, -, rfl⟩ := edit_addImport_iff.1 h
    exact ⟨hg.imports.relate _ _, hg.importers.relate _ _, hg.variants⟩

theorem Built.tight (hg : g.Built) : g.Tight := by
  obtain ⟨es, rfl⟩ := hg
  induction es using List.reverseRecOn with
  | nil => exact tight_empty
  | append_singleton es e ih =>
    rw [ofEdits_concat]
    cases h : (ofEdits es).edit e with
    | ok g => exact apply_of_ok h ▸ ih.edit h
    | error err => exact (apply_of_error h).symm ▸ ih

/-- Graphs with a history are equal if nothing that can be looked up in them is different. -/
theorem Built.ext (hg : g.Built) (hg' : g'.Built) (hnode : ∀ id, g.node? id = g'.node? id)
    (himports : ∀ id, g.imports id = g'.imports id)
    (himporters : ∀ id, g.importers id = g'.importers id)
    (hvariants : ∀ id, g.variants id = g'.variants id) : g = g' := by
  have hnodes : g.nodes = g'.nodes := Std.ExtTreeMap.ext_getElem? fun {id} => hnode id
  have himportIndex := hg.tight.imports.ext hg'.tight.imports himports
  have himporterIndex := hg.tight.importers.ext hg'.tight.importers himporters
  have hvariantIndex := hg.tight.variants.ext hg'.tight.variants hvariants
  cases g
  cases g'
  simp_all

end Graph

end ImportQuery
