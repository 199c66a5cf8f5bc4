import ImportQuery.Graph.Document
import ImportQuery.Proofs.Graph.History
import Mathlib.Data.List.Forall2
import Mathlib.Data.List.Nodup
import Mathlib.Data.Set.List

/-!
# What a document says of a graph

A JSON value describes a graph if its entries have the right shape, no identifier is given twice and
every import names an entry. Reading it is a history of edits: all nodes first, and then the
imports. So what can be looked up in the graph is what the entries say, and nothing in it tells in
which order they have said it.

* `WellShaped`, `Holds` : the entries that are read, and the graph that they describe.
* `ofJson_eq_ok_iff` : reading a document is a history of edits.
* `exists_edits_iff` : the histories of that form in which every edit succeeds.
* `ofJson_exact` : the documents that are read, the graphs that come of them, and what makes no
  difference to these.
-/

namespace ImportQuery.Graph

/-! ## What entries say -/

/-- The entry has nothing, or `null`, under the key. -/
def Omits (entry : Json) (key : String) : Prop :=
  entry.member? key = none ∨ entry.member? key = some .null

/-- The entry is an object with an identifier, and the optional fields that it has are of the right
kinds. -/
structure EntryShape (entry : Json) : Prop where
  id : ∃ id, entry.member? "id" = some (.string id)
  testFor : Omits entry "test_for" ∨ ∃ p, entry.member? "test_for" = some (.string p)
  imports : Omits entry "imports" ∨ ∃ items, entry.member? "imports" = some (.array items) ∧
    ∀ item ∈ items, ∃ imported, item = .string imported

/-- The entry is one of the given package. -/
def Names (entry : Json) (id : String) : Prop := entry.member? "id" = some (.string id)

/-- The entry has the given package in its list of imports. -/
def Lists (entry : Json) (imported : String) : Prop :=
  ∃ items, entry.member? "imports" = some (.array items) ∧ .string imported ∈ items

/-- The entry is one of the given node. -/
structure Describes (entry : Json) (n : Node) : Prop where
  id : Names entry n.id
  executable : n.executable = true ↔ entry.member? "main" = some (.bool true)
  testFor : ∀ p, n.testFor = some p ↔ entry.member? "test_for" = some (.string p)

/-- The entries have the right shape, no identifier is given twice, and every import is that of some
entry. -/
structure WellShaped (entries : List Json) : Prop where
  shape : ∀ entry ∈ entries, EntryShape entry
  distinct : (entries.map (·.member? "id")).Nodup
  closed : ∀ entry ∈ entries, ∀ imported, Lists entry imported →
    ∃ entry' ∈ entries, Names entry' imported

/-- What can be looked up in the graph is what the entries say. -/
structure Holds (g : Graph) (entries : List Json) : Prop where
  node : ∀ id n, g.node? id = some n ↔ n.id = id ∧ ∃ entry ∈ entries, Describes entry n
  imports : ∀ x y, y ∈ g.imports x ↔ ∃ entry ∈ entries, Names entry x ∧ Lists entry y
  importers : ∀ x y, x ∈ g.importers y ↔ y ∈ g.imports x
  variants : ∀ p x, x ∈ g.variants p ↔ ∃ n, g.node? x = some n ∧ n.testFor = some p

/-- The entries say the same, but for the order of the imports and how often each is listed. -/
structure SaysTheSame (entry entry' : Json) : Prop where
  fields : ∀ key ∈ ["id", "main", "test_for"], entry.member? key = entry'.member? key
  imports : entry.member? "imports" = entry'.member? "imports" ∨
    ∃ items items', entry.member? "imports" = some (.array items) ∧
      entry'.member? "imports" = some (.array items') ∧ ∀ item, item ∈ items ↔ item ∈ items'

/-- The second list has entries that say the same, in some order. -/
def Rearranged (entries entries' : List Json) : Prop :=
  ∃ mid, entries.Perm mid ∧ List.Forall₂ SaysTheSame mid entries'

/-! ## Reading an entry -/

theorem bind_eq_ok_iff {ε α β : Type} {x : Except ε α} {f : α → Except ε β} {b : β} :
    x >>= f = .ok b ↔ ∃ a, x = .ok a ∧ f a = .ok b := by
  cases x <;> simp [bind, Except.bind]

theorem mapError_eq_ok_iff {ε ε' α : Type} {x : Except ε α} {f : ε → ε'} {a : α} :
    x.mapError f = .ok a ↔ x = .ok a := by
  cases x <;> simp [Except.mapError]

/-- What an entry has been read as. -/
structure Row where
  node : Node
  /-- The packages that are imported, as they are listed. -/
  imports : List String

/-- The entry is read as the row. -/
def ReadAs (entry : Json) (row : Row) : Prop :=
  nodeOfJson entry = .ok row.node ∧ importsOfJson entry row.node.id = .ok row.imports

section

variable {entry : Json} {n : Node} {row : Row}

theorem textField_eq_ok_iff {key : String} {r : Option String} :
    textField entry key = .ok r ↔
      (Omits entry key ∨ ∃ s, entry.member? key = some (.string s)) ∧
        ∀ s, r = some s ↔ entry.member? key = some (.string s) := by
  unfold textField Omits
  split
  · rename_i h
    simp [h, eq_comm, Option.eq_none_iff_forall_ne_some]
  · rename_i h
    simp [h, eq_comm, Option.eq_none_iff_forall_ne_some]
  · rename_i s h
    simp only [h, Except.ok.injEq, Option.some.injEq, Json.string.injEq, reduceCtorEq, or_self,
      exists_eq', or_true, true_and]
    exact ⟨fun hr s' => by rw [← hr, Option.some.injEq], fun hr => ((hr s).2 rfl).symm⟩
  · rename_i value hnull hstring h
    simp_all

/-- The fields of a node are read one by one. -/
theorem nodeOfJson_eq_ok_iff_fields : nodeOfJson entry = .ok n ↔
    textField entry "id" = .ok (some n.id) ∧
      (n.executable = true ↔ entry.member? "main" = some (.bool true)) ∧
      textField entry "test_for" = .ok n.testFor := by
  rw [nodeOfJson, bind_eq_ok_iff]
  constructor
  · rintro ⟨id?, hid, h⟩
    cases id? with
    | none => cases h
    | some id =>
      obtain ⟨testFor, htest, h⟩ := bind_eq_ok_iff.1 h
      cases h
      refine ⟨hid, ?_, htest⟩
      split
      · rename_i hmain
        simp [hmain]
      · rename_i hmain
        have hno : entry.member? "main" ≠ some (.bool true) := hmain true
        simp [hno]
  · rintro ⟨hid, hmain, htest⟩
    obtain ⟨id, executable, testFor⟩ := n
    refine ⟨some id, hid, bind_eq_ok_iff.2 ⟨testFor, htest, ?_⟩⟩
    split
    · rename_i b hb
      obtain rfl : executable = b := Bool.eq_iff_iff.2 (by simpa [hb] using hmain)
      rfl
    · rename_i hb
      obtain rfl : executable = false :=
        Bool.eq_false_iff.2 fun hexecutable => hb true (hmain.1 hexecutable)
      rfl

theorem nodeOfJson_eq_ok_iff :
    nodeOfJson entry = .ok n ↔ Describes entry n ∧
      (Omits entry "test_for" ∨ ∃ p, entry.member? "test_for" = some (.string p)) := by
  have hid : textField entry "id" = .ok (some n.id) ↔ Names entry n.id := by
    rw [textField_eq_ok_iff, Names]
    constructor
    · exact fun h => (h.2 _).1 rfl
    · exact fun h => ⟨.inr ⟨_, h⟩, fun s => by simp [h]⟩
  rw [nodeOfJson_eq_ok_iff_fields, hid, textField_eq_ok_iff]
  constructor
  · rintro ⟨hid, hmain, hshape, htest⟩
    exact ⟨⟨hid, hmain, htest⟩, hshape⟩
  · rintro ⟨⟨hid, hmain, htest⟩, hshape⟩
    exact ⟨hid, hmain, hshape, htest⟩

/-- A list of texts is read by reading each. -/
theorem mapM_eq_ok_iff {ε : Type} {f : Json → Except ε String}
    (hf : ∀ item s, f item = .ok s ↔ item = .string s) {items : List Json} {targets : List String} :
    items.mapM f = .ok targets ↔ items = targets.map .string := by
  induction items generalizing targets with
  | nil => cases targets <;> simp [pure, Except.pure]
  | cons item items ih =>
    simp only [List.mapM_cons, bind_eq_ok_iff, hf, ih]
    cases targets with
    | nil => simp [pure, Except.pure]
    | cons target targets => simp [pure, Except.pure]

theorem importsOfJson_eq_ok_iff {id : String} {targets : List String} :
    importsOfJson entry id = .ok targets ↔ (Omits entry "imports" ∧ targets = []) ∨
      entry.member? "imports" = some (.array (targets.map .string)) := by
  unfold importsOfJson Omits
  split
  · rename_i h
    simp [h, eq_comm]
  · rename_i h
    simp [h, eq_comm]
  · rename_i items h
    rw [mapM_eq_ok_iff fun item s => by cases item <;> simp]
    simp [h]
  · rename_i value hnull harray h
    simp_all

/-- An entry is read as some row if it has the right shape. -/
theorem exists_readAs_iff : (∃ row, ReadAs entry row) ↔ EntryShape entry := by
  constructor
  · rintro ⟨row, hnode, himports⟩
    rw [nodeOfJson_eq_ok_iff] at hnode
    rw [importsOfJson_eq_ok_iff] at himports
    refine ⟨⟨_, hnode.1.id⟩, hnode.2, himports.imp And.left fun h => ⟨_, h, fun item hitem => ?_⟩⟩
    obtain ⟨imported, -, rfl⟩ := List.mem_map.1 hitem
    exact ⟨imported, rfl⟩
  · rintro ⟨⟨id, hid⟩, htest, himports⟩
    classical
    obtain ⟨testFor, htestFor⟩ : ∃ testFor : Option String,
        ∀ p, testFor = some p ↔ entry.member? "test_for" = some (.string p) := by
      rcases htest with (h | h) | ⟨p, h⟩
      · exact ⟨none, by simp [h]⟩
      · exact ⟨none, by simp [h]⟩
      · exact ⟨some p, by simp [h]⟩
    have hnode : nodeOfJson entry =
        .ok ⟨id, decide (entry.member? "main" = some (.bool true)), testFor⟩ :=
      nodeOfJson_eq_ok_iff.2 ⟨⟨hid, decide_eq_true_iff, htestFor⟩, htest⟩
    rcases himports with himports | ⟨items, himports, htext⟩
    · exact ⟨⟨_, []⟩, hnode, importsOfJson_eq_ok_iff.2 (.inl ⟨himports, rfl⟩)⟩
    · obtain ⟨targets, rfl⟩ : ∃ targets : List String, targets.map .string = items := by
        rw [← Set.mem_range, Set.range_list_map]
        exact fun item hitem => (htext item hitem).imp fun _ => Eq.symm
      exact ⟨⟨_, targets⟩, hnode, importsOfJson_eq_ok_iff.2 (.inr himports)⟩

theorem ReadAs.names_iff (h : ReadAs entry row) {id : String} :
    Names entry id ↔ row.node.id = id := by
  have hid : Names entry row.node.id := (nodeOfJson_eq_ok_iff.1 h.1).1.id
  rw [Names] at hid ⊢
  simp [hid]

theorem ReadAs.describes_iff (h : ReadAs entry row) : Describes entry n ↔ n = row.node := by
  obtain ⟨hdescribes, htest⟩ := nodeOfJson_eq_ok_iff.1 h.1
  constructor
  · intro hn
    have hread := nodeOfJson_eq_ok_iff.2 ⟨hn, htest⟩
    rw [h.1] at hread
    exact (Except.ok.inj hread).symm
  · rintro rfl
    exact hdescribes

theorem ReadAs.lists_iff (h : ReadAs entry row) {imported : String} :
    Lists entry imported ↔ imported ∈ row.imports := by
  rcases importsOfJson_eq_ok_iff.1 h.2 with ⟨hnone | hnull, hrow⟩ | hlist
  · simp [Lists, hnone, hrow]
  · simp [Lists, hnull, hrow]
  · simp [Lists, hlist]

end

/-! ## Reading a document -/

/-- The imports that a row lists, with both their ends. -/
def Row.ends (row : Row) : List (String × String) := row.imports.map (row.node.id, ·)

/-- The history that rows tell: all nodes, and then the imports. -/
def edits (rows : List Row) : List Edit :=
  (rows.map (·.node)).map .addNode ++ (rows.flatMap (·.ends)).map fun e => .addImport e.1 e.2

theorem addEntry_eq_ok_iff {d d' : Draft} {entry : Json} :
    d.addEntry entry = .ok d' ↔ ∃ row, ReadAs entry row ∧
      d.graph.edit (.addNode row.node) = .ok d'.graph ∧
      d'.imports = d.imports ++ row.ends := by
  simp only [Draft.addEntry, bind_eq_ok_iff, mapError_eq_ok_iff, ReadAs]
  constructor
  · rintro ⟨node, hnode, graph, hgraph, targets, htargets, h⟩
    cases h
    exact ⟨⟨node, targets⟩, ⟨hnode, htargets⟩, hgraph, rfl⟩
  · rintro ⟨⟨node, targets⟩, ⟨hnode, htargets⟩, hgraph, himports⟩
    refine ⟨node, hnode, _, hgraph, targets, htargets, ?_⟩
    cases d'
    cases himports
    rfl

/-- A draft is read by reading each entry and adding its node. -/
theorem foldlM_addEntry_eq_ok_iff {entries : List Json} {d d' : Draft} :
    entries.foldlM Draft.addEntry d = .ok d' ↔ ∃ rows, List.Forall₂ ReadAs entries rows ∧
      ((rows.map (·.node)).map Edit.addNode).foldlM edit d.graph = .ok d'.graph ∧
      d'.imports = d.imports ++ rows.flatMap (·.ends) := by
  induction entries generalizing d with
  | nil =>
    simp only [List.foldlM_nil, List.forall₂_nil_left_iff, exists_eq_left, List.map_nil,
      List.flatMap_nil, List.append_nil]
    constructor
    · intro h
      cases h
      exact ⟨rfl, rfl⟩
    · rintro ⟨hgraph, himports⟩
      cases d
      cases d'
      cases hgraph
      cases himports
      rfl
  | cons entry entries ih =>
    simp only [List.foldlM_cons, bind_eq_ok_iff, addEntry_eq_ok_iff, ih,
      List.forall₂_cons_left_iff]
    constructor
    · rintro ⟨mid, ⟨row, hrow, hnode, himports⟩, rows, hrows, hgraph, himports'⟩
      refine ⟨row :: rows, ⟨row, rows, hrow, hrows, rfl⟩, ?_, ?_⟩
      · exact bind_eq_ok_iff.2 ⟨_, hnode, hgraph⟩
      · rw [himports', himports, List.flatMap_cons, List.append_assoc]
    · rintro ⟨-, ⟨row, rows, hrow, hrows, rfl⟩, hgraph, himports⟩
      obtain ⟨mid, hnode, hgraph⟩ := bind_eq_ok_iff.1 hgraph
      refine ⟨⟨mid, _⟩, ⟨row, hrow, hnode, rfl⟩, rows, hrows, hgraph, ?_⟩
      rw [himports, List.flatMap_cons, List.append_assoc]

theorem entriesOfJson_eq_ok_iff {document : Json} {entries : List Json} :
    entriesOfJson document = .ok entries ↔ document.member? "nodes" = some (.array entries) := by
  rw [entriesOfJson]
  cases document.member? "nodes" with
  | none => simp
  | some value => cases value <;> simp [Json.items?]

/-- **Reading a document is a history of edits.** -/
theorem ofJson_eq_ok_iff {document : Json} {g : Graph} :
    ofJson document = .ok g ↔ ∃ entries rows,
      document.member? "nodes" = some (.array entries) ∧ List.Forall₂ ReadAs entries rows ∧
        (edits rows).foldlM edit empty = .ok g := by
  simp only [ofJson, loadJson, map_eq_pure_bind, bind_eq_ok_iff, mapError_eq_ok_iff,
    entriesOfJson_eq_ok_iff, foldlM_addEntry_eq_ok_iff, edits, List.foldlM_append,
    List.foldlM_map]
  -- the imports that the draft has kept are added when all nodes are there
  constructor
  · rintro ⟨⟨g', count⟩,
      ⟨entries, hentries, draft, ⟨rows, hrows, hnodes, himports⟩, g'', hg, h⟩, h'⟩
    cases h
    cases h'
    rw [himports] at hg
    exact ⟨entries, rows, hentries, hrows, draft.graph, hnodes, hg⟩
  · rintro ⟨entries, rows, hentries, hrows, mid, hnodes, hg⟩
    exact ⟨⟨g, _⟩, ⟨entries, hentries, ⟨mid, _⟩, ⟨rows, hrows, hnodes, rfl⟩, g, hg, rfl⟩, rfl⟩

/-! ## Histories that succeed -/

section

variable {g g' : Graph} {made es : List Edit}

/-- If every edit succeeds, then all are accepted. -/
theorem accepted_of_foldlM (h : es.foldlM edit g = .ok g') :
    es.foldl Graph.apply g = g' ∧ g.accepted es = es := by
  induction es generalizing g with
  | nil =>
    cases h
    exact ⟨rfl, rfl⟩
  | cons e es ih =>
    obtain ⟨mid, hmid, h⟩ := bind_eq_ok_iff.1 h
    obtain ⟨hfold, haccepted⟩ := ih h
    rw [List.foldl_cons, apply_of_ok hmid, accepted, hmid]
    exact ⟨hfold, congrArg (e :: ·) haccepted⟩

/-- A history in which every edit succeeds is recorded. -/
theorem records_of_foldlM (h : es.foldlM edit empty = .ok g) : g.Records es := by
  obtain ⟨rfl, haccepted⟩ := accepted_of_foldlM h
  have hrecords := records_ofEdits es
  rwa [haccepted] at hrecords

theorem built_of_foldlM (h : es.foldlM edit empty = .ok g) : g.Built :=
  ⟨es, (accepted_of_foldlM h).1.symm⟩

theorem Records.node?_eq_some_iff (hg : g.Records made) {id : String} {n : Node} :
    g.node? id = some n ↔ n ∈ Edit.nodes made ∧ n.id = id := by
  rw [← Option.mem_toList, ← hg.node]
  simp

/-- No two nodes of a graph have been added with the same identifier. -/
theorem Records.nodup (hg : g.Records made) : ((Edit.nodes made).map (·.id)).Nodup := by
  refine List.nodup_iff_count_le_one.2 fun id => ?_
  have hcount : ((Edit.nodes made).map (·.id)).count id = (g.node? id).toList.length := by
    rw [← hg.node, List.count, List.countP_map, List.countP_eq_length_filter]
    rfl
  rw [hcount]
  cases g.node? id <;> simp

theorem exists_addNodes {ns : List Node} (hnew : ∀ n ∈ ns, g.contains n.id = false)
    (hdistinct : (ns.map (·.id)).Nodup) :
    ∃ g', (ns.map Edit.addNode).foldlM edit g = .ok g' := by
  induction ns generalizing g with
  | nil => exact ⟨g, rfl⟩
  | cons n ns ih =>
    obtain ⟨mid, hmid⟩ := exists_addNode (hnew n List.mem_cons_self)
    obtain ⟨-, hnode, -⟩ := addNode_eq_ok hmid
    rw [List.map_cons, List.nodup_cons] at hdistinct
    have hnew' : ∀ n' ∈ ns, mid.contains n'.id = false := fun n' hn' => by
      have hne : n'.id ≠ n.id := fun h => hdistinct.1 (h ▸ List.mem_map_of_mem hn')
      rw [not_contains_iff, hnode, if_neg hne, ← not_contains_iff]
      exact hnew n' (List.mem_cons_of_mem n hn')
    obtain ⟨g', hg'⟩ := ih hnew' hdistinct.2
    exact ⟨g', bind_eq_ok_iff.2 ⟨mid, hmid, hg'⟩⟩

theorem exists_addImports {ends : List (String × String)}
    (hends : ∀ e ∈ ends, g.contains e.1 = true ∧ g.contains e.2 = true) :
    ∃ g', (ends.map fun e => Edit.addImport e.1 e.2).foldlM edit g = .ok g' := by
  induction ends generalizing g with
  | nil => exact ⟨g, rfl⟩
  | cons e ends ih =>
    obtain ⟨hfrom, hto⟩ := hends e List.mem_cons_self
    obtain ⟨mid, hmid⟩ := exists_addImport hfrom hto
    obtain ⟨-, -, hnode, -⟩ := addImport_eq_ok hmid
    have hends' : ∀ e ∈ ends, mid.contains e.1 = true ∧ mid.contains e.2 = true := fun e he => by
      rw [contains, contains, hnode]
      exact hends e (List.mem_cons_of_mem _ he)
    obtain ⟨g', hg'⟩ := ih hends'
    exact ⟨g', bind_eq_ok_iff.2 ⟨mid, hmid, hg'⟩⟩

end

theorem nodes_edits (rows : List Row) : Edit.nodes (edits rows) = rows.map (·.node) := by
  simp [edits, Edit.nodes, List.filterMap_append, List.filterMap_map]

theorem addImport_mem_edits {rows : List Row} {x y : String} :
    .addImport x y ∈ edits rows ↔ ∃ row ∈ rows, row.node.id = x ∧ y ∈ row.imports := by
  simp [edits, Row.ends, and_comm]

/-- The history that rows tell succeeds if no identifier is given twice and every import names a
row. -/
theorem exists_edits_iff {rows : List Row} :
    (∃ g, (edits rows).foldlM edit empty = .ok g) ↔ (rows.map (·.node.id)).Nodup ∧
      ∀ row ∈ rows, ∀ imported ∈ row.imports, ∃ row' ∈ rows, row'.node.id = imported := by
  have hcontains {g : Graph} {made : List Edit} (hg : g.Records made)
      (hnodes : Edit.nodes made = rows.map (·.node)) (id : String) :
      g.contains id = true ↔ ∃ row ∈ rows, row.node.id = id := by
    simp [contains_iff, hg.node?_eq_some_iff, hnodes]
  constructor
  · rintro ⟨g, h⟩
    have hg := records_of_foldlM h
    refine ⟨?_, fun row hrow imported himported => ?_⟩
    · simpa [nodes_edits, Function.comp_def] using hg.nodup
    · have hmade := addImport_mem_edits.2 ⟨row, hrow, rfl, himported⟩
      exact (hcontains hg (nodes_edits rows) _).1 (hg.closed _ _ hmade).2
  · rintro ⟨hdistinct, hclosed⟩
    have hnew : ∀ n ∈ rows.map (·.node), empty.contains n.id = false := by simp [contains]
    have hdistinct' : ((rows.map (·.node)).map (·.id)).Nodup := by
      simpa [Function.comp_def] using hdistinct
    obtain ⟨mid, hmid⟩ := exists_addNodes hnew hdistinct'
    have hnodes := hcontains (records_of_foldlM hmid) (by simp [Edit.nodes, List.filterMap_map])
    have hends : ∀ e ∈ rows.flatMap (·.ends),
        mid.contains e.1 = true ∧ mid.contains e.2 = true := fun e he => by
      obtain ⟨row, hrow, he⟩ := List.mem_flatMap.1 he
      obtain ⟨imported, himported, rfl⟩ := List.mem_map.1 he
      exact ⟨(hnodes _).2 ⟨row, hrow, rfl⟩, (hnodes _).2 (hclosed row hrow imported himported)⟩
    obtain ⟨g, hg⟩ := exists_addImports hends
    refine ⟨g, ?_⟩
    rw [edits, List.foldlM_append]
    exact bind_eq_ok_iff.2 ⟨mid, hmid, hg⟩

/-! ## What a document says -/

section

variable {α β : Type} {r : α → β → Prop} {as : List α} {bs : List β} {p : α → Prop} {q : β → Prop}

theorem exists_mem_iff_of_forall₂ (h : List.Forall₂ r as bs) (hpq : ∀ a b, r a b → (p a ↔ q b)) :
    (∃ a ∈ as, p a) ↔ ∃ b ∈ bs, q b := by
  induction h with
  | nil => simp
  | cons hab _ ih => simp [hpq _ _ hab, ih]

theorem forall_mem_iff_of_forall₂ (h : List.Forall₂ r as bs) (hpq : ∀ a b, r a b → (p a ↔ q b)) :
    (∀ a ∈ as, p a) ↔ ∀ b ∈ bs, q b := by
  induction h with
  | nil => simp
  | cons hab _ ih => simp [hpq _ _ hab, ih]

end

section

variable {entries : List Json} {rows : List Row}

theorem exists_rows_iff :
    (∃ rows, List.Forall₂ ReadAs entries rows) ↔ ∀ entry ∈ entries, EntryShape entry := by
  induction entries with
  | nil => simp
  | cons entry entries ih =>
    rw [List.forall_mem_cons, ← ih, ← exists_readAs_iff]
    constructor
    · rintro ⟨-, _ | ⟨hrow, hrows⟩⟩
      exact ⟨⟨_, hrow⟩, ⟨_, hrows⟩⟩
    · rintro ⟨⟨row, hrow⟩, ⟨rows, hrows⟩⟩
      exact ⟨row :: rows, .cons hrow hrows⟩

/-- What well-shaped entries are, in terms of the rows they are read as. -/
theorem wellShaped_iff (hrows : List.Forall₂ ReadAs entries rows) :
    WellShaped entries ↔ (rows.map (·.node.id)).Nodup ∧
      ∀ row ∈ rows, ∀ imported ∈ row.imports, ∃ row' ∈ rows, row'.node.id = imported := by
  have hids : entries.map (·.member? "id") =
      (rows.map (·.node.id)).map fun id => some (.string id) := by
    rw [List.map_map, ← List.forall₂_eq_eq_eq, List.forall₂_map_left_iff,
      List.forall₂_map_right_iff]
    exact hrows.imp fun entry row h => h.names_iff.2 rfl
  have hdistinct : (entries.map (·.member? "id")).Nodup ↔ (rows.map (·.node.id)).Nodup := by
    rw [hids]
    exact List.nodup_map_iff fun id id' h => by simpa using h
  have hnamed (imported : String) :
      (∃ entry ∈ entries, Names entry imported) ↔ ∃ row ∈ rows, row.node.id = imported :=
    exists_mem_iff_of_forall₂ hrows fun _ _ h => h.names_iff
  have hclosed : (∀ entry ∈ entries, ∀ imported, Lists entry imported →
        ∃ entry' ∈ entries, Names entry' imported) ↔
      ∀ row ∈ rows, ∀ imported ∈ row.imports, ∃ row' ∈ rows, row'.node.id = imported :=
    forall_mem_iff_of_forall₂ hrows fun _ _ h =>
      forall_congr' fun imported => imp_congr h.lists_iff (hnamed imported)
  exact ⟨fun h => ⟨hdistinct.1 h.distinct, hclosed.1 h.closed⟩, fun h =>
    ⟨exists_rows_iff.1 ⟨rows, hrows⟩, hdistinct.2 h.1, hclosed.2 h.2⟩⟩

/-- The graph that the rows of entries make is what the entries say. -/
theorem Records.holds {g : Graph} (hg : g.Records (edits rows))
    (hrows : List.Forall₂ ReadAs entries rows) : g.Holds entries where
  node id n := by
    rw [hg.node?_eq_some_iff, nodes_edits, and_comm, List.mem_map]
    exact and_congr_right fun _ =>
      (exists_mem_iff_of_forall₂ hrows fun _ _ h => h.describes_iff.trans eq_comm).symm
  imports x y := by
    rw [hg.imports, addImport_mem_edits]
    exact (exists_mem_iff_of_forall₂ hrows fun _ _ h => and_congr h.names_iff h.lists_iff).symm
  importers x y := by rw [hg.importers, hg.imports]
  variants := hg.variants

/-- There is at most one graph that entries describe. -/
theorem Holds.unique {g g' : Graph} (h : g.Holds entries) (h' : g'.Holds entries) (hg : g.Built)
    (hg' : g'.Built) : g = g' := by
  have hnode (id : String) : g.node? id = g'.node? id :=
    Option.ext fun n => (h.node id n).trans (h'.node id n).symm
  have himports (x : String) : g.imports x = g'.imports x :=
    Std.ExtTreeSet.ext_mem fun y => (h.imports x y).trans (h'.imports x y).symm
  refine hg.ext hg' hnode himports (fun y => ?_) fun p => ?_
  · exact Std.ExtTreeSet.ext_mem fun x => by rw [h.importers, h'.importers, himports]
  · exact Std.ExtTreeSet.ext_mem fun x => by rw [h.variants, h'.variants, hnode]

end

section

variable {entry entry' : Json} {entries entries' : List Json}

theorem SaysTheSame.symm (h : SaysTheSame entry entry') : SaysTheSame entry' entry := by
  refine ⟨fun key hkey => (h.fields key hkey).symm, ?_⟩
  rcases h.imports with h | ⟨items, items', hitems, hitems', hmem⟩
  · exact .inl h.symm
  · exact .inr ⟨items', items, hitems', hitems, fun item => (hmem item).symm⟩

theorem SaysTheSame.names_iff (h : SaysTheSame entry entry') {id : String} :
    Names entry id ↔ Names entry' id := by
  rw [Names, Names, h.fields "id" (by simp)]

theorem SaysTheSame.lists_iff (h : SaysTheSame entry entry') {imported : String} :
    Lists entry imported ↔ Lists entry' imported := by
  rcases h.imports with h | ⟨items, items', hitems, hitems', hmem⟩
  · rw [Lists, Lists, h]
  · simp [Lists, hitems, hitems', hmem]

theorem SaysTheSame.describes (h : SaysTheSame entry entry') {n : Node} (hn : Describes entry n) :
    Describes entry' n where
  id := h.names_iff.1 hn.id
  executable := by rw [← h.fields "main" (by simp), hn.executable]
  testFor := by rw [← h.fields "test_for" (by simp)]; exact hn.testFor

theorem SaysTheSame.shape (h : SaysTheSame entry entry') (hentry : EntryShape entry) :
    EntryShape entry' where
  id := by rw [← h.fields "id" (by simp)]; exact hentry.id
  testFor := by rw [Omits, ← h.fields "test_for" (by simp)]; exact hentry.testFor
  imports := by
    rcases h.imports with h | ⟨items, items', hitems, hitems', hmem⟩
    · rw [Omits, ← h]
      exact hentry.imports
    · rcases hentry.imports with (hnone | hnull) | ⟨_, hitems'', htext⟩
      · simp [hitems] at hnone
      · simp [hitems] at hnull
      · rw [hitems] at hitems''
        cases hitems''
        exact .inr ⟨items', hitems', fun item hitem => htext item ((hmem item).2 hitem)⟩

theorem Rearranged.exists_iff (h : Rearranged entries entries') {p : Json → Prop}
    (hp : ∀ entry entry', SaysTheSame entry entry' → (p entry ↔ p entry')) :
    (∃ entry ∈ entries, p entry) ↔ ∃ entry ∈ entries', p entry := by
  obtain ⟨mid, hperm, hsame⟩ := h
  rw [← exists_mem_iff_of_forall₂ hsame hp]
  simp only [hperm.mem_iff]

theorem Rearranged.forall_iff (h : Rearranged entries entries') {p : Json → Prop}
    (hp : ∀ entry entry', SaysTheSame entry entry' → (p entry ↔ p entry')) :
    (∀ entry ∈ entries, p entry) ↔ ∀ entry ∈ entries', p entry := by
  obtain ⟨mid, hperm, hsame⟩ := h
  rw [← forall_mem_iff_of_forall₂ hsame hp]
  simp only [hperm.mem_iff]

theorem Rearranged.wellShaped (h : Rearranged entries entries') (hentries : WellShaped entries) :
    WellShaped entries' where
  shape := (h.forall_iff fun _ _ h => ⟨h.shape, h.symm.shape⟩).1 hentries.shape
  distinct := by
    obtain ⟨mid, hperm, hsame⟩ := h
    have hids : mid.map (·.member? "id") = entries'.map (·.member? "id") := by
      rw [← List.forall₂_eq_eq_eq, List.forall₂_map_left_iff, List.forall₂_map_right_iff]
      exact hsame.imp fun _ _ h => h.fields "id" (by simp)
    rw [← hids]
    exact (hperm.map _).nodup_iff.1 hentries.distinct
  closed := by
    intro entry' hentry' imported himported
    obtain ⟨entry, hentry, himported⟩ : ∃ entry ∈ entries, Lists entry imported :=
      (h.exists_iff fun _ _ h => h.lists_iff).2 ⟨entry', hentry', himported⟩
    exact (h.exists_iff fun _ _ h => h.names_iff).1
      (hentries.closed entry hentry imported himported)

theorem Rearranged.holds (h : Rearranged entries entries') {g : Graph} (hg : g.Holds entries) :
    g.Holds entries' where
  node id n := by
    rw [hg.node, h.exists_iff fun _ _ h => ⟨h.describes, h.symm.describes⟩]
  imports x y := by
    rw [hg.imports, h.exists_iff fun _ _ h => and_congr h.names_iff h.lists_iff]
  importers := hg.importers
  variants := hg.variants

end

/-- The graph that is read is what the entries say. -/
theorem holds_of_ofJson {document : Json} {entries : List Json} {g : Graph}
    (hentries : document.member? "nodes" = some (.array entries))
    (h : ofJson document = .ok g) : g.Holds entries ∧ g.Built := by
  obtain ⟨_, rows, hentries', hrows, hg⟩ := ofJson_eq_ok_iff.1 h
  rw [hentries] at hentries'
  cases hentries'
  exact ⟨(records_of_foldlM hg).holds hrows, built_of_foldlM hg⟩

/-- A document is read if its entries are well-shaped. -/
theorem exists_ofJson_iff {document : Json} : (∃ g, ofJson document = .ok g) ↔
    ∃ entries, document.member? "nodes" = some (.array entries) ∧ WellShaped entries := by
  constructor
  · rintro ⟨g, h⟩
    obtain ⟨entries, rows, hentries, hrows, hg⟩ := ofJson_eq_ok_iff.1 h
    exact ⟨entries, hentries, (wellShaped_iff hrows).2 (exists_edits_iff.1 ⟨g, hg⟩)⟩
  · rintro ⟨entries, hentries, hshape⟩
    obtain ⟨rows, hrows⟩ := exists_rows_iff.2 hshape.shape
    obtain ⟨g, hg⟩ := exists_edits_iff.2 ((wellShaped_iff hrows).1 hshape)
    exact ⟨g, ofJson_eq_ok_iff.2 ⟨entries, rows, hentries, hrows, hg⟩⟩

/-- **A document is read as exactly what it says.** It is read if it has an array of well-shaped
entries, and not otherwise. What can be looked up in the graph is then what the entries say, and a
document with the same entries in another order, whose imports are listed in another order or more
than once, is read as the same graph. -/
theorem ofJson_exact (document : Json) :
    ((∃ g, ofJson document = .ok g) ↔
      ∃ entries, document.member? "nodes" = some (.array entries) ∧ WellShaped entries) ∧
    ∀ g entries, ofJson document = .ok g → document.member? "nodes" = some (.array entries) →
      g.Holds entries ∧
      ∀ document' entries', document'.member? "nodes" = some (.array entries') →
        Rearranged entries entries' → ofJson document' = .ok g := by
  refine ⟨exists_ofJson_iff, fun g entries h hentries => ?_⟩
  obtain ⟨hholds, hbuilt⟩ := holds_of_ofJson hentries h
  refine ⟨hholds, fun document' entries' hentries' hsame => ?_⟩
  obtain ⟨_, hentries'', hshape⟩ := exists_ofJson_iff.1 ⟨g, h⟩
  rw [hentries] at hentries''
  cases hentries''
  obtain ⟨g', h'⟩ := exists_ofJson_iff.2 ⟨entries', hentries', hsame.wellShaped hshape⟩
  obtain ⟨hholds', hbuilt'⟩ := holds_of_ofJson hentries' h'
  rw [h', (hsame.holds hholds).unique hholds' hbuilt hbuilt']

/-- Three entries: an import of what comes later, listed twice, one of the entry itself, and a test
variant. -/
def listed : List Json :=
  [.object [("id", .string "a"),
      ("imports", .array [.string "b", .string "c", .string "b"]), ("main", .bool true)],
    .object [("id", .string "b")],
    .object [("id", .string "c"), ("imports", .array [.string "c"]), ("test_for", .string "b")]]

/-- The same entries, listed in another way. -/
def listedOtherwise : List Json :=
  [.object [("id", .string "c"), ("imports", .array [.string "c"]), ("test_for", .string "b")],
    .object [("id", .string "a"), ("imports", .array [.string "c", .string "b"]),
      ("main", .bool true)],
    .object [("id", .string "b")]]

theorem ofJson_exact_listed : ∃ g, ofJson (.object [("nodes", .array listed)]) = .ok g ∧
    ofJson (.object [("nodes", .array listedOtherwise)]) = .ok g ∧
    g.node? "c" = some ⟨"c", false, some "b"⟩ ∧ "c" ∈ g.imports "a" ∧ "c" ∈ g.variants "b" := by
  obtain ⟨g, hg⟩ : ∃ g, ofJson (.object [("nodes", .array listed)]) = .ok g := by
    have hok : (ofJson (.object [("nodes", .array listed)])).isOk = true := by decide +kernel
    cases h : ofJson (.object [("nodes", .array listed)]) with
    | ok g => exact ⟨g, rfl⟩
    | error err =>
      rw [h] at hok
      cases hok
  obtain ⟨hholds, hother⟩ := (ofJson_exact _).2 g listed hg rfl
  have hsame : Rearranged listed listedOtherwise := by
    refine ⟨[listed[2], listed[0], listed[1]], ?_, ?_⟩
    · exact List.perm_append_singleton _ [listed[0], listed[1]]
    · refine .cons ⟨fun _ _ => rfl, .inl rfl⟩ (.cons ⟨?_, .inr ⟨_, _, rfl, rfl, ?_⟩⟩
        (.cons ⟨fun _ _ => rfl, .inl rfl⟩ .nil))
      · exact List.forall_mem_cons.2 ⟨rfl,
          List.forall_mem_cons.2 ⟨rfl, List.forall_mem_singleton.2 rfl⟩⟩
      · simp [or_comm]
  have hmain : listed[2].member? "main" = none := rfl
  have htest : listed[2].member? "test_for" = some (.string "b") := rfl
  have hc : g.node? "c" = some ⟨"c", false, some "b"⟩ :=
    (hholds.node _ _).2
      ⟨rfl, listed[2], by simp [listed], rfl, by simp [hmain], by simp [htest]⟩
  have himport : "c" ∈ g.imports "a" :=
    (hholds.imports _ _).2 ⟨listed[0], by simp [listed], rfl, _, rfl, by simp⟩
  exact ⟨g, hg, hother _ _ rfl hsame, hc, himport, (hholds.variants _ _).2 ⟨_, hc, rfl⟩⟩

end ImportQuery.Graph
