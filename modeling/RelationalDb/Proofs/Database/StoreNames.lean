import Mathlib
import RelationalDb.Proofs.Database.Isolation
import RelationalDb.Proofs.Database.Opening
import RelationalDb.Proofs.Database.Seeds
import RelationalDb.Proofs.Store.Scans

/-!
# The names of stores and of indices

A backstore keeps the rows of a table under the name of the table, and every index under a name
that begins with that of its table and a dot.  No dot and no hash stands in the name of a table or
of an index, so none of these names meets another one.  Within the store of a table an index is
found by its name with the table and without it, however the store came to be.
-/

namespace RelationalDb

/-!
## Names in the backstore
-/

/-- The names of the stores that a table may have: for its rows, for the index over the row ids
and for every declared index. -/
def Table.storeNames (t : Table) : List String :=
  t.name :: t.rowIdIndexName :: t.indices.map (·.fullName)

def Catalog.storeNames (c : Catalog) : List String :=
  c.tables.flatMap Table.storeNames

namespace Table

variable {t t' : Table} {name : String}

theorem WellFormed.eq_or_qualifies_of_mem_storeNames (h : t.WellFormed)
    (hname : name ∈ t.storeNames) : name = t.name ∨ t.Qualifies name := by
  rcases List.mem_cons.mp hname with heq | hrest
  · exact Or.inl heq
  · right
    rcases List.mem_cons.mp hrest with heq | hindex
    · rw [heq]
      exact t.qualifies_rowIdIndexName
    · rcases List.mem_map.mp hindex with ⟨d, hd, heq⟩
      rw [← heq]
      exact h.qualifies_fullName hd

theorem WellFormed.nodup_storeNames (h : t.WellFormed) : t.storeNames.Nodup := by
  have hqualified : ∀ name ∈ t.rowIdIndexName :: t.indices.map (·.fullName), name ≠ t.name := by
    intro name hname
    rcases List.mem_cons.mp hname with heq | hindex
    · rw [heq]
      exact t.qualifies_rowIdIndexName.ne_name h.named
    · rcases List.mem_map.mp hindex with ⟨d, hd, heq⟩
      rw [← heq]
      exact (h.qualifies_fullName hd).ne_name h.named
  have hids : t.rowIdIndexName ∉ t.indices.map (·.fullName) := by
    intro hmem
    rcases List.mem_map.mp hmem with ⟨d, hd, heq⟩
    exact h.fullName_ne_rowIdIndexName hd heq
  unfold storeNames
  rw [List.nodup_cons, List.nodup_cons]
  exact ⟨fun hmem => hqualified _ hmem rfl, hids, h.indicesNamedApart.nodup_fullName⟩

theorem WellFormed.disjoint_storeNames (h : t.WellFormed) (h' : t'.WellFormed)
    (hname : t.name ≠ t'.name) : t.storeNames.Disjoint t'.storeNames := by
  intro name hmem hmem'
  rcases h.eq_or_qualifies_of_mem_storeNames hmem with heq | hqualifies
  · rcases h'.eq_or_qualifies_of_mem_storeNames hmem' with heq' | hqualifies'
    · exact hname (heq.symm.trans heq')
    · exact hqualifies'.ne_name h.named heq
  · rcases h'.eq_or_qualifies_of_mem_storeNames hmem' with heq' | hqualifies'
    · exact hqualifies.ne_name h'.named heq'
    · exact hname (hqualifies.name_eq hqualifies' h.named h'.named)

theorem WellFormed.map_fst_seeds (h : t.WellFormed) :
    t.seeds.map (·.1) = if t.persistsIndices then t.storeNames else [t.name] := by
  have hnames : (TableStore.emptyIndices t).map (·.index.name) = t.indices.map (·.fullName) :=
    (map_eq_of_forall₂ ((TableStore.declares_emptyIndices h).imp fun d c hc => hc.name.symm)).symm
  unfold seeds
  split
  · rw [List.map_cons, List.map_map, storeNames, ← hnames]
    simp [TableStore.allIndices, TableStore.empty, TableIndex.name]
  · rfl

end Table

namespace Catalog

variable {c : Catalog}

theorem WellFormed.nodup_storeNames (h : c.WellFormed) : c.storeNames.Nodup := by
  apply List.nodup_flatMap.mpr
  constructor
  · exact fun t ht => (h.tables t ht).nodup_storeNames
  · have hdistinct := List.pairwise_map.mp h.distinct
    exact hdistinct.imp_of_mem fun ht ht' hname =>
      (h.tables _ ht).disjoint_storeNames (h.tables _ ht') hname

def firstStoreNames (c : Catalog) : List String :=
  c.tables.flatMap fun t => if t.persistsIndices then t.storeNames else [t.name]

theorem WellFormed.map_fst_seeds (h : c.WellFormed) :
    c.seeds.map (·.1) = c.firstStoreNames := by
  unfold seeds firstStoreNames
  rw [List.map_flatMap]
  exact List.flatMap_congr fun t ht => (h.tables t ht).map_fst_seeds

theorem firstStoreNames_sublist (c : Catalog) : c.firstStoreNames.Sublist c.storeNames := by
  unfold firstStoreNames storeNames
  induction c.tables with
  | nil => exact List.Sublist.refl _
  | cons t rest ih =>
      rw [List.flatMap_cons, List.flatMap_cons]
      apply List.Sublist.append _ ih
      split
      · exact List.Sublist.refl _
      · exact (List.nil_sublist _).cons_cons _

theorem WellFormed.keys_ensureTables (h : c.WellFormed) :
    ((({} : Backstore).ensureTables c).stores.keys).Perm c.firstStoreNames := by
  have hempty : ({} : Backstore).stores.Ordered := SortedMap.ordered_empty
  have hordered := Backstore.ordered_sow hempty c.seeds
  rw [Backstore.ensureTables_eq_sow]
  apply (List.perm_ext_iff_of_nodup hordered.nodup_keys
    (h.nodup_storeNames.sublist c.firstStoreNames_sublist)).mpr
  intro name
  have hnone : ({} : Backstore).stores.get? name = none := rfl
  rw [SortedMap.mem_keys_iff hordered, Backstore.get?_sow hempty, hnone, ← h.map_fst_seeds]
  simp only [Option.none_or, Option.map_eq_some_iff]
  constructor
  · rintro ⟨m, rows, hrows, _⟩
    by_contra hnot
    rw [List.lookup_eq_none_iff.mpr] at hrows
    · cases hrows
    · intro seed hseed
      exact bne_iff_ne.mpr fun heq => hnot (heq ▸ List.mem_map_of_mem hseed)
  · intro hmem
    cases hrows : c.seeds.lookup name with
    | some rows => exact ⟨_, rows, rfl, rfl⟩
    | none =>
        rcases List.mem_map.mp hmem with ⟨seed, hseed, heq⟩
        exact absurd heq.symm (bne_iff_ne.mp (List.lookup_eq_none_iff.mp hrows seed hseed))

end Catalog

/-!
## Names in the store of a table
-/

namespace StoreCall

theorem sameLabels_perform (call : StoreCall) (s : TableStore) :
    s.SameLabels (call.action.perform s).2 := by
  cases call with
  | insert row =>
      have hsame := TableStore.sameLabels_insert row s
      unfold action
      rw [Action.perform_bind_pure]
      exact hsame
  | update row =>
      have hsame := TableStore.sameLabels_update row s
      unfold action
      rw [Action.perform_bind_pure]
      exact hsame
  | delete id =>
      have hsame := TableStore.sameLabels_delete id s
      unfold action
      rw [Action.perform_bind_pure]
      exact hsame

end StoreCall

namespace TableStore

variable {t : Table} {s s' : TableStore}

/-- The stores of a table: the empty one, those that are made from rows, or from rows and indices,
and those that calls lead to, whether the calls succeed or fail. -/
inductive OfTable (t : Table) : TableStore → Prop
  | empty : OfTable t (empty t)
  | ofRows {rows : List Row} {s : TableStore} (h : ofRows t rows = .ok s) : OfTable t s
  | ofParts {rows : List Row} {rowIds : RowIdIndex} {supplied : List KeyIndex} {s : TableStore}
      (hids : rowIds.name = t.rowIdIndexName) (h : ofParts t rows rowIds supplied = .ok s) :
      OfTable t s
  | perform {s : TableStore} (h : OfTable t s) (call : StoreCall) :
      OfTable t (call.action.perform s).2

theorem OfTable.sameLabels (h : OfTable t s) : (TableStore.empty t).SameLabels s := by
  induction h with
  | empty => exact SameLabels.refl _
  | ofRows h => exact sameLabels_ofRows h
  | ofParts hids h => exact sameLabels_ofParts hids h
  | perform _ call ih => exact ih.trans (call.sameLabels_perform _)

theorem OfTable.of_loadTable {persistent : Bool} {b b' : Backstore}
    (h : (Backstore.loadTable t persistent).perform b = (.ok s, b')) : OfTable t s := by
  rcases Backstore.loadTable_eq_ok h with ⟨rows, _, hrows | ⟨rowIds, supplied, hids, hparts⟩⟩
  · exact .ofRows hrows
  · exact .ofParts hids hparts

theorem SameLabels.named (h : (empty t).SameLabels s) : s.Named where
  idsName := by
    rw [h.ids, h.table]
    rfl
  names := by
    rw [h.names, h.table]
    exact names_emptyIndices_sublist t

/-- An index that stands over the declared column and is found by both of its names. -/
structure FoundAs (s : TableStore) (d : IndexDecl) (c : ColumnIndex) : Prop where
  name : c.index.name = d.fullName
  column : ∃ column, s.table.columns[c.position]? = some column ∧ column.name = d.column
  byName : s.index? d.name = some (.ofKeys c.index)
  byFullName : s.index? d.fullName = some (.ofKeys c.index)

theorem SameLabels.foundAs (h : (empty t).SameLabels s) (ht : t.WellFormed) :
    List.Forall₂ s.FoundAs t.indices s.indices := by
  have hnamed := h.named
  have hapart : s.table.IndicesNamed := by
    rw [h.table]
    exact ht.indicesNamedApart
  have hlabels : List.Forall₂ (fun d (label : Nat × String) => label.2 = d.fullName ∧
      ∃ column, t.columns[label.1]? = some column ∧ column.name = d.column)
      t.indices (s.indices.map ColumnIndex.label) := by
    rw [h.indices]
    apply List.forall₂_map_right_iff.mpr
    apply (declares_emptyIndices ht).imp
    intro d c hc
    rcases hc.column with ⟨column, hcolumn, hname, _⟩
    exact ⟨hc.name, column, hcolumn, hname⟩
  apply (forall₂_mem (List.forall₂_map_right_iff.mp hlabels)).imp
  intro d c hdc
  rcases hdc with ⟨hd, hc, hname, hcolumn⟩
  have hd' : d ∈ s.table.indices := by
    rw [h.table]
    exact hd
  have hcolumn' : ∃ column, s.table.columns[c.position]? = some column ∧
      column.name = d.column := by
    rw [h.table]
    exact hcolumn
  have hfull := hnamed.index?_name hapart hc
  dsimp only [ColumnIndex.label] at hname
  rw [hname] at hfull
  exact ⟨hname, hcolumn', hnamed.index?_short hapart hc hd' hname, hfull⟩

theorem SameLabels.index?_rowIdIndexName (h : (empty t).SameLabels s) :
    s.index? t.rowIdIndexName = some (.ofRowIds s.rowIds) := by
  have hname : s.rowIds.name = t.rowIdIndexName := h.ids
  unfold index?
  rw [hname, if_pos (beq_self_eq_true _)]

end TableStore

namespace Catalog

variable {c : Catalog}

/-- In a catalog of drafted tables every index stands over a column that can be a key, the names of
stores are distinct, and a new backstore begins with stores under some of them, each made once.  In
every store of a table, and so in one that is loaded from a backstore, each index is found by its
names. -/
theorem indices_and_stores_are_told_apart (h : c.Built) :
    (∀ t ∈ c.tables, ∀ d ∈ t.indices,
      ∃ column ∈ t.columns, column.name = d.column ∧ column.type.isIndexable = true) ∧
    c.storeNames.Nodup ∧ c.firstStoreNames.Sublist c.storeNames ∧
    ((({} : Backstore).ensureTables c).stores.keys).Perm c.firstStoreNames ∧
    (∀ t ∈ c.tables, ∀ s : TableStore, TableStore.OfTable t s →
      s.table = t ∧ s.index? t.rowIdIndexName = some (.ofRowIds s.rowIds) ∧
      List.Forall₂ s.FoundAs t.indices s.indices) ∧
    ∀ (t : Table) (persistent : Bool) (b b' : Backstore) (s : TableStore),
      (Backstore.loadTable t persistent).perform b = (.ok s, b') → TableStore.OfTable t s := by
  have hc := h.wellFormed
  refine ⟨?_, hc.nodup_storeNames, c.firstStoreNames_sublist, hc.keys_ensureTables, ?_, ?_⟩
  · exact fun t ht d hd => (hc.tables t ht).indicesKeyed d hd
  · intro t ht s hs
    have hsame := hs.sameLabels
    exact ⟨hsame.table, hsame.index?_rowIdIndexName, hsame.foundAs (hc.tables t ht)⟩
  · exact fun t persistent b b' s => TableStore.OfTable.of_loadTable

theorem indices_of_the_shop_are_told_apart :
    Catalog.shop.Built ∧
      Catalog.shop.storeNames = ["item", "item.#", "item.bySize", "item.pkItem"] ∧
      Catalog.shop.storeNames.Nodup ∧
      List.Forall₂ (TableStore.FoundAs
          ((TableStore.empty .items).after
            [.insert { id := 1, values := [.int64 7, .float64 ⟨0⟩] }]))
        Table.items.indices
        ((TableStore.empty .items).after
          [.insert { id := 1, values := [.int64 7, .float64 ⟨0⟩] }]).indices := by
  have h := indices_and_stores_are_told_apart Catalog.built_shop
  have hstore := h.2.2.2.2.1 .items List.mem_cons_self _ (.perform .empty
    (.insert { id := 1, values := [.int64 7, .float64 ⟨0⟩] }))
  exact ⟨Catalog.built_shop, rfl, h.2.1, hstore.2.2⟩

end Catalog

end RelationalDb
