import Mathlib
import RelationalDb.Proofs.Database.Sittings

/-!
# Sittings with another catalog

A backstore that was filled under one catalog can be opened under another one with the same
columns and other indices.  The indices of a table that does not keep them are made from the
rows.  Those that are kept are read from the backstore, so they have to be there already: for
an index that was not kept before, a new store would have the stored form of an empty one.
-/

namespace RelationalDb

namespace Table

variable {t t' : Table}

/-- The tables are the same but for their indices. -/
structure SameColumns (t t' : Table) : Prop where
  name : t'.name = t.name
  columns : t'.columns = t.columns

/-- No two of the rows have a key of a unique index in common. -/
def KeysDistinct (t : Table) (rows : List Row) : Prop :=
  ∀ c ∈ TableStore.emptyIndices t, c.index.unique = true →
    ∀ row ∈ rows, ∀ row' ∈ rows, (c.keyOf row).isNull = false →
      (c.keyOf row == c.keyOf row') = true → row.id = row'.id

/-- The indices of a table can be read from what was kept of those of another one. -/
def KeepsIndicesOf (t' t : Table) : Prop :=
  t.persistsIndices = true ∧ ∀ d ∈ t'.indices, d ∈ t.indices

theorem keysDistinct_of_length_le_one (t : Table) {rows : List Row} (h : rows.length ≤ 1) :
    t.KeysDistinct rows := by
  intro c _ _ row hrow row' hrow' _ _
  rcases rows with _ | ⟨x, _ | ⟨y, rest⟩⟩
  · cases hrow
  · rw [List.mem_singleton.mp hrow, List.mem_singleton.mp hrow']
  · simp at h

theorem SameColumns.checkValues_eq (h : t.SameColumns t') (columns : List Column)
    (values : List Value) : t'.checkValues columns values = t.checkValues columns values := by
  induction columns generalizing values with
  | nil => rfl
  | cons c rest ih =>
      cases values with
      | nil => rfl
      | cons v vs =>
          have hvalue : t'.checkValue c v = t.checkValue c v := by
            unfold checkValue
            rw [h.name]
          unfold checkValues
          rw [hvalue, ih]

theorem SameColumns.checkRow_eq (h : t.SameColumns t') (values : List Value) :
    t'.checkRow values = t.checkRow values := by
  unfold checkRow
  rw [h.checkValues_eq, h.columns, h.name]

theorem SameColumns.mem_emptyIndices (h : t.SameColumns t')
    (hindices : ∀ d ∈ t'.indices, d ∈ t.indices) {c : ColumnIndex}
    (hc : c ∈ TableStore.emptyIndices t') : c ∈ TableStore.emptyIndices t := by
  unfold TableStore.emptyIndices columnPosition? column? at hc ⊢
  rw [h.columns] at hc
  rcases List.mem_filterMap.mp hc with ⟨d, hd, hfound⟩
  exact List.mem_filterMap.mpr ⟨d, hindices d hd, hfound⟩

end Table

namespace TableStore

variable {s : TableStore} {t' : Table}

theorem Sound.fits_columns (h : s.Sound) (hsame : s.table.SameColumns t')
    (hdistinct : t'.KeysDistinct s.toList) : Fits t' s.rows where
  ordered := h.ordered
  id_eq := h.id_eq
  checked := by
    intro id row hrow
    rw [hsame.checkRow_eq]
    exact h.checked hrow
  signed := h.signed
  unique := by
    intro c hc hunique id id' row row' hrow hrow' htype heq
    have hid : row.id = id := h.id_eq hrow
    have hid' : row'.id = id' := h.id_eq hrow'
    have hcheck : t'.checkRow row'.values = .ok () := by
      rw [hsame.checkRow_eq]
      exact h.checked hrow'
    have htype' : (c.keyOf row').type? = some c.index.keyType := by
      rcases (matchesColumn_of_mem_emptyIndices hc).type?_keyOf hcheck with hnull | htype'
      · exact absurd heq (ColumnIndex.compare_ne_eq_of_null htype hnull)
      · exact htype'
    rw [← hid, ← hid']
    apply hdistinct c hc hunique row _ row' _ (Value.isNull_eq_false_of_type htype)
      ((Value.beq_iff_of_type htype htype').mpr heq)
    · exact h.mem_toList_iff.mpr (hid ▸ hrow)
    · exact h.mem_toList_iff.mpr (hid' ▸ hrow')

theorem Sound.alike_columns {s' : TableStore} (h : s.Sound) (h' : s'.Sound)
    (hsame : s.table.SameColumns s'.table) (hrows : s'.rows = s.rows)
    (hindices : ∀ d ∈ s'.table.indices, d ∈ s.table.indices) :
    ∀ i' ∈ s'.allIndices, ∃ i ∈ s.allIndices, i'.Alike i := by
  intro i' hi'
  rcases List.mem_cons.mp hi' with rfl | hmem
  · refine ⟨.ofRowIds s.rowIds, List.mem_cons_self, .ofRowIds ?_ ?_⟩
    · rw [h.idsName, h'.idsName]
      unfold Table.rowIdIndexName
      rw [hsame.name]
    · exact h'.ids_eq h hrows.symm
  · rcases List.mem_map.mp hmem with ⟨c', hc', rfl⟩
    rcases h.exists_emptied_eq (hsame.mem_emptyIndices hindices (h'.emptied_mem hc')) with
      ⟨c, hc, hemptied⟩
    refine ⟨.ofKeys c.index, List.mem_cons_of_mem _ (List.mem_map_of_mem hc), .ofKeys ?_⟩
    exact (h'.alikeIndices h hrows.symm hc' hc hemptied).index

end TableStore

/-- A kept index that can be read when a database is opened. -/
def ReadableIfKept (t : Table) (i : TableIndex) (m : Option RowMap) : Prop :=
  t.persistsIndices = true → m ≠ none ∧ (Vacant m ∨ m = some i.stored)

theorem WrittenUnder.readableIfKept {t t' : Table} {i : TableIndex} {m : Option RowMap}
    (h : WrittenUnder {} t i m) (hkept : t'.persistsIndices = true → t.persistsIndices = true) :
    ReadableIfKept t' i m :=
  fun hflag => ⟨h.there (hkept hflag), h.vacant_or_stored (hkept hflag)⟩

theorem TableStore.Sound.exists_changed {s : TableStore} {t' : Table}
    {stores : SortedMap String RowMap} (hs : s.Sound) (hsame : s.table.SameColumns t')
    (hdistinct : t'.KeysDistinct s.toList)
    (hkept : t'.persistsIndices = true → t'.KeepsIndicesOf s.table)
    (hindices : ∀ i ∈ s.allIndices, WrittenUnder {} s.table i (stores.get? i.name)) :
    ∃ s' : TableStore, s'.Sound ∧ s'.table = t' ∧ s'.rows = s.rows ∧
      ∀ i ∈ s'.allIndices, ReadableIfKept t' i (stores.get? i.name) := by
  -- A store with indices made of the rows comes first; those that are kept take their places then.
  rcases (hs.fits_columns hsame hdistinct).ofRows_values with ⟨s₁, _, hs₁, htable, hrows⟩
  cases hflag : t'.persistsIndices with
  | false =>
      refine ⟨s₁, hs₁, htable, hrows, fun i _ hflag' => ?_⟩
      rw [hflag] at hflag'
      cases hflag'
  | true =>
      rcases hkept hflag with ⟨hflag₀, hdeclared⟩
      have hall : ∀ i₁ ∈ s₁.allIndices, ∃ i : TableIndex, i₁.Alike i ∧
          ReadableIfKept t' i (stores.get? i.name) := by
        intro i₁ hi₁
        rcases hs.alike_columns hs₁ (htable ▸ hsame) hrows (htable ▸ hdeclared) i₁ hi₁ with
          ⟨i, hi, halike⟩
        exact ⟨i, halike, (hindices i hi).readableIfKept fun _ => hflag₀⟩
      rcases hs₁.exists_alike hall with ⟨s', hs', htable', hrows', hreadable⟩
      exact ⟨s', hs', htable'.trans htable, hrows'.trans hrows, hreadable⟩

namespace Backstore

variable {stores : SortedMap String RowMap} {c c' : Catalog} {ref : Table → TableStore}

theorem Backs.changed (h : Backs stores c.tables (WrittenUnder {}) ref) (hstores : stores.Ordered)
    (hc' : c'.WellFormed) (hsame : ∀ t' ∈ c'.tables, ∃ t ∈ c.tables, t.SameColumns t')
    (hdistinct : ∀ t' ∈ c'.tables, t'.KeysDistinct ((stores.get? t'.name).getD {}).values)
    (hkept : ∀ t ∈ c.tables, ∀ t' ∈ c'.tables, t.SameColumns t' → t'.persistsIndices = true →
      t'.KeepsIndicesOf t) :
    ∃ ref', Backs (sow stores c'.seeds) c'.tables ReadableIfKept ref' ∧
      ∀ t' ∈ c'.tables, (ref' t').rows = (stores.get? t'.name).getD {} := by
  have hexists : ∀ t' ∈ c'.tables, ∃ s : TableStore, s.Sound ∧ s.table = t' ∧
      stores.get? t'.name = some s.rows ∧
      ∀ i ∈ s.allIndices, ReadableIfKept t' i (stores.get? i.name) := by
    intro t' ht'
    rcases hsame t' ht' with ⟨t, ht, hcolumns⟩
    have htable : (ref t).table = t := h.table t ht
    have hrows : stores.get? t'.name = some (ref t).rows := by
      rw [hcolumns.name]
      exact h.rows t ht
    have hdistinct' := hdistinct t' ht'
    rw [hrows] at hdistinct'
    have hindices : ∀ i ∈ (ref t).allIndices,
        WrittenUnder {} (ref t).table i (stores.get? i.name) := by
      rw [htable]
      exact h.indices t ht
    rcases (h.sound t ht).exists_changed (htable.symm ▸ hcolumns) hdistinct'
      (htable.symm ▸ hkept t ht t' ht' hcolumns) hindices with
      ⟨s, hs, hstable, hsrows, hreadable⟩
    exact ⟨s, hs, hstable, hsrows ▸ hrows, hreadable⟩
  have hnonempty : Nonempty TableStore := ⟨.empty .items⟩
  choose! ref' hsound htable hrows hreadable using hexists
  have hbacks : Backs stores c'.tables ReadableIfKept ref' := ⟨hsound, htable, hrows, hreadable⟩
  refine ⟨ref', hbacks.sown hstores hc' fun t' _ hflag i m hm => (hm hflag).1, ?_⟩
  intro t' ht'
  rw [hrows t' ht']
  rfl

theorem backs_changed {history : List (List Event)} (hc : c.WellFormed) (hc' : c'.WellFormed)
    (hsame : ∀ t' ∈ c'.tables, ∃ t ∈ c.tables, t.SameColumns t')
    (hdistinct : ∀ t' ∈ c'.tables,
      t'.KeysDistinct (((filled c {} history).stores.get? t'.name).getD {}).values)
    (hkept : ∀ t ∈ c.tables, ∀ t' ∈ c'.tables, t.SameColumns t' → t'.persistsIndices = true →
      t'.KeepsIndicesOf t) :
    ∃ ref, Backs (sow (filled c {} history).stores c'.seeds) c'.tables ReadableIfKept ref ∧
      ∀ t' ∈ c'.tables, (ref t').rows = ((filled c {} history).stores.get? t'.name).getD {} := by
  have hcheck : ({} : DatabaseOptions).check = .ok () := rfl
  rcases List.eq_nil_or_concat history with rfl | ⟨before, events, rfl⟩
  · -- Nothing was opened yet, and the empty backstore backs the tables of any catalog.
    have hbacks := backs_empty_writtenUnder hc' {}
    refine ⟨TableStore.empty, ?_, fun t' _ => rfl⟩
    exact
      { hbacks with
        indices := fun t' ht' i hi => (hbacks.indices t' ht' i hi).readableIfKept fun h => h }
  · rw [List.concat_eq_append, filled_concat] at hdistinct ⊢
    rcases backs_filled hc hcheck before with ⟨hb, _, h⟩
    rcases backs_afterSitting hc hcheck h hb events with ⟨hordered, ref, hbacks⟩
    exact hbacks.changed hordered hc' hsame hdistinct hkept

end Backstore

/-!
## A shop with and without an index
-/

namespace Table

def keptItems : Table :=
  { items with persistsIndices := true }

def unsizedItems : Table :=
  { keptItems with secondaryIndices := [] }

theorem built_keptItems : keptItems.Built :=
  ⟨itemsDraft.persistIndices true, drafted_itemsDraft.persistIndices true, rfl⟩

theorem built_unsizedItems : unsizedItems.Built := by
  have hstart := @TableDraft.Drafted.start _ "item" rfl
  have hnumber := @TableDraft.Drafted.addColumn _ _ "number" .int64 hstart rfl
  have hsize := @TableDraft.Drafted.addColumn _ _ "size" .float64 hnumber rfl
  have hkey := @TableDraft.Drafted.setPrimaryKey _ _ "number" hsize rfl
  exact ⟨_, hkey.persistIndices true, rfl⟩

end Table

namespace Catalog

def shopOf (items : Table) : Catalog where
  name := "shop"
  version := 1
  tables := [items]

theorem built_shopOf {items : Table} (h : items.Built) : (shopOf items).Built := by
  have hstart : start "shop" 1 = .ok { name := "shop", version := 1 } := rfl
  exact (Built.start hstart).addTable h rfl

end Catalog

/-!
## Opening under another catalog
-/

namespace Service

/-- A database opens under another catalog with the same columns, and its indices are in step with
the rows, if every index that is kept now was declared and kept before. -/
theorem changed_indices_in_step {c c' : Catalog} (hc : c.Built) (hc' : c'.Built)
    (history : List (List Event))
    (hsame : ∀ t' ∈ c'.tables, ∃ t ∈ c.tables, t.SameColumns t')
    (hdistinct : ∀ t' ∈ c'.tables, t'.KeysDistinct
      (((Backstore.filled c {} history).stores.get? t'.name).getD {}).values)
    (hkept : ∀ t ∈ c.tables, ∀ t' ∈ c'.tables, t.SameColumns t' → t'.persistsIndices = true →
      t'.KeepsIndicesOf t) :
    ∃ d b₁, (Database.load c' {}).perform (Backstore.filled c {} history).repair = (.ok d, b₁) ∧
      ∀ t' ∈ c'.tables, ∃ s, d.committed.store? t'.name = some s ∧ s.table = t' ∧ s.InStep ∧
        s.rows = ((Backstore.filled c {} history).stores.get? t'.name).getD {} := by
  rcases Backstore.backs_changed hc.wellFormed hc'.wellFormed hsame hdistinct hkept with
    ⟨ref, hbacks, hrows⟩
  have hcheck : ({} : DatabaseOptions).check = .ok () := rfl
  rcases hbacks.load_ok hcheck hc'.wellFormed fun t' _ hflag i m hm => (hm hflag).2 with
    ⟨d, b₁, hload, hstores, _, _, hloaded⟩
  refine ⟨d, b₁, hload, ?_⟩
  intro t' ht'
  rcases hloaded t' ht' with ⟨s, hs⟩
  rw [← hstores] at hbacks
  rcases hbacks.loaded hc'.wellFormed ht' hs with ⟨hstore, htable, hstep⟩
  exact ⟨s, hstore, htable, hstep, hs.reloads.rows.trans (hrows t' ht')⟩

def enteredItem (items : Table) : List (List Event) :=
  [[.request (.executeAlone (.insert { table := items, rows := [[.int64 7, .float64 ⟨0⟩]] }))]]

theorem index_is_given_up :
    ∃ (d : Database) (b : Backstore) (s : TableStore),
      (Database.load (.shopOf .unsizedItems) {}).perform
        (Backstore.filled (.shopOf .keptItems) {} (enteredItem .keptItems)).repair = (.ok d, b) ∧
      d.committed.store? "item" = some s ∧ s.InStep := by
  have hone : (((Backstore.filled (.shopOf .keptItems) {} (enteredItem .keptItems)).stores.get?
      "item").getD {}).values.length ≤ 1 := by decide +kernel
  rcases @changed_indices_in_step (.shopOf .keptItems) (.shopOf .unsizedItems)
    (Catalog.built_shopOf Table.built_keptItems) (Catalog.built_shopOf Table.built_unsizedItems)
    (enteredItem .keptItems)
    (fun t' ht' => by
      rw [List.mem_singleton.mp ht']
      exact ⟨.keptItems, List.mem_cons_self, rfl, rfl⟩)
    (fun t' ht' => by
      rw [List.mem_singleton.mp ht']
      exact Table.keysDistinct_of_length_le_one _ hone)
    (fun t ht t' ht' _ _ => by
      rw [List.mem_singleton.mp ht, List.mem_singleton.mp ht']
      exact ⟨rfl, fun d hd => List.mem_cons_of_mem _ hd⟩) with ⟨d, b, hload, hall⟩
  rcases hall .unsizedItems List.mem_cons_self with ⟨s, hs, _, hstep, _⟩
  exact ⟨d, b, s, hload, hs, hstep⟩

/-- A new index over the sizes does not have the item. -/
theorem new_index_lacks_the_item :
    ∃ (d : Database) (b : Backstore) (s : TableStore),
      (Database.load (.shopOf .keptItems) {}).perform
        (Backstore.filled (.shopOf .unsizedItems) {} (enteredItem .unsizedItems)).repair =
          (.ok d, b) ∧
      d.committed.store? "item" = some s ∧ ¬ s.InStep :=
  Database.exists_not_inStep (by decide +kernel)

end Service

end RelationalDb
