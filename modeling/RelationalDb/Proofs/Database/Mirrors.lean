import Mathlib
import RelationalDb.Database.Session
import RelationalDb.Proofs.Database.Isolation
import RelationalDb.Proofs.Schema.Catalogs
import RelationalDb.Proofs.Store.Histories

/-!
# What the backstore has of the committed tables

The store of a table has its committed rows.  Of an index that is kept it has the stored
form; the store of an index may be missing as long as nothing is in the index.  Writing a
journal keeps this, with the rows and the indices as they are after the journal.
-/

namespace RelationalDb

theorem flatMap_of_unique {α β : Type} {l : List α} {f : α → List β} {x : α} (hnodup : l.Nodup)
    (hx : x ∈ l) (hother : ∀ y ∈ l, y ≠ x → f y = []) : l.flatMap f = f x := by
  induction l with
  | nil => cases hx
  | cons y rest ih =>
      rcases List.nodup_cons.mp hnodup with ⟨hnew, hrest⟩
      rw [List.flatMap_cons]
      by_cases heq : y = x
      · have hnil : rest.flatMap f = [] := by
          apply List.flatMap_eq_nil_iff.mpr
          intro z hz
          apply hother z (List.mem_cons_of_mem _ hz)
          intro hzx
          rw [hzx, ← heq] at hz
          exact hnew hz
        rw [hnil, heq, List.append_nil]
      · have hmem : x ∈ rest := by
          rcases List.mem_cons.mp hx with hxy | hmem
          · exact absurd hxy.symm heq
          · exact hmem
        rw [hother y List.mem_cons_self heq, List.nil_append]
        exact ih hrest hmem fun z hz => hother z (List.mem_cons_of_mem _ hz)

theorem SortedMap.flatMap_values {κ α β : Type} [Ord κ] [Std.TransOrd κ] [Std.LawfulEqOrd κ]
    {m : SortedMap κ α} (h : m.Ordered) {f : α → List β} (k : κ)
    (hother : ∀ k' a, m.get? k' = some a → k' ≠ k → f a = []) :
    m.values.flatMap f = (m.get? k).toList.flatMap f := by
  unfold values
  rw [List.flatMap_map]
  cases hget : m.get? k with
  | none =>
      apply List.flatMap_eq_nil_iff.mpr
      intro e he
      have he' := (mem_entries_iff h).mp he
      apply hother e.1 e.2 he'
      intro heq
      rw [heq, hget] at he'
      cases he'
  | some a =>
      have hnodup : m.entries.Nodup := List.Nodup.of_map _ h.nodup_keys
      rw [Option.toList_some, List.flatMap_singleton]
      apply @flatMap_of_unique _ _ m.entries (fun e => f e.2) (k, a) hnodup
      · exact (mem_entries_iff h).mpr hget
      · intro e he hne
        have he' := (mem_entries_iff h).mp he
        apply hother e.1 e.2 he'
        intro heq
        rw [heq, hget] at he'
        cases he'
        exact hne (Prod.ext heq rfl)

/-!
## The writes of a journal
-/

namespace ChangeSet

theorem store_of_mem_writes {c : ChangeSet} {w : StoreChange} (h : w ∈ c.writes) :
    w.store = c.table := by
  unfold writes at h
  rcases List.mem_append.mp h with hput | hremove
  · split at hput
    · cases hput
    · rw [List.mem_singleton.mp hput]
      rfl
  · split at hremove
    · cases hremove
    · rw [List.mem_singleton.mp hremove]
      rfl

theorem writes_of_isEmpty {c : ChangeSet} (h : c.isEmpty = true) : c.writes = [] := by
  rcases c with ⟨table, ⟨added⟩, ⟨modified⟩, ⟨deleted⟩⟩
  simp only [isEmpty, SortedMap.isEmpty, Bool.and_eq_true, List.isEmpty_iff] at h
  rcases h with ⟨⟨rfl, rfl⟩, rfl⟩
  rfl

theorem foldl_erase_empty (ids : List RowId) :
    ids.foldl SortedMap.erase ({} : RowMap) = {} := by
  induction ids with
  | nil => rfl
  | cons id rest ih => exact ih

theorem storeAfter_writes (c : ChangeSet) (m : Option RowMap) :
    (Backstore.storeAfter c.writes m).getD {} = c.applyTo (m.getD {}) := by
  have hremoved : ∀ m : Option RowMap, (Backstore.storeAfter
      (if c.deleted.isEmpty then [] else [.remove c.table c.deleted.keys]) m).getD {} =
        c.deleted.keys.foldl SortedMap.erase (m.getD {}) := by
    intro m
    by_cases hempty : c.deleted.isEmpty = true
    · have hkeys : c.deleted.keys = [] := by
        unfold SortedMap.keys
        rw [List.isEmpty_iff.mp hempty]
        rfl
      rw [if_pos hempty, hkeys]
      rfl
    · rw [if_neg hempty]
      cases m with
      | none => exact (foldl_erase_empty c.deleted.keys).symm
      | some rows => rfl
  unfold writes applyTo Backstore.storeAfter
  rw [List.foldl_append]
  refine (hremoved _).trans ?_
  by_cases hempty : c.puts.isEmpty = true
  · rw [if_pos hempty, List.isEmpty_iff.mp hempty]
    rfl
  · rw [if_neg hempty]
    rfl

end ChangeSet

namespace TableStore

variable {s : TableStore} {options : DatabaseOptions} {touched : List String} {i : TableIndex}

theorem Sound.names_eq_declared (h : s.Sound) (ht : s.table.WellFormed) :
    s.indices.map (·.index.name) = s.table.indices.map (·.fullName) := by
  symm
  rw [← List.forall₂_eq_eq_eq, List.forall₂_map_left_iff, List.forall₂_map_right_iff]
  exact (h.declared ht).imp fun d c hc => hc.name.symm

theorem Sound.indexNames_eq_declared (h : s.Sound) (ht : s.table.WellFormed) :
    Journal.indexNames s = s.table.rowIdIndexName :: s.table.indices.map (·.fullName) := by
  unfold Journal.indexNames allIndices
  rw [List.map_cons, List.map_map, ← h.names_eq_declared ht]
  congr 1
  exact h.idsName

theorem Sound.qualifies (h : s.Sound) (ht : s.table.WellFormed) (hi : i ∈ s.allIndices) :
    s.table.Qualifies i.name := by
  have hname : i.name ∈ Journal.indexNames s := List.mem_map_of_mem hi
  rw [h.indexNames_eq_declared ht] at hname
  rcases List.mem_cons.mp hname with heq | hmem
  · rw [heq]
    exact s.table.qualifies_rowIdIndexName
  · rcases List.mem_map.mp hmem with ⟨d, hd, heq⟩
    rw [← heq]
    exact ht.qualifies_fullName hd

theorem Sound.nodup_indexNames (h : s.Sound) (ht : s.table.WellFormed) :
    (Journal.indexNames s).Nodup := by
  rw [h.indexNames_eq_declared ht, List.nodup_cons]
  refine ⟨?_, ht.indicesNamedApart.nodup_fullName⟩
  intro hmem
  rcases List.mem_map.mp hmem with ⟨d, hd, heq⟩
  exact ht.fullName_ne_rowIdIndexName hd heq

theorem exists_of_mem_indexWrites {w : StoreChange} (h : w ∈ s.indexWrites options touched) :
    ∃ i ∈ s.allIndices, w.store = i.name := by
  unfold indexWrites at h
  split at h
  · rcases List.mem_flatMap.mp h with ⟨i, hi, hw⟩
    refine ⟨i, (List.mem_filter.mp hi).1, ?_⟩
    rcases List.mem_cons.mp hw with rfl | hput
    · rfl
    · rw [List.mem_singleton.mp hput]
      rfl
  · split at h
    · rcases List.mem_map.mp h with ⟨i, hi, rfl⟩
      exact ⟨i, hi, rfl⟩
    · cases h

theorem filter_indexWrites_eq_nil {name : String} (h : ∀ i ∈ s.allIndices, i.name ≠ name) :
    (s.indexWrites options touched).filter (fun w => w.store == name) = [] := by
  apply List.filter_eq_nil_iff.mpr
  intro w hw
  rcases exists_of_mem_indexWrites hw with ⟨i, hi, hstore⟩
  rw [hstore]
  simpa using h i hi

theorem filter_indexWrites (hnodup : (Journal.indexNames s).Nodup)
    (hkept : options.persistsIndicesOf s.table = true) (hi : i ∈ s.allIndices) :
    (s.indexWrites options touched).filter (fun w => w.store == i.name) =
      if i.name ∈ touched then [.clear i.name, .put i.name i.toRows] else [] := by
  have hother : ∀ i' ∈ s.allIndices, i' ≠ i →
      ([.clear i'.name, .put i'.name i'.toRows] : List StoreChange).filter
        (fun w => w.store == i.name) = [] := by
    intro i' hi' hne
    have hname : ¬ i'.name = i.name := fun heq =>
      hne (List.inj_on_of_nodup_map hnodup hi' hi heq)
    apply List.filter_eq_nil_iff.mpr
    intro w hw
    rcases List.mem_cons.mp hw with rfl | hput
    · simpa [StoreChange.store] using hname
    · rw [List.mem_singleton.mp hput]
      simpa [StoreChange.store] using hname
  unfold indexWrites
  rw [if_pos hkept, List.filter_flatMap]
  by_cases htouched : i.name ∈ touched
  · rw [if_pos htouched]
    have hone := @flatMap_of_unique _ _ (s.allIndices.filter fun i => touched.contains i.name)
      (fun i' : TableIndex => ([.clear i'.name, .put i'.name i'.toRows] : List StoreChange).filter
        (fun w => w.store == i.name)) i
      ((List.Nodup.of_map _ hnodup).filter _)
      (List.mem_filter.mpr ⟨hi, by simpa using htouched⟩)
      (fun i' hi' => hother i' (List.mem_filter.mp hi').1)
    rw [hone]
    simp [StoreChange.store]
  · rw [if_neg htouched]
    apply List.flatMap_eq_nil_iff.mpr
    intro i' hi'
    rcases List.mem_filter.mp hi' with ⟨hmem, htouched'⟩
    apply hother i' hmem
    intro heq
    rw [heq] at htouched'
    exact htouched (by simpa using htouched')

/-- Where the table keeps its indices but the options do not, the store of an index is emptied. -/
theorem storeAfter_of_not_kept (hkept : options.persistsIndicesOf s.table = false)
    (hflag : s.table.persistsIndices = true) (hi : i ∈ s.allIndices) (m : Option RowMap) :
    Backstore.storeAfter
      ((s.indexWrites options touched).filter fun w => w.store == i.name) m = some {} := by
  have hclears : ∀ (writes : List StoreChange) (m : Option RowMap),
      (∀ w ∈ writes, w = .clear i.name) → writes ≠ [] →
        Backstore.storeAfter writes m = some {} := by
    intro writes
    induction writes with
    | nil => exact fun m _ hne => absurd rfl hne
    | cons w rest ih =>
        intro m hall _
        have hw : w = .clear i.name := hall w List.mem_cons_self
        by_cases hrest : rest = []
        · rw [hrest, hw]
          rfl
        · exact ih _ (fun w hw => hall w (List.mem_cons_of_mem _ hw)) hrest
  unfold indexWrites
  rw [if_neg (by simp [hkept]), if_pos hflag]
  apply hclears
  · intro w hw
    rcases List.mem_filter.mp hw with ⟨hmem, hstore⟩
    rcases List.mem_map.mp hmem with ⟨i', _, rfl⟩
    have hname : i'.name = i.name := by simpa [StoreChange.store] using hstore
    rw [hname]
  · apply List.ne_nil_of_mem (a := .clear i.name)
    exact List.mem_filter.mpr ⟨List.mem_map_of_mem hi, by simp [StoreChange.store]⟩

end TableStore

/-- What a store has that was given the stored form of an index. -/
def TableIndex.stored (i : TableIndex) : RowMap :=
  RowMap.putAll {} i.toRows

namespace Journal

variable {j : Journal} {committed : Committed} {options : DatabaseOptions} {name : String}

theorem Tracks.table_eq (h : j.Tracks committed) {c : ChangeSet}
    (hc : j.changes.get? name = some c) : c.table = name := by
  rcases h.recorded hc with ⟨s, hs⟩
  rcases h.staged hs with ⟨_, c', _, hc', htable, _⟩
  rw [hc] at hc'
  cases hc'
  exact htable

theorem Tracks.filter_netChanges (h : j.Tracks committed) (name : String) :
    (j.netChanges.flatMap (·.writes)).filter (fun w => w.store == name) =
      (j.changes.get? name).toList.flatMap (·.writes) := by
  have hall : j.netChanges.flatMap (·.writes) = j.changes.values.flatMap (·.writes) := by
    unfold netChanges
    induction j.changes.values with
    | nil => rfl
    | cons c rest ih =>
        cases hempty : c.isEmpty with
        | true =>
            rw [List.filter_cons_of_neg (by simp [hempty]), List.flatMap_cons, ih,
              ChangeSet.writes_of_isEmpty hempty, List.nil_append]
        | false =>
            rw [List.filter_cons_of_pos (by simp [hempty]), List.flatMap_cons, List.flatMap_cons, ih]
  rw [hall, List.filter_flatMap, SortedMap.flatMap_values h.orderedChanges name]
  · cases hc : j.changes.get? name with
    | none => rfl
    | some c =>
        rw [Option.toList_some, List.flatMap_singleton, List.flatMap_singleton,
          List.filter_eq_self]
        intro w hw
        simpa [ChangeSet.store_of_mem_writes hw] using h.table_eq hc
  · intro k c hc hne
    apply List.filter_eq_nil_iff.mpr
    intro w hw
    rw [ChangeSet.store_of_mem_writes hw, h.table_eq hc]
    simpa using hne

theorem Tracks.filter_indexWrites (h : j.Tracks committed) {table : String}
    (hother : ∀ k s, j.staged.get? k = some s → k ≠ table → ∀ i ∈ s.allIndices, i.name ≠ name) :
    (j.staged.values.flatMap fun s => s.indexWrites options j.touched.keys).filter
        (fun w => w.store == name) =
      (j.staged.get? table).toList.flatMap fun s =>
        (s.indexWrites options j.touched.keys).filter fun w => w.store == name := by
  rw [List.filter_flatMap, SortedMap.flatMap_values h.orderedStaged table]
  intro k s hs hne
  exact TableStore.filter_indexWrites_eq_nil (hother k s hs hne)

theorem Tracks.filter_indexWrites_table (h : j.Tracks committed) {tables : List Table}
    (hd : committed.Declared tables) {t : Table} (ht : IsName t.name) :
    (j.staged.values.flatMap fun s => s.indexWrites options j.touched.keys).filter
      (fun w => w.store == t.name) = [] := by
  rw [List.filter_flatMap, List.flatMap_eq_nil_iff]
  intro s hs
  rcases (SortedMap.mem_values_iff h.orderedStaged).mp hs with ⟨k, hk⟩
  rcases h.staged hk with ⟨base, _, hbase, _, _, hfrom⟩
  apply TableStore.filter_indexWrites_eq_nil
  intro i hi
  exact ((hd.qualified hbase).of_names hfrom.table_eq hfrom.names i hi).ne_name ht

end Journal

/-!
## Grounds
-/

/-- What is asked of an index of a table together with the store of its name lasts when journals
are written with the options. -/
structure Lasting (tables : List Table) (options : DatabaseOptions)
    (R : Table → TableIndex → Option RowMap → Prop) : Prop where
  kept : ∀ t ∈ tables, options.persistsIndicesOf t = true → ∀ i : TableIndex, R t i (some i.stored)
  cleared : ∀ t ∈ tables, options.persistsIndicesOf t = false → t.persistsIndices = true →
    ∀ i, R t i (some {})
  ignored : ∀ t ∈ tables, options.persistsIndicesOf t = false → t.persistsIndices = false →
    ∀ i i' m, R t i m → R t i' m

theorem TableStore.StagedFrom.related_written {tables : List Table} {options : DatabaseOptions}
    {R : Table → TableIndex → Option RowMap → Prop} {stores : SortedMap String RowMap}
    {base s : TableStore} {c : ChangeSet} {touched : List String} {i : TableIndex}
    (h : base.StagedFrom s c fun n => n ∈ touched) (hbase : base.Sound)
    (hwf : s.table.WellFormed) (hknown : s.table ∈ tables) (hlasting : Lasting tables options R)
    (hR : ∀ i ∈ base.allIndices, R base.table i (stores.get? i.name)) (hi : i ∈ s.allIndices) :
    R s.table i (Backstore.storeAfter
      ((s.indexWrites options touched).filter fun w => w.store == i.name)
      (stores.get? i.name)) := by
  have hs : s.Sound := h.sound hbase
  cases hkept : options.persistsIndicesOf s.table with
  | true =>
      rw [filter_indexWrites (hs.nodup_indexNames hwf) hkept hi]
      by_cases htouched : i.name ∈ touched
      · rw [if_pos htouched]
        exact hlasting.kept _ hknown hkept i
      · -- An index that no write touched is that of the committed store.
        rw [if_neg htouched, h.table_eq]
        exact hR i (h.untouched hbase i hi htouched)
  | false =>
      cases hflag : s.table.persistsIndices with
      | true =>
          rw [storeAfter_of_not_kept hkept hflag hi]
          exact hlasting.cleared _ hknown hkept hflag i
      | false =>
          -- Nothing is written, so what the store has is that of another index of this name.
          have hnothing : s.indexWrites options touched = [] := by
            unfold indexWrites
            rw [if_neg (by simp [hkept]), if_neg (by simp [hflag])]
          have hnames : i.name ∈ Journal.indexNames base := by
            rw [← h.names]
            exact List.mem_map_of_mem hi
          rcases List.mem_map.mp hnames with ⟨i', hi', heq⟩
          rw [hnothing, ← heq]
          apply hlasting.ignored _ hknown hkept hflag i'
          rw [h.table_eq]
          exact hR i' hi'

/-- Sound stores under the names of their tables, which are among the given ones. -/
structure Committed.Founded (tables : List Table) (c : Committed) : Prop where
  wellKept : c.WellKept
  sound : ∀ {name : String} {s : TableStore}, c.store? name = some s → s.Sound
  known : ∀ {name : String} {s : TableStore}, c.store? name = some s → s.table ∈ tables
  wellFormed : ∀ t ∈ tables, t.WellFormed

namespace Journal

variable {j : Journal} {committed : Committed} {tables : List Table} {options : DatabaseOptions}
  {R : Table → TableIndex → Option RowMap → Prop} {stores : SortedMap String RowMap}
  {name : String} {s : TableStore} {i : TableIndex}

theorem get?_written (h : stores.Ordered) (j : Journal) (options : DatabaseOptions)
    (name : String) :
    (Backstore.storesAfter stores (j.writes options)).get? name =
      Backstore.storeAfter
        ((j.staged.values.flatMap fun s => s.indexWrites options j.touched.keys).filter
          fun w => w.store == name)
        (Backstore.storeAfter ((j.netChanges.flatMap (·.writes)).filter fun w => w.store == name)
          (stores.get? name)) := by
  rw [Backstore.get?_storesAfter h]
  unfold Journal.writes Backstore.storeAfter
  rw [List.filter_append, List.foldl_append]

theorem Tracks.staged_sound (hj : j.Tracks committed) (h : committed.Founded tables)
    (hs : j.staged.get? name = some s) :
    ∃ base c, committed.store? name = some base ∧ j.changes.get? name = some c ∧
      base.StagedFrom s c j.Touches ∧ s.Sound ∧ s.table ∈ tables ∧ s.table.name = name := by
  rcases hj.staged hs with ⟨base, c, hbase, hc, _, hfrom⟩
  refine ⟨base, c, hbase, hc, hfrom, hfrom.sound (h.sound hbase), ?_, ?_⟩
  · rw [hfrom.table_eq]
    exact h.known hbase
  · rw [hfrom.table_eq, h.wellKept.named hbase]

theorem Tracks.table_installed (hj : j.Tracks committed) (h : committed.Founded tables)
    (hs : (j.install committed).store? name = some s) :
    s.Sound ∧ s.table ∈ tables ∧ s.table.name = name := by
  rw [hj.store?_install h.wellKept, Journal.store?_view] at hs
  split at hs
  · next hstaged =>
      cases hs
      rcases hj.staged_sound h hstaged with ⟨_, _, _, _, _, hsound, hknown, hname⟩
      exact ⟨hsound, hknown, hname⟩
  · exact ⟨h.sound hs, h.known hs, h.wellKept.named hs⟩

theorem Tracks.indices_written (hj : j.Tracks committed) (h : committed.Founded tables)
    (hordered : stores.Ordered) (hlasting : Lasting tables options R)
    (hR : ∀ {name s}, committed.store? name = some s →
      ∀ i ∈ s.allIndices, R s.table i (stores.get? i.name))
    (hs : (j.install committed).store? name = some s) (hi : i ∈ s.allIndices) :
    R s.table i ((Backstore.storesAfter stores (j.writes options)).get? i.name) := by
  rcases hj.table_installed h hs with ⟨hsound, hknown, hname⟩
  have hwf := h.wellFormed _ hknown
  have hqualifies := hsound.qualifies hwf hi
  have hnone : j.changes.get? i.name = none := by
    apply hj.changes_eq_none
    cases hstaged : j.staged.get? i.name with
    | none => rfl
    | some s' =>
        rcases hj.staged_sound h hstaged with ⟨_, _, _, _, _, _, hknown', hname'⟩
        exact absurd hname'.symm (hqualifies.ne_name (h.wellFormed _ hknown').named)
  -- An index whose name begins with that of another table is not staged with this one.
  have hother : ∀ k s', j.staged.get? k = some s' → k ≠ name → ∀ i' ∈ s'.allIndices,
      i'.name ≠ i.name := by
    intro k s' hs' hne i' hi' heq
    rcases hj.staged_sound h hs' with ⟨_, _, _, _, _, hsound', hknown', hname'⟩
    have hwf' := h.wellFormed _ hknown'
    have hqualifies' := heq ▸ hsound'.qualifies hwf' hi'
    rw [← hname', ← hname] at hne
    exact hne (hqualifies'.name_eq hqualifies hwf'.named hwf.named)
  rw [get?_written hordered, hj.filter_netChanges, hnone, hj.filter_indexWrites hother]
  change R s.table i (Backstore.storeAfter _ (stores.get? i.name))
  rw [hj.store?_install h.wellKept, Journal.store?_view] at hs
  cases hstaged : j.staged.get? name with
  | none =>
      rw [hstaged] at hs
      exact hR hs i hi
  | some s' =>
      rw [hstaged] at hs
      cases hs
      rcases hj.staged_sound h hstaged with ⟨base, c, hbase, _, hfrom, _⟩
      rw [Option.toList_some, List.flatMap_singleton]
      exact hfrom.related_written (h.sound hbase) hwf hknown hlasting
        (fun i hi => hR hbase i hi) hi

end Journal

/-- The tables have sound stores, whose rows are in the backstore under the names of the tables,
and every index and the store of its name are related. -/
structure Ground.Mirrors (tables : List Table) (R : Table → TableIndex → Option RowMap → Prop)
    (g : Ground) : Prop where
  ordered : g.stores.Ordered
  wellKept : g.base.committed.WellKept
  sound : g.Sound
  present : ∀ t ∈ tables, ∃ s, g.base.committed.store? t.name = some s
  known : ∀ {name : String} {s : TableStore}, g.base.committed.store? name = some s →
    s.table ∈ tables
  rows : ∀ {name : String} {s : TableStore}, g.base.committed.store? name = some s →
    g.stores.get? name = some s.rows
  indices : ∀ {name : String} {s : TableStore}, g.base.committed.store? name = some s →
    ∀ i ∈ s.allIndices, R s.table i (g.stores.get? i.name)

namespace Ground

variable {g g' : Ground} {tables : List Table} {R : Table → TableIndex → Option RowMap → Prop}
  {j : Journal} {journals : List Journal} {name : String} {s : TableStore} {i : TableIndex}

theorem get?_written_table (h : g.stores.Ordered) (hj : j.Tracks g.base.committed)
    (hd : g.base.committed.Declared tables) {t : Table} (ht : IsName t.name) {m : RowMap}
    (hm : g.stores.get? t.name = some m) (options : DatabaseOptions) :
    (Backstore.storesAfter g.stores (j.writes options)).get? t.name = some (j.overlay t.name m) := by
  rw [Journal.get?_written h, hj.filter_indexWrites_table hd ht, hj.filter_netChanges, hm]
  unfold Journal.overlay
  cases hc : j.changes.get? t.name with
  | none => rfl
  | some c =>
      rw [Option.toList_some, List.flatMap_singleton]
      change Backstore.storeAfter c.writes (some m) = _
      rw [Backstore.storeAfter_some, ChangeSet.storeAfter_writes]
      rfl

theorem Mirrors.name_eq (h : g.Mirrors tables R) (hs : g.base.committed.store? name = some s) :
    s.table.name = name :=
  h.wellKept.named hs

theorem Mirrors.founded (h : g.Mirrors tables R) (htables : ∀ t ∈ tables, t.WellFormed) :
    g.base.committed.Founded tables where
  wellKept := h.wellKept
  sound := h.sound
  known := h.known
  wellFormed := htables

theorem Mirrors.declared (h : g.Mirrors tables R) (htables : ∀ t ∈ tables, t.WellFormed) :
    g.base.committed.Declared tables where
  known := h.known
  qualified := fun hs _ hi => (h.sound hs).qualifies (htables _ (h.known hs)) hi

theorem Mirrors.rows_written (h : g.Mirrors tables R) (htables : ∀ t ∈ tables, t.WellFormed)
    (hj : j.Tracks g.base.committed)
    (hs : (j.install g.base.committed).store? name = some s) :
    (Backstore.storesAfter g.stores (j.writes g.base.options)).get? name = some s.rows := by
  have hrows := hj.rows_install h.wellKept name
  unfold Committed.rows? at hrows
  rw [hs] at hrows
  cases hbase : g.base.committed.store? name with
  | none =>
      rw [hbase] at hrows
      cases hrows
  | some base =>
      rw [hbase] at hrows
      rcases h.name_eq hbase with rfl
      have hwritten := get?_written_table h.ordered hj (h.declared htables)
        (htables _ (h.known hbase)).named (h.rows hbase) g.base.options
      exact hwritten.trans hrows.symm

theorem Mirrors.written (h : g.Mirrors tables R) (htables : ∀ t ∈ tables, t.WellFormed)
    (hlasting : Lasting tables g.base.options R) (hj : j.Tracks g.base.committed) :
    Mirrors tables R
      { stores := Backstore.storesAfter g.stores (j.writes g.base.options)
        base := { g.base with committed := j.install g.base.committed } } := by
  constructor
  · exact Backstore.ordered_storesAfter h.ordered _
  · exact hj.wellKept_install h.wellKept
  · intro name s hs
    exact hj.sound_view h.sound ((hj.store?_install h.wellKept name).symm.trans hs)
  · intro t ht
    rcases h.present t ht with ⟨s, hs⟩
    change ∃ s, (j.install g.base.committed).store? t.name = some s
    rw [hj.store?_install h.wellKept, Journal.store?_view]
    split
    · next s' _ => exact ⟨s', rfl⟩
    · exact ⟨s, hs⟩
  · intro name s hs
    exact (hj.table_installed (h.founded htables) hs).2.1
  · intro name s hs
    exact h.rows_written htables hj hs
  · intro name s hs i hi
    exact hj.indices_written (h.founded htables) h.ordered hlasting h.indices hs hi

theorem Mirrors.moves (h : g.Mirrors tables R) (htables : ∀ t ∈ tables, t.WellFormed)
    (hlasting : Lasting tables g.base.options R) (hmoves : g.Moves g' journals) :
    g'.Mirrors tables R ∧ g'.base.options = g.base.options := by
  cases hmoves with
  | quiet => exact ⟨h, rfl⟩
  | empty j hj hempty => exact ⟨h, rfl⟩
  | written j hj => exact ⟨h.written htables hlasting hj, rfl⟩

end Ground

end RelationalDb
