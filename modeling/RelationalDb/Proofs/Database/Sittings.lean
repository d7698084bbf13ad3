import Mathlib
import RelationalDb.Proofs.Database.Reloading

/-!
# Databases opened one after the other

A backstore outlives the databases that are opened on it.  In every sitting a database is
opened with some options, and anything may happen to it until it is left.
-/

namespace RelationalDb

/-- The options of a sitting, and what happens in it. -/
structure Sitting where
  options : DatabaseOptions
  events : List Event

namespace Backstore

/-- The backstore after a sitting.  Faults of the backstore do not outlast it. -/
def afterSitting (c : Catalog) (b : Backstore) (s : Sitting) : Backstore :=
  match (Database.load c s.options).perform b.repair with
  | (.ok d, b₁) => ((Service.opened b₁ d).after s.events).session.backstore
  | (.error _, b₁) => b₁

def afterSittings (c : Catalog) (b : Backstore) (sittings : List Sitting) : Backstore :=
  sittings.foldl (afterSitting c) b

theorem afterSittings_concat (c : Catalog) (b : Backstore) (before : List Sitting) (s : Sitting) :
    afterSittings c b (before ++ [s]) = afterSitting c (afterSittings c b before) s := by
  unfold afterSittings
  rw [List.foldl_append, List.foldl_cons, List.foldl_nil]

theorem afterSitting_of_load {c : Catalog} {b b₁ : Backstore} {s : Sitting} {d : Database}
    (h : (Database.load c s.options).perform b.repair = (.ok d, b₁)) :
    afterSitting c b s = ((Service.opened b₁ d).after s.events).session.backstore := by
  unfold afterSitting
  rw [h]

def filled (c : Catalog) (options : DatabaseOptions) (history : List (List Event)) : Backstore :=
  afterSittings c {} (history.map fun events => { options := options, events := events })

/-- For every table there is a sound store whose rows the backstore has, and each of its indices is
related to the store of its name. -/
structure Backs (stores : SortedMap String RowMap) (tables : List Table)
    (K : Table → TableIndex → Option RowMap → Prop) (ref : Table → TableStore) : Prop where
  sound : ∀ t ∈ tables, (ref t).Sound
  table : ∀ t ∈ tables, (ref t).table = t
  rows : ∀ t ∈ tables, stores.get? t.name = some (ref t).rows
  indices : ∀ t ∈ tables, ∀ i ∈ (ref t).allIndices, K t i (stores.get? i.name)

variable {stores : SortedMap String RowMap} {c : Catalog} {b : Backstore}
  {options : DatabaseOptions} {K R : Table → TableIndex → Option RowMap → Prop}
  {ref : Table → TableStore}

theorem backs_empty (hc : c.WellFormed)
    (hK : ∀ t ∈ c.tables, ∀ i ∈ (TableStore.empty t).allIndices,
      K t i (if t.persistsIndices then some i.stored else none)) :
    Backs (sow {} c.seeds) c.tables K TableStore.empty where
  sound := fun t _ => TableStore.sound_empty t
  table := fun t _ => rfl
  rows := fun t ht => get?_sow_table SortedMap.ordered_empty hc ht
  indices := by
    intro t ht i hi
    have hkept := hK t ht i hi
    have hordered : ({} : SortedMap String RowMap).Ordered := SortedMap.ordered_empty
    cases hflag : t.persistsIndices with
    | true =>
        rw [get?_sow_index hordered hc ht hflag hi]
        rw [hflag] at hkept
        exact hkept
    | false =>
        have hqualifies := qualifies_of_mem_empty (hc.tables t ht) hi
        rw [get?_sow_unkept hordered hc ht hflag hqualifies]
        rw [hflag] at hkept
        exact hkept

theorem Backs.sown (h : Backs stores c.tables K ref) (hstores : stores.Ordered)
    (hc : c.WellFormed)
    (hK : ∀ t ∈ c.tables, t.persistsIndices = true → ∀ i m, K t i m → m ≠ none) :
    Backs (sow stores c.seeds) c.tables K ref where
  sound := h.sound
  table := h.table
  rows := by
    intro t ht
    rw [get?_sow_table hstores hc ht, h.rows t ht]
    rfl
  indices := by
    intro t ht i hi
    have hkept := h.indices t ht i hi
    cases hflag : t.persistsIndices with
    | true =>
        rcases Option.ne_none_iff_exists'.mp (hK t ht hflag i _ hkept) with ⟨m, hm⟩
        rw [get?_sow hstores, hm]
        rw [hm] at hkept
        exact hkept
    | false =>
        have hwf : (ref t).table.WellFormed := (h.table t ht).symm ▸ hc.tables t ht
        have hqualifies := (h.sound t ht).qualifies hwf hi
        rw [h.table t ht] at hqualifies
        rw [get?_sow_unkept hstores hc ht hflag hqualifies]
        exact hkept

theorem Backs.loaded (h : Backs stores c.tables K ref) (hc : c.WellFormed) {t : Table}
    (ht : t ∈ c.tables) {d : Database} {s : TableStore}
    (hs : Database.Loaded stores d (ref t) s) :
    d.committed.store? t.name = some s ∧ s.table = t ∧ s.InStep := by
  have htable := h.table t ht
  have htable' : s.table = t := hs.reloads.table.trans htable
  refine ⟨htable ▸ hs.store, htable', hs.reloads.sound.inStep ?_⟩
  rw [htable']
  exact hc.tables t ht

theorem Backs.load_ok (h : Backs (sow b.stores c.seeds) c.tables K ref)
    (hcheck : options.check = .ok ()) (hc : c.WellFormed)
    (hK : ∀ t ∈ c.tables, options.persistsIndicesOf t = true → ∀ i m, K t i m →
      Vacant m ∨ m = some i.stored) :
    ∃ d b₁, (Database.load c options).perform b.repair = (.ok d, b₁) ∧
      b₁.stores = sow b.stores c.seeds ∧ d.options = options ∧
      (∀ name s, d.committed.store? name = some s → s.table ∈ c.tables) ∧
      ∀ t ∈ c.tables, ∃ s', Database.Loaded b₁.stores d (ref t) s' := by
  have hholds : ∀ t ∈ c.tables,
      Holds (sow b.repair.stores c.seeds) (options.persistsIndicesOf t) (ref t) := by
    intro t ht
    constructor
    · exact h.sound t ht
    · rw [h.table t ht]
      exact hc.tables t ht
    · rw [h.table t ht]
      exact h.rows t ht
    · intro hkept i hi
      exact hK t ht hkept i _ (h.indices t ht i hi)
  rcases Database.load_ok hcheck hc rfl hholds h.table with
    ⟨d, b₁, hload, hstores, _, hoptions, hknown, hloaded⟩
  refine ⟨d, b₁, hload, hstores, hoptions, hknown, ?_⟩
  rw [hstores]
  exact hloaded

end Backstore

/-!
## A sitting
-/

namespace Service

variable {v : Service} {tables : List Table} {R : Table → TableIndex → Option RowMap → Prop}

theorem mirrors_after (h : v.Consistent) (hm : v.session.ground.Mirrors tables R)
    (htables : ∀ t ∈ tables, t.WellFormed)
    (hlasting : Lasting tables v.session.database.options R) (events : List Event) :
    (v.after events).session.ground.Mirrors tables R := by
  unfold after
  induction events generalizing v with
  | nil => exact hm
  | cons e rest ih =>
      rcases step_spec h e with ⟨hstep, _, _, hmoves⟩
      rcases hm.moves htables hlasting hmoves with ⟨hm', hoptions⟩
      have hsame : (v.step e).session.database.options = v.session.database.options := hoptions
      rw [List.foldl_cons]
      exact ih hstep hm' (hsame.symm ▸ hlasting)

end Service

namespace Backstore

variable {stores : SortedMap String RowMap} {c : Catalog} {b b₁ : Backstore} {d : Database}
  {options : DatabaseOptions} {K R : Table → TableIndex → Option RowMap → Prop}
  {ref : Table → TableStore}

theorem loaded_of_store? (hload : (Database.load c options).perform b.repair = (.ok d, b₁))
    (htable : ∀ t ∈ c.tables, (ref t).table = t)
    (hknown : ∀ name s, d.committed.store? name = some s → s.table ∈ c.tables)
    (hloaded : ∀ t ∈ c.tables, ∃ s', Database.Loaded b₁.stores d (ref t) s') {name : String}
    {s : TableStore} (hs : d.committed.store? name = some s) :
    s.table.name = name ∧ Database.Loaded b₁.stores d (ref s.table) s := by
  have hname : s.table.name = name := (Database.fresh_load hload).wellKept.named hs
  refine ⟨hname, ?_⟩
  have hmem := hknown name s hs
  rcases hloaded s.table hmem with ⟨s', hs'⟩
  have hstore := hs'.store
  rw [htable s.table hmem, hname, hs] at hstore
  cases hstore
  exact hs'

theorem mirrors_opened (hload : (Database.load c options).perform b.repair = (.ok d, b₁))
    (hordered : b₁.stores.Ordered)
    (hknown : ∀ name s, d.committed.store? name = some s → s.table ∈ c.tables)
    (hloaded : ∀ t ∈ c.tables, ∃ s', Database.Loaded b₁.stores d (ref t) s')
    (hbacks : Backs b₁.stores c.tables K ref)
    (hR : ∀ t ∈ c.tables, ∀ s', Database.Loaded b₁.stores d (ref t) s' →
      ∀ i ∈ s'.allIndices, R t i (b₁.stores.get? i.name)) :
    (Service.opened b₁ d).session.ground.Mirrors c.tables R where
  ordered := hordered
  wellKept := (Database.fresh_load hload).wellKept
  sound := fun hs => (loaded_of_store? hload hbacks.table hknown hloaded hs).2.reloads.sound
  present := by
    intro t ht
    rcases hloaded t ht with ⟨s', hs'⟩
    have hstore := hs'.store
    rw [hbacks.table t ht] at hstore
    exact ⟨s', hstore⟩
  known := fun hs => hknown _ _ hs
  rows := by
    intro name s hs
    rcases loaded_of_store? hload hbacks.table hknown hloaded hs with ⟨hname, hs'⟩
    rw [hs'.reloads.rows, ← hname]
    exact hbacks.rows s.table (hknown name s hs)
  indices := by
    intro name s hs
    exact hR s.table (hknown name s hs) s
      (loaded_of_store? hload hbacks.table hknown hloaded hs).2

/-- A database is opened on a backstore that backs its tables, and whatever happens then, the
backstore has what is asked of the tables that were loaded, as long as writing journals keeps it. -/
theorem Backs.opens (h : Backs (sow b.stores c.seeds) c.tables K ref) (hb : b.stores.Ordered)
    (hc : c.WellFormed) (hcheck : options.check = .ok ())
    (hK : ∀ t ∈ c.tables, options.persistsIndicesOf t = true → ∀ i m, K t i m →
      Vacant m ∨ m = some i.stored)
    (hR : ∀ t ∈ c.tables, ∀ s',
      Reloads (sow b.stores c.seeds) (options.persistsIndicesOf t) (ref t) s' →
        ∀ i ∈ s'.allIndices, R t i ((sow b.stores c.seeds).get? i.name))
    (hlasting : Lasting c.tables options R) :
    ∃ d b₁, (Database.load c options).perform b.repair = (.ok d, b₁) ∧
      (∀ t ∈ c.tables, ∃ s', Database.Loaded (sow b.stores c.seeds) d (ref t) s') ∧
      d.options = options ∧
      ∀ events, ((Service.opened b₁ d).after events).session.ground.Mirrors c.tables R := by
  rcases h.load_ok hcheck hc hK with ⟨d, b₁, hload, hstores, hoptions, hknown, hloaded⟩
  have hopened := Service.consistent_opened hload
  have hmirrors : (Service.opened b₁ d).session.ground.Mirrors c.tables R := by
    apply mirrors_opened hload _ hknown hloaded (hstores ▸ h)
    · intro t ht s' hs' i hi
      have hreloads := hs'.reloads
      rw [hoptions, h.table t ht, hstores] at hreloads
      rw [hstores]
      exact hR t ht s' hreloads i hi
    · rw [hstores]
      exact ordered_sow hb _
  rw [hstores] at hloaded
  refine ⟨d, b₁, hload, hloaded, hoptions, fun events => ?_⟩
  exact Service.mirrors_after hopened hmirrors hc.tables (hoptions.symm ▸ hlasting) events

end Backstore

theorem Ground.Mirrors.backs {g : Ground} {c : Catalog}
    {R : Table → TableIndex → Option RowMap → Prop} (h : g.Mirrors c.tables R)
    (hc : c.WellFormed) :
    ∃ ref, Backstore.Backs g.stores c.tables R ref ∧
      ∀ t ∈ c.tables, g.base.committed.store? t.name = some (ref t) := by
  have hstore : ∀ t ∈ c.tables, g.base.committed.store? t.name =
      some ((g.base.committed.store? t.name).getD (.empty t)) := by
    intro t ht
    rcases h.present t ht with ⟨s, hs⟩
    rw [hs]
    rfl
  have htable : ∀ t ∈ c.tables, ((g.base.committed.store? t.name).getD (.empty t)).table = t :=
    fun t ht => hc.eq_of_name (h.known (hstore t ht)) ht (h.name_eq (hstore t ht))
  refine ⟨fun t => (g.base.committed.store? t.name).getD (.empty t), ?_, hstore⟩
  constructor
  · exact fun t ht => h.sound (hstore t ht)
  · exact htable
  · exact fun t ht => h.rows (hstore t ht)
  · intro t ht i hi
    have hR := h.indices (hstore t ht) i hi
    rwa [htable t ht] at hR

/-- A test by which a database that was opened shows that an index of a table is not in step. -/
theorem Database.exists_not_inStep {c : Catalog} {options : DatabaseOptions} {b : Backstore}
    {table : String}
    (h : (match (load c options).perform b with
      | (.ok d, _) => (d.committed.store? table).any fun s => !s.indicesMatch
      | (.error _, _) => false) = true) :
    ∃ d b₁ s, (load c options).perform b = (.ok d, b₁) ∧ d.committed.store? table = some s ∧
      ¬ s.InStep := by
  rcases hload : (load c options).perform b with ⟨r, b₁⟩
  rw [hload] at h
  cases r with
  | error e => cases h
  | ok d =>
      rcases (Option.any_eq_true _ _).mp h with ⟨s, hs, htest⟩
      refine ⟨d, b₁, s, rfl, hs, ?_⟩
      intro hstep
      rw [hstep.indicesMatch] at htest
      cases htest

/-!
## Indices that were loaded
-/

namespace TableIndex

/-- The same index but for the order of the ids under a key and for the counters. -/
inductive Alike : TableIndex → TableIndex → Prop
  | ofRowIds {i i' : RowIdIndex} (hname : i'.name = i.name) (hids : i'.ids = i.ids) :
      Alike (.ofRowIds i) (.ofRowIds i')
  | ofKeys {i i' : KeyIndex} (h : i.Alike i') : Alike (.ofKeys i) (.ofKeys i')

/-- The same index but for the counters. -/
inductive SameEntries : TableIndex → TableIndex → Prop
  | ofRowIds {i i' : RowIdIndex} (hname : i'.name = i.name) (hids : i'.ids = i.ids) :
      SameEntries (.ofRowIds i) (.ofRowIds i')
  | ofKeys {i i' : KeyIndex} (h : i.SameEntries i') : SameEntries (.ofKeys i) (.ofKeys i')

def Blank : TableIndex → Prop
  | ofRowIds i => i.ids = {}
  | ofKeys i => i.entries = {}

variable {i i' : TableIndex}

theorem Alike.refl (i : TableIndex) : i.Alike i := by
  cases i with
  | ofRowIds i => exact .ofRowIds rfl rfl
  | ofKeys i => exact .ofKeys (KeyIndex.Alike.refl i)

theorem Alike.of_ofRowIds {i : RowIdIndex} {i₀ : TableIndex}
    (h : (TableIndex.ofRowIds i).Alike i₀) :
    ∃ i', i₀ = .ofRowIds i' ∧ i'.name = i.name ∧ i'.ids = i.ids := by
  cases h with
  | ofRowIds hname hids => exact ⟨_, rfl, hname, hids⟩

theorem Alike.of_ofKeys {i : KeyIndex} {i₀ : TableIndex}
    (h : (TableIndex.ofKeys i).Alike i₀) : ∃ i', i₀ = .ofKeys i' ∧ i.Alike i' := by
  cases h with
  | ofKeys h => exact ⟨_, rfl, h⟩

theorem Alike.name_eq (h : i.Alike i') : i'.name = i.name := by
  cases h with
  | ofRowIds hname _ => exact hname
  | ofKeys h => exact KeyIndex.name_eq_of_emptied h.emptied

theorem SameEntries.name_eq (h : i.SameEntries i') : i'.name = i.name := by
  cases h with
  | ofRowIds hname _ => exact hname
  | ofKeys h => exact KeyIndex.name_eq_of_emptied h.emptied

theorem SameEntries.stored_eq (h : i.SameEntries i') : i'.stored = i.stored := by
  unfold stored
  cases h with
  | @ofRowIds i i' _ hids =>
      have htoRows : i'.toRows = i.toRows := by
        unfold RowIdIndex.toRows RowIdIndex.toList
        rw [hids]
      exact congrArg _ htoRows
  | ofKeys h => exact congrArg _ h.toRows_eq

theorem SameEntries.blank (h : i.SameEntries i') (hi : i.Blank) : i'.Blank := by
  cases h with
  | ofRowIds _ hids => exact hids.trans hi
  | ofKeys h => exact h.entries.trans hi

end TableIndex

namespace TableStore

variable {s s' : TableStore}

/-- Sound stores of the same rows have the same indices but for the order of the ids under a
key. -/
theorem Sound.alike_allIndices (h : s.Sound) (h' : s'.Sound) (htable : s'.table = s.table)
    (hrows : s'.rows = s.rows) :
    List.Forall₂ TableIndex.Alike s.allIndices s'.allIndices := by
  apply List.Forall₂.cons
  · apply TableIndex.Alike.ofRowIds
    · rw [h'.idsName, h.idsName, htable]
    · exact h.ids_eq h' hrows
  · rw [List.forall₂_map_left_iff, List.forall₂_map_right_iff]
    exact (h.alike h' htable hrows).imp fun c c' hc => .ofKeys hc.index

theorem Sound.exists_alike (h : s.Sound) {P : TableIndex → Prop}
    (hall : ∀ i ∈ s.allIndices, ∃ i₀, i.Alike i₀ ∧ P i₀) :
    ∃ s₀ : TableStore, s₀.Sound ∧ s₀.table = s.table ∧ s₀.rows = s.rows ∧
      ∀ i ∈ s₀.allIndices, P i := by
  rcases hall (.ofRowIds s.rowIds) List.mem_cons_self with ⟨i₀, halike, hrowIds⟩
  rcases halike.of_ofRowIds with ⟨rowIds, rfl, hname, hids⟩
  have hcolumns : ∀ c ∈ s.indices, ∃ c₀, AlikeIndices c c₀ ∧ P (.ofKeys c₀.index) := by
    intro c hc
    rcases hall (.ofKeys c.index) (List.mem_cons_of_mem _ (List.mem_map_of_mem hc)) with
      ⟨i₀, halike, hi₀⟩
    rcases halike.of_ofKeys with ⟨i, rfl, hsame⟩
    exact ⟨{ c with index := i }, ⟨rfl, hsame⟩, hi₀⟩
  rcases exists_forall₂ hcolumns with ⟨indices, hindices⟩
  refine ⟨{ s with rowIds := rowIds, indices := indices }, ?_, rfl, rfl, ?_⟩
  · exact h.of_alike rfl rfl hname hids (hindices.imp fun c c₀ hc => hc.1)
  · intro i hi
    rcases List.mem_cons.mp hi with rfl | hmem
    · exact hrowIds
    · rcases List.mem_map.mp hmem with ⟨c₀, hc₀, rfl⟩
      rcases exists_of_mem_right hindices hc₀ with ⟨c, _, _, hP⟩
      exact hP

end TableStore

namespace Backstore

variable {stores : SortedMap String RowMap} {s s' : TableStore} {kept : Bool}

/-- If the stores that are vacant are those of indices without rows, then all indices are loaded
with their entries in order. -/
theorem Reloads.entries_eq (h : Reloads stores true s s') (hs : s.Sound)
    (hblank : ∀ i ∈ s.allIndices, Vacant (stores.get? i.name) → i.Blank) :
    List.Forall₂ (fun c c' => c'.index.entries = c.index.entries) s.indices s'.indices := by
  have halike := forall₂_mem (hs.alike h.sound h.table h.rows)
  -- Without the index over the row ids no other index was read, and then there are no rows.
  by_cases hvacant : Vacant (stores.get? s.rowIds.name)
  · have hnone : s.rows = {} :=
      hs.rows_eq_empty (hblank (.ofRowIds s.rowIds) List.mem_cons_self hvacant)
    apply halike.imp
    intro c c' hc
    rcases hc with ⟨hc, hc', _⟩
    rw [hs.entries_eq_empty hnone hc, h.sound.entries_eq_empty (h.rows.trans hnone) hc']
  · apply (forall₂_and halike (h.entries rfl hvacant)).imp
    intro c c' hc
    rcases hc with ⟨⟨hc, _, hsame⟩, hentries⟩
    by_cases hthere : Vacant (stores.get? c.index.name)
    · have hempty : c.index.entries = {} :=
        hblank (.ofKeys c.index) (List.mem_cons_of_mem _ (List.mem_map_of_mem hc)) hthere
      rw [hempty, hsame.index.entries_eq_empty (hs.indexSound hc) hempty]
    · exact hentries hthere

theorem Reloads.sameEntries (h : Reloads stores true s s') (hs : s.Sound)
    (hblank : ∀ i ∈ s.allIndices, Vacant (stores.get? i.name) → i.Blank) :
    List.Forall₂ TableIndex.SameEntries s.allIndices s'.allIndices := by
  apply List.Forall₂.cons
  · apply TableIndex.SameEntries.ofRowIds
    · rw [h.sound.idsName, hs.idsName, h.table]
    · exact hs.ids_eq h.sound h.rows
  · rw [List.forall₂_map_left_iff, List.forall₂_map_right_iff]
    apply (forall₂_and (hs.alike h.sound h.table h.rows) (h.entries_eq hs hblank)).imp
    intro c c' hc
    exact .ofKeys ⟨hc.1.index.emptied, hc.2⟩

end Backstore

/-!
## Sittings with the same options
-/

/-- What the store of an index has if the database was always opened with the options. -/
structure WrittenUnder (options : DatabaseOptions) (t : Table) (i : TableIndex)
    (m : Option RowMap) : Prop where
  there : t.persistsIndices = true → m ≠ none
  stored : options.persistsIndicesOf t = true → m = some i.stored ∨ Vacant m ∧ i.Blank

theorem lasting_writtenUnder (tables : List Table) (options : DatabaseOptions) :
    Lasting tables options (WrittenUnder options) where
  kept := fun _ _ _ _ => ⟨fun _ => nofun, fun _ => Or.inl rfl⟩
  cleared := by
    intro t _ hkept _ i
    refine ⟨fun _ => nofun, fun hkept' => ?_⟩
    rw [hkept] at hkept'
    cases hkept'
  ignored := by
    intro t _ hkept hflag i i' m _
    constructor
    · intro hflag'
      rw [hflag] at hflag'
      cases hflag'
    · intro hkept'
      rw [hkept] at hkept'
      cases hkept'

theorem TableIndex.not_vacant_stored (i : TableIndex) : ¬ Vacant (some i.stored) := by
  intro hvacant
  have hheader : reservedRowId ∈ i.toRows.map (·.id) := by
    cases i with
    | ofRowIds i => exact List.mem_cons_self
    | ofKeys i => exact List.mem_cons_self
  have hkey : reservedRowId ∈ i.stored.keys := by
    apply SortedMap.mem_keys_ofList_iff.mpr
    rwa [List.map_map]
  have hempty : i.stored = {} := hvacant
  rw [hempty] at hkey
  cases hkey

theorem Ground.Mirrors.backs_sown {g : Ground} {c : Catalog} {options : DatabaseOptions}
    (h : g.Mirrors c.tables (WrittenUnder options)) (hc : c.WellFormed) :
    ∃ ref, Backstore.Backs (Backstore.sow g.stores c.seeds) c.tables (WrittenUnder options) ref ∧
      ∀ t ∈ c.tables, g.base.committed.store? t.name = some (ref t) := by
  rcases h.backs hc with ⟨ref, hbacks, hstore⟩
  exact ⟨ref, hbacks.sown h.ordered hc fun t _ hflag i m hm => hm.there hflag, hstore⟩

namespace WrittenUnder

variable {options : DatabaseOptions} {t : Table} {i i' : TableIndex} {m : Option RowMap}

theorem blank (h : WrittenUnder options t i m) (hkept : options.persistsIndicesOf t = true)
    (hvacant : Vacant m) : i.Blank := by
  rcases h.stored hkept with hstored | ⟨_, hblank⟩
  · rw [hstored] at hvacant
    exact absurd hvacant i.not_vacant_stored
  · exact hblank

theorem vacant_or_stored (h : WrittenUnder options t i m)
    (hkept : options.persistsIndicesOf t = true) : Vacant m ∨ m = some i.stored := by
  rcases h.stored hkept with hstored | ⟨hvacant, _⟩
  · exact Or.inr hstored
  · exact Or.inl hvacant

theorem of_sameEntries (h : WrittenUnder options t i m)
    (hsame : options.persistsIndicesOf t = true → i.SameEntries i') :
    WrittenUnder options t i' m where
  there := h.there
  stored := by
    intro hkept
    rcases h.stored hkept with hstored | ⟨hvacant, hblank⟩
    · left
      rw [(hsame hkept).stored_eq]
      exact hstored
    · exact Or.inr ⟨hvacant, (hsame hkept).blank hblank⟩

end WrittenUnder

namespace Backstore

variable {stores : SortedMap String RowMap} {c : Catalog} {b : Backstore} {d : Database}
  {options : DatabaseOptions} {ref : Table → TableStore} {t : Table} {s' : TableStore}

theorem Backs.blank_of_vacant (h : Backs stores c.tables (WrittenUnder options) ref)
    (ht : t ∈ c.tables) (hkept : options.persistsIndicesOf t = true) :
    ∀ i ∈ (ref t).allIndices, Vacant (stores.get? i.name) → i.Blank :=
  fun i hi hvacant => (h.indices t ht i hi).blank hkept hvacant

theorem Backs.writtenUnder (h : Backs stores c.tables (WrittenUnder options) ref)
    (ht : t ∈ c.tables) (hreloads : Reloads stores (options.persistsIndicesOf t) (ref t) s')
    {i' : TableIndex} (hi' : i' ∈ s'.allIndices) :
    WrittenUnder options t i' (stores.get? i'.name) := by
  cases hkept : options.persistsIndicesOf t with
  | true =>
      rw [hkept] at hreloads
      have hall := hreloads.sameEntries (h.sound t ht) (h.blank_of_vacant ht hkept)
      rcases exists_of_mem_right (forall₂_mem hall) hi' with ⟨i, hi, _, _, hsame⟩
      rw [hsame.name_eq]
      exact (h.indices t ht i hi).of_sameEntries fun _ => hsame
  | false =>
      have hall := (h.sound t ht).alike_allIndices hreloads.sound hreloads.table hreloads.rows
      rcases exists_of_mem_right (forall₂_mem hall) hi' with ⟨i, hi, _, _, hsame⟩
      rw [hsame.name_eq]
      apply (h.indices t ht i hi).of_sameEntries
      intro hkept'
      rw [hkept] at hkept'
      cases hkept'

theorem backs_empty_writtenUnder (hc : c.WellFormed) (options : DatabaseOptions) :
    Backs (sow {} c.seeds) c.tables (WrittenUnder options) TableStore.empty := by
  apply backs_empty hc
  intro t _ i hi
  have hblank : i.Blank := by
    rcases List.mem_cons.mp hi with rfl | hmem
    · rfl
    · rcases List.mem_map.mp hmem with ⟨c, hc, rfl⟩
      exact (TableStore.sound_empty t).entries_eq_empty rfl hc
  constructor
  · intro hflag
    rw [if_pos hflag]
    nofun
  · intro _
    split
    · exact Or.inl rfl
    · exact Or.inr ⟨rfl, hblank⟩

theorem Backs.opens_under (h : Backs (sow b.stores c.seeds) c.tables (WrittenUnder options) ref)
    (hb : b.stores.Ordered) (hc : c.WellFormed) (hcheck : options.check = .ok ()) :
    ∃ d b₁, (Database.load c options).perform b.repair = (.ok d, b₁) ∧
      (∀ t ∈ c.tables, ∃ s', Database.Loaded (sow b.stores c.seeds) d (ref t) s') ∧
      d.options = options ∧
      ∀ events, ((Service.opened b₁ d).after events).session.ground.Mirrors c.tables
        (WrittenUnder options) := by
  apply h.opens hb hc hcheck
  · exact fun t _ hkept i m hm => hm.vacant_or_stored hkept
  · exact fun t ht s' hreloads i hi => h.writtenUnder ht hreloads hi
  · exact lasting_writtenUnder c.tables options

theorem backs_afterSitting (hc : c.WellFormed) (hcheck : options.check = .ok ())
    (h : Backs (sow b.stores c.seeds) c.tables (WrittenUnder options) ref)
    (hb : b.stores.Ordered) (events : List Event) :
    let b' := afterSitting c b { options := options, events := events }
    b'.stores.Ordered ∧ ∃ ref', Backs b'.stores c.tables (WrittenUnder options) ref' := by
  rcases h.opens_under hb hc hcheck with ⟨d, b₁, hload, _, _, hmirrors⟩
  have hm := hmirrors events
  rcases hm.backs hc with ⟨ref', hbacks, _⟩
  dsimp only
  rw [@afterSitting_of_load c b b₁ { options := options, events := events } d hload]
  exact ⟨hm.ordered, ref', hbacks⟩

theorem filled_concat (c : Catalog) (options : DatabaseOptions) (before : List (List Event))
    (events : List Event) :
    filled c options (before ++ [events]) =
      afterSitting c (filled c options before) { options := options, events := events } := by
  unfold filled
  rw [List.map_append, List.map_singleton, afterSittings_concat]

theorem backs_filled (hc : c.WellFormed) (hcheck : options.check = .ok ())
    (history : List (List Event)) :
    (filled c options history).stores.Ordered ∧ ∃ ref,
      Backs (sow (filled c options history).stores c.seeds) c.tables (WrittenUnder options) ref := by
  induction history using List.reverseRecOn with
  | nil => exact ⟨SortedMap.ordered_empty, _, backs_empty_writtenUnder hc options⟩
  | append_singleton before events ih =>
      rcases ih with ⟨hb, ref, h⟩
      rcases backs_afterSitting hc hcheck h hb events with ⟨hordered, ref', hbacks⟩
      rw [filled_concat]
      exact ⟨hordered, ref', hbacks.sown hordered hc fun t _ hflag i m hm => hm.there hflag⟩

end Backstore

/-- A store that was loaded again: the same rows, the same ids in the index over them, and in the
other indices the same ids under every key, also in the same order if the indices were kept. -/
structure TableStore.Restored (kept : Bool) (s s' : TableStore) : Prop where
  table : s'.table = s.table
  rows : s'.rows = s.rows
  ids : s'.rowIds.toList = s.rowIds.toList
  indices : List.Forall₂ (fun c c' => c'.emptied = c.emptied ∧
    (∀ key, key.type? = some c.index.keyType → (c'.index.get key).Perm (c.index.get key)) ∧
    (kept = true → c'.index.entries = c.index.entries)) s.indices s'.indices

theorem Backstore.Backs.restored {stores : SortedMap String RowMap} {c : Catalog}
    {options : DatabaseOptions} {ref : Table → TableStore} {t : Table} {s' : TableStore}
    (h : Backs stores c.tables (WrittenUnder options) ref) (ht : t ∈ c.tables)
    (hreloads : Reloads stores (options.persistsIndicesOf t) (ref t) s') :
    (ref t).Restored (options.persistsIndicesOf t) s' where
  table := hreloads.table
  rows := hreloads.rows
  ids := by
    unfold RowIdIndex.toList
    rw [(h.sound t ht).ids_eq hreloads.sound hreloads.rows]
  indices := by
    have halike := (h.sound t ht).alike hreloads.sound hreloads.table hreloads.rows
    have hperm : ∀ c ∈ (ref t).indices, ∀ c', TableStore.AlikeIndices c c' → ∀ key,
        key.type? = some c.index.keyType → (c'.index.get key).Perm (c.index.get key) :=
      fun c hc c' hsame key hkey => hsame.index.perm_get ((h.sound t ht).indexSound hc) hkey
    cases hkept : options.persistsIndicesOf t with
    | false =>
        apply (forall₂_mem halike).imp
        intro c c' hc
        exact ⟨hc.2.2.emptied, hperm c hc.1 c' hc.2.2, nofun⟩
    | true =>
        rw [hkept] at hreloads
        have hentries := hreloads.entries_eq (h.sound t ht) (h.blank_of_vacant ht hkept)
        apply (forall₂_and (forall₂_mem halike) hentries).imp
        intro c c' hc
        exact ⟨hc.1.2.2.emptied, hperm c hc.1.1 c' hc.1.2.2, fun _ => hc.2⟩

namespace Service

/-- At every point of a sitting the backstore has exactly the committed rows of every table, and a
database that is opened on it has them again, with the indices as they were and with row ids to
come that are not taken. -/
theorem reopening_restores_the_committed_tables {c : Catalog} (hc : c.Built)
    {options : DatabaseOptions} (hcheck : options.check = .ok ())
    (history : List (List Event)) (events : List Event) :
    ∃ d b₁, (Database.load c options).perform (Backstore.filled c options history).repair =
        (.ok d, b₁) ∧
      let v := (opened b₁ d).after events
      ∃ d' b₂, (Database.load c options).perform v.session.backstore.repair = (.ok d', b₂) ∧
        ∀ t ∈ c.tables, ∃ s s', v.session.database.committed.store? t.name = some s ∧
          v.session.backstore.stores.get? t.name = some s.rows ∧
          d'.committed.store? t.name = some s' ∧
          s.Restored (options.persistsIndicesOf t) s' ∧
          ∀ (id : RowId) (row : Row), s'.rows.get? id = some row → id < d'.rowIds.next := by
  have hwf := hc.wellFormed
  rcases Backstore.backs_filled hwf hcheck history with ⟨hordered, ref, hbacks⟩
  rcases hbacks.opens_under hordered hwf hcheck with ⟨d, b₁, hload, _, _, hmirrors⟩
  refine ⟨d, b₁, hload, ?_⟩
  intro v
  have hm : v.session.ground.Mirrors c.tables (WrittenUnder options) := hmirrors events
  rcases Ground.Mirrors.backs_sown hm hwf with ⟨ref', hbacks', hstore⟩
  rcases hbacks'.opens_under hm.ordered hwf hcheck with ⟨d', b₂, hload', hloaded, hoptions, _⟩
  refine ⟨d', b₂, hload', ?_⟩
  intro t ht
  rcases hloaded t ht with ⟨s', hs'⟩
  rcases hbacks'.loaded hwf ht hs' with ⟨hstore', _⟩
  have hreloads := hs'.reloads
  rw [hoptions, hbacks'.table t ht] at hreloads
  refine ⟨ref' t, s', hstore t ht, hm.rows (hstore t ht), hstore', ?_, ?_⟩
  · exact hbacks'.restored ht hreloads
  · exact fun id row hrow => hs'.passed hrow

set_option maxRecDepth 10000 in
theorem item_is_restored :
    ∃ (d d' : Database) (b b' : Backstore) (s s' : TableStore),
      (Database.load .shop {}).perform {} = (.ok d, b) ∧
        let v := (opened b d).after [.request (.executeAlone
          (.insert { table := .items, rows := [[.int64 7, .float64 ⟨0⟩]] }))]
        (Database.load .shop {}).perform v.session.backstore.repair = (.ok d', b') ∧
          v.session.database.committed.store? "item" = some s ∧
          d'.committed.store? "item" = some s' ∧ s.Restored false s' ∧ s.size = 1 := by
  rcases @reopening_restores_the_committed_tables .shop Catalog.built_shop {} rfl []
    [.request (.executeAlone
      (.insert { table := .items, rows := [[.int64 7, .float64 ⟨0⟩]] }))] with
    ⟨d, b, hload, d', b', hload', hall⟩
  rcases hall .items List.mem_cons_self with ⟨s, s', hs, _, hs', hrestored, _⟩
  refine ⟨d, d', b, b', s, s', hload, hload', hs, hs', hrestored, ?_⟩
  cases hload
  cases hs
  rfl

end Service

end RelationalDb
