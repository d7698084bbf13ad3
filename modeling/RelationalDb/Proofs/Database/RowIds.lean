import Mathlib
import RelationalDb.Proofs.Database.EventInserts
import RelationalDb.Proofs.Database.Sittings

/-!
# Row ids of one sitting after the other

A database that is opened goes on after the greatest row id that it has loaded.  From then on the
next row id is greater than all that are in use, so no insert ever finds its row id taken.
-/

namespace RelationalDb

/-!
## Loading
-/

namespace TableStore

variable {t : Table} {s s' : TableStore} {rows : List Row}

theorem ids_forM_insert (h : (rows.forM insert).perform s = (.ok (), s')) :
    s'.ids = { id | id ∈ rows.map (·.id) } ∪ s.ids := by
  induction rows generalizing s with
  | nil =>
      cases h
      simp
  | cons row rest ih =>
      rcases Action.perform_bind_eq_ok h with ⟨u, s₁, hinsert, hrest⟩
      rw [ih hrest, ids_insert hinsert]
      ext id
      simp only [Set.mem_union, Set.mem_ofPred_eq, Set.mem_singleton_iff, List.map_cons,
        List.mem_cons]
      tauto

theorem ids_ofRows (h : ofRows t rows = .ok s) : s.ids = { id | id ∈ rows.map (·.id) } := by
  rcases Action.finalState_eq_ok_iff.mp h with ⟨u, hperform⟩
  have hempty : (empty t).ids = ∅ := Set.eq_empty_of_forall_notMem nofun
  rw [ids_forM_insert hperform, hempty, Set.union_empty]

theorem ids_ofParts {rowIds : RowIdIndex} {supplied : List KeyIndex}
    (h : ofParts t rows rowIds supplied = .ok s) : s.ids = { id | id ∈ rows.map (·.id) } := by
  rcases ofParts_eq_ok h with ⟨_, marked, _, rfl⟩
  ext id
  change id ∈ (SortedMap.ofList (rows.map fun row => (row.id, row))).keys ↔ _
  rw [SortedMap.mem_keys_ofList_iff, List.map_map]
  rfl

end TableStore

namespace Backstore

variable {t : Table} {s : TableStore} {b b' : Backstore} {c : Catalog} {tables : List Table}
  {stores : SortedMap String RowMap} {persistent : Bool}

theorem storedIds_mono {known : List Table} (h : tables ⊆ known) :
    storedIds tables stores ⊆ storedIds known stores := by
  rintro id ⟨t, ht, hid⟩
  exact ⟨t, h ht, hid⟩

theorem storedIds_cons_of_loadTable
    (h : (loadTable t persistent).perform b = (.ok s, b')) (rest : List Table) :
    storedIds (t :: rest) b.stores = s.ids ∪ storedIds rest b.stores := by
  rcases loadTable_eq_ok h with ⟨rows, hrows, hmade⟩
  have hids : s.ids = { id | id ∈ rows.map (·.id) } := by
    rcases hmade with hofRows | ⟨_, _, _, hofParts⟩
    · exact TableStore.ids_ofRows hofRows
    · exact TableStore.ids_ofParts hofParts
  unfold Backstore.rows at hrows
  cases hm : b.stores.get? t.name with
  | none =>
      rw [hm] at hrows
      cases hrows
  | some m =>
      rw [hm] at hrows
      cases hrows
      have hsplit : ∀ id, id ∈ storedIds (t :: rest) b.stores ↔
          (∃ m, b.stores.get? t.name = some m ∧ ∃ row ∈ m.values, row.id = id) ∨
            id ∈ storedIds rest b.stores :=
        fun id => List.exists_mem_cons_iff _ _ _
      ext id
      rw [hsplit, hm, hids]
      simp

theorem storedIds_sow (hstores : stores.Ordered) (hc : c.WellFormed)
    (htables : ∀ t ∈ tables, IsName t.name) :
    storedIds tables (sow stores c.seeds) ⊆ storedIds tables stores := by
  rintro id ⟨t, ht, m, hm, hrow⟩
  rw [get?_sow hstores] at hm
  refine ⟨t, ht, m, ?_, hrow⟩
  cases hthere : stores.get? t.name with
  | some m' =>
      rw [hthere] at hm
      exact hm
  | none =>
      rw [hthere, Option.none_or, Option.map_eq_some_iff] at hm
      rcases hm with ⟨rows, hrows, rfl⟩
      have hmem : (t.name, rows) ∈ c.seeds := by
        rcases List.lookup_eq_some_iff.mp hrows with ⟨_, _, hseeds, _⟩
        rw [hseeds]
        exact List.mem_append_right _ List.mem_cons_self
      rcases List.mem_flatMap.mp hmem with ⟨t', ht', hseed⟩
      rcases mem_seeds hseed with ⟨_, rfl⟩ | ⟨_, i, hi, hname, _⟩
      · rcases hrow with ⟨row, hnone, _⟩
        cases hnone
      · have hqualifies := qualifies_of_mem_empty (hc.tables t' ht') hi
        exact absurd hname (hqualifies.ne_name (htables t ht))

end Backstore

theorem Committed.ids_insert {stores : SortedMap String TableStore} (h : stores.Ordered)
    (name : String) (s : TableStore) :
    Committed.ids { stores := stores.insert name s } ⊆
      s.ids ∪ Committed.ids { stores := stores } := by
  rintro id ⟨table, s', hs', hid⟩
  exact SortedMap.forall_insert h
    (Q := fun _ s' => s'.ids ⊆ s.ids ∪ Committed.ids { stores := stores }) Set.subset_union_left
    (fun hget id hid => Or.inr ⟨_, _, hget, hid⟩) hs' hid

namespace Database

open Backstore

variable {d d' : Database} {b b' : Backstore} {c : Catalog} {options : DatabaseOptions}
  {tables : List Table}

theorem past_loadTables (hd : d.committed.stores.Ordered)
    (hsigned : ∀ id ∈ storedIds tables b.stores, RowIdIndex.isSigned id = true)
    (hok : (loadTables d tables).perform b = (.ok d', b')) :
    d'.committed.ids ⊆ d.committed.ids ∪ storedIds tables b.stores ∧
      d.rowIds.next ≤ d'.rowIds.next ∧
      ∀ id ∈ storedIds tables b.stores, id < d'.rowIds.next := by
  induction tables generalizing d b with
  | nil =>
      cases hok
      refine ⟨Set.subset_union_left, UInt64.le_refl _, ?_⟩
      rintro id ⟨t, ht, _⟩
      cases ht
  | cons t rest ih =>
      rcases loadTables_cons_eq_ok hok with ⟨s, b₁, committed, hload, hadd, hrest⟩
      rcases Committed.addStore_eq_ok hadd with ⟨_, rfl⟩
      have hsame : b₁.stores = b.stores := by
        have hkept := keeps_loadTable b t (d.options.persistsIndicesOf t) b ⟨rfl, rfl⟩
        rw [hload] at hkept
        exact hkept.1
      have hkeyed := (keyed_of_loadTable hload).1
      rw [storedIds_cons_of_loadTable hload rest] at hsigned ⊢
      rw [← hsame] at hsigned ⊢
      rcases ih (hd.insert _ _) (fun id hid => hsigned id (Or.inr hid)) hrest with
        ⟨hids, hnext, hpast⟩
      refine ⟨?_, UInt64.le_trans (s.next_le_adopted d.rowIds) hnext, ?_⟩
      · rintro id hid
        rcases hids hid with hcommitted | hstored
        · rcases Committed.ids_insert hd _ _ hcommitted with hnew | hold
          · exact Or.inr (Or.inl hnew)
          · exact Or.inl hold
        · exact Or.inr (Or.inr hstored)
      · rintro id (hid | hid)
        · rcases (SortedMap.mem_keys_iff hkeyed.ordered).mp hid with ⟨row, hrow⟩
          have hadoptedPast := hkeyed.lt_adopted
            (fun hrow => hsigned _ (Or.inl (SortedMap.mem_keys_of_get? hrow))) d.rowIds hrow
          exact UInt64.lt_of_lt_of_le hadoptedPast hnext
        · exact hpast id hid

theorem stores_init {r : Outcome Unit} (h : (init c).perform b = (r, b')) :
    b'.stores = b.stores ∧ r ≠ .ok () ∨ b'.stores = sow b.stores c.seeds := by
  rcases hcall : (call .init).perform b with ⟨r₁, b₁⟩
  have hkept := keeps_call b .init b ⟨rfl, rfl⟩
  rw [hcall] at hkept
  unfold init at h
  cases r₁ with
  | error e =>
      rw [Action.perform_bind_error hcall] at h
      cases h
      exact Or.inl ⟨hkept.1, nofun⟩
  | ok u =>
      rw [Action.perform_bind_ok hcall, Action.perform_modify] at h
      cases h
      rw [ensureTables_eq_sow, hkept.1]
      exact Or.inr rfl

theorem stores_load {r : Outcome Database} (h : (load c options).perform b = (r, b')) :
    b'.stores = b.stores ∨ b'.stores = sow b.stores c.seeds := by
  unfold load at h
  cases hcheck : options.check with
  | error e =>
      rw [hcheck] at h
      cases h
      exact Or.inl rfl
  | ok u =>
      rw [hcheck] at h
      change (init c >>= _).perform b = _ at h
      rcases hinit : (init c).perform b with ⟨r₁, b₁⟩
      have hstores := stores_init hinit
      cases r₁ with
      | error e =>
          rw [Action.perform_bind_error hinit] at h
          cases h
          exact hstores.imp_left And.left
      | ok u =>
          rw [Action.perform_bind_ok hinit] at h
          have hrest : Action.Keeps (Alike b₁) (do
              count .begin
              let d ← loadTables
                { catalog := c
                  committed := {}
                  rowIds := .startingAt options.firstRowId
                  options := options } c.tables
              call .commit
              return d) := by
            refine Action.Keeps.bind (fun _ h => h) fun _ => ?_
            refine (keeps_loadTables b₁ _ _).bind fun d => ?_
            exact (keeps_call b₁ .commit).bind fun _ => Action.keeps_pure d
          have hkept := hrest b₁ ⟨rfl, rfl⟩
          rw [h] at hkept
          rw [hkept.1]
          exact hstores.imp_left And.left

/-- The next row id of a database that was opened is greater than all that its tables have in the
backstore, and it is not the reserved one. -/
theorem past_load (hb : b.stores.Ordered) (hc : c.WellFormed)
    (hsigned : ∀ id ∈ storedIds c.tables b.stores, RowIdIndex.isSigned id = true)
    (hok : (load c options).perform b = (.ok d, b')) :
    b'.stores = sow b.stores c.seeds ∧ d.ids ⊆ storedIds c.tables b'.stores ∧
      firstRowId ≤ d.rowIds.next ∧ ∀ id ∈ storedIds c.tables b'.stores, id < d.rowIds.next := by
  rcases load_eq_ok hok with ⟨b₁, b₂, hinit, hload, hb'⟩
  have hsown : b₁.stores = sow b.stores c.seeds := by
    rcases stores_init hinit with ⟨_, hne⟩ | hsown
    · exact absurd rfl hne
    · exact hsown
  have hkept := keeps_loadTables { b₁ with calls := .begin :: b₁.calls }
    { catalog := c
      committed := {}
      rowIds := .startingAt options.firstRowId
      options := options } c.tables _ ⟨rfl, rfl⟩
  rw [hload] at hkept
  have hsame : b'.stores = b₁.stores := hb'.trans hkept.1
  have hnames : ∀ t ∈ c.tables, IsName t.name := fun t ht => (hc.tables t ht).named
  have hsigned₁ : ∀ id ∈ storedIds c.tables b₁.stores, RowIdIndex.isSigned id = true := by
    rw [hsown]
    exact fun id hid => hsigned id (storedIds_sow hb hc hnames hid)
  rcases past_loadTables (b := { b₁ with calls := .begin :: b₁.calls }) SortedMap.ordered_empty
    hsigned₁ hload with ⟨hids, hnext, hpast⟩
  rw [hsame]
  refine ⟨hsown, ?_, ?_, hpast⟩
  · rintro id (hcommitted | ⟨i, t, ht, _⟩)
    · rcases hids hcommitted with ⟨table, s, hs, _⟩ | hstored
      · cases hs
      · exact hstored
    · rw [(fresh_load hok).transactions] at ht
      cases ht
  · apply UInt64.le_trans _ hnext
    rw [UInt64.le_iff_toNat_le]
    unfold RowIdSource.startingAt
    rw [RowIdSource.toNat_max]
    exact Nat.le_max_right _ _

end Database

/-!
## A sitting
-/

namespace Service

variable {v : Service} {known tables : List Table}

theorem declares_after (h : v.Consistent) (hg : v.session.ground.Declares known)
    (events : List Event) : (v.after events).session.ground.Declares known :=
  ground_after h hg (fun _ hg hmoves => hmoves.declares hg) events

theorem signed_after (h : v.Consistent) (hg : v.session.ground.Declares known)
    (htables : ∀ t ∈ tables, IsName t.name)
    (hsigned : ∀ id ∈ v.ids tables, RowIdIndex.isSigned id = true) (events : List Event) :
    ∀ id ∈ (v.after events).ids tables, RowIdIndex.isSigned id = true := by
  unfold after
  induction events generalizing v with
  | nil => exact hsigned
  | cons e rest ih =>
      have hstep := inserting_step h hg htables e
      exact ih (step_spec h e).1 (declares_after h hg [e]) (hstep.signed hsigned)

/-- While the source is within the ids from which a key can be made, the next row id is greater
than all that are in use, and fresh rows are inserted under consecutive ids that are free. -/
theorem past_after (h : v.Consistent) (hg : v.session.ground.Declares known)
    (htables : ∀ t ∈ tables, IsName t.name)
    (hpast : ∀ id ∈ v.ids tables, id.toNat < v.session.database.rowIds.next.toNat)
    {events : List Event}
    (hbelow : ∀ n,
      (v.after (events.take n)).session.database.rowIds.next.toNat < 0x8000000000000000) :
    (∀ id ∈ (v.after events).ids tables,
        id.toNat < (v.after events).session.database.rowIds.next.toNat) ∧
      (v.inserts events).map (·.id.toNat) =
        List.range' v.session.database.rowIds.next.toNat (v.inserts events).length ∧
      ∀ a ∈ v.inserts events, ¬ a.Collides := by
  induction events generalizing v with
  | nil => exact ⟨hpast, rfl, nofun⟩
  | cons e rest ih =>
      have hstep := inserting_step h hg htables e
      -- Within one event the source cannot wrap around: the first id beyond the bound makes no key,
      -- and the insert that fails for it is the last one of the event.
      have hsource : v.session.database.rowIds.next.toNat ≤ 0x8000000000000000 :=
        Nat.le_of_lt (hbelow 0)
      rcases hstep.ids_eq hsource with ⟨hids, hnext⟩
      rcases hstep.past hsource hpast with ⟨hpast₁, hfree⟩
      rcases ih (step_spec h e).1 (declares_after h hg [e]) hpast₁ (fun n => hbelow (n + 1)) with
        ⟨hlast, hrest, hfree'⟩
      refine ⟨hlast, ?_, ?_⟩
      · unfold inserts
        rw [List.map_append, hids, hrest, hnext, List.range'_append_1, List.length_append]
      · intro a ha
        rcases List.mem_append.mp ha with hfirst | hlater
        · exact hfree a hfirst
        · exact hfree' a hlater

end Service

/-!
## One sitting after the other
-/

namespace Backstore

variable {b b' : Backstore} {c : Catalog} {tables : List Table}

/-- The backstore after some sittings, in each of which a database with a catalog of its own is
opened. -/
def afterAll (b : Backstore) (history : List (Catalog × Sitting)) : Backstore :=
  history.foldl (fun b s => afterSitting s.1 b s.2) b

/-- The stores are in order, and a key can be made from every row id that they have of some
tables. -/
structure Signed (tables : List Table) (b : Backstore) : Prop where
  ordered : b.stores.Ordered
  signed : ∀ id ∈ storedIds tables b.stores, RowIdIndex.isSigned id = true

theorem signed_empty (tables : List Table) : Signed tables {} where
  ordered := SortedMap.ordered_empty
  signed := by
    rintro id ⟨t, _, m, hm, _⟩
    cases hm

theorem Signed.repair (h : Signed tables b) : Signed tables b.repair :=
  ⟨h.ordered, h.signed⟩

theorem Signed.sown (h : Signed tables b) (hc : c.WellFormed)
    (htables : ∀ t ∈ tables, IsName t.name) (hsown : b'.stores = sow b.stores c.seeds) :
    Signed tables b' where
  ordered := hsown ▸ ordered_sow h.ordered c.seeds
  signed := by
    rw [hsown]
    exact fun id hid => h.signed id (storedIds_sow h.ordered hc htables hid)

end Backstore

namespace Service

open Backstore

variable {b₀ b : Backstore} {c : Catalog} {options : DatabaseOptions} {d : Database}
  {tables : List Table}

theorem declares_opened (hb : b.stores.Ordered) (hc : c.WellFormed)
    (hload : (Database.load c options).perform b₀ = (.ok d, b)) :
    (opened b d).session.ground.Declares c.tables where
  ordered := hb
  wellKept := (Database.fresh_load hload).wellKept
  declared := Database.declared_load hc hload

theorem ids_opened (hids : d.ids ⊆ storedIds c.tables b.stores) (hknown : c.tables ⊆ tables) :
    (opened b d).ids tables ⊆ storedIds tables b.stores := by
  rintro id ((hid | hid) | ⟨i, j, hj, _⟩)
  · exact storedIds_mono hknown (hids hid)
  · exact hid
  · cases hj

end Service

namespace Backstore

variable {b b' : Backstore} {c : Catalog} {tables : List Table}

theorem Signed.afterSitting (h : Signed tables b) (hc : c.WellFormed) (hknown : c.tables ⊆ tables)
    (htables : ∀ t ∈ tables, IsName t.name) (s : Sitting) :
    Signed tables (afterSitting c b s) := by
  have hrepair := h.repair
  unfold Backstore.afterSitting
  rcases hload : (Database.load c s.options).perform b.repair with ⟨r, b'⟩
  cases r with
  | error e =>
      rcases Database.stores_load hload with hsame | hsown
      · exact ⟨hsame ▸ hrepair.ordered, hsame ▸ hrepair.signed⟩
      · exact hrepair.sown hc htables hsown
  | ok d =>
      have hsigned : ∀ id ∈ storedIds c.tables b.repair.stores, RowIdIndex.isSigned id = true :=
        fun id hid => hrepair.signed id (storedIds_mono hknown hid)
      rcases Database.past_load hrepair.ordered hc hsigned hload with ⟨hsown, hids, _, _⟩
      have hb' := hrepair.sown hc htables hsown
      have hopened := Service.consistent_opened hload
      have hdeclares := Service.declares_opened hb'.ordered hc hload
      have hsigned' := fun id hid => hb'.signed id (Service.ids_opened hids hknown hid)
      constructor
      · exact (Service.declares_after hopened hdeclares s.events).ordered
      · intro id hid
        exact Service.signed_after hopened hdeclares htables hsigned' s.events id
          (Or.inl (Or.inr hid))

theorem Signed.afterAll (h : Signed tables b) (htables : ∀ t ∈ tables, IsName t.name)
    {history : List (Catalog × Sitting)}
    (hhistory : ∀ s ∈ history, s.1.WellFormed ∧ s.1.tables ⊆ tables) :
    Signed tables (b.afterAll history) := by
  unfold Backstore.afterAll
  induction history generalizing b with
  | nil => exact h
  | cons s rest ih =>
      rcases hhistory s List.mem_cons_self with ⟨hc, hknown⟩
      exact ih (h.afterSitting hc hknown htables s.2)
        fun s' hs' => hhistory s' (List.mem_cons_of_mem _ hs')

theorem signed_afterAll {history : List (Catalog × Sitting)}
    (hhistory : ∀ s ∈ history, s.1.Built) (hc : c.WellFormed) :
    Signed c.tables (afterAll {} history) := by
  -- The other catalogs may have tables of their own, and a later one may share a table with them,
  -- so the invariant is about the tables of all of them.
  have hcatalogs : ∀ s ∈ history, s.1.WellFormed := fun s hs => (hhistory s hs).wellFormed
  have hnames : ∀ t ∈ c.tables ++ history.flatMap (·.1.tables), IsName t.name := by
    intro t ht
    rcases List.mem_append.mp ht with hown | hother
    · exact (hc.tables t hown).named
    · rcases List.mem_flatMap.mp hother with ⟨s, hs, ht⟩
      exact ((hcatalogs s hs).tables t ht).named
  have hall : Signed (c.tables ++ history.flatMap (·.1.tables)) (afterAll {} history) := by
    apply (signed_empty _).afterAll hnames
    intro s hs
    refine ⟨hcatalogs s hs, fun t ht => List.mem_append_right _ ?_⟩
    exact List.mem_flatMap.mpr ⟨s, hs, ht⟩
  refine ⟨hall.ordered, fun id hid => hall.signed id ?_⟩
  exact storedIds_mono (List.subset_append_left _ _) hid

end Backstore

namespace Service

/-- Whatever happened in the sittings before and has happened in this one, while the source of row
ids is within the ids from which a key can be made the next row id is greater than all that are in
use: those of the committed rows, of the staged rows, of the rows that wait to be written, and of
the rows that the backstore has of the tables.  No two inserts of fresh rows had the same id, none
had the reserved one, and no insert has found its row id taken or will do so next. -/
theorem row_ids_are_fresh {history : List (Catalog × Sitting)}
    (hhistory : ∀ s ∈ history, s.1.Built) {c : Catalog} (hc : c.Built)
    {options : DatabaseOptions} {d : Database} {b : Backstore}
    (hload : (Database.load c options).perform (Backstore.afterAll {} history).repair = (.ok d, b))
    {events : List Event}
    (hbelow : ∀ n, ((opened b d).after (events.take n)).session.database.rowIds.next.toNat <
      0x8000000000000000) :
    let v := (opened b d).after events
    let inserts := (opened b d).inserts events
    (∀ id ∈ v.ids c.tables, id < v.session.database.rowIds.next) ∧
      (inserts.map (·.id)).Nodup ∧ (∀ a ∈ inserts, a.id ≠ reservedRowId) ∧
      (∀ a ∈ inserts, ¬ a.Collides) ∧
      ∀ id i row table, ((Database.attach id (.insert i)).perform v.session.database).1 ≠
        .error (.operation (.rowExists row table)) := by
  intro v inserts
  have hwf := hc.wellFormed
  have hsigned := (Backstore.signed_afterAll hhistory hwf).repair
  rcases Database.past_load hsigned.ordered hwf hsigned.signed hload with
    ⟨hsown, hids, hfirst, hpast⟩
  have hnames : ∀ t ∈ c.tables, IsName t.name := fun t ht => (hwf.tables t ht).named
  have hb := hsigned.sown hwf hnames hsown
  have hopened := consistent_opened hload
  have hpast₀ : ∀ id ∈ (opened b d).ids c.tables, id.toNat < d.rowIds.next.toNat := by
    intro id hid
    exact UInt64.lt_iff_toNat_lt.mp (hpast id (ids_opened hids (List.Subset.refl _) hid))
  rcases past_after hopened (declares_opened hb.ordered hwf hload) hnames hpast₀ hbelow with
    ⟨hlast, hrange, hfree⟩
  have hconsecutive : inserts.map (·.id.toNat) =
      List.range' d.rowIds.next.toNat inserts.length := hrange
  have hmem : ∀ a ∈ inserts, a.id.toNat ∈ List.range' d.rowIds.next.toNat inserts.length := by
    intro a ha
    rw [← hconsecutive]
    exact List.mem_map_of_mem ha
  refine ⟨fun id hid => UInt64.lt_iff_toNat_lt.mpr (hlast id hid), ?_, ?_, hfree, ?_⟩
  · apply List.Nodup.of_map UInt64.toNat
    rw [List.map_map]
    exact hconsecutive ▸ List.nodup_range'
  · intro a ha hreserved
    have hge := (List.mem_range'_1.mp (hmem a ha)).1
    rw [hreserved] at hge
    have hle := UInt64.le_iff_toNat_le.mp hfirst
    exact absurd (Nat.le_trans hle hge) (by decide)
  · intro id i row table hattach
    have hconsistent := consistent_after hopened events
    rcases Database.exists_collides hconsistent.database hattach with ⟨a, ha, hcollides⟩
    rcases hperform : (Database.attach id (.insert i)).perform v.session.database with ⟨r, d'⟩
    have hinserted := Database.inserted_attach hconsistent.database id (.insert i) hperform
    have hsource : v.session.database.rowIds.next.toNat ≤ 0x8000000000000000 := by
      have hnow := hbelow events.length
      rw [List.take_length] at hnow
      exact Nat.le_of_lt hnow
    exact (hinserted.inserting.past hsource
      (fun id hid => hlast id (Or.inl (Or.inl hid)))).2 a ha hcollides

/-- Is the source of row ids within the ids from which a key can be made, before and after every
event? -/
def staysSigned (opened : Outcome Database × Backstore) (events : List Event) : Bool :=
  match opened with
  | (.ok d, b) => (List.range (events.length + 1)).all fun n =>
      ((Service.opened b d).after (events.take n)).session.database.rowIds.next <
        0x8000000000000000
  | (.error _, _) => false

theorem exists_of_staysSigned {opened : Outcome Database × Backstore} {events : List Event}
    (h : staysSigned opened events = true) :
    ∃ d b, opened = (.ok d, b) ∧ ∀ n, ((Service.opened b d).after
      (events.take n)).session.database.rowIds.next.toNat < 0x8000000000000000 := by
  unfold staysSigned at h
  split at h
  · next d b =>
      refine ⟨d, b, rfl, fun n => ?_⟩
      have hmin : events.take n = events.take (min n events.length) := by
        rw [List.take_eq_take_min]
      rw [hmin]
      have hmem : min n events.length ∈ List.range (events.length + 1) := by
        rw [List.mem_range]
        omega
      have htest := List.all_eq_true.mp h _ hmem
      exact UInt64.lt_iff_toNat_lt.mp (of_decide_eq_true htest)
  · cases h

def itemInserted (number : Int64) : Event :=
  .request (.executeAlone (.insert { table := .items, rows := [[.int64 number, .float64 ⟨0⟩]] }))

/-- In a second sitting the row ids go on, and an item whose number is taken uses one up. -/
theorem row_ids_go_on_in_the_next_sitting :
    ∃ (d : Database) (b : Backstore),
      (Database.load .shop {}).perform (Backstore.afterAll {}
        [(.shop, { options := {}, events := [itemInserted 7] })]).repair = (.ok d, b) ∧
      let v := (opened b d).after [itemInserted 7, itemInserted 8]
      let inserts := (opened b d).inserts [itemInserted 7, itemInserted 8]
      inserts.map (·.id) = [2, 3] ∧
        (∀ id ∈ v.ids Catalog.shop.tables, id < v.session.database.rowIds.next) ∧
        (inserts.map (·.id)).Nodup ∧ (∀ a ∈ inserts, a.id ≠ reservedRowId) ∧
        (∀ a ∈ inserts, ¬ a.Collides) ∧
        ∀ id i row table, ((Database.attach id (.insert i)).perform v.session.database).1 ≠
          .error (.operation (.rowExists row table)) := by
  have hstays : staysSigned ((Database.load .shop {}).perform
      (Backstore.afterAll {} [(.shop, { options := {}, events := [itemInserted 7] })]).repair)
      [itemInserted 7, itemInserted 8] = true := by
    decide +kernel
  have hids : (match (Database.load .shop {}).perform
      (Backstore.afterAll {} [(.shop, { options := {}, events := [itemInserted 7] })]).repair with
      | (.ok d, b) =>
          ((opened b d).inserts [itemInserted 7, itemInserted 8]).map (·.id)
      | (.error _, _) => []) = [2, 3] := by
    decide +kernel
  rcases exists_of_staysSigned hstays with ⟨d, b, hload, hbelow⟩
  rw [hload] at hids
  have hbuilt : ∀ s ∈ [(Catalog.shop,
      ({ options := {}, events := [itemInserted 7] } : Sitting))], s.1.Built := by
    intro s hs
    rw [List.mem_singleton.mp hs]
    exact Catalog.built_shop
  exact ⟨d, b, hload, hids, row_ids_are_fresh hbuilt Catalog.built_shop hload hbelow⟩

end Service

end RelationalDb
