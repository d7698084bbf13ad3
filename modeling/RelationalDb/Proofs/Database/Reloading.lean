import Mathlib
import RelationalDb.Proofs.Database.Seeds
import RelationalDb.Proofs.Store.Loading

/-!
# Loading what was written

A backstore that has the rows of a sound store for every table, and for every index that is
kept either nothing or its stored form, is opened without a failure.  The tables that are
loaded have the same rows, and their indices are in step with them.
-/

namespace RelationalDb

/-!
## Stored forms in stores
-/

theorem RowMap.values_putAll_empty {rows : List Row}
    (h : (rows.map (·.id)).Pairwise fun a b => compare a b = .lt) :
    (RowMap.putAll {} rows).values = rows := by
  have hordered : (⟨rows.map fun row => (row.id, row)⟩ : RowMap).Ordered := by
    constructor
    · exact fun e _ => trivial
    · rw [List.pairwise_map] at h ⊢
      exact h
  have hsame : RowMap.putAll {} rows = ⟨rows.map fun row => (row.id, row)⟩ :=
    SortedMap.ofList_entries hordered
  rw [hsame]
  unfold SortedMap.values
  rw [List.map_map]
  exact List.map_id rows

theorem KeyIndex.map_id_toRows (i : KeyIndex) :
    i.toRows.map (·.id) = (List.range (i.pairs.length + 1)).map UInt64.ofNat := by
  rw [toRows_eq, List.map_cons, List.map_map, List.range_succ_eq_map, List.map_cons, List.map_map]
  congr 1
  rw [List.range_eq_range', ← List.zipIdx_map_snd 0 i.pairs, List.map_map]
  rfl

theorem compare_ofNat {m n : Nat} (hlt : m < n) (hn : n < 0x10000000000000000) :
    compare (UInt64.ofNat m) (UInt64.ofNat n) = .lt := by
  rw [Std.compare_eq_lt, UInt64.lt_iff_toNat_lt, UInt64.toNat_ofNat_of_lt' (hlt.trans hn),
    UInt64.toNat_ofNat_of_lt' hn]
  exact hlt

theorem KeyIndex.values_putAll_toRows {i : KeyIndex}
    (h : i.pairs.length + 1 < 0x10000000000000000) :
    (RowMap.putAll {} i.toRows).values = i.toRows := by
  apply RowMap.values_putAll_empty
  rw [map_id_toRows, List.pairwise_map]
  apply List.pairwise_lt_range.imp_of_mem
  intro m n _ hn hlt
  rw [List.mem_range] at hn
  exact compare_ofNat hlt (by omega)

namespace TableStore

variable {s : TableStore} {i : TableIndex}

theorem Sound.values_stored (h : s.Sound) (hi : i ∈ s.allIndices) : i.stored.values = i.toRows := by
  rcases List.mem_cons.mp hi with rfl | hmem
  · rfl
  · rcases List.mem_map.mp hmem with ⟨c, hc, rfl⟩
    exact KeyIndex.values_putAll_toRows (h.length_pairs_lt hc)

end TableStore

/-!
## Reading stores
-/

def Vacant (m : Option RowMap) : Prop :=
  m.getD {} = {}

namespace Backstore

variable {α β : Type} {stores : SortedMap String RowMap} {name : String} {t : Table}
  {s : TableStore}

/-- The action reads this from every backstore that has the stores and does not fail, and leaves
them. -/
def Reads (stores : SortedMap String RowMap) (a : Action Backstore α) (x : α) : Prop :=
  ∀ b : Backstore, b.stores = stores → b.faults = [] →
    ∃ b', a.perform b = (.ok x, b') ∧ b'.stores = stores ∧ b'.faults = []

theorem reads_pure (x : α) : Reads stores (pure x) x := fun b hb hf => ⟨b, rfl, hb, hf⟩

theorem reads_ofOutcome {r : Outcome α} {x : α} (h : r = .ok x) :
    Reads stores (Action.ofOutcome r) x := by
  intro b hb hf
  rw [h]
  exact ⟨b, rfl, hb, hf⟩

theorem Reads.bind {a : Action Backstore α} {f : α → Action Backstore β} {x : α} {y : β}
    (ha : Reads stores a x) (hf : Reads stores (f x) y) : Reads stores (a >>= f) y := by
  intro b hb hfaults
  rcases ha b hb hfaults with ⟨b₁, hperform, hb₁, hfaults₁⟩
  rcases hf b₁ hb₁ hfaults₁ with ⟨b₂, hperform₂, hb₂⟩
  exact ⟨b₂, by rw [Action.perform_bind_ok hperform, hperform₂], hb₂⟩

theorem reads_count (c : BackstoreCall) : Reads stores (count c) () :=
  fun _ hb hf => ⟨_, rfl, hb, hf⟩

theorem reads_call (c : BackstoreCall) : Reads stores (call c) () := by
  intro b hb hf
  refine ⟨{ b with calls := c :: b.calls }, ?_, hb, hf⟩
  rw [perform_call, hf]
  rfl

theorem perform_read {b : Backstore} (hf : b.faults = []) (name : String) :
    (read name).perform b = (b.rows name, { b with calls := .read :: b.calls }) := by
  have hcall : (call .read).perform b = (.ok (), { b with calls := .read :: b.calls }) := by
    rw [perform_call, hf]
    rfl
  unfold read
  rw [Action.perform_bind_ok hcall]
  rfl

theorem reads_read {m : RowMap} (h : stores.get? name = some m) :
    Reads stores (read name) m.values := by
  intro b hb hf
  refine ⟨{ b with calls := .read :: b.calls }, ?_, hb, hf⟩
  rw [perform_read hf]
  unfold rows
  rw [hb, h]

def indexRows (stores : SortedMap String RowMap) (name : String) : List Row :=
  ((stores.get? name).getD {}).values

theorem indexRows_of_vacant (h : Vacant (stores.get? name)) : indexRows stores name = [] := by
  unfold indexRows
  rw [h]
  rfl

theorem reads_readIndex (name : String) :
    Reads stores (readIndex name)
      (if indexRows stores name = [] then none else some (indexRows stores name)) := by
  intro b hb hf
  refine ⟨{ b with calls := .read :: b.calls }, ?_, hb, hf⟩
  unfold readIndex
  rw [Action.perform_bind_ok (Action.perform_attempt _ _), perform_read hf]
  unfold indexRows rows
  rw [hb]
  cases stores.get? name with
  | none => rfl
  | some m =>
      dsimp only
      rw [Option.getD_some]
      cases m.values with
      | nil => rfl
      | cons row rest => rfl

def indexIn? (stores : SortedMap String RowMap) (name : String) : Option KeyIndex :=
  if indexRows stores name = [] then none
  else (KeyIndex.ofRows name (indexRows stores name)).toOption

theorem reads_readIndices {ds : List IndexDecl}
    (h : ∀ d ∈ ds, indexRows stores d.fullName ≠ [] →
      ∃ i, KeyIndex.ofRows d.fullName (indexRows stores d.fullName) = .ok i) :
    Reads stores (readIndices ds) ((ds.map (·.fullName)).filterMap (indexIn? stores)) := by
  induction ds with
  | nil => exact reads_pure []
  | cons d rest ih =>
      have hrest := ih fun d' hd' => h d' (List.mem_cons_of_mem _ hd')
      apply (reads_readIndex d.fullName).bind
      rw [List.map_cons]
      by_cases hempty : indexRows stores d.fullName = []
      · have hnone : indexIn? stores d.fullName = none := by
          unfold indexIn?
          rw [if_pos hempty]
        rw [if_pos hempty, List.filterMap_cons_none hnone]
        exact hrest
      · rcases h d List.mem_cons_self hempty with ⟨i, hi⟩
        have hsome : indexIn? stores d.fullName = some i := by
          unfold indexIn?
          rw [if_neg hempty, hi]
          rfl
        rw [if_neg hempty, List.filterMap_cons_some hsome]
        exact (reads_ofOutcome hi).bind (hrest.bind (reads_pure _))

/-- The rows of a sound store are in the backstore under the name of its table.  If its indices
are kept, then the store of each of them is vacant or has its stored form. -/
structure Holds (stores : SortedMap String RowMap) (kept : Bool) (s : TableStore) : Prop where
  sound : s.Sound
  wellFormed : s.table.WellFormed
  rows : stores.get? s.table.name = some s.rows
  indices : kept = true → ∀ i ∈ s.allIndices,
    Vacant (stores.get? i.name) ∨ stores.get? i.name = some i.stored

/-- What is loaded of a store: its rows, and in their order the entries of those indices that were
there. -/
structure Reloads (stores : SortedMap String RowMap) (kept : Bool) (s s' : TableStore) : Prop where
  sound : s'.Sound
  table : s'.table = s.table
  rows : s'.rows = s.rows
  entries : kept = true → ¬ Vacant (stores.get? s.rowIds.name) →
    List.Forall₂ (fun c c' => ¬ Vacant (stores.get? c.index.name) →
      c'.index.entries = c.index.entries) s.indices s'.indices

theorem Holds.indexRows_eq {kept : Bool} (h : Holds stores kept s) (hkept : kept = true)
    {i : TableIndex} (hi : i ∈ s.allIndices) :
    (Vacant (stores.get? i.name) ∧ indexRows stores i.name = []) ∨
      indexRows stores i.name = i.toRows := by
  rcases h.indices hkept i hi with hvacant | hstored
  · exact Or.inl ⟨hvacant, indexRows_of_vacant hvacant⟩
  · right
    unfold indexRows
    rw [hstored]
    exact h.sound.values_stored hi

theorem Holds.indexIn {kept : Bool} (h : Holds stores kept s) (hkept : kept = true)
    {c : ColumnIndex} (hc : c ∈ s.indices) :
    (Vacant (stores.get? c.index.name) ∧ indexRows stores c.index.name = []) ∨
      ∃ i, KeyIndex.ofRows c.index.name (indexRows stores c.index.name) = .ok i ∧
        indexIn? stores c.index.name = some i ∧ c.index.SameEntries i := by
  rcases h.indexRows_eq hkept (List.mem_cons_of_mem _ (List.mem_map_of_mem hc)) with
    hvacant | hrows
  · exact Or.inl hvacant
  · right
    have hread : indexRows stores c.index.name = c.index.toRows := hrows
    rcases h.sound.ofRows_index hc with ⟨i, hi, hsame⟩
    rw [hread]
    refine ⟨i, hi, ?_, hsame⟩
    unfold indexIn?
    rw [hread, if_neg (by simp [KeyIndex.toRows]), hi]
    rfl

theorem Holds.ofParts {kept : Bool} (h : Holds stores kept s) (hkept : kept = true)
    {rowIds : RowIdIndex} (hname : rowIds.name = s.rowIds.name)
    (hids : rowIds.ids = s.rowIds.ids) :
    ∃ s', TableStore.ofParts s.table s.toList rowIds
        ((s.table.indices.map (·.fullName)).filterMap (indexIn? stores)) = .ok s' ∧
      Reloads stores kept s s' := by
  have hdistinct : (s.indices.map (·.index.name)).Nodup := by
    rw [h.sound.names_eq_declared h.wellFormed]
    exact h.wellFormed.indicesNamedApart.nodup_fullName
  have hfound : ∀ c ∈ s.indices, ∀ i, indexIn? stores c.index.name = some i →
      c.index.SameEntries i := by
    intro c hc i hi
    rcases h.indexIn hkept hc with ⟨_, hempty⟩ | ⟨i', _, hi', hsame⟩
    · unfold indexIn? at hi
      rw [if_pos hempty] at hi
      cases hi
    · rw [hi'] at hi
      cases hi
      exact hsame
  rcases h.sound.ofParts_toList hname hids hdistinct hfound with
    ⟨s', hofParts, hsound, htable, hrows, hentries⟩
  rw [← h.sound.names_eq_declared h.wellFormed]
  refine ⟨s', hofParts, hsound, htable, hrows, fun _ _ => ?_⟩
  apply (forall₂_mem hentries).imp
  intro c c' hc hthere
  rcases hc with ⟨hc, _, hfound'⟩
  rcases h.indexIn hkept hc with ⟨hvacant, _⟩ | ⟨i, _, hi, hsame⟩
  · exact absurd hvacant hthere
  · rw [hfound' i hi]
    exact hsame.entries

theorem Holds.reads_indices {kept : Bool} (h : Holds stores kept s) (hkept : kept = true) :
    Reads stores (readIndices s.table.indices)
      ((s.table.indices.map (·.fullName)).filterMap (indexIn? stores)) := by
  apply reads_readIndices
  intro d hd hthere
  have hname : d.fullName ∈ s.indices.map (·.index.name) := by
    rw [h.sound.names_eq_declared h.wellFormed]
    exact List.mem_map_of_mem hd
  rcases List.mem_map.mp hname with ⟨c, hc, heq⟩
  rw [← heq] at hthere ⊢
  rcases h.indexIn hkept hc with ⟨_, hempty⟩ | ⟨i, hi, _⟩
  · exact absurd hempty hthere
  · exact ⟨i, hi⟩

theorem Holds.ofRows_rowIds {kept : Bool} (h : Holds stores kept s) :
    ∃ rowIds, RowIdIndex.ofRows s.table.rowIdIndexName s.rowIds.toRows = .ok rowIds ∧
      rowIds.name = s.rowIds.name ∧ rowIds.ids = s.rowIds.ids := by
  rw [← h.sound.idsName]
  exact RowIdIndex.ofRows_toRows h.sound.idsOrdered fun _ hid => h.sound.signed_of_mem_rowIds hid

theorem Holds.reads_loadTable {kept : Bool} (h : Holds stores kept s) :
    ∃ s', Reads stores (loadTable s.table kept) s' ∧ Reloads stores kept s s' := by
  rcases h.sound.ofRows_toList with ⟨s', hofRows, hsound, htable, hrows⟩
  have hreadRows : Reads stores (read s.table.name) s.toList := reads_read h.rows
  cases hkept : kept with
  | false =>
      refine ⟨s', hreadRows.bind (reads_ofOutcome hofRows), hsound, htable, hrows, ?_⟩
      intro hfalse
      cases hfalse
  | true =>
      have hreadIds := @reads_readIndex stores s.table.rowIdIndexName
      have hids : TableIndex.ofRowIds s.rowIds ∈ s.allIndices := List.mem_cons_self
      have hrowIds := h.indexRows_eq hkept hids
      change (Vacant (stores.get? s.rowIds.name) ∧ indexRows stores s.rowIds.name = []) ∨
        indexRows stores s.rowIds.name = s.rowIds.toRows at hrowIds
      rw [h.sound.idsName] at hrowIds
      rcases hrowIds with ⟨hvacant, hempty⟩ | hstored
      · -- Without the index over the row ids, no other index is read.
        rw [if_pos hempty] at hreadIds
        refine ⟨s', hreadRows.bind (hreadIds.bind (reads_ofOutcome hofRows)), hsound, htable, hrows,
          fun _ hthere => ?_⟩
        rw [h.sound.idsName] at hthere
        exact absurd hvacant hthere
      · rw [hstored, if_neg (by simp [RowIdIndex.toRows])] at hreadIds
        rcases h.ofRows_rowIds with ⟨rowIds, hrowIds, hname, heq⟩
        rcases h.ofParts hkept hname heq with ⟨s'', hofParts, hreloads⟩
        refine ⟨s'', hreadRows.bind (hreadIds.bind ?_), hkept ▸ hreloads⟩
        exact (reads_ofOutcome hrowIds).bind
          ((h.reads_indices hkept).bind (reads_ofOutcome hofParts))

end Backstore

/-!
## Loading all tables
-/

namespace RowIdSource

theorem toNat_max (a b : RowId) : (max a b).toNat = max a.toNat b.toNat := by
  change (if a ≤ b then b else a).toNat = _
  by_cases hle : a ≤ b
  · rw [if_pos hle, Nat.max_eq_right (UInt64.le_iff_toNat_le.mp hle)]
  · rw [if_neg hle, Nat.max_eq_left (Nat.le_of_not_le fun h => hle (UInt64.le_iff_toNat_le.mpr h))]

theorem lt_observe {id : RowId} (source : RowIdSource) (h : RowIdIndex.isSigned id = true) :
    id < (source.observe id).next := by
  have hid := RowIdIndex.isSigned_iff.mp h
  have hsuccessor : (successor id).toNat = id.toNat + 1 := by
    unfold successor
    rw [if_neg]
    · rw [UInt64.toNat_add, UInt64.toNat_one]
      omega
    · intro heq
      rw [heq] at hid
      simp at hid
  rw [UInt64.lt_iff_toNat_lt]
  unfold observe
  rw [toNat_max, hsuccessor]
  omega

theorem next_le_observe (source : RowIdSource) (id : RowId) :
    source.next ≤ (source.observe id).next := by
  rw [UInt64.le_iff_toNat_le]
  unfold observe
  rw [toNat_max]
  exact Nat.le_max_left _ _

end RowIdSource

namespace TableStore

variable {s : TableStore}

theorem Keyed.le_greatestId (h : s.Keyed) {id : RowId} {row : Row}
    (hrow : s.rows.get? id = some row) :
    ∃ greatest row', s.greatestId? = some greatest ∧ s.rows.get? greatest = some row' ∧
      id ≤ greatest := by
  have hmem : id ∈ s.rows.keys := (SortedMap.mem_keys_iff h.ordered).mpr ⟨row, hrow⟩
  rcases List.eq_nil_or_concat s.rows.keys with hnil | ⟨before, greatest, hkeys⟩
  · rw [hnil] at hmem
    cases hmem
  · rw [List.concat_eq_append] at hkeys
    have hgreatest : greatest ∈ s.rows.keys := by simp [hkeys]
    rcases (SortedMap.mem_keys_iff h.ordered).mp hgreatest with ⟨row', hrow'⟩
    refine ⟨greatest, row', ?_, hrow', ?_⟩
    · unfold greatestId?
      rw [hkeys, List.getLast?_concat]
    · have hsorted := h.ordered.sorted_keys
      rw [hkeys] at hsorted hmem
      rcases List.mem_append.mp hmem with hbefore | hlast
      · have hlt := (List.pairwise_append.mp hsorted).2.2 id hbefore greatest List.mem_cons_self
        exact UInt64.le_of_lt (Std.compare_eq_lt.mp hlt)
      · rw [List.mem_singleton.mp hlast]
        exact UInt64.le_refl _

theorem next_le_adopted (source : RowIdSource) (s : TableStore) :
    source.next ≤ ((s.greatestId?.map source.observe).getD source).next := by
  cases s.greatestId? with
  | none => exact UInt64.le_refl _
  | some greatest => exact source.next_le_observe greatest

theorem Keyed.lt_adopted (h : s.Keyed)
    (hsigned : ∀ {id : RowId} {row : Row}, s.rows.get? id = some row →
      RowIdIndex.isSigned id = true) (source : RowIdSource) {id : RowId} {row : Row}
    (hrow : s.rows.get? id = some row) :
    id < ((s.greatestId?.map source.observe).getD source).next := by
  rcases h.le_greatestId hrow with ⟨greatest, row', hgreatest, hrow', hle⟩
  rw [hgreatest]
  exact UInt64.lt_of_le_of_lt hle (source.lt_observe (hsigned hrow'))

end TableStore

namespace Database

open Backstore

variable {d d' : Database} {stores : SortedMap String RowMap} {s s' : TableStore} {t : Table}
  {tables : List Table} {ref : Table → TableStore}

/-- The database has loaded a store, and hands out none of the row ids in it. -/
structure Loaded (stores : SortedMap String RowMap) (d : Database) (s s' : TableStore) : Prop where
  store : d.committed.store? s.table.name = some s'
  reloads : Reloads stores (d.options.persistsIndicesOf s.table) s s'
  passed : ∀ {id : RowId} {row : Row}, s'.rows.get? id = some row → id < d.rowIds.next

theorem Loaded.more (h : Loaded stores d s s') (hoptions : d'.options = d.options)
    (hstores : ∀ name s, d.committed.store? name = some s → d'.committed.store? name = some s)
    (hnext : d.rowIds.next ≤ d'.rowIds.next) : Loaded stores d' s s' where
  store := hstores _ _ h.store
  reloads := hoptions ▸ h.reloads
  passed := fun hrow => UInt64.lt_of_lt_of_le (h.passed hrow) hnext

/-- The database has taken in the stores of some tables, and has kept what it had before. -/
structure TakenIn (stores : SortedMap String RowMap) (ref : Table → TableStore)
    (tables : List Table) (d d' : Database) : Prop where
  options : d'.options = d.options
  known : ∀ name s, d'.committed.store? name = some s →
    d.committed.store? name = some s ∨ s.table ∈ tables
  kept : ∀ name s, d.committed.store? name = some s → d'.committed.store? name = some s
  next_le : d.rowIds.next ≤ d'.rowIds.next
  loaded : ∀ t ∈ tables, ∃ s', Loaded stores d' (ref t) s'

theorem TakenIn.nothing (d : Database) : TakenIn stores ref [] d d where
  options := rfl
  known := fun _ _ hs => Or.inl hs
  kept := fun _ _ hs => hs
  next_le := UInt64.le_refl _
  loaded := nofun

theorem TakenIn.cons {d₁ : Database} (h : TakenIn stores ref [t] d d₁)
    (h' : TakenIn stores ref tables d₁ d') : TakenIn stores ref (t :: tables) d d' where
  options := h'.options.trans h.options
  known := by
    intro name s hs
    rcases h'.known name s hs with hs₁ | hmem
    · exact (h.known name s hs₁).imp_right fun hmem =>
        List.mem_cons.mpr (Or.inl (List.mem_singleton.mp hmem))
    · exact Or.inr (List.mem_cons_of_mem _ hmem)
  kept := fun name s hs => h'.kept name s (h.kept name s hs)
  next_le := UInt64.le_trans h.next_le h'.next_le
  loaded := by
    intro t' ht'
    rcases List.mem_cons.mp ht' with rfl | hmem
    · rcases h.loaded t' (List.mem_singleton.mpr rfl) with ⟨s', hs'⟩
      exact ⟨s', hs'.more h'.options h'.kept h'.next_le⟩
    · exact h'.loaded t' hmem

theorem adoptStore_ok (hd : d.committed.stores.Ordered) (href : (ref t).table = t)
    (hs' : Reloads stores (d.options.persistsIndicesOf t) (ref t) s')
    (hnew : d.committed.store? t.name = none) :
    ∃ d', d.adoptStore s' = .ok d' ∧ d'.committed.stores.Ordered ∧
      TakenIn stores ref [t] d d' ∧
      ∀ name, name ≠ t.name → d'.committed.store? name = d.committed.store? name := by
  have htable : s'.table = t := hs'.table.trans href
  have hadd : d.committed.addStore s' = .ok { stores := d.committed.stores.insert t.name s' } := by
    unfold Committed.addStore
    rw [htable, if_neg]
    rw [SortedMap.contains_eq_false_iff.mpr hnew]
    simp
  have hstores : ∀ name, (d.committed.stores.insert t.name s').get? name =
      if name = t.name then some s' else d.committed.store? name := fun name =>
    SortedMap.get?_insert hd _ _ _
  refine ⟨_, Outcome.bind_eq_ok_iff.mpr ⟨_, hadd, rfl⟩, hd.insert _ _, ⟨rfl, ?_, ?_, ?_, ?_⟩, ?_⟩
  · intro name s hs
    rw [Committed.store?, hstores] at hs
    split at hs
    · cases hs
      exact Or.inr (List.mem_singleton.mpr htable)
    · exact Or.inl hs
  · intro name s hs
    rw [Committed.store?, hstores, if_neg]
    · exact hs
    · intro heq
      rw [heq, hnew] at hs
      cases hs
  · exact s'.next_le_adopted d.rowIds
  · intro t' ht'
    cases List.mem_singleton.mp ht'
    refine ⟨s', ?_, ?_, ?_⟩
    · rw [href, Committed.store?, hstores, if_pos rfl]
    · rw [href]
      exact hs'
    · exact fun hrow => hs'.sound.toKeyed.lt_adopted hs'.sound.signed d.rowIds hrow
  · intro name hname
    rw [Committed.store?, hstores, if_neg hname]

theorem reads_loadTables (hd : d.committed.stores.Ordered)
    (hholds : ∀ t ∈ tables, Holds stores (d.options.persistsIndicesOf t) (ref t))
    (href : ∀ t ∈ tables, (ref t).table = t) (hnodup : (tables.map (·.name)).Nodup)
    (hnew : ∀ t ∈ tables, d.committed.store? t.name = none) :
    ∃ d', Reads stores (loadTables d tables) d' ∧ TakenIn stores ref tables d d' := by
  induction tables generalizing d with
  | nil => exact ⟨d, reads_pure d, TakenIn.nothing d⟩
  | cons t rest ih =>
      rcases List.nodup_cons.mp hnodup with ⟨hother, hrest⟩
      have htable := href t List.mem_cons_self
      rcases (hholds t List.mem_cons_self).reads_loadTable with ⟨s', hload, hreloads⟩
      rw [htable] at hload
      rcases adoptStore_ok hd htable hreloads (hnew t List.mem_cons_self) with
        ⟨d₁, hadopt, hd₁, htaken, hothers⟩
      have hnew₁ : ∀ t' ∈ rest, d₁.committed.store? t'.name = none := by
        intro t' ht'
        rw [hothers]
        · exact hnew t' (List.mem_cons_of_mem _ ht')
        · intro heq
          exact hother (List.mem_map.mpr ⟨t', ht', heq⟩)
      rcases ih hd₁ (fun t' ht' => htaken.options ▸ hholds t' (List.mem_cons_of_mem _ ht'))
        (fun t' ht' => href t' (List.mem_cons_of_mem _ ht')) hrest hnew₁ with
        ⟨d', hloads, htaken'⟩
      exact ⟨d', hload.bind ((reads_ofOutcome hadopt).bind hloads), htaken.cons htaken'⟩

end Database

/-!
## Opening
-/

namespace Database

open Backstore

variable {c : Catalog} {options : DatabaseOptions} {b : Backstore} {ref : Table → TableStore}

/-- A database is opened on a backstore that has the rows of a sound store for every table, and of
every index that is kept nothing or its stored form. -/
theorem load_ok (hcheck : options.check = .ok ()) (hc : c.WellFormed) (hb : b.faults = [])
    (hholds : ∀ t ∈ c.tables,
      Holds (sow b.stores c.seeds) (options.persistsIndicesOf t) (ref t))
    (href : ∀ t ∈ c.tables, (ref t).table = t) :
    ∃ d b₁, (load c options).perform b = (.ok d, b₁) ∧ b₁.stores = sow b.stores c.seeds ∧
      b₁.faults = [] ∧ d.options = options ∧
      (∀ name s, d.committed.store? name = some s → s.table ∈ c.tables) ∧
      ∀ t ∈ c.tables, ∃ s', Loaded (sow b.stores c.seeds) d (ref t) s' := by
  rcases @reads_loadTables
    { catalog := c, committed := {}, rowIds := .startingAt options.firstRowId, options := options }
    (sow b.stores c.seeds) c.tables ref SortedMap.ordered_empty hholds href hc.distinct
    (fun t _ => rfl) with ⟨d, hload, htaken⟩
  have hinit : (Backstore.init c).perform b = (.ok (),
      { b with calls := .init :: b.calls, stores := sow b.stores c.seeds }) := by
    have hcall : (call .init).perform b = (.ok (), { b with calls := .init :: b.calls }) := by
      rw [perform_call, hb]
      rfl
    unfold Backstore.init
    rw [Action.perform_bind_ok hcall, Action.perform_modify, ensureTables_eq_sow]
  have hreads : Reads (sow b.stores c.seeds) (do
      Backstore.count .begin
      let d ← loadTables
        { catalog := c, committed := {}, rowIds := .startingAt options.firstRowId
          options := options } c.tables
      Backstore.call .commit
      return d) d :=
    (reads_count _).bind (hload.bind ((reads_call _).bind (reads_pure d)))
  rcases hreads { b with calls := .init :: b.calls, stores := sow b.stores c.seeds } rfl hb with
    ⟨b₁, hperform, hb₁, hfaults⟩
  refine ⟨d, b₁, ?_, hb₁, hfaults, htaken.options, ?_, htaken.loaded⟩
  · unfold load
    rw [hcheck]
    change (Backstore.init c >>= _).perform b = _
    rw [Action.perform_bind_ok hinit]
    exact hperform
  · intro name s hs
    rcases htaken.known name s hs with hnone | hmem
    · cases hnone
    · exact hmem

end Database

end RelationalDb
