import RelationalDb.Proofs.Database.Mirrors
import RelationalDb.Proofs.Store.JournalHistories

/-!
# The indices that a journal does not touch

Which indices a write touches is decided from the old and the new row, apart from the
store that moves the entries.  Both decisions agree: an index that is not on record as
touched is staged exactly as it is committed, and so a commit may leave its store alone.
-/

namespace RelationalDb

open TableStore

variable {committed : Committed} {tables : List Table} {j : Journal} {base s : TableStore}
  {c : ChangeSet} {touched : String → Prop} {table : String}

theorem TableStore.StagedFrom.forall₂_untouched (h : base.StagedFrom s c touched)
    (hbase : base.Sound) (hwf : base.table.WellFormed) :
    List.Forall₂ (fun i i' : TableIndex => i'.name = i.name ∧ (¬ touched i'.name → i' = i))
      base.allIndices s.allIndices := by
  have hnames : List.Forall₂ (fun i i' : TableIndex => i'.name = i.name)
      base.allIndices s.allIndices := by
    have heq : List.Forall₂ Eq (s.allIndices.map (·.name)) (base.allIndices.map (·.name)) :=
      List.forall₂_eq_eq_eq ▸ h.names
    exact (List.forall₂_map_right_iff.mp (List.forall₂_map_left_iff.mp heq)).flip
  apply (forall₂_mem hnames).imp
  rintro i i' ⟨hi, hi', hname⟩
  refine ⟨hname, fun huntouched => ?_⟩
  exact List.inj_on_of_nodup_map (hbase.nodup_indexNames hwf) (h.untouched hbase i' hi' huntouched)
    hi hname

namespace Session

/-- The store of every kept index has the stored form of the committed index. -/
def StoresIndices (x : Session) : Prop :=
  ∀ {table : String} {s : TableStore}, x.database.committed.store? table = some s →
    x.database.options.persistsIndicesOf s.table = true →
      ∀ i ∈ s.allIndices, x.backstore.stores.get? i.name = some i.stored

variable {x x' : Session} {r : Outcome Unit}

theorem StoresIndices.flush (h : x.StoresIndices) (hc : x.database.committed.Founded tables)
    (hordered : x.backstore.stores.Ordered) (hj : j.Tracks x.database.committed)
    (hflush : (flush j).perform x = (r, x')) : x'.StoresIndices := by
  rcases flush_cases hflush with ⟨_, _, rfl⟩ | ⟨b, hwrite, _, rfl⟩ | ⟨e, b, hwrite, _, rfl⟩
  · exact h
  · rcases (Backstore.write_cases hwrite).2 with ⟨_, hstores⟩ | ⟨e, he, _⟩
    · have hlasting : Lasting tables x.database.options fun t i m =>
          x.database.options.persistsIndicesOf t = true → m = some i.stored := by
        constructor
        · intro t _ _ i _
          rfl
        · intro t _ hnot _ i hkept
          rw [hnot] at hkept
          cases hkept
        · intro t _ hnot _ i i' m _ hkept
          rw [hnot] at hkept
          cases hkept
      intro table s hs hkept i hi
      change b.stores.get? i.name = _
      rw [hstores]
      exact hj.indices_written hc hordered hlasting (fun hs i hi hkept => h hs hkept i hi) hs hi
        hkept
    · cases he
  · rcases (Backstore.write_cases hwrite).2 with ⟨he, _⟩ | ⟨_, _, hstores⟩
    · cases he
    · intro table s hs hkept i hi
      change b.stores.get? i.name = _
      rw [hstores]
      exact h hs hkept i hi

end Session

namespace Journal

/-- After any calls, failing ones included, the indices of a staged store correspond to those of
the committed store, and all but the touched ones are the same.  Writing the journal to a backstore
that has the kept indices as they are committed leaves it with the kept indices as they are
committed, whether the writing succeeds or fails. -/
theorem untouched_indices_are_the_committed_ones (hc : committed.Founded tables)
    (calls : List JournalCall) :
    (∀ {table s}, (after committed calls).staged.get? table = some s →
      ∃ base, committed.store? table = some base ∧ s.table = base.table ∧
        List.Forall₂ (fun i i' : TableIndex => i'.name = i.name ∧
            (¬ (after committed calls).Touches i'.name → i' = i))
          base.allIndices s.allIndices) ∧
    ∀ {x x' : Session} {r : Outcome Unit}, x.database.committed = committed →
      x.backstore.stores.Ordered → x.StoresIndices →
      (Session.flush (after committed calls)).perform x = (r, x') → x'.StoresIndices := by
  have htracks := tracks_after hc.wellKept calls
  constructor
  · intro table s hs
    rcases htracks.staged hs with ⟨base, c, hbase, _, _, hfrom⟩
    exact ⟨base, hbase, hfrom.table_eq,
      hfrom.forall₂_untouched (hc.sound hbase) (hc.wellFormed _ (hc.known hbase))⟩
  · rintro x x' r rfl hordered hstores hflush
    exact hstores.flush hc hordered htracks hflush

theorem eq_of_store?_oneItem {name : String} (hs : oneItem.store? name = some s) :
    s = (TableStore.empty .items).after
      [.insert { id := 1, values := [.int64 7, .float64 ⟨0⟩] }] := by
  have hget : oneItem.store? name = if name = "item" then _ else none :=
    SortedMap.get?_insert SortedMap.ordered_empty "item" name _
  rw [hs] at hget
  split at hget
  · exact Option.some.inj hget
  · cases hget

theorem founded_oneItem : oneItem.Founded [.items] where
  wellKept := wellKept_oneItem
  sound := by
    intro name s hs
    rw [eq_of_store?_oneItem hs]
    exact TableStore.sound_after_empty .items _
  known := by
    intro name s hs
    rw [eq_of_store?_oneItem hs]
    exact List.mem_singleton.mpr rfl
  wellFormed := by
    intro t ht
    rw [List.mem_singleton.mp ht]
    exact Table.built_items.wellFormed

def itemGrows : List JournalCall :=
  [.update "item" { id := 1, values := [.int64 7, .float64 ⟨1⟩] },
   .insert "item" { id := 2, values := [.int64 7, .float64 ⟨1⟩] }]

def keptItem : Session where
  backstore :=
    { stores := .ofList (((TableStore.empty .items).after
        [.insert { id := 1, values := [.int64 7, .float64 ⟨0⟩] }]).allIndices.map
          fun i => (i.name, i.stored)) }
  database :=
    { catalog := { name := "shop", version := 1, tables := [.items] }
      committed := oneItem
      rowIds := {}
      options := { persistIndices := some true } }

theorem storesIndices_keptItem : keptItem.StoresIndices := by
  intro table s hs _ i hi
  rw [eq_of_store?_oneItem hs] at hi
  apply SortedMap.get?_insertAll_of_mem SortedMap.ordered_empty
  · exact List.mem_map_of_mem hi
  · intro m hm
    rcases List.mem_map.mp hm with ⟨i', hi', heq⟩
    have hnodup := (TableStore.sound_after_empty .items
      [.insert { id := 1, values := [.int64 7, .float64 ⟨0⟩] }]).nodup_indexNames
        Table.built_items.wellFormed
    rw [← List.inj_on_of_nodup_map hnodup hi' hi (congrArg Prod.fst heq)]
    exact (congrArg Prod.snd heq).symm

theorem number_index_is_untouched :
    oneItem.Founded [.items] ∧ (after oneItem itemGrows).touched.keys = ["item.bySize"] ∧
      (∃ base s, oneItem.store? "item" = some base ∧
        (after oneItem itemGrows).staged.get? "item" = some s ∧
        List.Forall₂ (fun i i' : TableIndex => i'.name = i.name ∧
            (i'.name ∉ ["item.bySize"] → i' = i)) base.allIndices s.allIndices) ∧
      ((Session.flush (after oneItem itemGrows)).perform keptItem).2.StoresIndices := by
  have hindices := untouched_indices_are_the_committed_ones founded_oneItem itemGrows
  have htouched : (after oneItem itemGrows).touched.keys = ["item.bySize"] := by
    decide +kernel
  have hstaged : ((after oneItem itemGrows).staged.get? "item").isSome = true := by
    decide +kernel
  refine ⟨founded_oneItem, htouched, ?_, ?_⟩
  · rcases Option.isSome_iff_exists.mp hstaged with ⟨s, hs⟩
    rcases hindices.1 hs with ⟨base, hbase, _, hsame⟩
    unfold Touches at hsame
    rw [htouched] at hsame
    exact ⟨base, s, hbase, hs, hsame⟩
  · exact hindices.2 rfl (SortedMap.ordered_ofList _) storesIndices_keptItem rfl

end Journal

end RelationalDb
