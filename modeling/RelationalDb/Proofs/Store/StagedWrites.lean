import Mathlib
import RelationalDb.Proofs.Store.IndexNames
import RelationalDb.Proofs.Store.NetChanges
import RelationalDb.Proofs.Store.Soundness
import RelationalDb.Store.Journal

/-!
# What a journal stages

A staged store comes from a committed one by the net changes that are on record for its
table.  Every write of a journal keeps this, whether it succeeds or fails, and installing
the journal puts those changes in the place of the committed rows.
-/

namespace RelationalDb

namespace TableStore

/-- A store that comes from another one of the same table by the given net changes.  If the other
one was sound, it differs from it only in indices that were touched. -/
structure StagedFrom (base s : TableStore) (c : ChangeSet) (touched : String → Prop) : Prop where
  table_eq : s.table = base.table
  names : Journal.indexNames s = Journal.indexNames base
  keyed : s.Keyed
  net : c.Between base.rows s.rows
  sound : base.Sound → s.Sound
  untouched : base.Sound → ∀ i ∈ s.allIndices, ¬ touched i.name → i ∈ base.allIndices

variable {base s s' : TableStore} {c : ChangeSet} {touched touched' : String → Prop}
  {row old : Row} {id : RowId} {e : Failure}

theorem stagedFrom_self (hs : s.Keyed) (table : String) :
    StagedFrom s s { table := table } touched where
  table_eq := rfl
  names := rfl
  keyed := hs
  net := ChangeSet.between_empty table s.rows
  sound := fun h => h
  untouched := fun _ _ hi _ => hi

theorem StagedFrom.mono (h : StagedFrom base s c touched) (hle : ∀ n, touched n → touched' n) :
    StagedFrom base s c touched' where
  table_eq := h.table_eq
  names := h.names
  keyed := h.keyed
  net := h.net
  sound := h.sound
  untouched := fun hbase i hi htouched => h.untouched hbase i hi fun ht => htouched (hle _ ht)

/-!
## Failing writes
-/

theorem insert_error (hf : (insert row).perform s = (.error e, s')) :
    s'.rows = s.rows ∧ s'.table = s.table := by
  rw [perform_insert] at hf
  split at hf
  · cases hf
    exact ⟨rfl, rfl⟩
  · split at hf
    · cases hf
      exact ⟨rfl, rfl⟩
    · cases hf
      exact ⟨rfl, rfl⟩
    · cases hf
      exact ⟨rfl, rfl⟩
    · cases hf
      exact ⟨rfl, rfl⟩
    · cases hf

theorem update_error (hf : (update row).perform s = (.error e, s')) :
    s'.rows = s.rows ∧ s'.table = s.table := by
  rw [perform_update] at hf
  split at hf
  · cases hf
    exact ⟨rfl, rfl⟩
  · split at hf
    · cases hf
      exact ⟨rfl, rfl⟩
    · cases hf
      exact ⟨rfl, rfl⟩
    · cases hf
      exact ⟨rfl, rfl⟩
    · cases hf

theorem perform_onEach_strike (row : Row) (l : List ColumnIndex) :
    ((Action.onEach (ColumnIndex.strike row)).perform l).1 = .ok () := by
  induction l with
  | nil => rfl
  | cons c rest ih =>
      rw [Action.perform_onEach_cons, ColumnIndex.perform_strike]
      exact ih

theorem delete_error (hf : (delete id).perform s = (.error e, s')) :
    s'.rows = s.rows ∧ s'.table = s.table := by
  rw [perform_delete] at hf
  split at hf
  · cases hf
    exact ⟨rfl, rfl⟩
  · next row hrow =>
      have hok := congrArg Prod.fst hf
      simp only [perform_onEach_strike] at hok
      cases hok

/-- A write that fails leaves the rows as they are, and on a sound store it leaves everything. -/
theorem StagedFrom.of_failed (h : StagedFrom base s c touched)
    (hkept : s'.rows = s.rows ∧ s'.table = s.table)
    (hnames : Journal.indexNames s' = Journal.indexNames s) (hsound : s.Sound → s' = s) :
    StagedFrom base s' c touched where
  table_eq := hkept.2.trans h.table_eq
  names := hnames.trans h.names
  keyed := by
    have hkeyed := h.keyed
    constructor
    · rw [hkept.1]
      exact hkeyed.ordered
    · rw [hkept.1]
      exact hkeyed.id_eq
  net := by
    rw [hkept.1]
    exact h.net
  sound := by
    intro hbase
    rw [hsound (h.sound hbase)]
    exact h.sound hbase
  untouched := by
    intro hbase
    rw [hsound (h.sound hbase)]
    exact h.untouched hbase

/-!
## Successful writes
-/

theorem name_of_move {x x' : ColumnIndex}
    (h : (ColumnIndex.move old row).perform x = (.ok (), x')) : x'.index.name = x.index.name := by
  have hlabel := ColumnIndex.label_move old row x
  rw [h] at hlabel
  exact congrArg Prod.snd hlabel

theorem eq_of_move {x x' : ColumnIndex}
    (h : (ColumnIndex.move old row).perform x = (.ok (), x'))
    (hsame : (old.values[x.position]? != row.values[x.position]?) = false) : x' = x := by
  have hkeys : (x.keyOf old == x.keyOf row) = true := by
    have heq : (old.values[x.position]? == row.values[x.position]?) = true := by
      simpa [bne] using hsame
    unfold ColumnIndex.keyOf
    cases hold : old.values[x.position]? with
    | none =>
        cases hnew : row.values[x.position]? with
        | none => rfl
        | some v => simp [hold, hnew] at heq
    | some u =>
        cases hnew : row.values[x.position]? with
        | none => simp [hold, hnew] at heq
        | some v => simpa [hold, hnew] using heq
  rw [ColumnIndex.perform_move, if_pos hkeys] at h
  cases h
  rfl

theorem StagedFrom.insert_ok (h : StagedFrom base s c touched)
    (hok : (insert row).perform s = (.ok (), s')) :
    StagedFrom base s' (c.add row) fun n => touched n ∨ n ∈ Journal.indexNames s := by
  have hnames := indexNames_insert row s
  rw [hok] at hnames
  rcases insert_eq_ok hok with ⟨hfree, _, _, rowIds, indices, _, _, hs'⟩
  constructor
  · rw [hs']
    exact h.table_eq
  · exact hnames.trans h.names
  · exact h.keyed.put (congrArg TableStore.rows hs')
  · rw [hs']
    exact h.net.add h.keyed.ordered hfree
  · intro hbase
    exact (h.sound hbase).insert_ok hok
  · intro hbase i hi htouched
    exfalso
    apply htouched
    right
    rw [← hnames]
    exact List.mem_map_of_mem hi

theorem StagedFrom.update_ok (h : StagedFrom base s c touched)
    (hok : (update row).perform s = (.ok old, s')) :
    StagedFrom base s' (c.modify old row) fun n =>
      touched n ∨ n ∈ Journal.indexNamesBetween s old row := by
  have hnames := indexNames_update row s
  rw [hok] at hnames
  rcases update_eq_ok hok with ⟨hold, _, _, indices, hmove, hs'⟩
  constructor
  · rw [hs']
    exact h.table_eq
  · exact hnames.trans h.names
  · exact h.keyed.put (congrArg TableStore.rows hs')
  · rw [hs']
    exact h.net.modify h.keyed.ordered hold (h.keyed.id_eq hold)
  · intro hbase
    exact (h.sound hbase).update_ok hok
  · intro hbase i hi htouched
    rw [hs'] at hi
    rcases List.mem_cons.mp hi with rfl | hkeys
    · exact h.untouched hbase _ List.mem_cons_self fun ht => htouched (Or.inl ht)
    · rcases List.mem_map.mp hkeys with ⟨x', hx', rfl⟩
      rcases exists_of_mem_right (Action.forall₂_of_perform_onEach hmove) hx' with ⟨x, hx, hstep⟩
      have hname : x'.index.name = x.index.name := name_of_move hstep
      have hsame : (old.values[x.position]? != row.values[x.position]?) = false := by
        by_contra hdiffer
        apply htouched
        right
        apply List.mem_map.mpr
        refine ⟨x, List.mem_filter.mpr ⟨hx, ?_⟩, hname.symm⟩
        simpa using hdiffer
      rw [eq_of_move hstep hsame] at htouched ⊢
      refine h.untouched hbase _ ?_ fun ht => htouched (Or.inl ht)
      exact List.mem_cons_of_mem _ (List.mem_map_of_mem hx)

theorem StagedFrom.delete_ok (h : StagedFrom base s c touched)
    (hok : (delete id).perform s = (.ok old, s')) :
    StagedFrom base s' (c.delete old) fun n => touched n ∨ n ∈ Journal.indexNames s := by
  have hnames := indexNames_delete id s
  rw [hok] at hnames
  rcases delete_eq_ok hok with ⟨hold, hs'⟩
  constructor
  · rw [hs']
    exact h.table_eq
  · exact hnames.trans h.names
  · exact h.keyed.takeAway (congrArg TableStore.rows hs')
  · rw [hs']
    exact h.net.delete h.keyed.ordered hold (h.keyed.id_eq hold)
  · intro hbase
    exact (h.sound hbase).delete_ok hok
  · intro hbase i hi htouched
    exfalso
    apply htouched
    right
    rw [← hnames]
    exact List.mem_map_of_mem hi

end TableStore

end RelationalDb
