import Mathlib
import RelationalDb.Proofs.Store.StagedWrites

/-!
# Row ids that come and go

Of all writes only an insert that succeeds brings a row id into a store, and the id is
one from which a key can be made.  An insert finds its row id taken only if a row has it.
-/

namespace RelationalDb

/-!
## Keys
-/

namespace SortedMap

variable {κ α : Type} [Ord κ] {m : SortedMap κ α} {k k' : κ} {a : α}

theorem mem_keys_of_get? [Std.LawfulEqOrd κ] (h : m.get? k = some a) : k ∈ m.keys := by
  rcases mem_of_lookup h with ⟨k', hmem, heq⟩
  rw [Std.LawfulEqCmp.eq_of_compare heq]
  exact List.mem_map_of_mem hmem

theorem mem_keys_insert [Std.LawfulEqOrd κ] :
    k' ∈ (m.insert k a).keys ↔ k' = k ∨ k' ∈ m.keys := by
  change k' ∈ (insertEntry k a m.entries).map (·.1) ↔ k' = k ∨ k' ∈ m.entries.map (·.1)
  induction m.entries with
  | nil => simp [insertEntry]
  | cons e rest ih =>
      rcases e with ⟨k₀, a₀⟩
      cases hc : compare k k₀ with
      | lt => simp [insertEntry, hc]
      | eq => simp [insertEntry, Std.LawfulEqCmp.eq_of_compare hc]
      | gt =>
          simp only [insertEntry, hc, List.map_cons, List.mem_cons, ih]
          tauto

theorem mem_keys_erase (h : k' ∈ (m.erase k).keys) : k' ∈ m.keys :=
  (eraseEntry_sublist.map _).subset h

end SortedMap

/-!
## Kinds of failures
-/

namespace Outcome

variable {α β : Type} {k : FailureKind}

def Spares (k : FailureKind) (x : Outcome α) : Prop :=
  ∀ e, x = .error e → e.kind ≠ k

theorem spares_ok (a : α) : Spares k (.ok a : Outcome α) := nofun

theorem spares_error {e : Failure} (h : e.kind ≠ k) : Spares k (.error e : Outcome α) := by
  intro e' he'
  cases he'
  exact h

theorem Spares.bind {x : Outcome α} {f : α → Outcome β} (hx : Spares k x)
    (hf : ∀ a, Spares k (f a)) : Spares k (x >>= f) := by
  cases x with
  | error e => exact spares_error (hx e rfl)
  | ok a => exact hf a

theorem Spares.forM {f : α → Outcome Unit} {l : List α} (hf : ∀ a ∈ l, Spares k (f a)) :
    Spares k (l.forM f) := by
  induction l with
  | nil => exact spares_ok ()
  | cons a rest ih =>
      have hrest := ih fun b hb => hf b (List.mem_cons_of_mem _ hb)
      exact (hf a List.mem_cons_self).bind fun _ => hrest

end Outcome

open Outcome (Spares spares_ok spares_error)

theorem Table.spares_checkRow (t : Table) (values : List Value) :
    Spares .operation (t.checkRow values) := by
  have hvalue : ∀ (c : Column) (v : Value), Spares .operation (t.checkValue c v) := by
    intro c v
    unfold checkValue
    split
    · split
      · exact spares_ok ()
      · exact spares_error nofun
    · split
      · exact spares_ok ()
      · exact spares_error nofun
  have hvalues : ∀ (columns : List Column) (values : List Value),
      Spares .operation (t.checkValues columns values) := by
    intro columns
    induction columns with
    | nil => exact fun values => spares_ok ()
    | cons c rest ih =>
        intro values
        cases values with
        | nil => exact spares_ok ()
        | cons v values => exact (hvalue c v).bind fun _ => ih values
  unfold checkRow
  split
  · exact hvalues t.columns values
  · exact spares_error nofun

theorem RowIdIndex.spares_add (i : RowIdIndex) (key : Value) : Spares .operation (i.add key) := by
  have hid : Spares .operation (i.idOfKey key) := by
    unfold idOfKey
    split
    · exact spares_error nofun
    · split
      · exact spares_error nofun
      · exact spares_ok _
  unfold add
  refine hid.bind fun id => ?_
  split
  · exact spares_ok _
  · exact spares_ok _

theorem KeyIndex.spares_add (i : KeyIndex) (key : Value) (id : RowId) :
    Spares .operation (i.add key id) := by
  have hkey : Spares .operation (i.checkKey key) := by
    unfold checkKey
    split
    · exact spares_ok ()
    · exact spares_error nofun
  unfold add
  split
  · exact spares_ok _
  · refine hkey.bind fun _ => ?_
    split
    · exact spares_error nofun
    · dsimp only
      split
      · exact spares_ok _
      · exact spares_ok _

theorem Action.spares_onEach {σ : Type} {k : FailureKind} {a : Action σ Unit}
    (ha : ∀ s, Spares k (a.perform s).1) (l : List σ) : Spares k ((onEach a).perform l).1 := by
  induction l with
  | nil => exact spares_ok ()
  | cons s rest ih =>
      have hfirst := ha s
      rw [perform_onEach_cons]
      rcases hperform : a.perform s with ⟨r, s'⟩
      rw [hperform] at hfirst
      cases r with
      | error e => exact spares_error (hfirst e rfl)
      | ok u => exact ih

namespace ColumnIndex

theorem spares_enter (row : Row) (c : ColumnIndex) :
    Spares .operation ((enter row).perform c).1 := by
  have hadd := c.index.spares_add (c.keyOf row) row.id
  rw [perform_enter]
  cases hindex : c.index.add (c.keyOf row) row.id with
  | error e => exact spares_error (hadd e hindex)
  | ok index => exact spares_ok ()

theorem spares_move (old new : Row) (c : ColumnIndex) :
    Spares .operation ((move old new).perform c).1 := by
  rw [perform_move]
  split
  · exact spares_ok ()
  · exact spares_enter new _

end ColumnIndex

namespace TableStore

variable {s s' : TableStore} {row : Row} {id : RowId}

theorem spares_checkUnique (s : TableStore) (row : Row) : Spares .operation (s.checkUnique row) := by
  apply Spares.forM
  intro c _
  split
  · exact spares_error nofun
  · exact spares_ok ()

/-!
## Row ids of a store
-/

def ids (s : TableStore) : Set RowId :=
  { id | id ∈ s.rows.keys }

theorem mem_ids_of_rowExists {table : String}
    (h : (insert row).perform s = (.error (.operation (.rowExists id table)), s')) :
    row.id ∈ s.ids := by
  rw [perform_insert] at h
  split at h
  · next hcontains =>
      rcases SortedMap.contains_iff.mp hcontains with ⟨row', hrow'⟩
      exact SortedMap.mem_keys_of_get? hrow'
  · split at h
    · next hrow =>
        cases h
        exact absurd rfl (s.table.spares_checkRow row.values _ hrow)
    · next hunique =>
        cases h
        exact absurd rfl (s.spares_checkUnique row _ hunique)
    · next hadd =>
        cases h
        exact absurd rfl (s.rowIds.spares_add _ _ hadd)
    · next henter =>
        cases h
        have hspares := Action.spares_onEach (ColumnIndex.spares_enter row) s.indices
        exact absurd rfl (hspares _ (congrArg Prod.fst henter))
    · cases h

theorem update_ne_rowExists (row : Row) (s : TableStore) (table : String) :
    ((update row).perform s).1 ≠ .error (.operation (.rowExists id table)) := by
  intro h
  rw [perform_update] at h
  split at h
  · cases h
  · next old _ =>
      split at h
      · next hrow =>
          cases h
          exact absurd rfl (s.table.spares_checkRow row.values _ hrow)
      · next hunique =>
          cases h
          exact absurd rfl (s.spares_checkUnique row _ hunique)
      · next hmove =>
          cases h
          have hspares := Action.spares_onEach (ColumnIndex.spares_move old row) s.indices
          exact absurd rfl (hspares _ (congrArg Prod.fst hmove))
      · cases h

theorem signed_of_insert (h : (insert row).perform s = (.ok (), s')) :
    RowIdIndex.isSigned row.id = true := by
  rcases insert_eq_ok h with ⟨_, _, _, rowIds, _, hadd, _⟩
  cases hsigned : RowIdIndex.isSigned row.id with
  | true => rfl
  | false =>
      rw [s.rowIds.add_keyOfId_error hsigned] at hadd
      cases hadd

theorem ids_insert (h : (insert row).perform s = (.ok (), s')) : s'.ids = {row.id} ∪ s.ids := by
  rcases insert_eq_ok h with ⟨_, _, _, rowIds, indices, _, _, rfl⟩
  ext id
  exact SortedMap.mem_keys_insert

theorem ids_insert_error {e : Failure} (h : (insert row).perform s = (.error e, s')) :
    s'.ids = s.ids :=
  congrArg (fun rows : RowMap => { id | id ∈ rows.keys }) (insert_error h).1

theorem ids_update (row : Row) (s : TableStore) : ((update row).perform s).2.ids ⊆ s.ids := by
  rcases hupdate : (update row).perform s with ⟨r, s'⟩
  cases r with
  | error e =>
      unfold ids
      rw [(update_error hupdate).1]
  | ok old =>
      rcases update_eq_ok hupdate with ⟨hold, _, _, indices, _, rfl⟩
      intro id hid
      rcases SortedMap.mem_keys_insert.mp hid with rfl | hid
      · exact SortedMap.mem_keys_of_get? hold
      · exact hid

theorem ids_delete (id : RowId) (s : TableStore) : ((delete id).perform s).2.ids ⊆ s.ids := by
  rcases hdelete : (delete id).perform s with ⟨r, s'⟩
  cases r with
  | error e =>
      unfold ids
      rw [(delete_error hdelete).1]
  | ok row =>
      rcases delete_eq_ok hdelete with ⟨_, rfl⟩
      exact fun id' hid => SortedMap.mem_keys_erase hid

end TableStore

end RelationalDb
