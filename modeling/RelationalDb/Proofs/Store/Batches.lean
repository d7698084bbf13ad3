import Mathlib
import RelationalDb.Proofs.Store.Contents

/-!
# Several rows one after the other

Writes of rows with different ids do not get in each other's way: afterwards every written row
is there as it was written, and all other rows are there as they were before.
-/

namespace RelationalDb

namespace TableStore

variable {s s' : TableStore} {row old : Row} {rows : List Row} {id : RowId}

theorem Sound.row?_update (h : s.Sound) (hok : (update row).perform s = (.ok old, s'))
    (id : RowId) : s'.row? id = if id = row.id then some row else s.row? id := by
  rcases update_eq_ok hok with ⟨_, _, _, indices, _, rfl⟩
  exact SortedMap.get?_insert h.ordered row.id id row

theorem Sound.row?_insert (h : s.Sound) (hok : (insert row).perform s = (.ok (), s'))
    (id : RowId) : s'.row? id = if id = row.id then some row else s.row? id := by
  rcases insert_eq_ok hok with ⟨_, _, _, rowIds, indices, _, _, rfl⟩
  exact SortedMap.get?_insert h.ordered row.id id row

theorem Sound.row?_delete (h : s.Sound) {id : RowId} (hok : (delete id).perform s = (.ok old, s'))
    (id' : RowId) : s'.row? id' = if id' = id then none else s.row? id' := by
  rcases delete_eq_ok hok with ⟨_, rfl⟩
  exact SortedMap.get?_erase h.ordered id id'

theorem Sound.updateAll_ok (h : s.Sound) (hids : (rows.map (·.id)).Nodup)
    (hok : (rows.forM fun row => do let _ ← update row).perform s = (.ok (), s')) :
    s'.Sound ∧ s'.table = s.table ∧ (∀ row ∈ rows, s'.row? row.id = some row) ∧
      ∀ id ∉ rows.map (·.id), s'.row? id = s.row? id := by
  induction rows generalizing s with
  | nil =>
      cases hok
      exact ⟨h, rfl, nofun, fun _ _ => rfl⟩
  | cons row rest ih =>
      rcases Action.perform_bind_eq_ok hok with ⟨_, s₁, hrow, hrest⟩
      rcases Action.perform_bind_eq_ok hrow with ⟨old, s₂, hupdate, heq⟩
      cases heq
      rw [List.map_cons, List.nodup_cons] at hids
      rcases ih (h.update_ok hupdate) hids.2 hrest with ⟨hsound, htable, hwritten, hothers⟩
      have hget := h.row?_update hupdate
      refine ⟨hsound, htable.trans (table_of_update hupdate), ?_, ?_⟩
      · intro row' hrow'
        rcases List.mem_cons.mp hrow' with rfl | hrow'
        -- No later update has the id of the first one.
        · rw [hothers _ hids.1, hget, if_pos rfl]
        · exact hwritten row' hrow'
      · intro id hid
        rw [List.map_cons, List.mem_cons, not_or] at hid
        rw [hothers id hid.2, hget, if_neg hid.1]

theorem Sound.deleteAll_ok (h : s.Sound)
    (hok : (rows.forM fun row => do let _ ← delete row.id).perform s = (.ok (), s')) :
    s'.Sound ∧ s'.table = s.table ∧
      ∀ id, s'.row? id = if id ∈ rows.map (·.id) then none else s.row? id := by
  induction rows generalizing s with
  | nil =>
      cases hok
      exact ⟨h, rfl, fun _ => rfl⟩
  | cons row rest ih =>
      rcases Action.perform_bind_eq_ok hok with ⟨_, s₁, hrow, hrest⟩
      rcases Action.perform_bind_eq_ok hrow with ⟨old, s₂, hdelete, heq⟩
      cases heq
      rcases ih (h.delete_ok hdelete) hrest with ⟨hsound, htable, hleft⟩
      refine ⟨hsound, htable.trans (table_of_delete hdelete), ?_⟩
      intro id
      rw [hleft, h.row?_delete hdelete, List.map_cons]
      by_cases hid : id = row.id <;> simp [hid]

theorem Sound.mem_ids_iff (h : s.Sound) {p : Row → Bool} (hrows : rows.Perm (s.toList.filter p)) :
    id ∈ rows.map (·.id) ↔ ∃ row, s.row? id = some row ∧ p row = true := by
  simp only [List.mem_map, hrows.mem_iff, List.mem_filter, h.mem_toList_iff]
  constructor
  · rintro ⟨row, ⟨hget, hp⟩, rfl⟩
    exact ⟨row, hget, hp⟩
  · rintro ⟨row, hget, hp⟩
    have hid : row.id = id := h.id_eq hget
    exact ⟨row, ⟨by rwa [hid], hp⟩, hid⟩

end TableStore

end RelationalDb
