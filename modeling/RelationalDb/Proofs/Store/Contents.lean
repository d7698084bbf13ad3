import Mathlib
import RelationalDb.Proofs.Store.Soundness

/-!
# What the indices of a sound store hold

The index over the row ids has the ids of the rows, and an index over a column has one
pair for every row with a key, and the key of the pair compares equal to that of the row.
-/

namespace RelationalDb

namespace TableStore

variable {s : TableStore}

theorem Keyed.mem_toList_iff (h : s.Keyed) {row : Row} :
    row ∈ s.toList ↔ s.rows.get? row.id = some row := by
  rw [toList, SortedMap.mem_values_iff h.ordered]
  constructor
  · rintro ⟨id, hrow⟩
    rwa [h.id_eq hrow]
  · intro hrow
    exact ⟨_, hrow⟩

theorem Keyed.map_id_toList (h : s.Keyed) : s.toList.map (·.id) = s.rows.keys := by
  unfold toList SortedMap.values SortedMap.keys
  rw [List.map_map]
  apply List.map_congr_left
  rintro ⟨id, row⟩ he
  exact h.id_eq ((SortedMap.mem_entries_iff h.ordered).mp he)

theorem Keyed.nodup_toList (h : s.Keyed) : (s.toList.map (·.id)).Nodup := by
  rw [h.map_id_toList]
  exact h.ordered.nodup_keys

theorem Sound.toList_rowIds (h : s.Sound) : s.rowIds.toList = s.rows.keys := by
  apply SortedMap.keys_eq_of_get? h.idsOrdered h.ordered
  intro id
  rw [h.idsHeld]
  cases s.rows.get? id <;> simp

theorem Sound.type?_of_mem_pairs (h : s.Sound) {c : ColumnIndex} (hc : c ∈ s.indices)
    {p : Value × RowId} (hp : p ∈ c.index.pairs) : p.1.type? = some c.index.keyType := by
  rcases KeyIndex.mem_pairs_iff.mp hp with ⟨ids, hmem, _⟩
  exact (h.indexSound hc).ascending.kind _ hmem

theorem Sound.row_of_mem_pairs (h : s.Sound) {c : ColumnIndex} (hc : c ∈ s.indices)
    {p : Value × RowId} (hp : p ∈ c.index.pairs) :
    ∃ row, s.rows.get? p.2 = some row ∧ (c.keyOf row).type? = some c.index.keyType ∧
      compare p.1 (c.keyOf row) = .eq := by
  have htype := h.type?_of_mem_pairs hc hp
  rcases (h.listed hc p.1 p.2 htype).mp ((h.indexSound hc).mem_get_of_mem_pairs hp) with
    ⟨row, hrow, heq⟩
  refine ⟨row, hrow, ?_, heq⟩
  rcases h.type?_keyOf hc (h.checked hrow) with hnull | hkey
  · exact absurd heq (ColumnIndex.compare_ne_eq_of_null htype hnull)
  · exact hkey

theorem Sound.mem_pairs_of_row (h : s.Sound) {c : ColumnIndex} (hc : c ∈ s.indices) {row : Row}
    (hrow : s.rows.get? row.id = some row) (hkey : (c.keyOf row).isNull = false) :
    ∃ k, (k, row.id) ∈ c.index.pairs := by
  have htype : (c.keyOf row).type? = some c.index.keyType := by
    rcases h.type?_keyOf hc (h.checked hrow) with hnull | htype
    · rw [Value.isNull_iff.mpr hnull] at hkey
      cases hkey
    · exact htype
  have hmem : row.id ∈ c.index.get (c.keyOf row) :=
    (h.listed hc _ _ htype).mpr ⟨row, hrow, Value.compare_self _⟩
  rcases KeyIndex.mem_pairs_of_mem_get hmem with ⟨k, hk, _⟩
  exact ⟨k, hk⟩

theorem Sound.nodup_ids (h : s.Sound) {c : ColumnIndex} (hc : c ∈ s.indices) :
    (c.index.pairs.map (·.2)).Nodup := by
  apply (h.indexSound hc).nodup_ids
  intro p hp q hq hid
  rcases h.row_of_mem_pairs hc hp with ⟨row, hrow, htype, hkey⟩
  rcases h.row_of_mem_pairs hc hq with ⟨row', hrow', _, hkey'⟩
  rw [hid, hrow'] at hrow
  cases hrow
  rw [(Value.orderedOn_type _).congr_left (h.type?_of_mem_pairs hc hp) htype
    (h.type?_of_mem_pairs hc hq) hkey]
  exact (Value.orderedOn_type _).eq_symm (h.type?_of_mem_pairs hc hq) htype hkey'

theorem Sound.perm_pairs (h : s.Sound) {c : ColumnIndex} (hc : c ∈ s.indices) :
    (c.index.pairs.map (·.2)).Perm
      ((s.toList.filter fun row => !(c.keyOf row).isNull).map (·.id)) := by
  have hnodup : ((s.toList.filter fun row => !(c.keyOf row).isNull).map (·.id)).Nodup :=
    h.nodup_toList.sublist (List.filter_sublist.map _)
  rw [List.perm_ext_iff_of_nodup (h.nodup_ids hc) hnodup]
  intro id
  simp only [List.mem_map, List.mem_filter, Bool.not_eq_true', h.mem_toList_iff]
  constructor
  · rintro ⟨p, hp, rfl⟩
    rcases h.row_of_mem_pairs hc hp with ⟨row, hrow, htype, _⟩
    have hid : row.id = p.2 := h.id_eq hrow
    exact ⟨row, ⟨by rwa [hid], Value.isNull_eq_false_of_type htype⟩, hid⟩
  · rintro ⟨row, ⟨hrow, hkey⟩, rfl⟩
    rcases h.mem_pairs_of_row hc hrow hkey with ⟨k, hk⟩
    exact ⟨(k, row.id), hk, rfl⟩

/-!
## Stores without rows
-/

theorem Sound.rows_eq_empty (h : s.Sound) (hids : s.rowIds.ids = {}) : s.rows = {} := by
  apply SortedMap.ext_get? h.ordered SortedMap.ordered_empty
  intro id
  have hid := h.idsHeld id
  rw [hids] at hid
  cases hrow : s.rows.get? id with
  | none => rfl
  | some row =>
      rw [hrow] at hid
      cases hid

theorem Sound.entries_eq_empty (h : s.Sound) (hrows : s.rows = {}) {c : ColumnIndex}
    (hc : c ∈ s.indices) : c.index.entries = {} := by
  apply (h.indexSound hc).entries_eq_empty
  intro p hp
  rcases h.row_of_mem_pairs hc hp with ⟨row, hrow, _⟩
  rw [hrows] at hrow
  cases hrow

end TableStore

end RelationalDb
