import Mathlib
import RelationalDb.Proofs.Store.Scans

/-!
# Rows by their primary key

In a store whose indices are in step with its rows at most one row has a key, and the row that is
looked up by a key is the one that has it.
-/

namespace RelationalDb

namespace Table

def keyOf (t : Table) (values : List Value) : Value :=
  ((do
    let d ← t.primaryKey
    let position ← t.columnPosition? d.column
    values[position]?) : Option Value).getD .null

/-- Do two rows have the same primary key?  A row without a key has none in common with any. -/
def sameKey (t : Table) (values values' : List Value) : Bool :=
  !(t.keyOf values).isNull && t.keyOf values == t.keyOf values'

variable {t : Table} {values values' values'' : List Value}

theorem sameKey_iff :
    t.sameKey values values' = true ↔
      (t.keyOf values).isNull = false ∧ (t.keyOf values == t.keyOf values') = true := by
  simp [sameKey]

theorem sameKey_self (h : (t.keyOf values).isNull = false) : t.sameKey values values = true :=
  sameKey_iff.mpr ⟨h, BEq.rfl⟩

theorem sameKey_symm (h : t.sameKey values values' = true) : t.sameKey values' values = true := by
  rcases sameKey_iff.mp h with ⟨hnull, heq⟩
  refine sameKey_iff.mpr ⟨?_, BEq.symm heq⟩
  have htype := Value.type?_eq_of_beq heq
  cases hv : (t.keyOf values').isNull with
  | false => rfl
  | true =>
      rw [Value.isNull_iff.mp hv, ← Value.isNull_iff] at htype
      rw [hnull] at htype
      cases htype

theorem sameKey_trans (h : t.sameKey values values' = true)
    (h' : t.sameKey values' values'' = true) : t.sameKey values values'' = true :=
  sameKey_iff.mpr ⟨(sameKey_iff.mp h).1, BEq.trans (sameKey_iff.mp h).2 (sameKey_iff.mp h').2⟩

theorem sameKey_congr (h : t.sameKey values values' = true) :
    t.sameKey values = t.sameKey values' := by
  funext u
  rw [Bool.eq_iff_iff]
  exact ⟨sameKey_trans (sameKey_symm h), sameKey_trans h⟩

end Table

namespace TableStore

def withKeyOf (s : TableStore) (values : List Value) : List Row :=
  s.toList.filter fun row => s.table.sameKey values row.values

variable {s : TableStore} {d : IndexDecl} {row row' : Row} {values values' : List Value}

theorem mem_withKeyOf :
    row ∈ s.withKeyOf values ↔ row ∈ s.toList ∧ s.table.sameKey values row.values = true :=
  List.mem_filter

theorem withKeyOf_congr (h : s.table.sameKey values values' = true) :
    s.withKeyOf values = s.withKeyOf values' := by
  unfold withKeyOf
  rw [Table.sameKey_congr h]

theorem withKeyOf_eq_nil (h : (s.table.keyOf values).isNull = true) : s.withKeyOf values = [] := by
  apply List.filter_eq_nil_iff.mpr
  intro row _
  simp [Table.sameKey, h]

/-- The index that stands for the primary key. -/
structure KeyedBy (s : TableStore) (d : IndexDecl) (c : ColumnIndex) : Prop where
  mem : c ∈ s.indices
  name : c.index.name = d.fullName
  unique : c.index.unique = true
  position : s.table.columnPosition? d.column = some c.position
  keyOf : ∀ row, c.keyOf row = s.table.keyOf row.values

theorem Sound.exists_keyIndex (h : s.Sound) (ht : s.table.Built)
    (hd : s.table.primaryKey = some d) : ∃ c, s.KeyedBy d c := by
  have hmem : d ∈ s.table.indices := List.mem_append_right _ (by simp [hd])
  rcases ht.wellFormed.indicesKeyed d hmem with ⟨column, hcolumn, hname, _⟩
  rcases Table.exists_position ⟨column, hcolumn, hname⟩ with ⟨position, found, hp, hc⟩
  have hindex := mem_emptyIndices_iff.mpr ⟨d, hmem, position, found, hp, hc, rfl⟩
  rw [← h.shaped] at hindex
  rcases List.mem_map.mp hindex with ⟨c, hcIn, heq⟩
  have hposition : c.position = position :=
    congrArg (fun c : ColumnIndex => c.position) heq
  refine ⟨c, hcIn, ?_, ?_, hposition ▸ hp, ?_⟩
  · exact congrArg (fun c : ColumnIndex => c.index.name) heq
  · have hunique : c.index.unique = d.unique :=
      congrArg (fun c : ColumnIndex => c.index.unique) heq
    rw [hunique, ht.unique_primaryKey hd]
  · intro row
    simp [ColumnIndex.keyOf, Table.keyOf, hd, hp, hposition]

theorem Sound.mem_get_iff (h : s.Sound) {c : ColumnIndex} (hc : s.KeyedBy d c) {id : RowId}
    (hvalues : s.table.checkRow values = .ok ()) (hkey : (s.table.keyOf values).isNull = false) :
    id ∈ c.index.get (s.table.keyOf values) ↔
      ∃ row, s.row? id = some row ∧ s.table.sameKey values row.values = true := by
  have htypeOf : ∀ values, s.table.checkRow values = .ok () →
      (s.table.keyOf values).type? = none ∨
        (s.table.keyOf values).type? = some c.index.keyType := by
    intro values hvalues
    rw [← hc.keyOf { id := 0, values := values }]
    exact h.type?_keyOf hc.mem hvalues
  have htype : (s.table.keyOf values).type? = some c.index.keyType := by
    rcases htypeOf values hvalues with hnone | htype
    · rw [Value.isNull_iff.mpr hnone] at hkey
      cases hkey
    · exact htype
  rw [h.listed hc.mem _ id htype]
  apply exists_congr
  intro row
  apply and_congr_right
  intro hget
  rw [hc.keyOf, Table.sameKey_iff, and_iff_right hkey]
  rcases htypeOf row.values (h.checked hget) with hnone | htype'
  · constructor
    · exact fun heq => absurd heq (ColumnIndex.compare_ne_eq_of_null htype hnone)
    · intro heq
      rw [Value.type?_eq_of_beq heq, hnone] at htype
      cases htype
  · exact (Value.beq_iff_of_type htype htype').symm

theorem keyOf_eq_null (hd : s.table.primaryKey = none) (values : List Value) :
    s.table.keyOf values = .null := by
  simp [Table.keyOf, hd]

theorem Sound.eq_of_sameKey (h : s.Sound) (ht : s.table.Built) (hrow : row ∈ s.toList)
    (hrow' : row' ∈ s.toList) (hsame : s.table.sameKey row.values row'.values = true) :
    row = row' := by
  rw [h.mem_toList_iff] at hrow hrow'
  have hkey := (Table.sameKey_iff.mp hsame).1
  cases hd : s.table.primaryKey with
  | none =>
      rw [keyOf_eq_null hd] at hkey
      cases hkey
  | some d =>
      rcases h.exists_keyIndex ht hd with ⟨c, hc⟩
      have hid := (h.mem_get_iff hc (h.checked hrow) hkey).mpr
        ⟨row, hrow, Table.sameKey_self hkey⟩
      have hid' := (h.mem_get_iff hc (h.checked hrow) hkey).mpr ⟨row', hrow', hsame⟩
      have hlength := (h.indexSound hc.mem).length_get_le_one hc.unique
        (s.table.keyOf row.values)
      have heq : row.id = row'.id := by
        generalize c.index.get (s.table.keyOf row.values) = ids at hid hid' hlength
        cases ids with
        | nil => cases hid
        | cons id rest =>
            cases rest with
            | nil => exact (List.mem_singleton.mp hid).trans (List.mem_singleton.mp hid').symm
            | cons id' rest => simp at hlength
      rw [heq, hrow'] at hrow
      exact (Option.some.inj hrow).symm

theorem Sound.withKeyOf_eq (h : s.Sound) (ht : s.table.Built)
    (hrow : row ∈ s.withKeyOf values) : s.withKeyOf values = [row] := by
  have hnodup : (s.withKeyOf values).Nodup := (h.nodup_toList.of_map _).filter _
  apply List.perm_singleton.mp
  rw [List.perm_ext_iff_of_nodup hnodup (List.nodup_singleton row)]
  intro row'
  rw [List.mem_singleton]
  refine ⟨fun hrow' => ?_, fun heq => heq ▸ hrow⟩
  rw [mem_withKeyOf] at hrow hrow'
  apply h.eq_of_sameKey ht hrow'.1 hrow.1
  exact Table.sameKey_trans (Table.sameKey_symm hrow'.2) hrow.2

/-- The row that is found under a key is the one that has it. -/
theorem Sound.rowOfKey?_eq (h : s.Sound) (ht : s.table.Built) (hd : s.table.primaryKey = some d)
    (hvalues : s.table.checkRow values = .ok ()) :
    s.rowOfKey? (s.table.keyOf values) = (s.withKeyOf values).head? := by
  rcases h.exists_keyIndex ht hd with ⟨c, hc⟩
  have hmem : d ∈ s.table.indices := List.mem_append_right _ (by simp [hd])
  have hindex := h.indexed.named.index?_short ht.wellFormed.indicesNamedApart hc.mem hmem hc.name
  have hlookup : s.rowOfKey? (s.table.keyOf values) =
      (c.index.get (s.table.keyOf values)).head?.bind s.row? := by
    simp [rowOfKey?, hd, hindex, TableIndex.get]
  rw [hlookup]
  cases hkey : (s.table.keyOf values).isNull with
  | true =>
      -- Rows without a key are in no index, and no row has the key null.
      have hget : c.index.get (s.table.keyOf values) = [] := by
        rw [Value.eq_null_of_type (Value.isNull_iff.mp hkey), KeyIndex.get,
          (h.indexSound hc.mem).get?_null]
        rfl
      rw [hget, withKeyOf_eq_nil hkey]
      rfl
  | false =>
      cases hget : c.index.get (s.table.keyOf values) with
      | nil =>
          cases hrows : s.withKeyOf values with
          | nil => rfl
          | cons row rest =>
              have hrow := mem_withKeyOf.mp (hrows ▸ List.mem_cons_self : row ∈ s.withKeyOf values)
              have hid := (h.mem_get_iff hc hvalues hkey).mpr
                ⟨row, h.mem_toList_iff.mp hrow.1, hrow.2⟩
              rw [hget] at hid
              cases hid
      | cons id rest =>
          have hmemId : id ∈ c.index.get (s.table.keyOf values) := hget ▸ List.mem_cons_self
          rcases (h.mem_get_iff hc hvalues hkey).mp hmemId with ⟨row, hrow, hsame⟩
          have hid : row.id = id := h.id_eq hrow
          have hrows : row ∈ s.withKeyOf values :=
            mem_withKeyOf.mpr ⟨h.mem_toList_iff.mpr (hid ▸ hrow), hsame⟩
          rw [h.withKeyOf_eq ht hrows]
          exact hrow

end TableStore

end RelationalDb
