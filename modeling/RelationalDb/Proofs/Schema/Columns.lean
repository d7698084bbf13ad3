import Mathlib
import RelationalDb.Proofs.Index.KeyIndices
import RelationalDb.Store.TableStore

/-!
# Columns, rows and the indices over them

A row that passes the check of its table has a value for every column, and each value is
null or of the type of its column.  The empty indices of a table stand at the positions of
their columns and take keys of the types of their columns.
-/

namespace RelationalDb

namespace Table

variable {t : Table} {values : List Value} {c : Column} {v : Value} {n : Nat} {name : String}

/-!
## Checked rows
-/

theorem checkValue_eq_ok_iff : t.checkValue c v = .ok () ↔ c.accepts v = true := by
  unfold checkValue Column.accepts Value.conformsTo
  cases v <;> simp [Value.type?, Value.isNull]

theorem checkValues_eq_ok_iff {columns : List Column} :
    t.checkValues columns values = .ok () ↔
      ∀ p ∈ columns.zip values, p.1.accepts p.2 = true := by
  induction columns generalizing values with
  | nil => simp [checkValues]
  | cons c rest ih =>
      cases values with
      | nil => simp [checkValues]
      | cons v values =>
          simp only [checkValues, Outcome.bind_eq_ok_iff, List.zip_cons_cons,
            List.forall_mem_cons, ih]
          constructor
          · rintro ⟨u, hv, hrest⟩
            exact ⟨checkValue_eq_ok_iff.mp hv, hrest⟩
          · rintro ⟨hv, hrest⟩
            exact ⟨(), checkValue_eq_ok_iff.mpr hv, hrest⟩

theorem checkRow_eq_ok_iff :
    t.checkRow values = .ok () ↔
      values.length = t.columns.length ∧
        ∀ p ∈ t.columns.zip values, p.1.accepts p.2 = true := by
  unfold checkRow
  by_cases h : values.length = t.columns.length
  · simp [h, checkValues_eq_ok_iff]
  · simp [h]

theorem accepts_of_checkRow (h : t.checkRow values = .ok ()) (hc : t.columns[n]? = some c)
    (hv : values[n]? = some v) : c.accepts v = true := by
  apply (checkRow_eq_ok_iff.mp h).2 (c, v)
  apply List.mem_of_getElem? (i := n)
  simp [List.getElem?_zip_eq_some, hc, hv]

theorem type?_of_checkRow (h : t.checkRow values = .ok ()) (hc : t.columns[n]? = some c)
    (hv : values[n]? = some v) : v.type? = none ∨ v.type? = some c.type := by
  have haccepts := accepts_of_checkRow h hc hv
  cases htype : v.type? with
  | none => exact Or.inl rfl
  | some type =>
      have hnull : v.isNull = false := Value.isNull_eq_false_of_type htype
      simp only [Column.accepts, hnull, Value.conformsTo, htype] at haccepts
      simpa using haccepts

theorem getElem?_of_checkRow (h : t.checkRow values = .ok ()) (hc : t.columns[n]? = some c) :
    ∃ v, values[n]? = some v := by
  have hlt : n < t.columns.length := (List.getElem?_eq_some_iff.mp hc).1
  rw [← (checkRow_eq_ok_iff.mp h).1] at hlt
  exact ⟨values[n], List.getElem?_eq_getElem hlt⟩

/-!
## Columns by name
-/

theorem column?_eq_getElem? (hp : t.columnPosition? name = some n) :
    t.column? name = t.columns[n]? := by
  rw [columnPosition?] at hp
  rw [column?, List.find?_eq_bind_findIdx?_getElem?, hp]
  rfl

theorem columns_getElem?_position (hp : t.columnPosition? name = some n)
    (hc : t.column? name = some c) : t.columns[n]? = some c := by
  rw [← column?_eq_getElem? hp, hc]

theorem exists_position (h : ∃ c ∈ t.columns, c.name = name) :
    ∃ position column, t.columnPosition? name = some position ∧ t.column? name = some column := by
  rcases h with ⟨c, hc, rfl⟩
  cases hp : t.columnPosition? c.name with
  | none =>
      rw [columnPosition?, List.findIdx?_eq_none_iff] at hp
      exact absurd (hp c hc) (by simp)
  | some position =>
      rcases List.findIdx?_eq_some_iff_getElem.mp hp with ⟨hlt, _⟩
      refine ⟨position, t.columns[position], rfl, ?_⟩
      rw [column?_eq_getElem? hp]
      exact List.getElem?_eq_getElem hlt

end Table

namespace ColumnIndex

def emptied (c : ColumnIndex) : ColumnIndex :=
  { c with index := c.index.emptied }

def MatchesColumn (c : ColumnIndex) (t : Table) : Prop :=
  ∃ column, t.columns[c.position]? = some column ∧ column.type = c.index.keyType

end ColumnIndex

namespace TableStore

variable {t : Table} {c : ColumnIndex}

theorem mem_emptyIndices_iff :
    c ∈ emptyIndices t ↔
      ∃ d ∈ t.indices, ∃ position column, t.columnPosition? d.column = some position ∧
        t.column? d.column = some column ∧
        c = { position := position, index := .ofDecl d column.type } := by
  simp only [emptyIndices, List.mem_filterMap]
  constructor
  · rintro ⟨d, hd, h⟩
    cases hp : t.columnPosition? d.column with
    | none => simp [hp] at h
    | some position =>
        cases hc : t.column? d.column with
        | none => simp [hp, hc] at h
        | some column =>
            simp only [hp, hc, Option.some.injEq] at h
            exact ⟨d, hd, position, column, hp, hc, h.symm⟩
  · rintro ⟨d, hd, position, column, hp, hc, rfl⟩
    exact ⟨d, hd, by simp [hp, hc]⟩

theorem matchesColumn_of_mem_emptyIndices (h : c ∈ emptyIndices t) : c.MatchesColumn t := by
  rcases mem_emptyIndices_iff.mp h with ⟨d, _, position, column, hp, hc, rfl⟩
  exact ⟨column, Table.columns_getElem?_position hp hc, rfl⟩

theorem emptied_emptyIndices (t : Table) :
    (emptyIndices t).map ColumnIndex.emptied = emptyIndices t := by
  have hself : ∀ c ∈ emptyIndices t, c.emptied = c := by
    intro c hc
    rcases mem_emptyIndices_iff.mp hc with ⟨d, _, position, column, _, _, rfl⟩
    rfl
  rw [List.map_congr_left hself]
  exact List.map_id _

end TableStore

/-!
## Keys of checked rows
-/

theorem ColumnIndex.MatchesColumn.type?_keyOf {c : ColumnIndex} {t : Table} {row : Row}
    (h : c.MatchesColumn t) (hrow : t.checkRow row.values = .ok ()) :
    (c.keyOf row).type? = none ∨ (c.keyOf row).type? = some c.index.keyType := by
  rcases h with ⟨column, hcolumn, htype⟩
  rcases Table.getElem?_of_checkRow hrow hcolumn with ⟨v, hv⟩
  have hkey : c.keyOf row = v := by simp [ColumnIndex.keyOf, hv]
  rw [hkey, ← htype]
  exact Table.type?_of_checkRow hrow hcolumn hv

end RelationalDb
