import Mathlib
import RelationalDb.Plan.Lowering
import RelationalDb.Proofs.Actions
import RelationalDb.Proofs.Schema.Columns

/-!
# All columns of a table

Where a query names no columns, every column of its tables is looked up by its name.  This always
succeeds, and it leads to the columns themselves unless two columns of a table share a name: then
the first of them is found for both.
-/

namespace RelationalDb

namespace Table

variable {t : Table} {c : Column}

/-- The reference to the first column that has the name of this one. -/
def firstNamed (t : Table) (c : Column) : ColumnRef :=
  .atPosition t (t.columns.findIdx fun d => d.name == c.name)
    ((t.columns.find? fun d => d.name == c.name).getD c)

def namedColumns (t : Table) : List ColumnRef :=
  t.columns.map t.firstNamed

def placedColumns (t : Table) : List ColumnRef :=
  t.columns.zipIdx.map fun p => .atPosition t p.2 p.1

theorem columnRef_of_mem (hc : c ∈ t.columns) : t.columnRef c.name = .ok (t.firstNamed c) := by
  rcases exists_position ⟨c, hc, rfl⟩ with ⟨position, column, hposition, hcolumn⟩
  have hfirst := hposition
  rw [columnPosition?, List.findIdx?_eq_some_iff_findIdx_eq] at hfirst
  have hfind : (t.columns.find? fun d => d.name == c.name) = some column := hcolumn
  rw [columnRef, hposition, hcolumn, firstNamed, hfirst.2, hfind]
  rfl

theorem columnRefs_eq (t : Table) : t.columnRefs = .ok t.namedColumns := by
  rw [columnRefs, Outcome.mapM_eq_ok_iff, namedColumns, List.forall₂_map_right_iff,
    List.forall₂_same]
  exact fun c hc => columnRef_of_mem hc

theorem firstNamed_getElem (h : (t.columns.map (·.name)).Nodup) {i : Nat}
    (hi : i < t.columns.length) : t.firstNamed t.columns[i] = .atPosition t i t.columns[i] := by
  have hindex : (t.columns.findIdx fun d => d.name == t.columns[i].name) = i := by
    rw [List.findIdx_eq hi]
    constructor
    · exact beq_self_eq_true _
    · intro j hj
      have hdistinct := List.pairwise_iff_getElem.mp h j i (by simp; omega) (by simpa using hi) hj
      simpa using hdistinct
  have hfind : (t.columns.find? fun d => d.name == t.columns[i].name) = some t.columns[i] := by
    rw [List.find?_eq_getElem?_findIdx, hindex]
    exact List.getElem?_eq_getElem hi
  rw [firstNamed, hindex, hfind, Option.getD_some]

theorem namedColumns_eq (h : (t.columns.map (·.name)).Nodup) :
    t.namedColumns = t.placedColumns := by
  apply List.ext_getElem
  · simp [namedColumns, placedColumns]
  · intro i hi _
    rw [namedColumns, List.length_map] at hi
    simp [namedColumns, placedColumns, firstNamed_getElem h hi]

end Table

namespace PhysicalPlan

/-- The items of a projection; without any, the columns of the tables under their names. -/
def itemsOf (columns : List Expression) (tables : List Table) : List Expression :=
  if columns.isEmpty then tables.flatMap fun t => t.namedColumns.map .column else columns

theorem resultColumns_eq (columns : List Expression) (tables : List Table) :
    resultColumns columns tables = .ok (itemsOf columns tables) := by
  unfold resultColumns itemsOf
  split
  · have hrefs : tables.mapM (·.columnRefs) = .ok (tables.map (·.namedColumns)) := by
      rw [Outcome.mapM_eq_ok_iff, List.forall₂_map_right_iff, List.forall₂_same]
      exact fun t _ => t.columnRefs_eq
    rw [hrefs, Outcome.ok_bind, ← List.flatMap_def, List.map_flatMap]
    rfl
  · rfl

end PhysicalPlan

end RelationalDb
