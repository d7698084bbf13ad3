import RelationalDb.Query.Select
import RelationalDb.Relation.Basic
import RelationalDb.SortKey

/-!
# Sorting
-/

namespace RelationalDb

namespace Relation

/-- The values by which an entry is sorted; a column that is not there counts as null. -/
def sortKey (r : Relation) (order : SortOrder) (e : Entry) : List Value :=
  order.map fun o => r.valueOrNull e o.1

/-- Sort the entries.  Entries with equal keys stay in their order. -/
def sort (r : Relation) (order : SortOrder) : Relation :=
  let keyed := r.entries.map fun e => (r.sortKey order e, e)
  let sorted := keyed.mergeSort fun a b => compareKeys (order.map (·.2)) a.1 b.1 != .gt
  { r with entries := sorted.map (·.2) }

end Relation

end RelationalDb
