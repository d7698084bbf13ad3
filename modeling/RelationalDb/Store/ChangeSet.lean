import RelationalDb.Row
import RelationalDb.SortedMap

/-!
# Net changes of a table

A change set keeps, for every row id, the net effect of a sequence of changes: a row that
was added, a row that was modified together with what it was, or a row that was deleted.
-/

namespace RelationalDb

structure ChangeSet where
  table : String
  added : SortedMap RowId Row := {}
  modified : SortedMap RowId (Row × Row) := {}
  deleted : SortedMap RowId Row := {}

namespace ChangeSet

/-- Record a new row.  A row that was deleted before and comes back counts as modified. -/
def add (c : ChangeSet) (row : Row) : ChangeSet :=
  match c.deleted.get? row.id with
  | some old =>
      { c with
        deleted := c.deleted.erase row.id
        modified := c.modified.insert row.id (old, row) }
  | none => { c with added := c.added.insert row.id row }

/-- Record new values of a row.  What it was at the beginning stays on record. -/
def modify (c : ChangeSet) (old new : Row) : ChangeSet :=
  if c.added.contains old.id then { c with added := c.added.insert old.id new }
  else
    match c.modified.get? old.id with
    | some (first, _) => { c with modified := c.modified.insert old.id (first, new) }
    | none => { c with modified := c.modified.insert old.id (old, new) }

/-- Record that a row is gone.  A row that was added before leaves no record. -/
def delete (c : ChangeSet) (row : Row) : ChangeSet :=
  if c.added.contains row.id then { c with added := c.added.erase row.id }
  else
    match c.modified.get? row.id with
    | some (first, _) =>
        { c with
          modified := c.modified.erase row.id
          deleted := c.deleted.insert row.id first }
    | none => { c with deleted := c.deleted.insert row.id row }

/-- The rows to be written: the added ones, then the modified ones as they are now. -/
def puts (c : ChangeSet) : List Row :=
  c.added.values ++ c.modified.values.map (·.2)

def isEmpty (c : ChangeSet) : Bool :=
  c.added.isEmpty && c.modified.isEmpty && c.deleted.isEmpty

end ChangeSet

end RelationalDb
