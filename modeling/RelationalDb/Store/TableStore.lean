import RelationalDb.Action
import RelationalDb.Index.TableIndex

/-!
# The rows of a table

A table store holds the rows of one table by their ids, together with the index over the
row ids and one index for every declared one.  Every write keeps the indices in step with
the rows.
-/

namespace RelationalDb

structure ColumnIndex where
  position : Nat
  index : KeyIndex

structure TableStore where
  table : Table
  rows : SortedMap RowId Row := {}
  rowIds : RowIdIndex := { name := table.rowIdIndexName }
  indices : List ColumnIndex

/-- The key that a row has in an index; a column that is not there is null. -/
def ColumnIndex.keyOf (c : ColumnIndex) (row : Row) : Value :=
  row.values[c.position]?.getD .null

namespace ColumnIndex

def enter (row : Row) : Action ColumnIndex Unit := do
  let c ← get
  let index ← Action.ofOutcome (c.index.add (c.keyOf row) row.id)
  set { c with index := index }

def strike (row : Row) : Action ColumnIndex Unit :=
  modify fun c => { c with index := c.index.remove (c.keyOf row) row.id }

/-- Move a row from its old key to its new one, if they differ. -/
def move (old new : Row) : Action ColumnIndex Unit := do
  let c ← get
  if c.keyOf old == c.keyOf new then return
  strike old
  enter new

end ColumnIndex

namespace TableStore

def emptyIndices (t : Table) : List ColumnIndex :=
  t.indices.filterMap fun d =>
    match t.columnPosition? d.column, t.column? d.column with
    | some position, some c => some { position := position, index := .ofDecl d c.type }
    | _, _ => none

def empty (t : Table) : TableStore :=
  { table := t, indices := emptyIndices t }

/-!
## Reading
-/

def size (s : TableStore) : Nat :=
  s.rows.size

def row? (s : TableStore) (id : RowId) : Option Row :=
  s.rows.get? id

def toList (s : TableStore) : List Row :=
  s.rows.values

/-- The rows of the given ids; ids of no row are passed over. -/
def rowsOf (s : TableStore) (ids : List RowId) : List Row :=
  ids.filterMap s.row?

def greatestId? (s : TableStore) : Option RowId :=
  s.rows.keys.getLast?

/-- All indices, the one over the row ids first. -/
def allIndices (s : TableStore) : List TableIndex :=
  .ofRowIds s.rowIds :: s.indices.map fun c => .ofKeys c.index

/-- An index by its full name, or by its name within the table. -/
def index? (s : TableStore) (name : String) : Option TableIndex :=
  if name == s.rowIds.name then some (.ofRowIds s.rowIds)
  else
    (s.indices.find? fun c =>
      c.index.name == name || c.index.name == s.table.name ++ "." ++ name).map
        fun c => .ofKeys c.index

def scanIndex (s : TableStore) (name : String) (wanted : Option (KeyRange Value))
    (direction : Direction) (limit : Option Nat) (skip : Nat) : Outcome (List Row) :=
  match s.index? name with
  | none => .error (.indexNotFound s.table.name name)
  | some index => do
      let ids ← index.range wanted direction limit skip
      return s.rowsOf ids

def rowOfKey? (s : TableStore) (key : Value) : Option Row := do
  let d ← s.table.primaryKey
  let index ← s.index? d.name
  let id ← (index.get key).head?
  s.row? id

/-!
## Writing
-/

def checkUnique (s : TableStore) (row : Row) : Outcome Unit :=
  s.indices.forM fun c =>
    if c.index.conflicts (c.keyOf row) row.id then
      .error (.keyNotUnique c.index.name (c.keyOf row))
    else .ok ()

def rowMissing (s : TableStore) (id : RowId) : Failure :=
  .operation (.rowMissing id s.table.name)

def onIndices (a : Action ColumnIndex Unit) : Action TableStore Unit :=
  Action.onPart (·.indices) (fun indices s => { s with indices := indices }) (Action.onEach a)

def insert (row : Row) : Action TableStore Unit := do
  let s ← get
  if s.rows.contains row.id then throw (.operation (.rowExists row.id s.table.name))
  Action.ofOutcome (s.table.checkRow row.values)
  Action.ofOutcome (s.checkUnique row)
  let rowIds ← Action.ofOutcome (s.rowIds.add (RowIdIndex.keyOfId row.id))
  modify fun s => { s with rowIds := rowIds }
  onIndices (ColumnIndex.enter row)
  modify fun s => { s with rows := s.rows.insert row.id row }

def update (row : Row) : Action TableStore Row := do
  let s ← get
  match s.row? row.id with
  | none => throw (s.rowMissing row.id)
  | some old =>
      Action.ofOutcome (s.table.checkRow row.values)
      Action.ofOutcome (s.checkUnique row)
      onIndices (ColumnIndex.move old row)
      modify fun s => { s with rows := s.rows.insert row.id row }
      return old

def delete (id : RowId) : Action TableStore Row := do
  let s ← get
  match s.row? id with
  | none => throw (s.rowMissing id)
  | some row =>
      modify fun s =>
        { s with
          rows := s.rows.erase id
          rowIds := s.rowIds.remove (RowIdIndex.keyOfId id) }
      onIndices (ColumnIndex.strike row)
      return row

/-!
## Loading
-/

def ofRows (t : Table) (rows : List Row) : Outcome TableStore :=
  Action.finalState (rows.forM insert) (empty t)

/-- Take the first item that satisfies the condition out of a list; the last item moves to its
place. -/
def takeOut {α : Type} (p : α → Bool) (items : List α) : Option (α × List α) :=
  match items.findIdx? p with
  | none => none
  | some i =>
      match items[i]?, items.getLast? with
      | some found, some last => some (found, (items.set i last).dropLast)
      | _, _ => none

/-- Give every empty index the supplied one of its name.  An index that was not supplied is
marked as one to be made anew. -/
def adopt : List ColumnIndex → List KeyIndex → List (ColumnIndex × Bool)
  | [], _ => []
  | c :: rest, supplied =>
      match takeOut (fun i => i.name == c.index.name) supplied with
      | some (index, supplied) => ({ c with index := index }, false) :: adopt rest supplied
      | none => (c, true) :: adopt rest supplied

def enterAnew (row : Row) (marked : List (ColumnIndex × Bool)) :
    Outcome (List (ColumnIndex × Bool)) :=
  marked.mapM fun (c, anew) =>
    if anew then (Action.finalState (ColumnIndex.enter row) c).map fun c => (c, true)
    else .ok (c, anew)

/-- A store with the given rows and indices.  Indices are matched by their full names; one that
was not supplied is made anew.  The index over the row ids has to have as many ids as there are
rows. -/
def ofParts (t : Table) (rows : List Row) (rowIds : RowIdIndex) (supplied : List KeyIndex) :
    Outcome TableStore := do
  if rowIds.size ≠ rows.length then
    throw (.data (.idCount rowIds.name rowIds.size rows.length))
  let marked ← rows.foldlM (fun marked row => enterAnew row marked)
    (adopt (emptyIndices t) supplied)
  return {
    table := t
    rows := .ofList (rows.map fun row => (row.id, row))
    rowIds := rowIds
    indices := marked.map (·.1) }

end TableStore

end RelationalDb
