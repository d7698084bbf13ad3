import RelationalDb.Database.Statement
import RelationalDb.Plan.Planner

/-!
# Running statements

A statement runs on what its unit of work sees, and its changes are staged there.  An
insertion takes ids from the source of row ids, and an id that was taken stays taken even
if the insertion fails.
-/

namespace RelationalDb

/-- What a statement works on: the staged writes and the source of row ids. -/
structure Workspace where
  work : UnitOfWork
  rowIds : RowIdSource

namespace Workspace

def onWork {α : Type} (a : Action UnitOfWork α) : Action Workspace α :=
  Action.onPart (·.work) (fun work w => { w with work := work }) a

def freshId : Action Workspace RowId := do
  let (id, rest) := (← get).rowIds.take
  modify fun w => { w with rowIds := rest }
  return id

end Workspace

def Table.writtenRows (t : Table) (rows : List (List Value)) : ResultSet :=
  { names := t.columns.map (·.outputName), rows := rows }

def TableStore.rowWithKeyOf? (s : TableStore) (values : List Value) : Option Row := do
  let key ← s.table.primaryKey
  let position ← s.table.columnPosition? key.column
  s.rowOfKey? (← values[position]?)

namespace Insertion

def replaced? (i : Insertion) (v : View) (values : List Value) : Option Row := do
  (← v.store? i.table.name).rowWithKeyOf? values

/-- Insert one row, or replace the one with its primary key. -/
def writeRow (i : Insertion) (committed : Committed) (values : List Value) :
    Action Workspace Unit := do
  let old ←
    if i.replace then do
      let view ← Action.ofOutcome ((← get).work.view committed)
      pure (i.replaced? view values)
    else pure none
  match old with
  | some old =>
      let _ ← Workspace.onWork
        (UnitOfWork.update committed i.table.name { old with values := values })
  | none =>
      let id ← Workspace.freshId
      let _ ← Workspace.onWork
        (UnitOfWork.insert committed i.table.name { id := id, values := values })

def run (i : Insertion) (committed : Committed) : Action Workspace ResultSet := do
  i.rows.forM (i.writeRow committed)
  return i.table.writtenRows i.rows

end Insertion

namespace Update

def newValues (u : Update) (values : List Value) : List Value :=
  u.sets.foldl (fun vs s => vs.set s.1.position s.2) values

def run (u : Update) (planner : Planner) (committed : Committed) :
    Action Workspace ResultSet := do
  let view ← Action.ofOutcome ((← get).work.view committed)
  let rows ← Action.ofOutcome (planner.matchingRows view.store? u.table u.predicate)
  let new := rows.map fun row => { row with values := u.newValues row.values }
  new.forM fun row => do
    let _ ← Workspace.onWork (UnitOfWork.update committed u.table.name row)
  return u.table.writtenRows (new.map (·.values))

end Update

namespace Deletion

def run (d : Deletion) (planner : Planner) (committed : Committed) :
    Action Workspace ResultSet := do
  let view ← Action.ofOutcome ((← get).work.view committed)
  let rows ← Action.ofOutcome (planner.matchingRows view.store? d.table d.predicate)
  rows.forM fun row => do
    let _ ← Workspace.onWork (UnitOfWork.delete committed d.table.name row.id)
  return d.table.writtenRows (rows.map (·.values))

end Deletion

def Statement.run (planner : Planner) (committed : Committed) :
    Statement → Action Workspace ResultSet
  | select q => do
      let view ← Action.ofOutcome ((← get).work.view committed)
      Action.ofOutcome (planner.execute view.store? q)
  | insert i => i.run committed
  | update u => u.run planner committed
  | delete d => d.run planner committed

end RelationalDb
