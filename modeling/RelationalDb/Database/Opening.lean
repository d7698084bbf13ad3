import RelationalDb.Database.Backstore
import RelationalDb.Database.Basic

/-!
# Opening a database

The tables are loaded from the backstore.  The indices of a table that keeps them are
loaded too, and every index that is not there is made anew.  Row ids go on after the
greatest one that was loaded.
-/

namespace RelationalDb

namespace Backstore

/-- Read the store of an index.  There is nothing to be read if the store is missing or empty. -/
def readIndex (name : String) : Action Backstore (Option (List Row)) := do
  match ← Action.attempt (read name) with
  | .ok [] => return none
  | .ok rows => return some rows
  | .error f => if f.kind = .notFound then return none else throw f

def readIndices : List IndexDecl → Action Backstore (List KeyIndex)
  | [] => return []
  | i :: rest => do
      match ← readIndex i.fullName with
      | none => readIndices rest
      | some rows => do
          let index ← Action.ofOutcome (KeyIndex.ofRows i.fullName rows)
          return index :: (← readIndices rest)

def loadTable (t : Table) (persistent : Bool) : Action Backstore TableStore := do
  let rows ← read t.name
  if !persistent then Action.ofOutcome (TableStore.ofRows t rows)
  else
    match ← readIndex t.rowIdIndexName with
    | none => Action.ofOutcome (TableStore.ofRows t rows)
    | some idRows => do
        let rowIds ← Action.ofOutcome (RowIdIndex.ofRows t.rowIdIndexName idRows)
        let indices ← readIndices t.indices
        Action.ofOutcome (TableStore.ofParts t rows rowIds indices)

end Backstore

namespace Database

def adoptStore (d : Database) (s : TableStore) : Outcome Database := do
  return {
    d with
    committed := ← d.committed.addStore s
    rowIds := (s.greatestId?.map d.rowIds.observe).getD d.rowIds }

def loadTables (d : Database) : List Table → Action Backstore Database
  | [] => return d
  | t :: rest => do
      let s ← Backstore.loadTable t (d.options.persistsIndicesOf t)
      let d ← Action.ofOutcome (d.adoptStore s)
      loadTables d rest

def load (c : Catalog) (options : DatabaseOptions) : Action Backstore Database := do
  Action.ofOutcome options.check
  Backstore.init c
  Backstore.count .begin
  let d ← loadTables
    { catalog := c
      committed := {}
      rowIds := .startingAt options.firstRowId
      options := options } c.tables
  Backstore.call .commit
  return d

end Database

end RelationalDb
