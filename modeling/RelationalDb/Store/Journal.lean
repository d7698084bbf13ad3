import RelationalDb.Store.ChangeSet
import RelationalDb.Store.Committed

/-!
# Staged writes

A journal collects the writes of one transaction.  The first write to a table takes a
copy of its committed store, later writes work on the copy, and the net changes and the
names of the indices they touched are kept beside it.
-/

namespace RelationalDb

structure Journal where
  staged : SortedMap String TableStore := {}
  changes : SortedMap String ChangeSet := {}
  touched : SortedMap String Unit := {}

/-- What a reader sees: the staged stores, and the committed ones of all other tables. -/
structure View where
  committed : Committed
  journal : Option Journal := none

def View.store? (v : View) (table : String) : Option TableStore :=
  match v.journal.bind fun j => j.staged.get? table with
  | some s => some s
  | none => v.committed.store? table

namespace Journal

def stage (committed : Committed) (table : String) : Action Journal TableStore := do
  let j ← get
  match j.staged.get? table with
  | some s => return s
  | none =>
      let s ← Action.ofOutcome (committed.snapshot table)
      set { j with
        staged := j.staged.insert table s
        changes := j.changes.insert table { table := table } }
      return s

def onStaged {α : Type} (table : String) (s : TableStore) (a : Action TableStore α) :
    Action Journal α :=
  Action.onPart (fun j => (j.staged.get? table).getD s)
    (fun s j => { j with staged := j.staged.insert table s }) a

def record (table : String) (touched : List String) (f : ChangeSet → ChangeSet) (j : Journal) :
    Journal :=
  { j with
    changes := j.changes.insert table (f ((j.changes.get? table).getD { table := table }))
    touched := j.touched.insertAll (touched.map fun name => (name, ())) }

def indexNames (s : TableStore) : List String :=
  s.allIndices.map (·.name)

/-- The names of the indices over columns in which two rows differ. -/
def indexNamesBetween (s : TableStore) (old new : Row) : List String :=
  (s.indices.filter fun c => old.values[c.position]? != new.values[c.position]?).map
    (·.index.name)

def insert (committed : Committed) (table : String) (row : Row) : Action Journal Unit := do
  let s ← stage committed table
  onStaged table s (TableStore.insert row)
  modify (record table (indexNames s) fun c => c.add row)

def update (committed : Committed) (table : String) (row : Row) : Action Journal Row := do
  let s ← stage committed table
  let old ← onStaged table s (TableStore.update row)
  modify (record table (indexNamesBetween s old row) fun c => c.modify old row)
  return old

def delete (committed : Committed) (table : String) (id : RowId) : Action Journal Row := do
  let s ← stage committed table
  let old ← onStaged table s (TableStore.delete id)
  modify (record table (indexNames s) fun c => c.delete old)
  return old

def isEmpty (j : Journal) : Bool :=
  j.changes.values.all (·.isEmpty)

def netChanges (j : Journal) : List ChangeSet :=
  j.changes.values.filter fun c => !c.isEmpty

def install (j : Journal) (committed : Committed) : Committed :=
  j.staged.values.foldl Committed.replaceStore committed

end Journal

end RelationalDb
