import RelationalDb.Database.Backstore
import RelationalDb.Database.Basic

/-!
# Sessions

A session is a database at work on a backstore.  A commit writes the net changes to the
backstore first, and only when that has succeeded do they become committed rows.
-/

namespace RelationalDb

def ChangeSet.writes (c : ChangeSet) : List StoreChange :=
  (if c.puts.isEmpty then [] else [.put c.table c.puts]) ++
    (if c.deleted.isEmpty then [] else [.remove c.table c.deleted.keys])

/-- The writes for the indices of a staged store.  Kept indices that were touched are written
anew; stores of indices that are not kept any more are emptied. -/
def TableStore.indexWrites (s : TableStore) (options : DatabaseOptions) (touched : List String) :
    List StoreChange :=
  if options.persistsIndicesOf s.table then
    (s.allIndices.filter fun i => touched.contains i.name).flatMap fun i =>
      [.clear i.name, .put i.name i.toRows]
  else if s.table.persistsIndices then s.allIndices.map fun i => .clear i.name
  else []

def Journal.writes (j : Journal) (options : DatabaseOptions) : List StoreChange :=
  j.netChanges.flatMap (·.writes) ++
    j.staged.values.flatMap fun s => s.indexWrites options j.touched.keys

/-- A database and its backstore. -/
structure Session where
  backstore : Backstore
  database : Database

namespace Session

def onBackstore {α : Type} (a : Action Backstore α) : Action Session α :=
  Action.onPart (·.backstore) (fun b s => { s with backstore := b }) a

def onDatabase {α : Type} (a : Action Database α) : Action Session α :=
  Action.onPart (·.database) (fun d s => { s with database := d }) a

/-- Write a journal to the backstore and let it become committed rows. -/
def flush (j : Journal) : Action Session Unit := do
  if j.isEmpty then return
  onBackstore (Backstore.write (j.writes (← get).database.options))
  onDatabase (modify fun d => { d with committed := j.install d.committed })

/-- Commit a transaction.  If its changes cannot be written, it is aborted. -/
def commit (id : Nat) : Action Session Unit := do
  let t ← Action.ofOutcome ((← get).database.transaction id)
  let (prepared, work) := UnitOfWork.prepare.perform t.work
  let j ← Action.ofOutcome prepared
  let written ← Action.attempt (flush j)
  let (settled, work) :=
    match written with
    | .ok () => (UnitOfWork.finish .committed).perform work
    | .error _ => (UnitOfWork.finish .aborted).perform work
  onDatabase <| modify fun d =>
    Database.releaseLocks id (d.putTransaction (Transaction.settle { t with work := work } written))
  let _ ← Action.ofOutcome settled
  Action.ofOutcome written

def attachAll (id : Nat) : List Statement → Action Database (List ResultSet)
  | [] => return []
  | s :: rest => do
      let r ← Database.attach id s
      return r :: (← attachAll id rest)

/-- Run statements in a transaction and commit it.  The first failure aborts the transaction. -/
def execute (id : Nat) (statements : List Statement) : Action Session (List ResultSet) := do
  match ← Action.attempt (onDatabase (attachAll id statements)) with
  | .ok results => do
      commit id
      return results
  | .error f => do
      let _ ← Action.attempt (onDatabase (Database.abortFor f id))
      throw f

/-- Run a statement in a transaction of its own.  A statement that is not well formed does not
get one. -/
def executeAlone (s : Statement) : Action Session ResultSet := do
  Action.ofOutcome s.check
  let id ← onDatabase (Database.begin s.mode)
  let r ← Action.attempt do
    let rows ← onDatabase (Database.attach id s)
    commit id
    return rows
  let _ ← onDatabase (Database.drop id)
  Action.ofOutcome r

end Session

end RelationalDb
