import RelationalDb.Schema.Catalog
import RelationalDb.Store.UnitOfWork

/-!
# The backstore

The backstore keeps rows beyond the life of a database, in stores that have names: one
for every table, and one for every index that is kept.  It is written in transactions,
whose writes are applied all together or not at all.  It counts the calls that are made
to it and can be told to fail at some of them.
-/

namespace RelationalDb

inductive BackstoreCall
  | init
  | begin
  | read
  | put
  | remove
  | clear
  | commit
  | abort
deriving DecidableEq, Inhabited

namespace BackstoreCall

def all : List BackstoreCall :=
  [init, begin, read, put, remove, clear, commit, abort]

def name : BackstoreCall → String
  | init => "init"
  | begin => "create_tx"
  | read => "get_table"
  | put => "put"
  | remove => "remove"
  | clear => "clear"
  | commit => "commit"
  | abort => "abort"

def ofName? (s : String) : Option BackstoreCall :=
  all.find? fun c => c.name == s

end BackstoreCall

inductive StoreChange
  | put (store : String) (rows : List Row)
  | remove (store : String) (ids : List RowId)
  | clear (store : String)

def StoreChange.call : StoreChange → BackstoreCall
  | put _ _ => .put
  | remove _ _ => .remove
  | clear _ => .clear

abbrev RowMap := SortedMap RowId Row

def RowMap.putAll (m : RowMap) (rows : List Row) : RowMap :=
  m.insertAll (rows.map fun row => (row.id, row))

/-- The stores of a backstore, the calls that were made, and the messages of the calls that are
to fail. -/
structure Backstore where
  stores : SortedMap String RowMap := {}
  calls : List BackstoreCall := []
  faults : List (BackstoreCall × String) := []

namespace Backstore

/-!
## Stores
-/

def ensure (b : Backstore) (name : String) (rows : List Row) : Backstore :=
  if b.stores.contains name then b
  else { b with stores := b.stores.insert name (RowMap.putAll {} rows) }

/-- Make the stores of a table and, if it keeps its indices, those of its empty indices. -/
def ensureTable (b : Backstore) (t : Table) : Backstore :=
  let b := b.ensure t.name []
  if t.persistsIndices then
    (TableStore.empty t).allIndices.foldl (fun b i => b.ensure i.name i.toRows) b
  else b

def ensureTables (b : Backstore) (c : Catalog) : Backstore :=
  c.tables.foldl ensureTable b

def rows (b : Backstore) (name : String) : Outcome (List Row) :=
  match b.stores.get? name with
  | some m => .ok m.values
  | none => .error (.tableNotFound name)

/-- Apply a change.  Rows can be put into a store that is not there yet. -/
def apply (b : Backstore) : StoreChange → Backstore
  | .put name rows =>
      { b with stores := b.stores.insert name (((b.stores.get? name).getD {}).putAll rows) }
  | .remove name ids =>
      match b.stores.get? name with
      | some m => { b with stores := b.stores.insert name (ids.foldl SortedMap.erase m) }
      | none => b
  | .clear name => { b with stores := b.stores.insert name {} }

def applyAll (b : Backstore) (writes : List StoreChange) : Backstore :=
  writes.foldl apply b

/-!
## Calls
-/

def callCount (b : Backstore) (c : BackstoreCall) : Nat :=
  b.calls.count c

def failAt (b : Backstore) (c : BackstoreCall) (message : String) : Backstore :=
  { b with faults := (c, message) :: b.faults }

def repair (b : Backstore) : Backstore :=
  { b with faults := [] }

def count (c : BackstoreCall) : Action Backstore Unit :=
  modify fun b => { b with calls := c :: b.calls }

def call (c : BackstoreCall) : Action Backstore Unit := do
  count c
  match (← get).faults.find? fun f => f.1 == c with
  | some (_, message) => throw (.storage message)
  | none => return

def init (c : Catalog) : Action Backstore Unit := do
  call .init
  modify fun b => b.ensureTables c

def read (name : String) : Action Backstore (List Row) := do
  call .read
  Action.ofOutcome ((← get).rows name)

/-- Make writes in a transaction.  Nothing is applied before the transaction is committed, and
after a failure nothing is applied at all. -/
def write (writes : List StoreChange) : Action Backstore Unit := do
  count .begin
  match ← Action.attempt (writes.forM fun w => call w.call) with
  | .error f => do
      count .abort
      throw f
  | .ok () => do
      call .commit
      modify fun b => b.applyAll writes

end Backstore

/-!
## Transactions
-/

structure BackstoreTransaction where
  mode : AccessMode
  writes : List StoreChange := []

def BackstoreTransaction.add (t : BackstoreTransaction) (w : StoreChange) :
    Outcome BackstoreTransaction :=
  match t.mode with
  | .readWrite => .ok { t with writes := t.writes ++ [w] }
  | .readOnly => .error (.operation .storeReadOnly)

end RelationalDb
