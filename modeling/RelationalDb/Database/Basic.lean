import RelationalDb.Database.Execution
import RelationalDb.Database.Options
import RelationalDb.Schema.Catalog
import RelationalDb.Store.Locks
import RelationalDb.Text.Quoted

/-!
# Databases and their transactions

A database has its tables, the committed rows, the write locks, and the transactions that
go on or whose outcome can still be asked for.
-/

namespace RelationalDb

/-- A transaction: its unit of work, and its outcome once that is settled. -/
structure Transaction where
  work : UnitOfWork
  outcome : Option (Outcome Unit) := none

structure Database where
  catalog : Catalog
  committed : Committed
  rowIds : RowIdSource
  options : DatabaseOptions := {}
  planner : Planner := {}
  locks : Locks := {}
  nextTransaction : Nat := 1
  transactions : SortedMap Nat Transaction := {}

/-- The outcome as it is known from now on; the first one stands. -/
def Transaction.settle (t : Transaction) (r : Outcome Unit) : Transaction :=
  { t with outcome := some (t.outcome.getD r) }

def Transaction.text (t : Transaction) : String :=
  let mode :=
    match t.work.mode with
    | .readOnly => "ReadOnly"
    | .readWrite => "ReadWrite"
  let state :=
    match t.work.phase with
    | .active => "Active"
    | .ended .committed => "Committed"
    | .ended .aborted => "Aborted"
  "Transaction \x7b id: " ++ toString t.work.id ++ ", tx_type: " ++ mode ++ ", state: " ++ state ++
    " \x7d"

namespace Database

def text (d : Database) : String :=
  "Context \x7b schema: " ++ quoted d.catalog.name ++ ", tables: Some(" ++
    toString d.committed.stores.size ++ "), next_row_id: " ++ toString d.rowIds.next.toNat ++
    ", options: " ++ d.options.text ++ " \x7d"

def rowCount (d : Database) (table : String) : Outcome Nat :=
  (d.committed.snapshot table).map (·.size)

def explain (d : Database) (q : Select) : Outcome String :=
  d.planner.explain d.committed.store? q

def transaction (d : Database) (id : Nat) : Outcome Transaction :=
  match d.transactions.get? id with
  | some t => .ok t
  | none => .error (.operation (.transactionInactive id))

def putTransaction (t : Transaction) (d : Database) : Database :=
  { d with transactions := d.transactions.insert t.work.id t }

def releaseLocks (id : Nat) (d : Database) : Database :=
  { d with locks := d.locks.release id }

/-!
## Beginning and ending
-/

/-- Begin a transaction.  One that only reads is as good as committed. -/
def begin (mode : AccessMode) : Action Database Nat := do
  let d ← get
  let id := d.nextTransaction
  let outcome :=
    match mode with
    | .readOnly => some (.ok ())
    | .readWrite => none
  set (putTransaction { work := { id := id, mode := mode }, outcome := outcome }
    { d with nextTransaction := id + 1 })
  return id

def abortFor (reason : Failure) (id : Nat) : Action Database Unit := do
  let t ← Action.ofOutcome ((← get).transaction id)
  let (r, work) := UnitOfWork.abort.perform t.work
  Action.ofOutcome r
  modify fun d =>
    releaseLocks id (d.putTransaction (Transaction.settle { t with work := work } (.error reason)))

def abort (id : Nat) : Action Database Unit :=
  abortFor (.transactionAborted id) id

/-- Give a transaction up.  One that is still going on loses its locks.  The result is the
outcome of the transaction. -/
def drop (id : Nat) : Action Database (Outcome Unit) := do
  let t ← Action.ofOutcome ((← get).transaction id)
  if t.work.isActive then modify (releaseLocks id)
  modify fun d => { d with transactions := d.transactions.erase id }
  return t.outcome.getD (.error (.transactionAborted id))

/-!
## Statements in transactions
-/

def accept (d : Database) (t : Transaction) (s : Statement) : Outcome Locks := do
  if !t.work.isActive then throw (.operation (.transactionInactive t.work.id))
  s.check
  match s.target with
  | none => return d.locks
  | some table =>
      match t.work.mode with
      | .readOnly => throw (.operation (.transactionReadOnly t.work.id))
      | .readWrite => d.locks.acquire table.name t.work.id

/-- Run a statement in a transaction.  A statement that is not admitted leaves no trace; one that
fails while it runs aborts the transaction. -/
def attach (id : Nat) (s : Statement) : Action Database ResultSet := do
  let d ← get
  let t ← Action.ofOutcome (d.transaction id)
  let locks ← Action.ofOutcome (d.accept t s)
  let (r, space) := (s.run d.planner d.committed).perform { work := t.work, rowIds := d.rowIds }
  set (putTransaction { t with work := space.work }
    { d with locks := locks, rowIds := space.rowIds })
  match r with
  | .ok rows => return rows
  | .error f => do
      abortFor f id
      throw f

end Database

end RelationalDb
