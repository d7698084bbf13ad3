import RelationalDb.Store.Journal

/-!
# Units of work

A unit of work is a journal together with its number, what it may do and whether it is
still going on.
-/

namespace RelationalDb

inductive AccessMode
  | readOnly
  | readWrite
deriving DecidableEq, Inhabited

inductive Phase
  | active
  | ended (ending : Ending)
deriving DecidableEq, Inhabited

structure UnitOfWork where
  id : Nat
  mode : AccessMode
  journal : Journal := {}
  phase : Phase := .active

namespace UnitOfWork

def isActive (u : UnitOfWork) : Bool :=
  u.phase == .active

def checkActive (u : UnitOfWork) : Outcome Unit :=
  match u.phase with
  | .active => .ok ()
  | .ended ending => .error (.operation (.transactionEnded u.id ending))

def checkWritable (u : UnitOfWork) : Outcome Unit := do
  u.checkActive
  match u.mode with
  | .readWrite => return
  | .readOnly => throw (.operation (.transactionReadOnly u.id))

/-- Let an action work on the journal, provided that writing is allowed. -/
def write {α : Type} (a : Action Journal α) : Action UnitOfWork α := do
  Action.ofOutcome (← get).checkWritable
  Action.onPart (·.journal) (fun j u => { u with journal := j }) a

def insert (committed : Committed) (table : String) (row : Row) : Action UnitOfWork RowId := do
  write (Journal.insert committed table row)
  return row.id

def update (committed : Committed) (table : String) (row : Row) : Action UnitOfWork Row :=
  write (Journal.update committed table row)

def delete (committed : Committed) (table : String) (id : RowId) : Action UnitOfWork Row :=
  write (Journal.delete committed table id)

def view (u : UnitOfWork) (committed : Committed) : Outcome View := do
  u.checkActive
  return { committed := committed, journal := some u.journal }

/-- Hand over the staged writes.  The unit of work goes on until it is ended. -/
def prepare : Action UnitOfWork Journal := do
  let u ← get
  Action.ofOutcome u.checkActive
  set { u with journal := {} }
  return u.journal

def finish (ending : Ending) : Action UnitOfWork Journal := do
  let u ← get
  Action.ofOutcome u.checkActive
  set { u with journal := {}, phase := .ended ending }
  return u.journal

def commit : Action UnitOfWork Journal :=
  finish .committed

def abort : Action UnitOfWork Unit := do
  let _ ← finish .aborted

end UnitOfWork

end RelationalDb
