import RelationalDb.Database.Opening
import RelationalDb.Database.Session

/-!
# Several databases on one backstore

A host keeps a backstore, the databases that were opened on it under names, and
transactions under names of their own.  A database that is opened under a name that is
taken is a new one; transactions of the old one go on there.
-/

namespace RelationalDb

structure TransactionHandle where
  database : Nat
  transaction : Nat

structure Host where
  backstore : Backstore := {}
  databases : List Database := []
  names : SortedMap String Nat := {}
  handles : SortedMap String TransactionHandle := {}

namespace Host

def numberOf (h : Host) (name : String) : Outcome Nat :=
  match h.names.get? name with
  | some n => .ok n
  | none => .error (.operation (.notOpen name))

def numbered (h : Host) (n : Nat) : Outcome Database :=
  match h.databases[n]? with
  | some d => .ok d
  | none => .error (.operation (.notOpen (toString n)))

def database (h : Host) (name : String) : Outcome Database := do
  h.numbered (← h.numberOf name)

def handle (h : Host) (name : String) : Outcome TransactionHandle :=
  match h.handles.get? name with
  | some t => .ok t
  | none => .error (.operation (.notOpen name))

def transactionOf (h : Host) (t : TransactionHandle) : Outcome Transaction := do
  (← h.numbered t.database).transaction t.transaction

def transactions (h : Host) : List Transaction :=
  h.handles.values.filterMap fun t => (h.transactionOf t).toOption

def onBackstore {α : Type} (a : Action Backstore α) : Action Host α :=
  Action.onPart (·.backstore) (fun b h => { h with backstore := b }) a

def onNumbered {α : Type} (n : Nat) (a : Action Session α) : Action Host α := do
  let d ← Action.ofOutcome ((← get).numbered n)
  Action.onPart (fun h => { backstore := h.backstore, database := d })
    (fun s h => { h with backstore := s.backstore, databases := h.databases.set n s.database }) a

def onDatabase {α : Type} (name : String) (a : Action Session α) : Action Host α := do
  onNumbered (← Action.ofOutcome ((← get).numberOf name)) a

def onTransaction {α : Type} (name : String) (a : Nat → Action Session α) : Action Host α := do
  let t ← Action.ofOutcome ((← get).handle name)
  onNumbered t.database (a t.transaction)

def load (name : String) (c : Catalog) (options : DatabaseOptions) : Action Host Database := do
  let d ← onBackstore (Database.load c options)
  modify fun h =>
    { h with
      databases := h.databases ++ [d]
      names := h.names.insert name h.databases.length }
  return d

def drop (name : String) : Action Host (Outcome Unit) := do
  let outcome ← onTransaction name fun id => Session.onDatabase (Database.drop id)
  modify fun h => { h with handles := h.handles.erase name }
  return outcome

/-- Begin a transaction under a name.  Another one that has the name is given up. -/
def begin (database name : String) (mode : AccessMode) : Action Host Transaction := do
  let n ← Action.ofOutcome ((← get).numberOf database)
  let id ← onNumbered n (Session.onDatabase (Database.begin mode))
  let _ ← Action.attempt (drop name)
  let t : TransactionHandle := { database := n, transaction := id }
  modify fun h => { h with handles := h.handles.insert name t }
  Action.ofOutcome ((← get).transactionOf t)

end Host

end RelationalDb
