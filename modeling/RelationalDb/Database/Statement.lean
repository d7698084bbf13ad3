import RelationalDb.Query.Select
import RelationalDb.Store.UnitOfWork

/-!
# Statements

A statement reads some tables or changes one.  Like a query it can be checked before it
is run: everything that a change mentions has to belong to the table that it changes.
-/

namespace RelationalDb

/-- The insertion of whole rows.  If it replaces, a row whose primary key is there already takes
the place of the old one. -/
structure Insertion where
  table : Table
  rows : List (List Value) := []
  replace : Bool := false

structure Update where
  table : Table
  sets : List (ColumnRef × Value) := []
  predicate : Option Predicate := none

structure Deletion where
  table : Table
  predicate : Option Predicate := none

inductive Statement
  | select (q : Select)
  | insert (i : Insertion)
  | update (u : Update)
  | delete (d : Deletion)

/-!
## Building statements
-/

def Predicate.inAddition (existing : Option Predicate) (p : Predicate) : Predicate :=
  match existing with
  | some q => .allOf [q, p]
  | none => p

def Select.innerJoin (q : Select) (t : Table) (on : Predicate) : Select :=
  { q with
    tables := q.tables ++ [t]
    predicate := some (.inAddition q.predicate on) }

/-- Give every value of a row the type of its column, as far as it can be widened. -/
def Table.widenRow (t : Table) (values : List Value) : List Value :=
  values.zipIdx.map fun p =>
    match t.columns[p.2]? with
    | some c => p.1.widen c.type
    | none => p.1

def Insertion.addRows (i : Insertion) (rows : List (List Value)) : Insertion :=
  { i with rows := i.rows ++ rows.map i.table.widenRow }

def Update.setColumn (u : Update) (c : ColumnRef) (v : Value) : Update :=
  { u with sets := u.sets ++ [(c, v.widen c.type)] }

namespace Statement

def mode : Statement → AccessMode
  | select _ => .readOnly
  | _ => .readWrite

def target : Statement → Option Table
  | select _ => none
  | insert i => some i.table
  | update u => some u.table
  | delete d => some d.table

def predicate : Statement → Option Predicate
  | select q => q.predicate
  | insert _ => none
  | update u => u.predicate
  | delete d => d.predicate

def withPredicate (p : Option Predicate) : Statement → Statement
  | select q => select { q with predicate := p }
  | insert i => insert i
  | update u => update { u with predicate := p }
  | delete d => delete { d with predicate := p }

def restrict (s : Statement) (p : Predicate) : Statement :=
  s.withPredicate (some (.inAddition s.predicate p))

def bind (s : Statement) (values : List Value) : Outcome Statement := do
  return s.withPredicate (← Select.bindPredicate s.predicate values)

/-!
## Well-formed statements
-/

def isBound (s : Statement) : Bool :=
  s.predicate.all (·.isBound)

def checkOwn (t : Table) (c : ColumnRef) : Outcome Unit :=
  if c.belongsTo t then .ok () else .error (.statement (.columnForeign c.fullName t.name))

/-- Check the predicate of a change. -/
def checkWhere (t : Table) : Option Predicate → Outcome Unit
  | none => .ok ()
  | some p => do
      p.columns.forM (checkOwn t)
      p.check

def checkParts : Statement → Outcome Unit
  | select q => q.check
  | insert i =>
      if i.replace && i.table.primaryKey.isNone then
        .error (.statement (.replaceWithoutKey i.table.name))
      else .ok ()
  | update u => do
      u.sets.forM fun s => checkOwn u.table s.1
      checkWhere u.table u.predicate
  | delete d => checkWhere d.table d.predicate

def checkBound (s : Statement) : Outcome Unit :=
  match s.predicate with
  | some p => if p.isBound then .ok () else .error (.statement (.unbound p.slots))
  | none => .ok ()

def check (s : Statement) : Outcome Unit := do
  s.checkParts
  s.checkBound

end Statement

end RelationalDb
