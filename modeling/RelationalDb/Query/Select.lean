import RelationalDb.Query.Expression
import RelationalDb.Query.Predicate

/-!
# Select queries

A select query reads some tables, keeps the combinations of rows that satisfy a
predicate, and asks for columns or aggregates of them in an order.  It is well formed if
everything it mentions belongs to the tables it reads.
-/

namespace RelationalDb

abbrev SortOrder := List (ColumnRef × Direction)

/-- A select query.  No columns at all stand for every column of every table. -/
structure Select where
  tables : List Table := []
  predicate : Option Predicate := none
  orderBy : SortOrder := []
  limit : Option Nat := none
  skip : Option Nat := none
  columns : List Expression := []
  groupBy : List ColumnRef := []

namespace Select

def names (q : Select) : List String :=
  q.tables.map (·.effectiveName)

def readsSeveral (q : Select) : Bool :=
  1 < q.tables.length

def slots (q : Select) : Nat :=
  (q.predicate.map (·.slots)).getD 0

def isBound (q : Select) : Bool :=
  q.predicate.all (·.isBound)

def bindPredicate (p : Option Predicate) (values : List Value) : Outcome (Option Predicate) :=
  match p with
  | some p => (p.bind values).map some
  | none =>
      if values.isEmpty then .ok none else .error (.statement (.noPlaceholders values.length))

def bind (q : Select) (values : List Value) : Outcome Select := do
  return { q with predicate := ← bindPredicate q.predicate values }

def aggregates (q : Select) : List Aggregate :=
  q.columns.filterMap (·.aggregate?)

def hasAggregates (q : Select) : Bool :=
  !q.groupBy.isEmpty || !q.aggregates.isEmpty

/-!
## Well-formed queries
-/

def checkNames : List String → List String → Outcome Unit
  | _, [] => .ok ()
  | seen, name :: rest =>
      if seen.contains name then .error (.statement (.tableRepeated name))
      else checkNames (name :: seen) rest

/-- All columns that are mentioned: in the result, the order, the groups and the predicate. -/
def mentioned (q : Select) : List ColumnRef :=
  q.columns.filterMap (·.column?) ++ q.orderBy.map (·.1) ++ q.groupBy ++
    (q.predicate.map (·.columns)).getD []

def checkColumn (q : Select) (c : ColumnRef) : Outcome Unit :=
  if q.tables.any c.belongsTo then .ok () else .error (.statement (.columnUnknown c.fullName))

def checkAggregate (a : Aggregate) : Outcome Unit :=
  match a.column with
  | some c =>
      if a.function.isNumeric && !c.type.isNumeric then
        .error (.statement (.aggregateNotNumeric a.function.name c.fullName c.type))
      else .ok ()
  | none =>
      if a.function = .count then .ok ()
      else .error (.statement (.aggregateWithoutColumn a.function.name))

/-- Check that a column next to aggregates is one of the grouping columns. -/
def checkPlain (q : Select) : Expression → Outcome Unit
  | .aggregate _ => .ok ()
  | .column c =>
      if q.groupBy.any (·.sameColumn c) then .ok ()
      else if q.groupBy.isEmpty then .error (.statement .plainColumnMixed)
      else .error (.statement (.columnNotGrouped c.fullName))

def checkColumns (q : Select) : Outcome Unit := do
  let lone := q.aggregates.any fun a => a.function == .distinct
  if lone && (1 < q.columns.length || !q.groupBy.isEmpty) then
    throw (.statement .distinctNotAlone)
  q.aggregates.forM checkAggregate
  if q.hasAggregates then q.columns.forM q.checkPlain

def check (q : Select) : Outcome Unit := do
  if q.tables.isEmpty then throw (.statement .noTables)
  checkNames [] q.names
  q.mentioned.forM q.checkColumn
  match q.predicate with
  | some p => p.check
  | none => pure ()
  q.checkColumns

def checkBound (q : Select) : Outcome Unit :=
  if q.isBound then .ok () else .error (.statement (.unbound q.slots))

end Select

end RelationalDb
