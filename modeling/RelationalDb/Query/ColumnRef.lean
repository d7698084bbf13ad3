import RelationalDb.Schema.Table

/-!
# References to columns
-/

namespace RelationalDb

/-- A column as a statement refers to it: the effective name of its table, its name, position
and type, and the label under which it appears in results. -/
structure ColumnRef where
  table : String
  column : String
  position : Nat
  type : ColumnType
  label : Option String := none
deriving DecidableEq, Inhabited

namespace ColumnRef

def fullName (c : ColumnRef) : String :=
  c.table ++ "." ++ c.column

/-- The name under which the column appears in results.  Where several tables are read, a column
without a label is qualified by its table. -/
def outputName (c : ColumnRef) (qualify : Bool) : String :=
  match c.label with
  | some label => label
  | none => if qualify then c.fullName else c.column

def sameColumn (a b : ColumnRef) : Bool :=
  a.table == b.table && a.position == b.position

def atPosition (t : Table) (position : Nat) (c : Column) : ColumnRef :=
  { table := t.effectiveName
    column := c.name
    position := position
    type := c.type
    label := c.label }

/-- Does the reference name the column that stands at its position in this table? -/
def belongsTo (c : ColumnRef) (t : Table) : Bool :=
  t.effectiveName == c.table && (t.columns[c.position]?.map (·.name)) == some c.column

end ColumnRef

namespace Table

def columnRef (t : Table) (name : String) : Outcome ColumnRef :=
  match t.columnPosition? name, t.column? name with
  | some position, some c => .ok (.atPosition t position c)
  | _, _ => .error (t.columnNotFound name)

/-- References to all columns of a table, each of them looked up by its name.  A name that two
columns have stands for the first one. -/
def columnRefs (t : Table) : Outcome (List ColumnRef) :=
  t.columns.mapM fun c => t.columnRef c.name

end Table

/-- A source of values for columns; a column that it does not know has none. -/
abbrev Assignment := ColumnRef → Option Value

end RelationalDb
