import RelationalDb.Failure
import RelationalDb.Schema.Direction

/-!
# Table definitions

A table has columns, indices over single columns and possibly a primary key, which is
one more unique index and stands last among them.
-/

namespace RelationalDb

structure Column where
  name : String
  type : ColumnType
  nullable : Bool := type.nullableByDefault
  label : Option String := none

structure IndexDecl where
  name : String
  table : String
  column : String
  direction : Direction := .ascending
  unique : Bool := false

/-- The definition of a table.  A table that stands under an alias is referred to by it. -/
structure Table where
  name : String
  byname : Option String := none
  columns : List Column
  secondaryIndices : List IndexDecl := []
  primaryKey : Option IndexDecl := none
  persistsIndices : Bool := false

namespace Column

def outputName (c : Column) : String :=
  c.label.getD c.name

def accepts (c : Column) (v : Value) : Bool :=
  if v.isNull then c.nullable else v.conformsTo c.type

/-- Columns are the same when name and type agree. -/
instance : BEq Column := ⟨fun a b => a.name == b.name && a.type == b.type⟩

end Column

namespace IndexDecl

def fullName (i : IndexDecl) : String :=
  i.table ++ "." ++ i.name

/-- Indices are the same when they have one name in one table. -/
instance : BEq IndexDecl := ⟨fun a b => a.name == b.name && a.table == b.table⟩

end IndexDecl

namespace Table

def effectiveName (t : Table) : String :=
  t.byname.getD t.name

def withAlias (t : Table) (byname : String) : Table :=
  { t with byname := some byname }

/-- All indices, the primary key last. -/
def indices (t : Table) : List IndexDecl :=
  t.secondaryIndices ++ t.primaryKey.toList

def rowIdIndexName (t : Table) : String :=
  t.name ++ ".#"

def columnPosition? (t : Table) (name : String) : Option Nat :=
  t.columns.findIdx? fun c => c.name == name

def column? (t : Table) (name : String) : Option Column :=
  t.columns.find? fun c => c.name == name

def index? (t : Table) (name : String) : Option IndexDecl :=
  t.indices.find? fun i => i.name == name

def columnNotFound (t : Table) (name : String) : Failure :=
  .columnNotFound t.effectiveName name

def column (t : Table) (name : String) : Outcome Column :=
  match t.column? name with
  | some c => .ok c
  | none => .error (t.columnNotFound name)

def checkValue (t : Table) (c : Column) (v : Value) : Outcome Unit :=
  match v.type? with
  | none =>
      if c.nullable then .ok () else .error (.nullNotAllowed (t.name ++ "." ++ c.name))
  | some type => if type = c.type then .ok () else .error (.typeMismatch c.type type)

/-- Check values against the columns, left to right; the first fault is the answer. -/
def checkValues (t : Table) : List Column → List Value → Outcome Unit
  | c :: columns, v :: values => do
      t.checkValue c v
      t.checkValues columns values
  | _, _ => .ok ()

def checkRow (t : Table) (values : List Value) : Outcome Unit :=
  if values.length = t.columns.length then t.checkValues t.columns values
  else .error (.data (.rowWidth t.name t.columns.length values.length))

end Table

end RelationalDb
