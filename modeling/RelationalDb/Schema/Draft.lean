import RelationalDb.Schema.Table

/-!
# Tables in the making

A table definition is drafted step by step.  Every step checks the names it introduces
and the columns it mentions, so that a finished draft is a table whose column names,
index names and keys fit together.
-/

namespace RelationalDb

def isNameStart (c : Char) : Bool :=
  c.isAlpha || c == '_'

def isNameRest (c : Char) : Bool :=
  c.isAlphanum || c == '_'

/-- Check that a name begins with a letter or an underscore and goes on with letters, digits
and underscores. -/
def checkName (name : String) : Outcome Unit :=
  match name.toList with
  | [] => .error (.schema .nameEmpty)
  | c :: rest =>
      if !isNameStart c then .error (.schema (.nameStart name))
      else if !rest.all isNameRest then .error (.schema (.nameCharacters name))
      else .ok ()

structure TableDraft where
  name : String
  columns : List Column := []
  indices : List IndexDecl := []
  keyColumn : Option String := none
  persistsIndices : Bool := false

namespace TableDraft

def start (name : String) : Outcome TableDraft := do
  checkName name
  return { name := name }

def modifyColumn (d : TableDraft) (name : String) (f : Column → Column) : TableDraft :=
  { d with columns := d.columns.map fun c => if c.name == name then f c else c }

def hasColumn (d : TableDraft) (name : String) : Bool :=
  d.columns.any fun c => c.name == name

def addColumn (d : TableDraft) (name : String) (type : ColumnType) : Outcome TableDraft := do
  checkName name
  if d.hasColumn name then throw (.schema (.columnExists name))
  return { d with columns := d.columns ++ [{ name := name, type := type }] }

/-- Let the named columns be null; names of no column are passed over. -/
def allowNull (d : TableDraft) (names : List String) : TableDraft :=
  names.foldl (fun d name => d.modifyColumn name fun c => { c with nullable := true }) d

def labelColumn (d : TableDraft) (name label : String) : Outcome TableDraft :=
  if d.hasColumn name then
    .ok (d.modifyColumn name fun c => { c with label := some label })
  else .error (.schema (.columnMissing name))

def checkKey (d : TableDraft) (column : String) : Outcome Unit :=
  match d.columns.find? fun c => c.name == column with
  | none => .error (.schema (.columnMissing column))
  | some c =>
      if c.type.isIndexable then .ok () else .error (.schema (.columnNotIndexable column))

def setPrimaryKey (d : TableDraft) (column : String) : Outcome TableDraft := do
  if d.keyColumn.isSome then throw (.schema (.primaryKeyExists d.name))
  d.checkKey column
  return { d with keyColumn := some column }

def hasIndex (d : TableDraft) (name : String) : Bool :=
  d.indices.any fun i => i.name == name

def addIndex (d : TableDraft) (name column : String) (unique : Bool) (direction : Direction) :
    Outcome TableDraft := do
  checkName name
  if d.hasIndex name then throw (.schema (.indexExists name))
  d.checkKey column
  let index : IndexDecl :=
    { name := name, table := d.name, column := column, direction := direction, unique := unique }
  return { d with indices := d.indices ++ [index] }

def addUnique (d : TableDraft) (name column : String) : Outcome TableDraft :=
  d.addIndex name column true .ascending

def persistIndices (d : TableDraft) (choice : Bool) : TableDraft :=
  { d with persistsIndices := choice }

/-- The name of the primary key: `pk` and the capitalised table name. -/
def primaryKeyName (table : String) : String :=
  match table.toList with
  | [] => "pk"
  | c :: rest => "pk" ++ String.ofList (c.toUpper :: rest)

/-- Finish the draft.  The primary key becomes the last index. -/
def finish (d : TableDraft) : Outcome Table := do
  if d.columns.isEmpty then throw (.schema (.noColumns d.name))
  let table : Table :=
    { name := d.name
      columns := d.columns
      secondaryIndices := d.indices
      persistsIndices := d.persistsIndices }
  match d.keyColumn with
  | none => return table
  | some column =>
      let name := primaryKeyName d.name
      if d.hasIndex name then throw (.schema (.indexExists name))
      return { table with
        primaryKey := some { name := name, table := d.name, column := column, unique := true } }

end TableDraft

end RelationalDb
