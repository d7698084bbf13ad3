import RelationalDb.Text.Literal

/-!
# Why an operation fails

Every failure is kept as its cause.  The causes fall into kinds, and one function per
group of causes gives the wording.
-/

namespace RelationalDb

inductive SchemaFault
  | nameEmpty
  | nameStart (name : String)
  | nameCharacters (name : String)
  | columnExists (name : String)
  | columnMissing (name : String)
  | columnNotIndexable (name : String)
  | primaryKeyExists (table : String)
  | indexExists (name : String)
  | noColumns (table : String)
  | tableExists (name : String)

inductive DataFault
  | rowWidth (table : String) (expected found : Nat)
  | keyType (index : String) (expected : ColumnType) (found : Value)
  | idKeyType (index : String) (found : Value)
  | idKeyNegative (index : String) (key : Int)
  | idBoundType (index : String) (bound : Value)
  | idRowUnexpected (index : String) (row : UInt64)
  | indexHeaderMissing (index : String)
  | indexHeaderMalformed (index : String)
  | indexEntryMalformed (index : String) (row : UInt64)
  | idCount (index : String) (ids rows : Nat)
  | operandType (column : String) (expected : ColumnType) (found : Value)
  | incomparable (left : String) (leftType : ColumnType) (right : String) (rightType : ColumnType)

inductive StatementFault
  | noTables
  | tableRepeated (name : String)
  | columnUnknown (column : String)
  | columnForeign (column table : String)
  | distinctNotAlone
  | aggregateNotNumeric (function column : String) (found : ColumnType)
  | aggregateWithoutColumn (function : String)
  | plainColumnMixed
  | columnNotGrouped (column : String)
  | bindingType (column : String) (expected : ColumnType) (found : Value)
  | bindingCount (expected found : Nat)
  | noPlaceholders (found : Nat)
  | unbound (count : Nat)
  | replaceWithoutKey (table : String)

inductive Ending
  | committed
  | aborted
deriving DecidableEq

inductive OperationFault
  | rowExists (row : UInt64) (table : String)
  | rowMissing (row : UInt64) (table : String)
  | rootNotProjection (node : String)
  | selectionInputs
  | projectionInputs
  | projectionNested
  | projectionBelowRoot
  | inputCount (node : String) (expected found : Nat)
  | productEmpty
  | tableLocked (table : String) (holder : Nat)
  | transactionEnded (transaction : Nat) (ending : Ending)
  | transactionReadOnly (transaction : Nat)
  | transactionInactive (transaction : Nat)
  | storeReadOnly
  | notOpen (name : String)
  | rowIdReserved (row : UInt64)

inductive Failure
  | typeMismatch (expected found : ColumnType)
  | data (fault : DataFault)
  | statement (fault : StatementFault)
  | nullNotAllowed (column : String)
  | keyNotUnique (index : String) (key : Value)
  | schema (fault : SchemaFault)
  | columnNotFound (table column : String)
  | tableNotFound (name : String)
  | indexNotFound (table index : String)
  | operation (fault : OperationFault)
  | transactionAborted (transaction : Nat)
  | storage (message : String)

inductive FailureKind
  | data
  | statement
  | constraint
  | notFound
  | operation
  | aborted
  | storage
deriving DecidableEq

abbrev Outcome (α : Type) := Except Failure α

def SchemaFault.message : SchemaFault → String
  | .nameEmpty => "Name cannot be empty"
  | .nameStart name => "Name must start with letter or underscore: " ++ name
  | .nameCharacters name => "Name contains invalid characters: " ++ name
  | .columnExists name => "Column already exists: " ++ name
  | .columnMissing name => "Column not found: " ++ name
  | .columnNotIndexable name => "Column is not indexable: " ++ name
  | .primaryKeyExists table => "Primary key already declared for " ++ table
  | .indexExists name => "Index already exists: " ++ name
  | .noColumns table => "Table " ++ table ++ " has no columns"
  | .tableExists name => "Table already exists: " ++ name

def operandMessage (column : String) (expected : ColumnType) (found : Value) : String :=
  column ++ " expects " ++ expected.name ++ ", got " ++ found.typeName

def DataFault.message : DataFault → String
  | .rowWidth table expected found =>
      "table " ++ table ++ " expects " ++ toString expected ++ " values, got " ++ toString found
  | .keyType index expected found =>
      "index " ++ index ++ " expects " ++ expected.name ++ " keys, got " ++ found.typeName
  | .idKeyType index found =>
      "row id index " ++ index ++ " requires integer keys, got " ++ found.text
  | .idKeyNegative index key =>
      "row id index " ++ index ++ ": negative key " ++ toString key
  | .idBoundType index bound =>
      "row id index " ++ index ++ ": range bound " ++ bound.text ++ " is not an integer"
  | .idRowUnexpected index row =>
      "row id index " ++ index ++ ": unexpected persisted row " ++ toString row.toNat
  | .indexHeaderMissing index => "index " ++ index ++ ": missing metadata row"
  | .indexHeaderMalformed index => "index " ++ index ++ ": malformed metadata row"
  | .indexEntryMalformed index row =>
      "index " ++ index ++ ": malformed entry row " ++ toString row.toNat
  | .idCount index ids rows =>
      "row id index " ++ index ++ " holds " ++ toString ids ++ " ids but " ++ toString rows
        ++ " rows were loaded"
  | .operandType column expected found => operandMessage column expected found
  | .incomparable left leftType right rightType =>
      "cannot compare " ++ left ++ " (" ++ leftType.name ++ ") with " ++ right ++ " ("
        ++ rightType.name ++ ")"

def StatementFault.message : StatementFault → String
  | .noTables => "select requires at least one table"
  | .tableRepeated name => "table " ++ name ++ " appears more than once; alias one of them"
  | .columnUnknown column => "column " ++ column ++ " does not belong to any table in from"
  | .columnForeign column table => "column " ++ column ++ " does not belong to " ++ table
  | .distinctNotAlone => "distinct cannot be combined with other columns or group by"
  | .aggregateNotNumeric function column found =>
      function ++ " requires a numeric column, " ++ column ++ " is " ++ found.name
  | .aggregateWithoutColumn function => function ++ "(*) is not supported"
  | .plainColumnMixed => "cannot mix aggregated and plain columns"
  | .columnNotGrouped column => column ++ " is not in group by"
  | .bindingType column expected found => operandMessage column expected found
  | .bindingCount expected found =>
      "expected " ++ toString expected ++ " bound values, got " ++ toString found
  | .noPlaceholders found =>
      "query has no placeholders, got " ++ toString found ++ " bound values"
  | .unbound count => "query has " ++ toString count ++ " unbound placeholder(s)"
  | .replaceWithoutKey table => "insert or replace into " ++ table ++ " requires a primary key"

def Ending.text : Ending → String
  | .committed => "committed"
  | .aborted => "aborted"

def OperationFault.message : OperationFault → String
  | .rowExists row table => "row " ++ toString row.toNat ++ " already exists in " ++ table
  | .rowMissing row table => "row " ++ toString row.toNat ++ " not found in " ++ table
  | .rootNotProjection node => "plan root must be a projection, found " ++ node
  | .selectionInputs => "select must have exactly one input"
  | .projectionInputs => "projection must have exactly one input"
  | .projectionNested => "nested projection"
  | .projectionBelowRoot => "projection below the plan root"
  | .inputCount node expected found =>
      node ++ " expects " ++ toString expected ++ (if expected = 1 then " input" else " inputs")
        ++ ", has " ++ toString found
  | .productEmpty => "cross product without inputs"
  | .tableLocked table holder =>
      "table " ++ table ++ " is locked by transaction " ++ toString holder
  | .transactionEnded transaction ending =>
      "transaction " ++ toString transaction ++ " is already " ++ ending.text
  | .transactionReadOnly transaction => "transaction " ++ toString transaction ++ " is read-only"
  | .transactionInactive transaction =>
      "transaction " ++ toString transaction ++ " is no longer active"
  | .storeReadOnly => "backstore transaction is read-only"
  | .notOpen name => name ++ " is not open"
  | .rowIdReserved row =>
      "row id " ++ toString row.toNat ++ " is reserved for serialized indices"

namespace Failure

def kind : Failure → FailureKind
  | .typeMismatch .. | .data _ => .data
  | .statement _ => .statement
  | .nullNotAllowed _ | .keyNotUnique .. | .schema _ => .constraint
  | .columnNotFound .. | .tableNotFound _ | .indexNotFound .. => .notFound
  | .operation _ => .operation
  | .transactionAborted _ => .aborted
  | .storage _ => .storage

def message : Failure → String
  | .typeMismatch expected found =>
      "Type mismatch: expected " ++ expected.title ++ ", got " ++ found.title
  | .data fault => "Data error: " ++ fault.message
  | .statement fault => "Syntax error: " ++ fault.message
  | .nullNotAllowed column => "Null constraint violation on column: " ++ column
  | .keyNotUnique index key =>
      "Unique constraint violation on index " ++ index ++ ": " ++ key.text
  | .schema fault => "Invalid schema: " ++ fault.message
  | .columnNotFound table column => "Column " ++ column ++ " not found in table " ++ table
  | .tableNotFound name => "Table not found: " ++ name
  | .indexNotFound table index => "Index " ++ index ++ " not found in table " ++ table
  | .operation fault => "Invalid operation: " ++ fault.message
  | .transactionAborted transaction => "Transaction " ++ toString transaction ++ " aborted"
  | .storage message => "Storage error: " ++ message

end Failure

end RelationalDb
