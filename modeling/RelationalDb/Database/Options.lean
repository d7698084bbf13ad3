import RelationalDb.Row
import RelationalDb.Schema.Table

/-!
# Options of a database
-/

namespace RelationalDb

/-- What is fixed when a database is opened: whether indices are kept, if not as every table says
for itself; the first row id for a backstore without rows; and whether plans are logged. -/
structure DatabaseOptions where
  persistIndices : Option Bool := none
  firstRowId : RowId := RelationalDb.firstRowId
  logPlans : Bool := false
deriving DecidableEq, Inhabited

namespace DatabaseOptions

def persistsIndicesOf (o : DatabaseOptions) (t : Table) : Bool :=
  o.persistIndices.getD t.persistsIndices

/-- Check that the first row id is not the reserved one. -/
def check (o : DatabaseOptions) : Outcome Unit :=
  if o.firstRowId = reservedRowId then .error (.operation (.rowIdReserved reservedRowId))
  else .ok ()

def text (o : DatabaseOptions) : String :=
  let persist :=
    match o.persistIndices with
    | some b => "Some(" ++ toString b ++ ")"
    | none => "None"
  "DatabaseOptions \x7b persist_indices_on_commit: " ++ persist ++ ", first_row_id: " ++
    toString o.firstRowId.toNat ++ ", log_plans: " ++ toString o.logPlans ++ " \x7d"

end DatabaseOptions

end RelationalDb
