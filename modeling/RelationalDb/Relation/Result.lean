import RelationalDb.Query.Expression
import RelationalDb.Relation.Basic

/-!
# Results

A result is a list of named columns and rows of values.
-/

namespace RelationalDb

structure ResultSet where
  names : List String := []
  rows : List (List Value) := []

/-- The value under a name in a row; of columns of one name the first counts. -/
def ResultSet.value? (r : ResultSet) (row : List Value) (name : String) : Option Value :=
  (r.names.findIdx? (· == name)).bind fun position => row[position]?

/-- The values of expressions in an entry: columns are read from the rows, and the aggregates are
taken one after the other from the values that the entry carries. -/
def Relation.expressionValues (r : Relation) (e : Entry) :
    List Expression → List Value → List Value
  | [], _ => []
  | .column c :: rest, aggregates =>
      r.valueOrNull e c :: r.expressionValues e rest aggregates
  | .aggregate _ :: rest, [] => .null :: r.expressionValues e rest []
  | .aggregate _ :: rest, v :: aggregates => v :: r.expressionValues e rest aggregates

def Relation.project (r : Relation) (columns : List Expression) (qualify : Bool) : ResultSet :=
  { names := columns.map (·.outputName qualify)
    rows := r.entries.map fun e => r.expressionValues e columns e.aggregates }

end RelationalDb
