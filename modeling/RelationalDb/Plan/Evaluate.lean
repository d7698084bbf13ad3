import RelationalDb.Plan.Access
import RelationalDb.Plan.Physical
import RelationalDb.Relation.Aggregate
import RelationalDb.Relation.Join
import RelationalDb.Relation.Result
import RelationalDb.Relation.Sort

/-!
# What a physical plan computes

Every operator below the root makes a relation out of the relations of its inputs, and
the projection at the root makes the result.
-/

namespace RelationalDb

def TableStore.scanRanges (s : TableStore) (index : String) (ranges : List (KeyRange Value)) :
    Outcome (List Row) := do
  let parts ← ranges.mapM fun r => s.scanIndex index (some r) .ascending none 0
  return parts.flatten

namespace PhysicalPlan

def wrongInputs (op : PhysicalOp) (expected : Nat) (ts : List PhysicalPlan) : Failure :=
  .operation (.inputCount op.text expected ts.length)

mutual

def evaluate (source : TableSource) : PhysicalPlan → Outcome Relation
  | .node (.tableScan t) _ => do
      return .ofRows t.effectiveName (← source.storeOf t).toList
  | .node (.indexScan t index ranges) _ => do
      return .ofRows t.effectiveName (← (← source.storeOf t).scanRanges index ranges)
  | .node (.select p) [t] => do return (← evaluate source t).filter p
  | .node .product [] => .error (.operation .productEmpty)
  | .node .product (t :: ts) => do evaluateProduct source (← evaluate source t) ts
  | .node (.join j) [l, r] => do
      let left ← evaluate source l
      let right ← evaluate source r
      return left.join right j
  | .node (.join j) ts => .error (wrongInputs (.join j) 2 ts)
  | .node (.aggregate groupBy aggregates) [t] => do
      return (← evaluate source t).aggregate groupBy aggregates
  | .node (.orderBy order) [t] => do return (← evaluate source t).sort order
  | .node (.skip count) [t] => do return (← evaluate source t).skip count
  | .node (.limit count) [t] => do return (← evaluate source t).limit count
  | .node (.project _ _) _ => .error (.operation .projectionBelowRoot)
  | .node op ts => .error (wrongInputs op 1 ts)

def evaluateProduct (source : TableSource) (left : Relation) :
    List PhysicalPlan → Outcome Relation
  | [] => .ok left
  | t :: ts => do evaluateProduct source (left.product (← evaluate source t)) ts

end

def input (source : TableSource) (t : PhysicalPlan) : Outcome Relation :=
  match t.inputs with
  | [input] => evaluate source input
  | ts => .error (wrongInputs t.op 1 ts)

def run (source : TableSource) (t : PhysicalPlan) : Outcome ResultSet :=
  match t.op with
  | .project columns qualify => do return (← t.input source).project columns qualify
  | op => .error (.operation (.rootNotProjection op.text))

end PhysicalPlan

end RelationalDb
