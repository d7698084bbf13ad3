import RelationalDb.Plan.Access
import RelationalDb.Plan.Physical

/-!
# From logical to physical plans

The projection at the root of a logical plan stays at the root.  If anything is
aggregated, the aggregation goes below the operators that order and cut the result, and
above everything else.
-/

namespace RelationalDb

/-- The operator that carries out a logical operator; there is none for a projection below the
root. -/
def LogicalOp.physical? : LogicalOp → Option PhysicalOp
  | .table t => some (.tableScan t)
  | .product => some .product
  | .join j => some (.join j)
  | .select p => some (.select p)
  | .project _ _ => none
  | .orderBy order => some (.orderBy order)
  | .skip count => some (.skip count)
  | .limit count => some (.limit count)

def PhysicalOp.followsAggregation : PhysicalOp → Bool
  | orderBy _ | skip _ | limit _ => true
  | _ => false

namespace PhysicalPlan

def placeAbove (pending : Option PhysicalOp) (t : PhysicalPlan) : PhysicalPlan :=
  match pending with
  | some op => .node op [t]
  | none => t

mutual

/-- The physical plan for a plan below the root, and the aggregation if it is not placed yet. -/
def lower : PlanTree AccessOp → Option PhysicalOp → Outcome (PhysicalPlan × Option PhysicalOp)
  | .node .answered [t], pending => lower t pending
  | .node .answered _, _ => .error (.operation .selectionInputs)
  | .node (.indexed t path) ts, pending => do
      let (ts, _) ← lowerAll ts none
      return (placeAbove pending (.node (.indexScan t path.index path.ranges) ts), none)
  | .node (.asWritten op) ts, pending =>
      match op.physical? with
      | none => .error (.operation .projectionNested)
      | some op =>
          if op.followsAggregation then do
            let (ts, pending) ← lowerAll ts pending
            return (.node op ts, pending)
          else do
            let (ts, _) ← lowerAll ts none
            return (placeAbove pending (.node op ts), none)

/-- The physical plans for several plans; the first that can takes the aggregation. -/
def lowerAll :
    List (PlanTree AccessOp) → Option PhysicalOp → Outcome (List PhysicalPlan × Option PhysicalOp)
  | [], pending => .ok ([], pending)
  | t :: ts, pending => do
      let (t, pending) ← lower t pending
      let (ts, pending) ← lowerAll ts pending
      return (t :: ts, pending)

end

/-- The columns of a projection; none at all stand for every column of every table. -/
def resultColumns (columns : List Expression) (tables : List Table) :
    Outcome (List Expression) :=
  if columns.isEmpty then do
    let refs ← tables.mapM (·.columnRefs)
    return refs.flatten.map .column
  else return columns

def aggregation? (columns : List Expression) (groupBy : List ColumnRef) : Option PhysicalOp :=
  let aggregates := columns.filterMap (·.aggregate?)
  if aggregates.isEmpty && groupBy.isEmpty then none else some (.aggregate groupBy aggregates)

def ofLogical (source : TableSource) (t : LogicalPlan) : Outcome PhysicalPlan :=
  match t.op with
  | .project columns groupBy => do
      t.tables.forM fun table => do
        let _ ← source.storeOf table
      let columns ← resultColumns columns t.tables
      match t.inputs with
      | [input] =>
          let (input, _) ← lower (LogicalPlan.accessed source input) (aggregation? columns groupBy)
          return .node (.project columns (1 < t.tables.length)) [input]
      | _ => throw (.operation .projectionInputs)
  | op => .error (.operation (.rootNotProjection op.text))

end PhysicalPlan

end RelationalDb
