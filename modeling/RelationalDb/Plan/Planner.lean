import RelationalDb.Plan.Evaluate
import RelationalDb.Plan.Lowering
import RelationalDb.Plan.Transformation.Sequence

/-!
# From queries to results
-/

namespace RelationalDb

/-- A planner is known by the transformations that it applies to logical plans. -/
structure Planner where
  transformations : List Transformation := Transformation.standard

namespace Planner

def logical (planner : Planner) (q : Select) : LogicalPlan :=
  Transformation.applyAll planner.transformations (.ofSelect q)

/-- The physical plan of a query, which has to be well formed and to have all its values. -/
def physical (planner : Planner) (source : TableSource) (q : Select) : Outcome PhysicalPlan := do
  q.check
  q.checkBound
  PhysicalPlan.ofLogical source (planner.logical q)

def execute (planner : Planner) (source : TableSource) (q : Select) : Outcome ResultSet := do
  (← planner.physical source q).run source

def matchingRows (planner : Planner) (source : TableSource) (t : Table) (p : Option Predicate) :
    Outcome (List Row) := do
  let plan ← planner.physical source { tables := [t], predicate := p }
  return (← plan.input source).entries.filterMap fun e => e.rows.head?

def explain (planner : Planner) (source : TableSource) (q : Select) : Outcome String := do
  let plan ← planner.physical source q
  return (planner.logical q).explain ++ "\n" ++ plan.explain

end Planner

end RelationalDb
