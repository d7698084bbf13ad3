import RelationalDb.Plan.Logical

/-!
# Physical plans

A physical plan says how a query is computed: how each table is read, and which relation
is made of which.
-/

namespace RelationalDb

inductive PhysicalOp
  | tableScan (t : Table)
  | indexScan (t : Table) (index : String) (ranges : List (KeyRange Value))
  | select (p : Predicate)
  | product
  | join (j : ColumnJoin)
  | aggregate (groupBy : List ColumnRef) (aggregates : List Aggregate)
  | orderBy (order : SortOrder)
  | skip (count : Nat)
  | limit (count : Nat)
  | project (columns : List Expression) (qualify : Bool)

abbrev PhysicalPlan := PlanTree PhysicalOp

def lowerEndText (key : Value) (exclusive : Bool) : String :=
  (if exclusive then "(" else "[") ++ key.text

def upperEndText (key : Value) (exclusive : Bool) : String :=
  key.text ++ (if exclusive then ")" else "]")

def KeyRange.text : KeyRange Value → String
  | all => "[unbound, unbound]"
  | only k => lowerEndText k false ++ ", " ++ upperEndText k false
  | above k exclusive => lowerEndText k exclusive ++ ", unbound]"
  | below k exclusive => "[unbound, " ++ upperEndText k exclusive
  | between l u lowerExclusive upperExclusive =>
      lowerEndText l lowerExclusive ++ ", " ++ upperEndText u upperExclusive

namespace PhysicalOp

def text : PhysicalOp → String
  | tableScan t => "table_scan(" ++ t.accessText ++ ")"
  | indexScan t index ranges =>
      "index_range_scan(" ++ t.accessText ++ ", " ++ index ++ ", " ++
        commaSeparated (ranges.map KeyRange.text) ++ ")"
  | select p => "select(" ++ p.text ++ ")"
  | product => "cross_product"
  | join j => "nested_loop_join(" ++ j.text ++ ")"
  | aggregate groupBy aggregates =>
      "aggregate(" ++ commaSeparated (aggregates.map (·.outputName)) ++ ")" ++ groupByText groupBy
  | orderBy order => "order_by(" ++ sortOrderText order ++ ")"
  | skip count => "skip(" ++ toString count ++ ")"
  | limit count => "limit(" ++ toString count ++ ")"
  | project columns _ => "project(" ++ Expression.namesText true columns ++ ")"

end PhysicalOp

def PhysicalPlan.explain (t : PhysicalPlan) : String :=
  t.render PhysicalOp.text 0

end RelationalDb
