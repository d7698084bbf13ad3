import RelationalDb.Plan.Tree
import RelationalDb.Query.Select

/-!
# Logical plans

A logical plan says what a query computes: which tables are combined, which combinations
are kept, and what is asked of them.
-/

namespace RelationalDb

inductive LogicalOp
  | table (t : Table)
  | product
  | join (j : ColumnJoin)
  | select (p : Predicate)
  | project (columns : List Expression) (groupBy : List ColumnRef)
  | orderBy (order : SortOrder)
  | skip (count : Nat)
  | limit (count : Nat)

abbrev LogicalPlan := PlanTree LogicalOp

def Table.accessText (t : Table) : String :=
  match t.byname with
  | some byname => t.name ++ " as " ++ byname
  | none => t.name

def groupByText (groupBy : List ColumnRef) : String :=
  if groupBy.isEmpty then ""
  else ", groupBy(" ++ commaSeparated (groupBy.map (·.fullName)) ++ ")"

def sortOrderText (order : SortOrder) : String :=
  commaSeparated (order.map fun o => o.1.fullName ++ " " ++ o.2.keyword)

namespace LogicalOp

def text : LogicalOp → String
  | table t => "table_access(" ++ t.accessText ++ ")"
  | product => "cross_product"
  | join j => "join(type: inner, " ++ j.text ++ ")"
  | select p => "select(" ++ p.text ++ ")"
  | project columns groupBy =>
      "project(" ++ Expression.namesText true columns ++ ")" ++ groupByText groupBy
  | orderBy order => "order_by(" ++ sortOrderText order ++ ")"
  | skip count => "skip(" ++ toString count ++ ")"
  | limit count => "limit(" ++ toString count ++ ")"

def table? : LogicalOp → Option Table
  | table t => some t
  | _ => none

end LogicalOp

namespace LogicalPlan

def tables (t : LogicalPlan) : List Table :=
  t.leaves.filterMap (·.table?)

def tableNames (t : LogicalPlan) : List String :=
  (tables t).map (·.effectiveName)

def explain (t : LogicalPlan) : String :=
  t.render LogicalOp.text 0

/-- The operators of a query between its projection and its tables, the outermost first. -/
def stages (q : Select) : List LogicalOp :=
  (q.limit.map .limit).toList ++ (q.skip.map .skip).toList ++
    (if q.orderBy.isEmpty then [] else [.orderBy q.orderBy]) ++
    (q.predicate.map .select).toList ++
    (if q.readsSeveral then [.product] else [])

/-- Put operators above some plans, the first one outermost; the last one takes all of them. -/
def chain : List LogicalOp → List LogicalPlan → List LogicalPlan
  | [], inputs => inputs
  | op :: rest, inputs => [.node op (chain rest inputs)]

/-- The plan of a query as it is written: one selection over the product of all tables. -/
def ofSelect (q : Select) : LogicalPlan :=
  .node (.project q.columns q.groupBy)
    (chain (stages q) (q.tables.map fun t => .node (.table t) []))

end LogicalPlan

end RelationalDb
