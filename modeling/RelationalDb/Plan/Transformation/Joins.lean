import RelationalDb.Plan.Logical

/-!
# Joins

A selection for the equality of two columns, directly above a product of two plans that
read one of the tables each, becomes a join: the product turns into the join, its left
column read on the left, and the selection gives way to its inputs.
-/

namespace RelationalDb

namespace LogicalPlan

/-- The condition with its left column among the left tables and its right column among the right
ones, provided that its columns belong to different sides. -/
def orient? (j : ColumnJoin) (left right : List String) : Option ColumnJoin :=
  if left.contains j.left.table && right.contains j.right.table then some j
  else if left.contains j.right.table && right.contains j.left.table then some j.reverse
  else none

def joinCondition? (p : Predicate) (left right : LogicalPlan) : Option ColumnJoin :=
  match p with
  | .condition (.join j) =>
      if j.isEquality then orient? j left.tableNames right.tableNames else none
  | _ => none

mutual

def joinsFrom : LogicalPlan → List LogicalPlan
  | .node (.select p) (.node .product [l, r] :: rest) =>
      match joinCondition? p l r with
      | some j => .node (.join j) (joinsFrom l ++ joinsFrom r) :: joinsFromAll rest
      | none =>
          [.node (.select p)
            (.node .product (joinsFrom l ++ joinsFrom r) :: joinsFromAll rest)]
  | .node op ts => [.node op (joinsFromAll ts)]

def joinsFromAll : List LogicalPlan → List LogicalPlan
  | [] => []
  | t :: ts => joinsFrom t ++ joinsFromAll ts

end

/-- Turn selections above products into joins.  A selection at the root gives way only to a single
input. -/
def introduceJoins (t : LogicalPlan) : LogicalPlan :=
  match joinsFrom t with
  | [t] => t
  | ts => .node t.op ts

end LogicalPlan

end RelationalDb
