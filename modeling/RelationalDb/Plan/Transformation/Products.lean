import RelationalDb.Plan.Logical

/-!
# Binary products

A product of many plans becomes a chain of products of two, which grows to the left, and
a product of a single plan is that plan.
-/

namespace RelationalDb

namespace LogicalPlan

/-- The product of some plans as a chain of products of two. -/
def leftDeepProduct : List LogicalPlan → LogicalPlan
  | [] => .node .product []
  | t :: ts => ts.foldl (fun left right => .node .product [left, right]) t

mutual

def splitProducts : LogicalPlan → LogicalPlan
  | .node .product ts => leftDeepProduct (splitProductsOf ts)
  | .node op ts => .node op (splitProductsOf ts)

def splitProductsOf : List LogicalPlan → List LogicalPlan
  | [] => []
  | t :: ts => splitProducts t :: splitProductsOf ts

end

end LogicalPlan

end RelationalDb
