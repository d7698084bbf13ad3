/-!
# Plans as trees

A plan is a tree of operators.  Functions on it go by recursion on the tree, each with a
partner for lists of trees.
-/

namespace RelationalDb

universe u v

inductive PlanTree (α : Type u)
  | node (op : α) (inputs : List (PlanTree α))

/-- A line for every operator: a hyphen for each level above it, then its text. -/
def planLine (depth : Nat) (label : String) : String :=
  String.ofList (List.replicate depth '-') ++ label ++ "\n"

namespace PlanTree

variable {α : Type u} {β : Type v}

def op : PlanTree α → α
  | node a _ => a

def inputs : PlanTree α → List (PlanTree α)
  | node _ ts => ts

mutual

def operators : PlanTree α → List α
  | node a ts => a :: operatorsOf ts

def operatorsOf : List (PlanTree α) → List α
  | [] => []
  | t :: ts => operators t ++ operatorsOf ts

end

mutual

def leaves : PlanTree α → List α
  | node a [] => [a]
  | node _ (t :: ts) => leaves t ++ leavesOf ts

def leavesOf : List (PlanTree α) → List α
  | [] => []
  | t :: ts => leaves t ++ leavesOf ts

end

mutual

def map (f : α → β) : PlanTree α → PlanTree β
  | node a ts => node (f a) (mapOf f ts)

def mapOf (f : α → β) : List (PlanTree α) → List (PlanTree β)
  | [] => []
  | t :: ts => map f t :: mapOf f ts

end

mutual

def render (label : α → String) (depth : Nat) : PlanTree α → String
  | node a ts => planLine depth (label a) ++ renderOf label (depth + 1) ts

def renderOf (label : α → String) (depth : Nat) : List (PlanTree α) → String
  | [] => ""
  | t :: ts => render label depth t ++ renderOf label depth ts

end

def size (t : PlanTree α) : Nat :=
  t.operators.length

def under (ops : List α) (t : PlanTree α) : PlanTree α :=
  ops.foldr (fun a t => node a [t]) t

end PlanTree

end RelationalDb
