import RelationalDb.Plan.Logical

/-!
# Flat conjunctions

A conjunction among the parts of a conjunction is dissolved into it, at every depth and
under disjunctions too, and a conjunction of one part is that part.
-/

namespace RelationalDb

namespace Predicate

mutual

def flatten : Predicate → Predicate
  | condition c => condition c
  | combine .conjunction ps => allOf (conjunctsOf (flattenAll ps))
  | combine .disjunction ps => combine .disjunction (flattenAll ps)

def flattenAll : List Predicate → List Predicate
  | [] => []
  | p :: ps => flatten p :: flattenAll ps

end

end Predicate

namespace LogicalOp

def flattenSelection : LogicalOp → LogicalOp
  | select p => select p.flatten
  | op => op

end LogicalOp

def LogicalPlan.flattenConjunctions (t : LogicalPlan) : LogicalPlan :=
  t.map LogicalOp.flattenSelection

end RelationalDb
