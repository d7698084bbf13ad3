import RelationalDb.Plan.Transformation.Conjunctions
import RelationalDb.Plan.Transformation.Joins
import RelationalDb.Plan.Transformation.Products
import RelationalDb.Plan.Transformation.Pushdown

/-!
# Sequences of transformations
-/

namespace RelationalDb

inductive Transformation
  | flattenConjunctions
  | splitProducts
  | pushDownSelections
  | introduceJoins
deriving DecidableEq

namespace Transformation

def standard : List Transformation :=
  [.flattenConjunctions, .splitProducts, .pushDownSelections, .introduceJoins]

def name : Transformation → String
  | flattenConjunctions => "and_predicate"
  | splitProducts => "cross_product"
  | pushDownSelections => "push_down_selections"
  | introduceJoins => "implicit_joins"

def ofName? (s : String) : Option Transformation :=
  standard.find? fun x => x.name == s

def apply : Transformation → LogicalPlan → LogicalPlan
  | flattenConjunctions, t => t.flattenConjunctions
  | splitProducts, t => t.splitProducts
  | pushDownSelections, t => t.pushDownSelections
  | introduceJoins, t => t.introduceJoins

def applyAll (transformations : List Transformation) (t : LogicalPlan) : LogicalPlan :=
  transformations.foldl (fun t x => x.apply t) t

end Transformation

end RelationalDb
