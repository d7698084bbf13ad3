import Mathlib
import RelationalDb.Proofs.Plan.Shapes

/-!
# Flattening keeps what a plan stands for

A predicate with flat conjunctions has the same value and no new conditions, so the plan
with flat selections stands for the original.
-/

namespace RelationalDb

namespace LogicalPlan

variable {t : LogicalPlan} {p : Predicate}

theorem mapOf_eq {α β : Type} (f : α → β) (ts : List (PlanTree α)) :
    PlanTree.mapOf f ts = ts.map (PlanTree.map f) := by
  induction ts with
  | nil => rfl
  | cons t ts ih => rw [PlanTree.mapOf, ih, List.map_cons]

theorem within_flatten {names : List String} (h : p.Within names) : p.flatten.Within names :=
  fun c hc => h c (Predicate.mem_conditions_of_mem_flatten hc)

theorem flattenConjunctions_standsFor (h : t.Formed) : t.flattenConjunctions.StandsFor t := by
  unfold flattenConjunctions
  induction h with
  | table t => exact (Formed.table t).standsFor
  | select ht hp ih =>
      rw [PlanTree.map, mapOf_eq]
      exact ih.select (within_flatten hp) (fun a => Predicate.eval_flatten a _)
        fun c hc => Predicate.mem_conditions_of_mem_flatten hc
  | product hne hts ih =>
      rw [PlanTree.map, mapOf_eq]
      exact standsFor_product hne (forall₂_map ih)
  | join hl hr hleft hright ihl ihr =>
      rw [PlanTree.map, mapOf_eq]
      exact ihl.join ihr hleft hright
  | orderBy ht ih =>
      rw [PlanTree.map, mapOf_eq]
      exact ih.orderBy

end LogicalPlan

end RelationalDb
