import Mathlib
import RelationalDb.Plan.Transformation.Sequence
import RelationalDb.Proofs.Plan.Transformation.Conjunctions
import RelationalDb.Proofs.Plan.Transformation.Joins
import RelationalDb.Proofs.Plan.Transformation.Products
import RelationalDb.Proofs.Plan.Transformation.Pushdown

/-!
# Sequences of transformations keep what a plan stands for

Any transformations, in any order and any number, leave the projection at the root and the
operators right below it that order and cut, and put a plan under them that stands for the
original one.
-/

namespace RelationalDb

/-- The operator orders or cuts what is below it. -/
inductive LogicalOp.Arranges : LogicalOp → Prop
  | orderBy (order : SortOrder) : Arranges (.orderBy order)
  | skip (count : Nat) : Arranges (.skip count)
  | limit (count : Nat) : Arranges (.limit count)

namespace LogicalPlan

open PlanTree (under)

variable {t : LogicalPlan} {ops : List LogicalOp}

theorem under_cons (op : LogicalOp) (ops : List LogicalOp) (t : LogicalPlan) :
    under (op :: ops) t = .node op [under ops t] := rfl

section Arranged

variable (hops : ∀ op ∈ ops, op.Arranges)

include hops

theorem map_under : (under ops t).map LogicalOp.flattenSelection =
    under ops (t.map LogicalOp.flattenSelection) := by
  induction ops with
  | nil => rfl
  | cons op ops ih =>
      rw [List.forall_mem_cons] at hops
      rw [under_cons, under_cons, ← ih hops.2]
      cases hops.1 <;> rfl

theorem splitProducts_under : splitProducts (under ops t) = under ops t.splitProducts := by
  induction ops with
  | nil => rfl
  | cons op ops ih =>
      rw [List.forall_mem_cons] at hops
      rw [under_cons, under_cons, ← ih hops.2]
      cases hops.1 <;> rfl

theorem pushSelections_under :
    pushSelections [] (under ops t) = under ops (pushSelections [] t) := by
  induction ops with
  | nil => rfl
  | cons op ops ih =>
      rw [List.forall_mem_cons] at hops
      rw [under_cons, under_cons, ← ih hops.2]
      cases hops.1 <;> rfl

theorem joinsFrom_under {t' : LogicalPlan} (ht : joinsFrom t = [t']) :
    joinsFrom (under ops t) = [under ops t'] := by
  induction ops with
  | nil => exact ht
  | cons op ops ih =>
      rw [List.forall_mem_cons] at hops
      rw [under_cons, under_cons]
      cases hops.1 <;> rw [joinsFrom, joinsFromAll, joinsFromAll, ih hops.2] <;> simp

theorem apply_under (columns : List Expression) (groupBy : List ColumnRef) (ht : t.Formed)
    (x : Transformation) :
    ∃ t', x.apply (.node (.project columns groupBy) [t]) =
        .node (.project columns groupBy) [t'] ∧
      x.apply (.node (.project columns groupBy) [under ops t]) =
        .node (.project columns groupBy) [under ops t'] ∧ StandsFor t' t := by
  cases x with
  | flattenConjunctions =>
      refine ⟨_, rfl, ?_, flattenConjunctions_standsFor ht⟩
      change PlanTree.node _ [(under ops t).map _] = _
      rw [map_under hops]
      rfl
  | splitProducts =>
      refine ⟨t.splitProducts, rfl, ?_, splitProducts_standsFor ht⟩
      change PlanTree.node _ [splitProducts (under ops t)] = _
      rw [splitProducts_under hops]
  | pushDownSelections =>
      refine ⟨_, rfl, ?_, pushDownSelections_standsFor ht⟩
      change PlanTree.node _ [pushSelections [] (under ops t)] = _
      rw [pushSelections_under hops]
      rfl
  | introduceJoins =>
      have hproject : ∀ {u v : LogicalPlan}, joinsFrom u = [v] →
          introduceJoins (.node (.project columns groupBy) [u]) =
            .node (.project columns groupBy) [v] := by
        intro u v huv
        simp [introduceJoins, joinsFrom, joinsFromAll, huv]
      have hjoins := ht.joinsFrom_eq
      refine ⟨t.introduceJoins, hproject hjoins, ?_, introduceJoins_standsFor ht⟩
      exact hproject (joinsFrom_under hops hjoins)

theorem applyAll_under (columns : List Expression) (groupBy : List ColumnRef) (ht : t.Formed)
    (transformations : List Transformation) :
    ∃ t', Transformation.applyAll transformations (.node (.project columns groupBy) [t]) =
        .node (.project columns groupBy) [t'] ∧
      Transformation.applyAll transformations (.node (.project columns groupBy) [under ops t]) =
        .node (.project columns groupBy) [under ops t'] ∧ StandsFor t' t := by
  induction transformations generalizing t with
  | nil => exact ⟨t, rfl, rfl, ht.standsFor⟩
  | cons x rest ih =>
      rcases apply_under hops columns groupBy ht x with ⟨t₁, hx, hxUnder, hstands⟩
      rcases ih hstands.formed with ⟨t₂, hrest, hrestUnder, hstands'⟩
      refine ⟨t₂, ?_, ?_, hstands'.trans hstands⟩
      · rw [Transformation.applyAll, List.foldl_cons, hx]
        exact hrest
      · rw [Transformation.applyAll, List.foldl_cons, hxUnder]
        exact hrestUnder

end Arranged

theorem applyAll_project (columns : List Expression) (groupBy : List ColumnRef) (ht : t.Formed)
    (transformations : List Transformation) :
    ∃ t', Transformation.applyAll transformations (.node (.project columns groupBy) [t]) =
      .node (.project columns groupBy) [t'] ∧ StandsFor t' t := by
  rcases applyAll_under (List.forall_mem_nil _) columns groupBy ht transformations with
    ⟨t', hall, _, hstands⟩
  exact ⟨t', hall, hstands⟩

end LogicalPlan

end RelationalDb
