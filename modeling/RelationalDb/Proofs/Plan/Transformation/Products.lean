import Mathlib
import RelationalDb.Plan.Transformation.Products
import RelationalDb.Proofs.Plan.Shapes

/-!
# Binary products keep what a plan stands for

A chain of binary products that grows to the left reads the tables in the same order and
has the predicates of its inputs.
-/

namespace RelationalDb

namespace LogicalPlan

variable {t : LogicalPlan} {ts : List LogicalPlan}

theorem splitProductsOf_eq (ts : List LogicalPlan) :
    splitProductsOf ts = ts.map splitProducts := by
  induction ts with
  | nil => rfl
  | cons t ts ih => rw [splitProductsOf, ih, List.map_cons]

theorem foldl_product_standsFor (ht : t.Formed) (hts : ∀ u ∈ ts, u.Formed) :
    (ts.foldl (fun left right => .node .product [left, right]) t).StandsFor
      (.node .product (t :: ts)) := by
  induction ts generalizing t with
  | nil =>
      refine ⟨ht, (tables_single).symm, ?_, ?_⟩
      · intro a
        simp [holds_node, LogicalOp.guard?]
      · intro p hp test htest
        exact ⟨p, by simpa [LogicalOp.guard?] using hp, htest⟩
  | cons u rest ih =>
      have hu : u.Formed := hts u List.mem_cons_self
      have hpair : Formed (.node .product [t, u]) := by
        apply Formed.product (List.cons_ne_nil _ _)
        simpa using ⟨ht, hu⟩
      apply (ih hpair fun v hv => hts v (List.mem_cons_of_mem _ hv)).trans
      refine ⟨?_, ?_, ?_, ?_⟩
      · apply Formed.product (List.cons_ne_nil _ _)
        simp only [List.forall_mem_cons] at hts ⊢
        exact ⟨hpair, hts.2⟩
      · rw [tables_node (List.cons_ne_nil _ _), tables_node (List.cons_ne_nil _ _)]
        simp
      · intro a
        simp [holds_node, LogicalOp.guard?, and_assoc]
      · intro p hp test htest
        refine ⟨p, ?_, htest⟩
        simpa [LogicalOp.guard?, or_assoc] using hp

theorem splitProducts_standsFor (h : t.Formed) : t.splitProducts.StandsFor t := by
  induction h with
  | table t => exact (Formed.table t).standsFor
  | select ht hp ih =>
      rw [splitProducts, splitProductsOf_eq]
      · exact ih.select hp (fun _ => rfl) fun _ hc => hc
      · nofun
  | @product ts hne hts ih =>
      rw [splitProducts, splitProductsOf_eq]
      apply StandsFor.trans _ (standsFor_product hne (forall₂_map ih))
      cases ts with
      | nil => exact absurd rfl hne
      | cons t ts =>
          rw [List.map_cons]
          apply foldl_product_standsFor (ih t List.mem_cons_self).formed
          intro u hu
          rcases List.mem_map.mp hu with ⟨v, hv, rfl⟩
          exact (ih v (List.mem_cons_of_mem _ hv)).formed
  | join hl hr hleft hright ihl ihr =>
      rw [splitProducts, splitProductsOf_eq]
      · exact ihl.join ihr hleft hright
      · nofun
  | orderBy ht ih =>
      rw [splitProducts, splitProductsOf_eq]
      · exact ih.orderBy
      · nofun

end LogicalPlan

end RelationalDb
