import Mathlib
import RelationalDb.Plan.Transformation.Joins
import RelationalDb.Proofs.Plan.Shapes

/-!
# Introducing joins keeps what a plan stands for

The condition of a join is that of the selection it comes from, read from the other side
if its columns are, and each of its columns belongs to the side that it is read on.
-/

namespace RelationalDb

def Predicate.joinOver? (p : Predicate) (left right : List String) : Option ColumnJoin :=
  match p with
  | .condition (.join j) => if j.isEquality then LogicalPlan.orient? j left right else none
  | _ => none

namespace LogicalPlan

variable {t l r : LogicalPlan} {ts : List LogicalPlan} {p : Predicate} {j : ColumnJoin}

theorem joinCondition?_eq (p : Predicate) (l r : LogicalPlan) :
    joinCondition? p l r = p.joinOver? l.tableNames r.tableNames := rfl

/-- Tables are joined on the condition that is asked for or on its reverse, which has its columns on
the sides that they are read on. -/
theorem joinOver?_eq_some {left right : List String} (h : p.joinOver? left right = some j) :
    ∃ j₀, p = .condition (.join j₀) ∧ j₀.isEquality = true ∧ (j = j₀ ∨ j = j₀.reverse) ∧
      j.left.table ∈ left ∧ j.right.table ∈ right := by
  unfold Predicate.joinOver? at h
  split at h
  · next j₀ =>
      split at h
      · next hequality =>
          refine ⟨j₀, rfl, hequality, ?_⟩
          unfold orient? at h
          split at h
          · next hsides =>
              cases h
              simp only [Bool.and_eq_true, List.contains_iff_mem] at hsides
              exact ⟨Or.inl rfl, hsides⟩
          · split at h
            · next hsides =>
                cases h
                simp only [Bool.and_eq_true, List.contains_iff_mem] at hsides
                exact ⟨Or.inr rfl, hsides⟩
            · cases h
      · cases h
  · cases h

theorem joinCondition?_eq_some (h : joinCondition? p l r = some j) :
    j.left.table ∈ l.tableNames ∧ j.right.table ∈ r.tableNames ∧
      (∀ a, (Predicate.condition (.join j)).eval a = p.eval a) ∧
      ∀ test, Condition.test test ∉ p.conditions := by
  rw [joinCondition?_eq] at h
  rcases joinOver?_eq_some h with ⟨j₀, rfl, hequality, hj, hleft, hright⟩
  refine ⟨hleft, hright, ?_, ?_⟩
  · intro a
    rcases hj with rfl | rfl
    · rfl
    · exact Condition.eval_reverse j₀ a
  · intro test htest
    rw [Predicate.conditions, List.mem_singleton] at htest
    cases htest

theorem join_standsFor (hl : l.Formed) (hr : r.Formed) (h : joinCondition? p l r = some j) :
    StandsFor (.node (.join j) [l, r]) (.node (.select p) [.node .product [l, r]]) := by
  rcases joinCondition?_eq_some h with ⟨hleft, hright, heval, htests⟩
  refine ⟨.join hl hr hleft hright, by simp, ?_, ?_⟩
  · intro a
    simp [holds_node, LogicalOp.guard?, heval a]
  · intro q hq test htest
    refine ⟨q, ?_, htest⟩
    simp only [guards_node, LogicalOp.guard?, Option.toList_some, Option.toList_none,
      List.mem_append, List.mem_singleton, List.nil_append, List.flatMap_singleton] at hq ⊢
    rcases hq with rfl | hq
    · rw [Predicate.conditions, List.mem_singleton] at htest
      cases htest
    · exact Or.inr hq

/-- A single plan takes the place of the plan and stands for it. -/
def Joins (t : LogicalPlan) : Prop :=
  ∃ t', joinsFrom t = [t'] ∧ t'.StandsFor t

theorem joinsFromAll_of_joins (h : ∀ t ∈ ts, t.Joins) :
    ∃ ts', joinsFromAll ts = ts' ∧ List.Forall₂ (fun t t' => t'.StandsFor t) ts ts' := by
  refine ⟨_, rfl, ?_⟩
  induction ts with
  | nil => exact List.Forall₂.nil
  | cons t ts ih =>
      rcases h t List.mem_cons_self with ⟨t', ht', hstands⟩
      rw [joinsFromAll, ht']
      exact List.Forall₂.cons hstands (ih fun u hu => h u (List.mem_cons_of_mem _ hu))

theorem joinsFrom_select (p : Predicate) (t : LogicalPlan) :
    joinsFrom (.node (.select p) [t]) = [.node (.select p) (joinsFrom t)] ∨
      ∃ l r j, t = .node .product [l, r] ∧ joinCondition? p l r = some j ∧
        joinsFrom (.node (.select p) [t]) = [.node (.join j) (joinsFrom l ++ joinsFrom r)] := by
  by_cases hproduct : ∃ l r, t = .node .product [l, r]
  · rcases hproduct with ⟨l, r, rfl⟩
    cases hj : joinCondition? p l r with
    | none =>
        left
        simp [joinsFrom, joinsFromAll, hj]
    | some j =>
        right
        refine ⟨l, r, j, rfl, hj, ?_⟩
        simp [joinsFrom, joinsFromAll, hj]
  · left
    rw [joinsFrom]
    · simp [joinsFromAll]
    · intro p' l r rest hop hts
      cases hts
      exact hproduct ⟨l, r, rfl⟩

/-- The inputs are part of the statement, as a join looks two levels down. -/
theorem Formed.joins (h : t.Formed) : t.Joins ∧ ∀ u ∈ t.inputs, Joins u ∧ Formed u := by
  induction h with
  | table t => exact ⟨⟨_, rfl, (Formed.table t).standsFor⟩, nofun⟩
  | @select p t ht hp ih =>
      refine ⟨?_, by simpa [PlanTree.inputs] using ⟨ih.1, ht⟩⟩
      rcases joinsFrom_select p t with heq | ⟨l, r, j, rfl, hj, heq⟩
      · rcases ih.1 with ⟨t', ht', hstands⟩
        refine ⟨.node (.select p) [t'], by rw [heq, ht'], ?_⟩
        exact hstands.select hp (fun _ => rfl) fun _ hc => hc
      · rcases ih.2 l List.mem_cons_self with ⟨⟨l', hl', hlstands⟩, hl⟩
        rcases ih.2 r (List.mem_cons_of_mem _ List.mem_cons_self) with ⟨⟨r', hr', hrstands⟩, hr⟩
        rcases joinCondition?_eq_some hj with ⟨hleft, hright, _⟩
        refine ⟨.node (.join j) [l', r'], by rw [heq, hl', hr']; rfl, ?_⟩
        exact (hlstands.join hrstands hleft hright).trans (join_standsFor hl hr hj)
  | @product ts hne hts ih =>
      refine ⟨?_, fun u hu => ⟨(ih u hu).1, hts u hu⟩⟩
      rcases joinsFromAll_of_joins fun u hu => (ih u hu).1 with ⟨ts', hts', hall⟩
      refine ⟨.node .product ts', ?_, standsFor_product hne hall⟩
      rw [joinsFrom, hts']
      nofun
  | @join j l r hl hr hleft hright ihl ihr =>
      refine ⟨?_, by simpa [PlanTree.inputs] using ⟨⟨ihl.1, hl⟩, ihr.1, hr⟩⟩
      rcases ihl.1 with ⟨l', hl', hlstands⟩
      rcases ihr.1 with ⟨r', hr', hrstands⟩
      refine ⟨.node (.join j) [l', r'], ?_, hlstands.join hrstands hleft hright⟩
      simp [joinsFrom, joinsFromAll, hl', hr']
  | @orderBy order t ht ih =>
      refine ⟨?_, by simpa [PlanTree.inputs] using ⟨ih.1, ht⟩⟩
      rcases ih.1 with ⟨t', ht', hstands⟩
      refine ⟨.node (.orderBy order) [t'], ?_, hstands.orderBy⟩
      simp [joinsFrom, joinsFromAll, ht']

theorem Formed.joinsFrom_eq (h : t.Formed) : joinsFrom t = [t.introduceJoins] := by
  rcases h.joins.1 with ⟨t', ht', _⟩
  rw [introduceJoins, ht']

theorem introduceJoins_standsFor (h : t.Formed) : t.introduceJoins.StandsFor t := by
  rcases h.joins.1 with ⟨t', ht', hstands⟩
  rw [introduceJoins, ht']
  exact hstands

end LogicalPlan

end RelationalDb
