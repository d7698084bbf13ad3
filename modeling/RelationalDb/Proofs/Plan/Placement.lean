import Mathlib
import RelationalDb.Proofs.Plan.Transformation.Standard

/-!
# The places of conjuncts

The place of a conjunct is the access to the only table that it reads, or the lowest product
or join that reads all of its tables.  The standard transformations put every conjunct of a
query at its place, and lose and repeat none of them.
-/

namespace RelationalDb

namespace LogicalOp

/-- The operator is a product or a join. -/
inductive Combines : LogicalOp → Prop
  | product : Combines .product
  | join (j : ColumnJoin) : Combines (.join j)

/-- The operator asks for the conjunct: a selection as it is written, a join as it is written or
reversed. -/
inductive AsksFor : LogicalOp → Predicate → Prop
  | select (p : Predicate) : AsksFor (.select p) p
  | join (j : ColumnJoin) : AsksFor (.join j) (.condition (.join j))
  | reversed (j : ColumnJoin) : AsksFor (.join j.reverse) (.condition (.join j))

end LogicalOp

namespace LogicalPlan

open PlanTree (under)

/-- What stands under the selections at the top of a plan. -/
def base : LogicalPlan → LogicalPlan
  | .node (.select _) [t] => base t
  | t => t

/-- The plan reads all tables of the predicate, and none of its inputs does. -/
structure LowestFor (t : LogicalPlan) (p : Predicate) : Prop where
  within : p.Within t.tableNames
  inputs : ∀ u ∈ t.inputs, ¬ p.Within (tableNames u)

/-- The plan is the access to the only table of the predicate, or the lowest product or join that
reads all of its tables. -/
structure PlaceOf (t : LogicalPlan) (p : Predicate) : Prop where
  single : ∀ name, p.tables = [name] → ∃ u, t = .node (.table u) [] ∧ u.effectiveName = name
  several : 1 < p.tables.length → t.op.Combines ∧ t.LowestFor p

/-- Plans of tables, selections and products and joins of two plans in which every selection stands
in the run above the place of its predicate, and every join is the place of its condition. -/
inductive Placed : LogicalPlan → Prop
  | table (u : Table) : Placed (.node (.table u) [])
  | select {p : Predicate} {t : LogicalPlan} (ht : Placed t) (hp : t.base.PlaceOf p) :
      Placed (.node (.select p) [t])
  | product {l r : LogicalPlan} (hl : Placed l) (hr : Placed r) : Placed (.node .product [l, r])
  | join {j : ColumnJoin} {l r : LogicalPlan} (hl : Placed l) (hr : Placed r)
      (hj : PlaceOf (.node (.join j) [l, r]) (.condition (.join j))) :
      Placed (.node (.join j) [l, r])

def askers (t : LogicalPlan) : List LogicalOp :=
  t.operators.filter fun op => op.guard?.isSome

variable {t l r : LogicalPlan} {us : List Table} {u : Table} {p : Predicate} {j : ColumnJoin}
  {ps qs : List Predicate}

/-!
## Places
-/

theorem nodup_tables (p : Predicate) : p.tables.Nodup :=
  (SortedMap.ordered_ofList _).nodup_keys

theorem within_iff {names : List String} : p.Within names ↔ ∀ name ∈ p.tables, name ∈ names := by
  rw [← covers_iff]
  simp [covers]

theorem placeOf_table (hp : p.Within [u.effectiveName]) : PlaceOf (.node (.table u) []) p where
  single := by
    intro name hname
    have hmem := within_iff.mp hp name (by rw [hname]; exact List.mem_singleton_self name)
    exact ⟨u, rfl, (List.mem_singleton.mp hmem).symm⟩
  several := by
    intro hlength
    have hsub : p.tables ⊆ [u.effectiveName] := within_iff.mp hp
    have hle := ((nodup_tables p).subperm hsub).length_le
    exact absurd hlength (Nat.not_lt.mpr hle)

/-- A conjunct that stays above two inputs has its place there: with several tables, it has some in
both of them. -/
theorem placeOf_pair {op : LogicalOp} (hop : op.Combines)
    (hdisjoint : l.tableNames.Disjoint r.tableNames)
    (hp : p.Within (l.tableNames ++ r.tableNames))
    (hstays : p ∈ staying l.tableNames r.tableNames ps) : PlaceOf (.node op [l, r]) p := by
  have hsame : p.Within l.tableNames ↔ p.Within r.tableNames := by
    rw [← covers_iff, ← covers_iff, beq_iff_eq.mp (List.mem_filter.mp hstays).2]
  -- a conjunct that both inputs have all tables for has none
  have hboth : p.Within l.tableNames → p.tables = [] := by
    intro hleft
    apply List.eq_nil_iff_forall_not_mem.mpr
    intro name hname
    exact hdisjoint (within_iff.mp hleft name hname) (within_iff.mp (hsame.mp hleft) name hname)
  constructor
  · intro name hname
    have hwithin : ∀ names : List String, name ∈ names → p.Within names := by
      intro names hmem
      rw [within_iff, hname]
      simpa using hmem
    have hleft : p.Within l.tableNames := by
      rcases List.mem_append.mp (within_iff.mp hp name (by simp [hname])) with hmem | hmem
      · exact hwithin _ hmem
      · exact hsame.mpr (hwithin _ hmem)
    rw [hboth hleft] at hname
    cases hname
  · intro hlength
    have hleft : ¬ p.Within l.tableNames := by
      intro hleft
      rw [hboth hleft] at hlength
      cases hlength
    refine ⟨hop, ?_, ?_⟩
    · rwa [tableNames, tables_pair, List.map_append]
    · intro v hv
      rcases List.mem_cons.mp hv with rfl | hv
      · exact hleft
      · cases List.mem_singleton.mp hv
        exact fun hright => hleft (hsame.mpr hright)

theorem mem_tables_join {name : String} : name ∈ (Predicate.condition (.join j)).tables ↔
    name = j.left.table ∨ name = j.right.table := by
  simp [Predicate.mem_tables_iff, Predicate.conditions, Condition.columns, eq_comm]

theorem covers_join_iff {names : List String} :
    covers names (.condition (.join j)) = true ↔ j.left.table ∈ names ∧ j.right.table ∈ names := by
  rw [covers_iff, within_iff]
  simp [mem_tables_join]

theorem placeOf_join (hdisjoint : l.tableNames.Disjoint r.tableNames)
    (hleft : j.left.table ∈ l.tableNames) (hright : j.right.table ∈ r.tableNames) :
    PlaceOf (.node (.join j) [l, r]) (.condition (.join j)) := by
  have hnotLeft : covers l.tableNames (.condition (.join j)) = false := by
    rw [Bool.eq_false_iff, ne_eq, covers_join_iff]
    exact fun h => hdisjoint h.2 hright
  have hnotRight : covers r.tableNames (.condition (.join j)) = false := by
    rw [Bool.eq_false_iff, ne_eq, covers_join_iff]
    exact fun h => hdisjoint hleft h.1
  have hstays : .condition (.join j) ∈
      staying l.tableNames r.tableNames [.condition (.join j)] := by
    simp [staying, hnotLeft, hnotRight]
  apply placeOf_pair (.join j) hdisjoint _ hstays
  rw [← covers_iff, covers_join_iff]
  exact ⟨List.mem_append_left _ hleft, List.mem_append_right _ hright⟩

/-!
## Selections above a place
-/

theorem base_select (p : Predicate) (t : LogicalPlan) : base (.node (.select p) [t]) = t.base := by
  rw [base]

theorem base_selections (ps : List Predicate) (t : LogicalPlan) :
    (selections ps t).base = t.base := by
  induction ps with
  | nil => rfl
  | cons p ps ih => rw [selections_cons, base_select, ih]

theorem placed_selections (ht : t.Placed) (hps : ∀ p ∈ ps, t.base.PlaceOf p) :
    (selections ps t).Placed := by
  induction ps with
  | nil => exact ht
  | cons p ps ih =>
      apply Placed.select (ih fun q hq => hps q (List.mem_cons_of_mem _ hq))
      rw [base_selections]
      exact hps p List.mem_cons_self

theorem sides_of_joinOver? {left right : List String} (h : p.joinOver? left right = some j) :
    j.left.table ∈ left ∧ j.right.table ∈ right ∧ (LogicalOp.join j).AsksFor p := by
  rcases joinOver?_eq_some h with ⟨j₀, rfl, _, hj, hleft, hright⟩
  refine ⟨hleft, hright, ?_⟩
  rcases hj with rfl | rfl
  · exact .join j
  · exact .reversed j₀

theorem exists_of_madeJoin? {left right : List String} (h : madeJoin? ps left right = some j) :
    ∃ p, ps = ps.dropLast ++ [p] ∧ p.joinOver? left right = some j := by
  rcases Option.bind_eq_some_iff.mp h with ⟨p, hp, hj⟩
  refine ⟨p, ?_, hj⟩
  rw [List.dropLast_append_getLast? p hp]

theorem placed_combined (hl : l.Placed) (hr : r.Placed)
    (hdisjoint : l.tableNames.Disjoint r.tableNames)
    (hps : ∀ p ∈ ps, p.Within (l.tableNames ++ r.tableNames) ∧
      p ∈ staying l.tableNames r.tableNames ps) : (combined ps l r).Placed := by
  unfold combined
  cases hmade : madeJoin? ps l.tableNames r.tableNames with
  | none =>
      apply placed_selections (.product hl hr)
      intro p hp
      exact placeOf_pair .product hdisjoint (hps p hp).1 (hps p hp).2
  | some j =>
      rcases exists_of_madeJoin? hmade with ⟨p, _, hj⟩
      rcases sides_of_joinOver? hj with ⟨hleft, hright, _⟩
      apply placed_selections (.join hl hr (placeOf_join hdisjoint hleft hright))
      intro p hp
      have hmem := List.mem_of_mem_dropLast hp
      exact placeOf_pair (.join j) hdisjoint (hps p hmem).1 (hps p hmem).2

theorem Optimized.placed (h : Optimized us ps t) (hdistinct : (us.map (·.effectiveName)).Nodup)
    (hps : ∀ p ∈ ps, p.Within (us.map (·.effectiveName))) : t.Placed := by
  induction h with
  | single u ps =>
      apply placed_selections (.table u)
      intro p hp
      exact placeOf_table (hps p hp)
  | @snoc us ps t u h ih =>
      rw [List.map_append, List.nodup_append'] at hdistinct
      apply placed_combined
      · exact ih hdistinct.1 fun p hp => within_of_mem_descending hp
      · apply placed_selections (.table u)
        intro p hp
        exact placeOf_table (within_of_mem_descending hp)
      · rw [h.tableNames_eq, tableNames_selections_table]
        exact hdistinct.2.2
      · intro p hp
        rw [h.tableNames_eq, tableNames_selections_table]
        have hmem := List.mem_filter.mp hp
        refine ⟨?_, List.mem_filter.mpr ⟨hp, hmem.2⟩⟩
        have hwithin := hps p hmem.1
        rwa [List.map_append] at hwithin

/-!
## Leaves and conjuncts
-/

theorem Placed.leaves_eq (h : t.Placed) : t.leaves = t.tables.map .table := by
  have hpair : ∀ (op : LogicalOp) (l r : LogicalPlan),
      PlanTree.leaves (.node op [l, r]) = l.leaves ++ r.leaves := by
    intro op l r
    simp [PlanTree.leaves, PlanTree.leavesOf]
  induction h with
  | table u => rfl
  | @select p t ht hp ih =>
      rw [tables_single, ← ih]
      simp [PlanTree.leaves, PlanTree.leavesOf]
  | product hl hr ihl ihr => rw [hpair, tables_pair, List.map_append, ihl, ihr]
  | join hl hr hj ihl ihr => rw [hpair, tables_pair, List.map_append, ihl, ihr]

theorem askers_node (op : LogicalOp) (ts : List LogicalPlan) :
    askers (.node op ts) = (if op.guard?.isSome then [op] else []) ++ ts.flatMap askers := by
  unfold askers
  rw [PlanTree.operators, operatorsOf_eq, List.filter_cons, List.filter_flatMap]
  split
  · rfl
  · rfl

theorem askers_selections (ps : List Predicate) (t : LogicalPlan) :
    (selections ps t).askers = ps.map .select ++ t.askers := by
  induction ps with
  | nil => rfl
  | cons p ps ih =>
      rw [selections_cons, askers_node, List.flatMap_singleton, ih]
      rfl

theorem forall₂_asksFor_select (ps : List Predicate) :
    List.Forall₂ LogicalOp.AsksFor (ps.map .select) ps := by
  rw [List.forall₂_map_left_iff, List.forall₂_same]
  exact fun p _ => .select p

theorem asksFor_selections (h : List.Forall₂ LogicalOp.AsksFor t.askers qs) :
    List.Forall₂ LogicalOp.AsksFor (selections ps t).askers (ps ++ qs) := by
  rw [askers_selections]
  exact List.rel_append (forall₂_asksFor_select ps) h

theorem asksFor_combined {ls rs : List Predicate}
    (hl : List.Forall₂ LogicalOp.AsksFor l.askers ls)
    (hr : List.Forall₂ LogicalOp.AsksFor r.askers rs) :
    List.Forall₂ LogicalOp.AsksFor (combined ps l r).askers (ps ++ (ls ++ rs)) := by
  have hinputs : List.Forall₂ LogicalOp.AsksFor ([l, r].flatMap askers) (ls ++ rs) := by
    simpa using List.rel_append hl hr
  unfold combined
  cases hmade : madeJoin? ps l.tableNames r.tableNames with
  | none =>
      apply asksFor_selections
      rw [askers_node]
      exact hinputs
  | some j =>
      rcases exists_of_madeJoin? hmade with ⟨p, hlast, hj⟩
      rw [hlast, List.append_assoc, List.dropLast_concat]
      apply asksFor_selections
      rw [askers_node]
      exact List.Forall₂.cons (sides_of_joinOver? hj).2.2 hinputs

theorem shared_perm (left right : List String) (ps : List Predicate) :
    (staying left right ps ++ (descending left right ps ++ descending right left ps)).Perm ps := by
  unfold staying descending
  induction ps with
  | nil => exact List.Perm.refl _
  | cons p ps ih =>
      cases hleft : covers left p <;> cases hright : covers right p <;>
        simp only [List.filter_cons, hleft, hright, beq_self_eq_true, Bool.true_beq, Bool.false_beq,
          Bool.and_true, Bool.and_false, Bool.not_true, Bool.not_false, if_true, if_false,
          Bool.false_eq_true, List.cons_append]
      · exact ih.cons p
      · rw [← List.append_assoc] at ih ⊢
        exact List.perm_middle.trans (ih.cons p)
      · exact List.perm_middle.trans (ih.cons p)
      · exact ih.cons p

theorem Optimized.asksFor (h : Optimized us ps t) :
    ∃ placed, placed.Perm ps ∧ List.Forall₂ LogicalOp.AsksFor t.askers placed := by
  induction h with
  | single u ps =>
      refine ⟨ps ++ [], by rw [List.append_nil], ?_⟩
      exact asksFor_selections List.Forall₂.nil
  | @snoc us ps t u h ih =>
      rcases ih with ⟨placed, hperm, hasks⟩
      refine ⟨_, ?_, asksFor_combined hasks (asksFor_selections List.Forall₂.nil)⟩
      rw [List.append_nil]
      exact ((hperm.append_right _).append_left _).trans (shared_perm _ _ ps)

end LogicalPlan

namespace Select

open PlanTree (under)

variable {q : Select}

theorem within_of_mem_conjuncts (h : q.Checked) {p : Predicate} (hp : p ∈ q.conjuncts) :
    p.Within (q.tables.map (·.effectiveName)) := by
  rcases List.mem_flatMap.mp hp with ⟨p₀, hp₀, hp⟩
  have hflat := LogicalPlan.within_flatten
    (LogicalPlan.within_names h (Option.mem_toList.mp hp₀))
  exact fun c hc => hflat c (Predicate.mem_conditions_of_mem_conjuncts hp hc)

/-- The standard transformations leave the projection and the operators that order and cut as they
are.  Below them the tables stand in their order, products and joins have two inputs, and every
conjunct of the flat predicate is in its place, once. -/
theorem conjuncts_are_placed (hcheck : q.check = .ok ()) :
    ∃ t body : LogicalPlan,
      LogicalPlan.ofSelect q = .node (.project q.columns q.groupBy) [under q.arrangement t] ∧
      Transformation.applyAll Transformation.standard (LogicalPlan.ofSelect q) =
        .node (.project q.columns q.groupBy) [under q.arrangement body] ∧
      body.leaves = q.tables.map .table ∧ q.names.Nodup ∧ body.Placed ∧
      ∃ placed, placed.Perm q.conjuncts ∧
        List.Forall₂ LogicalOp.AsksFor (LogicalPlan.askers body) placed := by
  have hchecked := checked_of_check hcheck
  rcases exists_optimized hchecked with ⟨t, body, hbuilt, hstandard, hoptimized⟩
  have hwithin := fun p => within_of_mem_conjuncts (p := p) hchecked
  have hplaced := hoptimized.placed hchecked.distinct hwithin
  refine ⟨t, body, hbuilt, hstandard, ?_, hchecked.distinct, hplaced, hoptimized.asksFor⟩
  rw [hplaced.leaves_eq, hoptimized.tables_eq]

theorem number_is_tested_below_the_join :
    (sameSize (some (.int64 7))).check = .ok () ∧
      ∃ body : LogicalPlan,
        Transformation.applyAll Transformation.standard
            (LogicalPlan.ofSelect (sameSize (some (.int64 7)))) =
          .node (.project (sameSize none).columns []) [body] ∧
        body.Placed ∧
        body = .node (.join
            { left := { table := "item", column := "size", position := 1, type := .float64 }
              right := { table := "other", column := "size", position := 1, type := .float64 }
              comparison := .eq })
          [.node (.select (.condition (.test
              { column := { table := "item", column := "number", position := 0, type := .int64 }
                comparison := .eq
                operands := [.placeholder 0 (some (.int64 7))] })))
            [.node (.table .items) []],
          .node (.table (Table.items.withAlias "other")) []] := by
  have hcheck : (sameSize (some (.int64 7))).check = .ok () := rfl
  rcases conjuncts_are_placed hcheck with ⟨t, body, _, hstandard, _, _, hplaced, _⟩
  refine ⟨hcheck, body, hstandard, hplaced, ?_⟩
  have hinputs := congrArg PlanTree.inputs hstandard
  exact (List.cons.inj hinputs).1.symm

end Select

end RelationalDb
