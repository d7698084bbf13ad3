import Mathlib
import RelationalDb.Proofs.Plan.Arrangement

/-!
# What the standard transformations make of a query

The standard transformations turn the product of all tables into a chain of binary products
that grows to the left, and share the conjuncts of the predicate out among its products and
its tables.  Where the last conjunct that stays at a product is an equality of its two sides,
the product becomes a join.
-/

namespace RelationalDb

namespace LogicalPlan

open PlanTree (under)

variable {t t' l r : LogicalPlan} {ts : List LogicalPlan} {us vs : List Table} {u : Table}
  {p : Predicate} {ps : List Predicate}

/-!
## Sharing conjuncts out among two inputs
-/

/-- The conjuncts that stay above two inputs, as both of them or neither has all of their
tables. -/
def staying (left right : List String) (ps : List Predicate) : List Predicate :=
  ps.filter fun p => covers left p == covers right p

/-- The conjuncts that go down to the first of two inputs. -/
def descending (left right : List String) (ps : List Predicate) : List Predicate :=
  ps.filter fun p => covers left p && !covers right p

theorem within_of_mem_descending {left right : List String} (h : p ∈ descending left right ps) :
    p.Within left := by
  have hcovers := (List.mem_filter.mp h).2
  rw [Bool.and_eq_true] at hcovers
  exact covers_iff.mp hcovers.1

theorem onlyCover?_pair (left right : List String) (p : Predicate) :
    onlyCover? [left, right] p =
      match covers left p, covers right p with
      | true, false => some 0
      | false, true => some 1
      | _, _ => none := by
  unfold onlyCover?
  cases hleft : covers left p <;> cases hright : covers right p <;> simp [hleft, hright]

theorem sentTo_send (target : Option Nat) (ts : List LogicalPlan) (ps : List Predicate) :
    sentTo target (send ts ps) = ps.filter fun p => onlyCover? (ts.map tableNames) p == target := by
  unfold sentTo send
  rw [List.filter_map, List.map_map]
  exact List.map_id _

theorem tableNames_selections_table (ps : List Predicate) (u : Table) :
    tableNames (selections ps (.node (.table u) [])) = [u.effectiveName] := by
  rw [tableNames_selections]
  rfl

theorem pushSelections_table (ps : List Predicate) (u : Table) :
    pushSelections ps (.node (.table u) []) = selections ps (.node (.table u) []) := rfl

theorem sentTo_pair (target : Option Nat) (l r : LogicalPlan) (ps : List Predicate) :
    sentTo target (send [l, r] ps) = ps.filter fun p =>
      (match covers l.tableNames p, covers r.tableNames p with
        | true, false => some 0
        | false, true => some 1
        | _, _ => none) == target := by
  rw [sentTo_send]
  apply List.filter_congr
  intro p _
  rw [List.map_cons, List.map_cons, List.map_nil, onlyCover?_pair]

theorem pushSelections_pair (ps : List Predicate) (l r : LogicalPlan) :
    pushSelections ps (.node .product [l, r]) =
      selections (staying l.tableNames r.tableNames ps) (.node .product
        [pushSelections (descending l.tableNames r.tableNames ps) l,
          pushSelections (descending r.tableNames l.tableNames ps) r]) := by
  have hnone : sentTo none (send [l, r] ps) = staying l.tableNames r.tableNames ps := by
    rw [sentTo_pair, staying]
    congr 1
    funext p
    cases covers l.tableNames p <;> cases covers r.tableNames p <;> rfl
  have hfirst : sentTo (some 0) (send [l, r] ps) = descending l.tableNames r.tableNames ps := by
    rw [sentTo_pair, descending]
    congr 1
    funext p
    cases covers l.tableNames p <;> cases covers r.tableNames p <;> rfl
  have hsecond : sentTo (some 1) (send [l, r] ps) = descending r.tableNames l.tableNames ps := by
    rw [sentTo_pair, descending]
    congr 1
    funext p
    cases covers l.tableNames p <;> cases covers r.tableNames p <;> rfl
  simp only [pushSelections, pushSelectionsOf, hnone, hfirst, hsecond, Nat.zero_add]

/-!
## Joins out of the selections above a product
-/

def madeJoin? (ps : List Predicate) (left right : List String) : Option ColumnJoin :=
  ps.getLast?.bind fun p => p.joinOver? left right

def combined (ps : List Predicate) (l r : LogicalPlan) : LogicalPlan :=
  match madeJoin? ps l.tableNames r.tableNames with
  | some j => selections ps.dropLast (.node (.join j) [l, r])
  | none => selections ps (.node .product [l, r])

theorem selections_cons (p : Predicate) (ps : List Predicate) (t : LogicalPlan) :
    selections (p :: ps) t = .node (.select p) [selections ps t] := rfl

theorem joinsFrom_selections_table (ps : List Predicate) (u : Table) :
    joinsFrom (selections ps (.node (.table u) [])) = [selections ps (.node (.table u) [])] := by
  induction ps with
  | nil => rfl
  | cons p ps ih =>
      rw [selections_cons]
      rcases joinsFrom_select p (selections ps (.node (.table u) [])) with heq | ⟨l, r, j, heq, _⟩
      · rw [heq, ih]
      · cases ps <;> cases heq

theorem joinsFrom_product (l r : LogicalPlan) :
    joinsFrom (.node .product [l, r]) = [.node .product (joinsFrom l ++ joinsFrom r)] := by
  rw [joinsFrom]
  · simp [joinsFromAll]
  · intro p l r rest heq
    cases heq

/-- Of the selections above a product only the last one, which is directly above it, can make a
join of it. -/
theorem joinsFrom_selections_product (hl : joinsFrom l = [t]) (hr : joinsFrom r = [t'])
    (htl : t.tableNames = l.tableNames) (htr : t'.tableNames = r.tableNames)
    (ps : List Predicate) :
    joinsFrom (selections ps (.node .product [l, r])) = [combined ps t t'] := by
  induction ps with
  | nil =>
      change joinsFrom (.node .product [l, r]) = _
      rw [joinsFrom_product, hl, hr]
      rfl
  | cons p ps ih =>
      rw [selections_cons]
      -- a selection above another one keeps its place, so that the last one decides
      cases ps with
      | nil =>
          have hjoin : joinCondition? p l r = madeJoin? [p] t.tableNames t'.tableNames := by
            rw [joinCondition?_eq, htl, htr]
            rfl
          unfold combined
          rw [← hjoin]
          change joinsFrom (.node (.select p) [.node .product [l, r]]) = _
          cases hj : joinCondition? p l r with
          | none => simp [joinsFrom, joinsFromAll, hj, hl, hr, selections, under]
          | some j => simp [joinsFrom, joinsFromAll, hj, hl, hr, selections, under]
      | cons q ps =>
          rcases joinsFrom_select p (selections (q :: ps) (.node .product [l, r])) with
            heq | ⟨_, _, _, heq, _⟩
          · rw [heq, ih]
            have hlast : madeJoin? (p :: q :: ps) t.tableNames t'.tableNames =
                madeJoin? (q :: ps) t.tableNames t'.tableNames := by
              rw [madeJoin?, List.getLast?_cons_cons, madeJoin?]
            unfold combined
            rw [hlast]
            cases madeJoin? (q :: ps) t.tableNames t'.tableNames with
            | none => rfl
            | some j => rfl
          · cases heq

/-!
## The plan of all tables
-/

/-- A chain of binary products over some tables that grows to the left. -/
inductive LeftDeep : List Table → LogicalPlan → Prop
  | single (u : Table) : LeftDeep [u] (.node (.table u) [])
  | snoc {us : List Table} {t : LogicalPlan} (h : LeftDeep us t) (u : Table) :
      LeftDeep (us ++ [u]) (.node .product [t, .node (.table u) []])

theorem LeftDeep.tables_eq (h : LeftDeep us t) : t.tables = us := by
  induction h with
  | single u => rfl
  | snoc h u ih => rw [tables_pair, ih, tables_table]

theorem LeftDeep.foldl (h : LeftDeep us t) (vs : List Table) :
    LeftDeep (us ++ vs) ((vs.map fun u => .node (.table u) []).foldl
      (fun left right => .node .product [left, right]) t) := by
  induction vs generalizing us t with
  | nil => simpa using h
  | cons v vs ih =>
      rw [List.map_cons, List.foldl_cons, List.append_cons]
      exact ih (h.snoc v)

/-- The plan over some tables that the standard transformations make of some conjuncts: those that
stay at the last product are put above it, the others go down. -/
inductive Optimized : List Table → List Predicate → LogicalPlan → Prop
  | single (u : Table) (ps : List Predicate) :
      Optimized [u] ps (selections ps (.node (.table u) []))
  | snoc {us : List Table} {ps : List Predicate} {t : LogicalPlan} (u : Table)
      (h : Optimized us (descending (us.map (·.effectiveName)) [u.effectiveName] ps) t) :
      Optimized (us ++ [u]) ps
        (combined (staying (us.map (·.effectiveName)) [u.effectiveName] ps) t
          (selections (descending [u.effectiveName] (us.map (·.effectiveName)) ps)
            (.node (.table u) [])))

@[simp] theorem tables_combined (ps : List Predicate) (l r : LogicalPlan) :
    (combined ps l r).tables = l.tables ++ r.tables := by
  unfold combined
  split
  · rw [tables_selections, tables_pair]
  · rw [tables_selections, tables_pair]

theorem Optimized.tables_eq (h : Optimized us ps t) : t.tables = us := by
  induction h with
  | single u ps => rw [tables_selections, tables_table]
  | snoc u h ih => rw [tables_combined, ih, tables_selections, tables_table]

theorem Optimized.tableNames_eq (h : Optimized us ps t) :
    t.tableNames = us.map (·.effectiveName) := by
  rw [tableNames, h.tables_eq]

theorem LeftDeep.tables_pushSelections (h : LeftDeep us t) (ps : List Predicate) :
    (pushSelections ps t).tables = us := by
  induction h generalizing ps with
  | single u => rw [pushSelections_table, tables_selections, tables_table]
  | snoc h u ih =>
      rw [pushSelections_pair, tables_selections, tables_pair, ih, pushSelections_table,
        tables_selections, tables_table]

theorem LeftDeep.optimized (h : LeftDeep us t) (ps : List Predicate) :
    ∃ t', joinsFrom (pushSelections ps t) = [t'] ∧ Optimized us ps t' := by
  induction h generalizing ps with
  | single u => exact ⟨_, joinsFrom_selections_table ps u, .single u ps⟩
  | @snoc us t h u ih =>
      have hnames : t.tableNames = us.map (·.effectiveName) := by rw [tableNames, h.tables_eq]
      rcases ih (descending (us.map (·.effectiveName)) [u.effectiveName] ps) with
        ⟨t', hjoins, hoptimized⟩
      refine ⟨_, ?_, .snoc u hoptimized⟩
      rw [pushSelections_pair, hnames]
      apply joinsFrom_selections_product hjoins (joinsFrom_selections_table _ u) _ rfl
      exact tableNames_congr (hoptimized.tables_eq.trans (h.tables_pushSelections _).symm)

/-!
## The optimized plan of a query
-/

theorem standard_under {ops : List LogicalOp} (hops : ∀ op ∈ ops, op.Arranges)
    (columns : List Expression) (groupBy : List ColumnRef)
    (h : joinsFrom (pushSelections []
      (splitProducts (t.map LogicalOp.flattenSelection))) = [t']) :
    Transformation.applyAll Transformation.standard
        (.node (.project columns groupBy) [under ops t]) =
      .node (.project columns groupBy) [under ops t'] := by
  have hflat : flattenConjunctions (.node (.project columns groupBy) [under ops t]) =
      .node (.project columns groupBy) [under ops (t.map LogicalOp.flattenSelection)] := by
    change PlanTree.node _ [(under ops t).map _] = _
    rw [map_under hops]
    rfl
  have hsplit : ∀ v : LogicalPlan, splitProducts (.node (.project columns groupBy) [under ops v]) =
      .node (.project columns groupBy) [under ops v.splitProducts] := by
    intro v
    change PlanTree.node _ [splitProducts (under ops v)] = _
    rw [splitProducts_under hops]
  have hpush : ∀ v : LogicalPlan,
      pushDownSelections (.node (.project columns groupBy) [under ops v]) =
        .node (.project columns groupBy) [under ops (pushSelections [] v)] := by
    intro v
    change PlanTree.node _ [pushSelections [] (under ops v)] = _
    rw [pushSelections_under hops]
  have hjoins : ∀ v : LogicalPlan, joinsFrom v = [t'] →
      introduceJoins (.node (.project columns groupBy) [under ops v]) =
        .node (.project columns groupBy) [under ops t'] := by
    intro v hv
    simp [introduceJoins, joinsFrom, joinsFromAll, joinsFrom_under hops hv]
  simp only [Transformation.applyAll, Transformation.standard, List.foldl_cons, List.foldl_nil,
    Transformation.apply, hflat, hsplit, hpush]
  exact hjoins _ h

end LogicalPlan

namespace Select

open PlanTree (under)

def conjuncts (q : Select) : List Predicate :=
  q.predicate.toList.flatMap fun p => p.flatten.conjuncts

theorem exists_leaves {q : Select} (h : q.tables ≠ []) :
    ∃ t : LogicalPlan, LogicalPlan.chain (if q.readsSeveral then [.product] else [])
        (q.tables.map fun u => .node (.table u) []) = [t] ∧
      LogicalPlan.LeftDeep q.tables
        (LogicalPlan.splitProducts (t.map LogicalOp.flattenSelection)) := by
  have hleaves : ∀ us : List Table,
      (us.map fun u => (.node (.table u) [] : LogicalPlan)).map
          (PlanTree.map LogicalOp.flattenSelection) =
        us.map fun u => .node (.table u) [] := by
    intro us
    rw [List.map_map]
    rfl
  cases htables : q.tables with
  | nil => exact absurd htables h
  | cons u rest =>
      cases rest with
      | nil =>
          refine ⟨.node (.table u) [], ?_, .single u⟩
          simp [Select.readsSeveral, htables, LogicalPlan.chain]
      | cons v rest =>
          refine ⟨.node .product ((u :: v :: rest).map fun u => .node (.table u) []), ?_, ?_⟩
          · simp [Select.readsSeveral, htables, LogicalPlan.chain]
          · rw [PlanTree.map, LogicalPlan.mapOf_eq, hleaves]
            change LogicalPlan.LeftDeep _ (LogicalPlan.splitProducts (.node .product _))
            have hsplit : ((u :: v :: rest).map fun u => (.node (.table u) [] : LogicalPlan)).map
                LogicalPlan.splitProducts = (u :: v :: rest).map fun u => .node (.table u) [] := by
              rw [List.map_map]
              rfl
            rw [LogicalPlan.splitProducts, LogicalPlan.splitProductsOf_eq, hsplit]
            exact (LogicalPlan.LeftDeep.single u).foldl (v :: rest)

/-- Below the projection and the operators that order and cut, which stay as they are, the standard
transformations leave an optimized plan of the tables and conjuncts of the query. -/
theorem exists_optimized {q : Select} (h : q.Checked) :
    ∃ t body : LogicalPlan,
      LogicalPlan.ofSelect q = .node (.project q.columns q.groupBy) [under q.arrangement t] ∧
      Transformation.applyAll Transformation.standard (LogicalPlan.ofSelect q) =
        .node (.project q.columns q.groupBy) [under q.arrangement body] ∧
      LogicalPlan.Optimized q.tables q.conjuncts body := by
  rcases exists_leaves h.nonempty with ⟨leaves, hleaves, hdeep⟩
  rcases hdeep.optimized q.conjuncts with ⟨body, hjoins, hoptimized⟩
  have hbuilt : LogicalPlan.ofSelect q = .node (.project q.columns q.groupBy)
      [under q.arrangement (under (q.predicate.map .select).toList leaves)] := by
    rw [LogicalPlan.ofSelect, stages_eq, stages_unarranged, LogicalPlan.chain_append,
      LogicalPlan.chain_append, hleaves, LogicalPlan.chain_singleton, LogicalPlan.chain_singleton]
  refine ⟨_, body, hbuilt, ?_, hoptimized⟩
  rw [hbuilt]
  apply LogicalPlan.standard_under arranges_of_mem_arrangement
  rw [← hjoins]
  congr 1
  unfold conjuncts
  cases q.predicate with
  | none => rfl
  | some p =>
      change LogicalPlan.pushSelections []
        (.node (.select p.flatten) [LogicalPlan.splitProducts (leaves.map _)]) = _
      rw [LogicalPlan.pushSelections]
      simp

end Select

end RelationalDb
