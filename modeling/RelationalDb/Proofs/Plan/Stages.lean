import Mathlib
import RelationalDb.Proofs.Plan.Answers
import RelationalDb.Proofs.Relation.Entries

/-!
# Order and cuts come last

Operators that order and cut stand at the top of a plan, right below the projection.  The
transformations, the choice of access paths and the placing of an aggregation pass by them,
so a query with them is the same query without them whose entries are then sorted and cut.
-/

namespace RelationalDb

def LogicalOp.arrange : LogicalOp → Relation → Relation
  | .orderBy order, r => r.sort order
  | .skip count, r => r.skip count
  | .limit count, r => r.limit count
  | _, r => r

namespace LogicalPlan

open PlanTree (under)

variable {t : LogicalPlan} {op : LogicalOp} {ops : List LogicalOp} {source : TableSource}

theorem chain_singleton (ops : List LogicalOp) (t : LogicalPlan) :
    chain ops [t] = [under ops t] := by
  induction ops with
  | nil => rfl
  | cons op ops ih =>
      rw [chain, ih]
      rfl

@[simp] theorem tables_under (ops : List LogicalOp) (t : LogicalPlan) :
    tables (under ops t) = t.tables := by
  induction ops with
  | nil => rfl
  | cons op ops ih => rw [under_cons, tables_single, ih]

/-!
## Access paths, lowering and evaluation
-/

section Access

variable (hops : ∀ op ∈ ops, op.Arranges)

include hops

theorem accessed_under (source : TableSource) (t : LogicalPlan) :
    accessed source (under ops t) = under (ops.map .asWritten) (accessed source t) := by
  induction ops with
  | nil => rfl
  | cons op ops ih =>
      rw [List.forall_mem_cons] at hops
      rw [under_cons, List.map_cons]
      change _ = PlanTree.node _ [under (ops.map .asWritten) (accessed source t)]
      rw [← ih hops.2]
      cases hops.1 <;> rfl

theorem lower_under (A : PlanTree AccessOp) (pending : Option PhysicalOp) :
    PhysicalPlan.lower (under (ops.map .asWritten) A) pending =
      (PhysicalPlan.lower A pending).map fun lowered =>
        (under (ops.filterMap (·.physical?)) lowered.1, lowered.2) := by
  induction ops with
  | nil =>
      change PhysicalPlan.lower A pending = _
      cases PhysicalPlan.lower A pending <;> rfl
  | cons op ops ih =>
      rw [List.forall_mem_cons] at hops
      rw [List.map_cons]
      change PhysicalPlan.lower (.node (.asWritten op) [under (ops.map .asWritten) A]) pending = _
      have hlower := ih hops.2
      cases hops.1 <;>
        simp only [PhysicalPlan.lower, LogicalOp.physical?, PhysicalOp.followsAggregation,
          PhysicalPlan.lowerAll, hlower, if_true] <;>
        cases PhysicalPlan.lower A pending <;> rfl

theorem evaluate_under (source : TableSource) (P : PhysicalPlan) :
    PhysicalPlan.evaluate source (under (ops.filterMap (·.physical?)) P) =
      (PhysicalPlan.evaluate source P).map fun R => ops.foldr LogicalOp.arrange R := by
  induction ops with
  | nil =>
      change PhysicalPlan.evaluate source P = _
      cases PhysicalPlan.evaluate source P <;> rfl
  | cons op ops ih =>
      rw [List.forall_mem_cons] at hops
      have hevaluate := ih hops.2
      cases hops.1 <;>
        (change PhysicalPlan.evaluate source
           (.node _ [under (ops.filterMap (·.physical?)) P]) = _
         rw [PhysicalPlan.evaluate, hevaluate]
         cases PhysicalPlan.evaluate source P <;> rfl)

end Access

end LogicalPlan

/-!
## The entries of a plan
-/

/-- What the relation of a plan holds, if the given aggregation was placed in the plan. -/
def Relation.Draws (source : TableSource) (us : List Table) (pending : Option PhysicalOp)
    (R : Relation) : Prop :=
  match pending with
  | none => R.Over source us
  | some (.aggregate _ aggregates) => R.Summary source us aggregates
  | some _ => True

namespace LogicalPlan

variable {source : TableSource} {us : List Table} {pending pending' : Option PhysicalOp}
  {P : PhysicalPlan} {R R' : Relation} {t : LogicalPlan} {ts : List LogicalPlan}
  {Ps : List PhysicalPlan} {selections : List Predicate}

/-- The plan computes nothing but relations over these tables. -/
def Yields (source : TableSource) (us : List Table) (P : PhysicalPlan) : Prop :=
  ∀ R, PhysicalPlan.evaluate source P = .ok R → R.Over source us

theorem Yields.draws (h : Yields source us P)
    (hR : PhysicalPlan.evaluate source (PhysicalPlan.placeAbove pending P) = .ok R) :
    R.Draws source us pending := by
  cases pending with
  | none => exact h R hR
  | some op =>
      cases op with
      | aggregate groupBy aggregates =>
          rw [PhysicalPlan.placeAbove, PhysicalPlan.evaluate] at hR
          rcases Outcome.bind_eq_ok_iff.mp hR with ⟨R₀, hR₀, heq⟩
          cases heq
          exact (h R₀ hR₀).aggregate groupBy aggregates
      | _ => trivial

theorem Draws.sort (h : R.Draws source us pending) (order : SortOrder) :
    (R.sort order).Draws source us pending := by
  have hmem : ∀ e ∈ (R.sort order).entries, e ∈ R.entries := fun e he =>
    (R.entries_sort_perm order).mem_iff.mp he
  cases pending with
  | none => exact Relation.Over.of_subset h rfl hmem
  | some op =>
      cases op with
      | aggregate groupBy aggregates => exact Relation.Summary.of_subset h rfl hmem
      | _ => trivial

theorem yields_tableScan (u : Table) : Yields source [u] (.node (.tableScan u) []) := by
  intro R hR
  rw [PhysicalPlan.evaluate] at hR
  rcases Outcome.bind_eq_ok_iff.mp hR with ⟨s, hs, heq⟩
  cases heq
  apply Relation.over_ofRows
  intro row hrow
  unfold TableSource.storeOf at hs
  split at hs
  · next s' hs' =>
      cases hs
      simpa [TableSource.rowsOf, hs'] using hrow
  · cases hs

theorem mem_toList_of_scanRanges {s : TableStore} {index : String}
    {ranges : List (KeyRange Value)} {rows : List Row} (h : s.scanRanges index ranges = .ok rows)
    {row : Row} (hrow : row ∈ rows) : ∃ id, s.rows.get? id = some row := by
  unfold TableStore.scanRanges at h
  rcases Outcome.bind_eq_ok_iff.mp h with ⟨parts, hparts, heq⟩
  cases heq
  rcases List.mem_flatten.mp hrow with ⟨part, hpart, hrow⟩
  rcases Outcome.exists_of_mapM_eq_ok hparts hpart with ⟨range, _, hscan⟩
  unfold TableStore.scanIndex at hscan
  split at hscan
  · cases hscan
  · rcases Outcome.bind_eq_ok_iff.mp hscan with ⟨ids, _, heq⟩
    cases heq
    rcases List.mem_filterMap.mp hrow with ⟨id, _, hid⟩
    exact ⟨id, hid⟩

theorem yields_indexScan (hsource : ∀ name s, source name = some s → s.Sound) (u : Table)
    (index : String) (ranges : List (KeyRange Value)) :
    Yields source [u] (.node (.indexScan u index ranges) []) := by
  intro R hR
  rw [PhysicalPlan.evaluate] at hR
  rcases Outcome.bind_eq_ok_iff.mp hR with ⟨s, hs, hR⟩
  rcases Outcome.bind_eq_ok_iff.mp hR with ⟨rows, hrows, heq⟩
  cases heq
  apply Relation.over_ofRows
  intro row hrow
  unfold TableSource.storeOf at hs
  split at hs
  · next s' hs' =>
      cases hs
      have hkeyed := (hsource _ s hs').toKeyed
      rcases mem_toList_of_scanRanges hrows hrow with ⟨id, hid⟩
      have hmem : row ∈ s.toList := by
        rw [hkeyed.mem_toList_iff, hkeyed.id_eq hid]
        exact hid
      simpa [TableSource.rowsOf, hs'] using hmem
  · cases hs

theorem yields_lowerAll
    (h : ∀ t ∈ ts, ∀ P pending',
      PhysicalPlan.lower (withAccess source [] t).1 none = .ok (P, pending') →
        pending' = none ∧ Yields source t.tables P)
    (hlower : PhysicalPlan.lowerAll (withAccessOf source [] ts).1 none = .ok (Ps, pending')) :
    List.Forall₂ (fun t P => Yields source t.tables P) ts Ps := by
  induction ts generalizing Ps with
  | nil =>
      cases hlower
      exact List.Forall₂.nil
  | cons t ts ih =>
      rcases Outcome.bind_eq_ok_iff.mp hlower with ⟨⟨P, p⟩, ht, hrest⟩
      rcases Outcome.bind_eq_ok_iff.mp hrest with ⟨⟨Ps', p'⟩, hts, heq⟩
      cases heq
      -- No aggregation is left over from the first plan, so the others are lowered without one too.
      rcases h t List.mem_cons_self P p ht with ⟨hp, hyields⟩
      rw [hp] at hts
      exact List.Forall₂.cons hyields
        (ih (fun u hu => h u (List.mem_cons_of_mem _ hu)) hts)

theorem over_evaluateProduct (h : List.Forall₂ (fun t P => Yields source (tables t) P) ts Ps)
    (hR : R.Over source us) (hR' : PhysicalPlan.evaluateProduct source R Ps = .ok R') :
    R'.Over source (us ++ ts.flatMap tables) := by
  induction h generalizing R us with
  | nil =>
      cases hR'
      simpa using hR
  | @cons t P ts Ps ht _ ih =>
      rw [PhysicalPlan.evaluateProduct] at hR'
      rcases Outcome.bind_eq_ok_iff.mp hR' with ⟨T, hT, hrest⟩
      rw [List.flatMap_cons, ← List.append_assoc]
      exact ih (hR.product (ht T hT)) hrest

theorem yields_product (hne : ts ≠ [])
    (h : List.Forall₂ (fun t P => Yields source (tables t) P) ts Ps) :
    Yields source (tables (.node .product ts)) (.node .product Ps) := by
  intro R hR
  cases h with
  | nil => exact absurd rfl hne
  | @cons t P ts Ps ht hrest =>
      rw [PhysicalPlan.evaluate] at hR
      rcases Outcome.bind_eq_ok_iff.mp hR with ⟨T, hT, hrest'⟩
      rw [tables_node hne, List.flatMap_cons]
      exact over_evaluateProduct hrest (ht T hT) hrest'

theorem yields_select (h : Yields source us P) (p : Predicate) :
    Yields source us (.node (.select p) [P]) := by
  intro R hR
  rw [PhysicalPlan.evaluate] at hR
  rcases Outcome.bind_eq_ok_iff.mp hR with ⟨T, hT, heq⟩
  cases heq
  exact Relation.Over.of_subset (h T hT) rfl fun e he => (List.mem_filter.mp he).1

theorem yields_join {us' : List Table} {P' : PhysicalPlan} (h : Yields source us P)
    (h' : Yields source us' P') (j : ColumnJoin) :
    Yields source (us ++ us') (.node (.join j) [P, P']) := by
  intro R hR
  rw [PhysicalPlan.evaluate] at hR
  rcases Outcome.bind_eq_ok_iff.mp hR with ⟨L, hL, hrest⟩
  rcases Outcome.bind_eq_ok_iff.mp hrest with ⟨T, hT, heq⟩
  cases heq
  exact (h L hL).join (h' T hT) j

theorem draws_orderBy (h : ∀ R, PhysicalPlan.evaluate source P = .ok R → R.Draws source us pending)
    {order : SortOrder}
    (hR : PhysicalPlan.evaluate source (.node (.orderBy order) [P]) = .ok R) :
    R.Draws source us pending := by
  rw [PhysicalPlan.evaluate] at hR
  rcases Outcome.bind_eq_ok_iff.mp hR with ⟨T, hT, heq⟩
  cases heq
  exact Draws.sort (h T hT) order

theorem Formed.draws (h : t.Formed) (hsource : ∀ name s, source name = some s → s.Sound)
    (hlower : PhysicalPlan.lower (withAccess source selections t).1 pending = .ok (P, pending')) :
    pending' = none ∧
      ∀ R, PhysicalPlan.evaluate source P = .ok R → R.Draws source t.tables pending := by
  induction h generalizing selections pending pending' P with
  | table u =>
      rw [withAccess] at hlower
      split at hlower
      · cases hlower
        exact ⟨rfl, fun R hR => (yields_indexScan hsource u _ _).draws hR⟩
      · cases hlower
        exact ⟨rfl, fun R hR => (yields_tableScan u).draws hR⟩
  | @select p t ht hp ih =>
      rw [withAccess_select] at hlower
      rw [tables_single]
      split at hlower
      · exact ih hlower
      · rcases Outcome.bind_eq_ok_iff.mp hlower with ⟨⟨Ps, p'⟩, hall, heq⟩
        cases heq
        rcases Outcome.bind_eq_ok_iff.mp hall with ⟨⟨P, p''⟩, hP, hrest⟩
        cases hrest
        exact ⟨rfl, fun R hR => (yields_select (ih hP).2 p).draws hR⟩
  | @product ts hne hts ih =>
      rcases Outcome.bind_eq_ok_iff.mp hlower with ⟨⟨Ps, p'⟩, hall, heq⟩
      cases heq
      have hyields := yields_lowerAll (fun t ht P p hP => ih t ht hP) hall
      exact ⟨rfl, fun R hR => (yields_product hne hyields).draws hR⟩
  | @join j l r hl hr hleft hright ihl ihr =>
      rcases Outcome.bind_eq_ok_iff.mp hlower with ⟨⟨Ps, p'⟩, hall, heq⟩
      cases heq
      have hinputs : ∀ t ∈ [l, r], ∀ P p',
          PhysicalPlan.lower (withAccess source [] t).1 none = .ok (P, p') →
            p' = none ∧ Yields source t.tables P := by
        intro t ht P p hP
        simp only [List.mem_cons, List.not_mem_nil, or_false] at ht
        rcases ht with rfl | rfl
        · exact ihl hP
        · exact ihr hP
      have hyields := yields_lowerAll hinputs hall
      rcases hyields with _ | ⟨hyieldsL, _ | ⟨hyieldsR, _ | _⟩⟩
      rw [tables_pair]
      exact ⟨rfl, fun R hR => (yields_join hyieldsL hyieldsR j).draws hR⟩
  | @orderBy order t ht ih =>
      rcases Outcome.bind_eq_ok_iff.mp hlower with ⟨⟨Ps, p'⟩, hall, heq⟩
      cases heq
      rcases Outcome.bind_eq_ok_iff.mp hall with ⟨⟨P, p''⟩, hP, hrest⟩
      cases hrest
      rw [tables_single]
      exact ⟨(ih hP).1, fun R hR => draws_orderBy (ih hP).2 hR⟩

end LogicalPlan

end RelationalDb
