import Mathlib
import RelationalDb.Proofs.Plan.Arrangement
import RelationalDb.Proofs.Plan.Candidates

/-!
# Physical plans follow logical ones

Every operator below the projection is carried out by one of its own, and an aggregation goes in
between.  Only a run of selections over a table may change: the selection that an index scan
answers is left out.
-/

namespace RelationalDb

open PlanTree (under)

namespace PhysicalPlan

def restricted (selections : List Predicate) (P : PhysicalPlan) : PhysicalPlan :=
  selections.foldl (fun P p => .node (.select p) [P]) P

theorem restricted_concat (selections : List Predicate) (p : Predicate) (P : PhysicalPlan) :
    restricted (selections ++ [p]) P = .node (.select p) [restricted selections P] := by
  rw [restricted, List.foldl_append]
  rfl

end PhysicalPlan

namespace LogicalPlan

open PhysicalPlan (lower lowerAll placeAbove lowerAll_singleton lower_above lower_past)

variable {source : TableSource} {t l r : LogicalPlan} {ts : List LogicalPlan} {u : Table}
  {selections above : List Predicate} {pending : Option PhysicalOp} {p : Predicate}
  {path : AccessPath}

def restricted (selections : List Predicate) (t : LogicalPlan) : LogicalPlan :=
  selections.foldl (fun t p => .node (.select p) [t]) t

theorem restricted_concat (selections : List Predicate) (p : Predicate) (t : LogicalPlan) :
    restricted (selections ++ [p]) t = .node (.select p) [restricted selections t] := by
  rw [restricted, List.foldl_append]
  rfl

/-!
## Selections over a table
-/

/-- Without a path all selections are carried out above the scan of the table. -/
theorem withAccess_scanned (hpath : pathIn? source u (selections ++ above) = none) :
    (withAccess source above (restricted selections (.node (.table u) []))).2 = [] ∧
      ∀ pending, lower (withAccess source above (restricted selections (.node (.table u) []))).1
          pending =
        .ok (placeAbove pending (.restricted selections (.node (.tableScan u) [])), none) := by
  induction selections using List.reverseRecOn generalizing above with
  | nil =>
      show (withAccess source above (.node (.table u) [])).2 = _ ∧
        ∀ pending, lower (withAccess source above (.node (.table u) [])).1 pending = _
      rw [List.nil_append] at hpath
      rw [withAccess, hpath]
      exact ⟨rfl, fun _ => rfl⟩
  | append_singleton selections p ih =>
      rw [List.append_assoc, List.singleton_append] at hpath
      rcases ih hpath with ⟨hheights, hlower⟩
      rw [restricted_concat, withAccess_select, hheights, PhysicalPlan.restricted_concat]
      constructor
      · rfl
      · intro pending
        exact lower_above rfl rfl (lowerAll_singleton (hlower none)) pending

/-- A path answers the selection at its height.  The others are carried out above its scan. -/
theorem withAccess_indexed (hpath : pathIn? source u (selections ++ above) = some path) :
    (withAccess source above (restricted selections (.node (.table u) []))).2 =
        (if path.height < selections.length then [] else [path.height - selections.length]) ∧
      ∀ pending, lower (withAccess source above (restricted selections (.node (.table u) []))).1
          pending =
        .ok (placeAbove pending (.restricted (selections.eraseIdx path.height)
          (.node (.indexScan u path.index path.ranges) [])), none) := by
  induction selections using List.reverseRecOn generalizing above with
  | nil =>
      show (withAccess source above (.node (.table u) [])).2 = _ ∧
        ∀ pending, lower (withAccess source above (.node (.table u) [])).1 pending = _
      rw [List.nil_append] at hpath
      rw [withAccess, hpath]
      exact ⟨rfl, fun _ => rfl⟩
  | append_singleton selections p ih =>
      rw [List.append_assoc, List.singleton_append] at hpath
      rcases ih hpath with ⟨hheights, hlower⟩
      rw [restricted_concat, withAccess_select, List.length_append, List.length_singleton]
      rcases Nat.lt_trichotomy path.height selections.length with hbelow | hhere | habove
      · -- A selection further down is answered.
        rw [if_pos hbelow] at hheights
        rw [if_pos (Nat.lt_succ_of_lt hbelow), hheights, List.eraseIdx_append_of_lt_length hbelow,
          PhysicalPlan.restricted_concat]
        constructor
        · rfl
        · intro pending
          exact lower_above rfl rfl (lowerAll_singleton (hlower none)) pending
      · -- This selection is answered.
        rw [if_neg hhere.not_lt, hhere, Nat.sub_self] at hheights
        rw [if_pos (hhere.trans_lt (Nat.lt_succ_self _)), hheights, hhere,
          List.eraseIdx_append_of_length_le (Nat.le_refl _), Nat.sub_self]
        rw [hhere, List.eraseIdx_of_length_le (Nat.le_refl _)] at hlower
        constructor
        · rfl
        · intro pending
          rw [List.eraseIdx_zero, List.tail_cons, List.append_nil]
          exact hlower pending
      · -- A selection further up is answered.
        rw [if_neg habove.not_gt] at hheights
        have hcontains : [path.height - selections.length].contains 0 = false := by
          simp
          omega
        rw [if_neg (Nat.not_lt.mpr habove), hheights, hcontains,
          List.eraseIdx_of_length_le (by simpa using habove), PhysicalPlan.restricted_concat]
        rw [List.eraseIdx_of_length_le habove.le] at hlower
        constructor
        · have hpos : 0 < path.height - selections.length := Nat.sub_pos_of_lt habove
          simp [hpos, Nat.sub_sub]
        · intro pending
          exact lower_above rfl rfl (lowerAll_singleton (hlower none)) pending

def IsAccess (t : LogicalPlan) : Prop :=
  ∃ selections u, t = restricted selections (.node (.table u) [])

theorem IsAccess.select (h : t.IsAccess) (p : Predicate) : IsAccess (.node (.select p) [t]) := by
  rcases h with ⟨selections, u, rfl⟩
  exact ⟨selections ++ [p], u, (restricted_concat selections p _).symm⟩

theorem Formed.withAccess_eq (h : t.Formed) (haccess : ¬ t.IsAccess) (above : List Predicate) :
    withAccess source above t = ((withAccess source [] t).1, []) := by
  induction h generalizing above with
  | table u => exact absurd ⟨[], u, rfl⟩ haccess
  | @select p t _ _ ih =>
      have ht : ¬ t.IsAccess := fun ht => haccess (ht.select p)
      rw [withAccess_select, withAccess_select, ih ht (p :: above), ih ht [p]]
      rfl
  | product _ _ _ => rfl
  | join _ _ _ _ _ _ => rfl
  | orderBy _ _ => rfl

/-!
## Plans that are carried out
-/

/-- The physical plan carries out the logical one and contains the aggregation, if there is one.
Every table is read, under the selections right above it, in a way that leaves some of them.  The
aggregation goes below the operators that order and cut and above all others. -/
inductive CarriedOut (reads : Table → List Predicate → PhysicalOp → List Predicate → Prop) :
    Option PhysicalOp → LogicalPlan → PhysicalPlan → Prop
  | access {pending : Option PhysicalOp} {u : Table} {selections left : List Predicate}
      {op : PhysicalOp} (h : reads u selections op left) :
      CarriedOut reads pending (restricted selections (.node (.table u) []))
        (placeAbove pending (.restricted left (.node op [])))
  | select {pending : Option PhysicalOp} {p : Predicate} {t : LogicalPlan} {P : PhysicalPlan}
      (haccess : ¬ t.IsAccess) (h : CarriedOut reads none t P) :
      CarriedOut reads pending (.node (.select p) [t]) (placeAbove pending (.node (.select p) [P]))
  | product {pending : Option PhysicalOp} {ts : List LogicalPlan} {Ps : List PhysicalPlan}
      (h : List.Forall₂ (CarriedOut reads none) ts Ps) :
      CarriedOut reads pending (.node .product ts) (placeAbove pending (.node .product Ps))
  | join {pending : Option PhysicalOp} {j : ColumnJoin} {l r : LogicalPlan} {L R : PhysicalPlan}
      (hl : CarriedOut reads none l L) (hr : CarriedOut reads none r R) :
      CarriedOut reads pending (.node (.join j) [l, r])
        (placeAbove pending (.node (.join j) [L, R]))
  | arranged {pending : Option PhysicalOp} {op : LogicalOp} {op' : PhysicalOp} {t : LogicalPlan}
      {P : PhysicalPlan} (hop : op.Arranges) (hop' : op.physical? = some op')
      (h : CarriedOut reads pending t P) :
      CarriedOut reads pending (.node op [t]) (.node op' [P])

variable {reads : Table → List Predicate → PhysicalOp → List Predicate → Prop}

/-- The plan is lowered to one that carries it out. -/
def Lowers (source : TableSource)
    (reads : Table → List Predicate → PhysicalOp → List Predicate → Prop)
    (pending : Option PhysicalOp) (t : LogicalPlan) : Prop :=
  ∃ P, lower (withAccess source [] t).1 pending = .ok (P, none) ∧ CarriedOut reads pending t P

theorem tables_restricted (selections : List Predicate) (u : Table) :
    tables (restricted selections (.node (.table u) [])) = [u] := by
  induction selections using List.reverseRecOn with
  | nil => rfl
  | append_singleton selections p ih => rw [restricted_concat, tables_single, ih]

theorem mem_guards_restricted (h : p ∈ selections) :
    p ∈ guards (restricted selections (.node (.table u) [])) := by
  induction selections using List.reverseRecOn with
  | nil => cases h
  | append_singleton selections p' ih =>
      rw [restricted_concat, guards_node]
      rcases List.mem_append.mp h with h | h
      · simp [ih h]
      · simp [List.mem_singleton.mp h, LogicalOp.guard?]

theorem lowers_access
    (h : reads u selections (AccessPath.reading u selections (pathIn? source u selections)).1
      (AccessPath.reading u selections (pathIn? source u selections)).2) :
    Lowers source reads pending (restricted selections (.node (.table u) [])) := by
  cases hpath : pathIn? source u selections with
  | none =>
      rw [hpath] at h
      exact ⟨_, (withAccess_scanned (by rwa [List.append_nil])).2 pending, .access h⟩
  | some path =>
      rw [hpath] at h
      exact ⟨_, (withAccess_indexed (by rwa [List.append_nil])).2 pending, .access h⟩

def ReadAs (source : TableSource)
    (reads : Table → List Predicate → PhysicalOp → List Predicate → Prop) (t : LogicalPlan) :
    Prop :=
  ∀ u ∈ t.tables, ∀ selections, (∀ p ∈ selections, p ∈ t.guards) →
    reads u selections (AccessPath.reading u selections (pathIn? source u selections)).1
      (AccessPath.reading u selections (pathIn? source u selections)).2

theorem ReadAs.input {op : LogicalOp} (h : ReadAs source reads (.node op ts)) (ht : t ∈ ts) :
    ReadAs source reads t := by
  intro u hu selections hselections
  apply h u (mem_tables_of_input ht hu)
  exact fun p hp => mem_guards_of_input ht (hselections p hp)

theorem IsAccess.lowers (h : t.IsAccess) (hreads : ReadAs source reads t) :
    Lowers source reads pending t := by
  rcases h with ⟨selections, u, rfl⟩
  apply lowers_access
  apply hreads u
  · rw [tables_restricted]
    exact List.mem_singleton_self u
  · intro p hp
    exact mem_guards_restricted hp

/-- The aggregation is handed down past an operator that orders or cuts. -/
theorem Lowers.arranged {op : LogicalOp} (h : Lowers source reads pending t) (hop : op.Arranges) :
    Lowers source reads pending (.node op [t]) := by
  rcases h with ⟨P, hlower, hP⟩
  have hphysical : ∃ op', op.physical? = some op' ∧ op'.followsAggregation = true := by
    cases hop <;> exact ⟨_, rfl, rfl⟩
  have haccess : (withAccess source [] (.node op [t])).1 =
      .node (.asWritten op) [(withAccess source [] t).1] := by
    cases hop <;> rfl
  rcases hphysical with ⟨op', hop', hplace⟩
  refine ⟨_, ?_, .arranged hop hop' hP⟩
  rw [haccess]
  exact lower_past hop' hplace (lowerAll_singleton hlower)

theorem Formed.lowers (h : t.Formed) (hreads : ReadAs source reads t) :
    Lowers source reads pending t := by
  induction h generalizing pending with
  | table u => exact IsAccess.lowers ⟨[], u, rfl⟩ hreads
  | @select p t ht hp ih =>
      by_cases haccess : t.IsAccess
      · -- The run of selections reaches a table, where the path for all of them was chosen.
        exact (haccess.select p).lowers hreads
      · rcases ih (hreads.input (List.mem_singleton_self t)) with ⟨P, hlower, hP⟩
        refine ⟨_, ?_, .select haccess hP⟩
        rw [withAccess_select, ht.withAccess_eq haccess [p]]
        exact lower_above rfl rfl (lowerAll_singleton hlower) pending
  | @product ts hne hts ih =>
      rcases lowerAll_of_forall (R := CarriedOut reads none)
        (fun t ht => ih t ht (hreads.input ht)) with ⟨Ps, hlower, hPs⟩
      refine ⟨_, ?_, .product hPs⟩
      exact lower_above rfl rfl hlower pending
  | @join j l r hl hr hleft hright ihl ihr =>
      have hinputs : ∀ t ∈ [l, r], Lowers source reads none t := by
        intro t ht
        have hinput := hreads.input ht
        rcases List.mem_cons.mp ht with rfl | ht
        · exact ihl hinput
        · cases List.mem_singleton.mp ht
          exact ihr hinput
      rcases lowerAll_of_forall hinputs with ⟨Ps, hlower, hPs⟩
      rcases hPs with _ | ⟨hL, _ | ⟨hR, _ | _⟩⟩
      refine ⟨_, ?_, .join hL hR⟩
      exact lower_above rfl rfl hlower pending
  | @orderBy order t ht ih =>
      exact (ih (hreads.input (List.mem_singleton_self t))).arranged (.orderBy order)

theorem Lowers.under {ops : List LogicalOp} (h : Lowers source reads pending t)
    (hops : ∀ op ∈ ops, op.Arranges) : Lowers source reads pending (under ops t) := by
  induction ops with
  | nil => exact h
  | cons op ops ih =>
      rw [List.forall_mem_cons] at hops
      rw [under_cons]
      exact (ih hops.2).arranged hops.1

end LogicalPlan

namespace Select

variable {q : Select} {source : TableSource}
  {reads : Table → List Predicate → PhysicalOp → List Predicate → Prop}

theorem exists_physical (planner : Planner) (hcheck : q.check = .ok ())
    (hsource : ∀ t ∈ q.tables, ∃ s, source t.name = some s)
    (hreads : ∀ u ∈ q.tables, ∀ selections : List Predicate,
      (∀ p' ∈ selections, ∀ test, Condition.test test ∈ p'.conditions →
        ∃ p ∈ q.predicate, Condition.test test ∈ p.conditions) →
      reads u selections
        (AccessPath.reading u selections (LogicalPlan.pathIn? source u selections)).1
        (AccessPath.reading u selections (LogicalPlan.pathIn? source u selections)).2) :
    ∃ t P, planner.logical q = .node (.project q.columns q.groupBy) [t] ∧
      PhysicalPlan.ofLogical source (planner.logical q) =
        .ok (.node (.project q.items (1 < q.tables.length)) [P]) ∧
      LogicalPlan.CarriedOut reads (PhysicalPlan.aggregation? q.items q.groupBy) t P := by
  rcases exists_logical planner (checked_of_check hcheck) with
    ⟨t, hformed, htables, hlogical, _, htests⟩
  have hlowers :
      LogicalPlan.Lowers source reads (PhysicalPlan.aggregation? q.items q.groupBy) t := by
    apply hformed.lowers
    intro u hu selections hselections
    rw [htables] at hu
    exact hreads u hu selections fun p' hp' => htests p' (hselections p' hp')
  rcases hlowers.under arranges_of_mem_arrangement with ⟨P, hlower, hP⟩
  refine ⟨_, P, hlogical, ?_, hP⟩
  have hstores := stores_ok hsource
  have hlower' : PhysicalPlan.lower (LogicalPlan.accessed source (under q.arrangement t))
      (PhysicalPlan.aggregation? (PhysicalPlan.itemsOf q.columns q.tables) q.groupBy) =
        .ok (P, none) := hlower
  rw [hlogical, ofLogical_project, LogicalPlan.tables_under, htables, hstores, Outcome.ok_bind,
    hlower']
  rfl

/-- In the plan of a checked query whose placeholders were bound every table is read by an index
scan for the best candidate among the selections right above it, which is the only one of them that
is left out, or it is scanned under all of them if there is no candidate. -/
theorem tables_are_read_by_the_best_candidates (planner : Planner) (hcheck : q.check = .ok ())
    (hsettled : ∀ p ∈ q.predicate, p.Settled) (htables : q.ReadsFrom source) (htyped : q.Typed) :
    ∃ t P, planner.logical q = .node (.project q.columns q.groupBy) [t] ∧
      planner.physical source q = .ok (.node (.project q.items (1 < q.tables.length)) [P]) ∧
      LogicalPlan.CarriedOut (TableSource.Reads source)
        (PhysicalPlan.aggregation? q.items q.groupBy) t P := by
  have hfit := fitIn_predicate (checked_of_check hcheck) hsettled htyped
  have hsource : ∀ t ∈ q.tables, ∃ s, source t.name = some s := by
    intro t ht
    rcases htables t ht with ⟨s, hs, _⟩
    exact ⟨s, hs⟩
  have hreads : ∀ u ∈ q.tables, ∀ selections : List Predicate,
      (∀ p' ∈ selections, ∀ test, Condition.test test ∈ p'.conditions →
        ∃ p ∈ q.predicate, Condition.test test ∈ p.conditions) →
      TableSource.Reads source u selections
        (AccessPath.reading u selections (LogicalPlan.pathIn? source u selections)).1
        (AccessPath.reading u selections (LogicalPlan.pathIn? source u selections)).2 := by
    intro u hu selections htests
    rcases htables.has u hu with ⟨s, hs, hsound, hnamed, hcolumns⟩
    have hpath : LogicalPlan.pathIn? source u selections = s.accessPath? u selections := by
      simp [LogicalPlan.pathIn?, hs]
    have hselections : Predicate.FitIn selections [u] := by
      intro p' hp' test htest
      rcases htests p' hp' test htest with ⟨p, hp, htest⟩
      rcases hfit p (Option.mem_toList.mpr hp) test htest with ⟨hsuited, htyped⟩
      constructor
      · exact hsuited
      · intro u' hu'
        cases List.mem_singleton.mp hu'
        exact htyped u hu
    rw [hpath]
    exact ⟨s, hs, hsound.reading_accessPath? hnamed hcolumns hselections⟩
  rcases exists_physical planner hcheck hsource hreads with ⟨t, P, hlogical, hphysical, hP⟩
  refine ⟨t, P, hlogical, ?_, hP⟩
  rw [Planner.physical, hcheck, checkBound_of_fitIn hfit, Outcome.ok_bind, Outcome.ok_bind,
    hphysical]

theorem item_is_read_by_its_number :
    Planner.physical {} twoItemsSource (sameSize (some (.int64 7))) =
      .ok (.node (.project (sameSize none).columns true)
        [.node (.join
          { left := { table := "item", column := "size", position := 1, type := .float64 }
            right := { table := "other", column := "size", position := 1, type := .float64 }
            comparison := .eq })
          [.node (.indexScan .items "item.pkItem" [.only (.int64 7)]) [],
            .node (.tableScan (Table.items.withAlias "other")) []]]) ∧
      ∃ t P, Planner.logical {} (sameSize (some (.int64 7))) =
          .node (.project (sameSize none).columns []) [t] ∧
        Planner.physical {} twoItemsSource (sameSize (some (.int64 7))) =
          .ok (.node (.project (sameSize none).items true) [P]) ∧
        LogicalPlan.CarriedOut (TableSource.Reads twoItemsSource) none t P := by
  constructor
  · cbv
  · exact tables_are_read_by_the_best_candidates {} rfl (settled_of_bind bind_sameSize)
      (readsFrom_twoItems _) (typed_sameSize _)

end Select

end RelationalDb
