import Mathlib
import RelationalDb.Proofs.Plan.Stages

/-!
# Results are sorted, cut and then shown

Without its order and its cuts a query makes a relation below its projection.  The result of
the query is read off that relation: its entries are sorted stably, the first ones dropped
and of the rest the first ones taken, and each of them shows what the query asks for.
-/

namespace RelationalDb

open PlanTree (under)

/-!
## What a row shows
-/

namespace Relation

/-- The row shows these expressions of an entry: under a column its value in the entry, and under
an aggregate the value that the entry carries at its place among the aggregates. -/
structure Shows (r : Relation) (items : List Expression) (e : Entry) (row : List Value) :
    Prop where
  length : row.length = items.length
  column : ∀ {i : Nat} {c : ColumnRef}, items[i]? = some (.column c) →
    row[i]? = some (r.valueOrNull e c)
  aggregate : ∀ {i : Nat} {a : Aggregate}, items[i]? = some (.aggregate a) →
    ∃ v, e.aggregates[((items.take i).filterMap (·.aggregate?)).length]? = some v ∧
      row[i]? = some v

variable {r r' : Relation} {e : Entry} {items : List Expression} {row values : List Value}

theorem Shows.of_tables (h : r.Shows items e row) (htables : r'.tables = r.tables) :
    r'.Shows items e row where
  length := h.length
  column := by
    intro i c hi
    rw [h.column hi, valueOrNull, valueOrNull, value?, value?, htables]
  aggregate := h.aggregate

theorem length_expressionValues : (r.expressionValues e items values).length = items.length := by
  fun_induction Relation.expressionValues r e items values with
  | case1 values => rfl
  | case2 c rest values ih => rw [List.length_cons, List.length_cons, ih]
  | case3 a rest ih => rw [List.length_cons, List.length_cons, ih]
  | case4 a rest v values ih => rw [List.length_cons, List.length_cons, ih]

theorem expressionValues_column {i : Nat} {c : ColumnRef} (h : items[i]? = some (.column c)) :
    (r.expressionValues e items values)[i]? = some (r.valueOrNull e c) := by
  fun_induction Relation.expressionValues r e items values generalizing i with
  | case1 values => cases h
  | case2 c' rest values ih =>
      cases i with
      | zero =>
          cases h
          rfl
      | succ n => exact ih h
  | case3 a rest ih =>
      cases i with
      | zero => cases h
      | succ n => exact ih h
  | case4 a rest v values ih =>
      cases i with
      | zero => cases h
      | succ n => exact ih h

theorem expressionValues_aggregate {i : Nat} {a : Aggregate}
    (h : items[i]? = some (.aggregate a))
    (hvalues : (items.filterMap (·.aggregate?)).length ≤ values.length) :
    ∃ v, values[((items.take i).filterMap (·.aggregate?)).length]? = some v ∧
      (r.expressionValues e items values)[i]? = some v := by
  fun_induction Relation.expressionValues r e items values generalizing i with
  | case1 values => cases h
  | case2 c rest values ih =>
      cases i with
      | zero => cases h
      | succ n => exact ih h hvalues
  | case3 a' rest ih => exact absurd hvalues (Nat.not_succ_le_zero _)
  | case4 a' rest v values ih =>
      cases i with
      | zero => exact ⟨v, rfl, rfl⟩
      | succ n => exact ih h (Nat.le_of_succ_le_succ hvalues)

theorem shows_expressionValues
    (h : (items.filterMap (·.aggregate?)).length ≤ e.aggregates.length) :
    r.Shows items e (r.expressionValues e items e.aggregates) where
  length := length_expressionValues
  column := expressionValues_column
  aggregate := fun hi => expressionValues_aggregate hi h

end Relation

/-!
## The query without its order and cuts
-/

def Planner.relation (planner : Planner) (source : TableSource) (q : Select) : Outcome Relation := do
  (← planner.physical source q).input source

namespace Select

def unarranged (q : Select) : Select :=
  { q with orderBy := [], skip := none, limit := none }

/-- Drop the entries that the query skips and take those that it has room for. -/
def cut (q : Select) (entries : List Entry) : List Entry :=
  let rest := entries.drop (q.skip.getD 0)
  match q.limit with
  | some count => rest.take count
  | none => rest

def arrangement (q : Select) : List LogicalOp :=
  (q.limit.map .limit).toList ++ (q.skip.map .skip).toList ++
    (if q.orderBy.isEmpty then [] else [.orderBy q.orderBy])

variable {q : Select} {source : TableSource} {B : Relation}

theorem stages_unarranged (q : Select) :
    LogicalPlan.stages q.unarranged =
      (q.predicate.map .select).toList ++ if q.readsSeveral then [.product] else [] := rfl

theorem stages_eq (q : Select) :
    LogicalPlan.stages q = q.arrangement ++ LogicalPlan.stages q.unarranged := by
  rw [stages_unarranged, LogicalPlan.stages, arrangement]
  simp only [List.append_assoc]

theorem arranges_of_mem_arrangement : ∀ op ∈ q.arrangement, op.Arranges := by
  intro op hop
  simp only [arrangement, List.mem_append, Option.mem_toList, Option.map_eq_some_iff] at hop
  rcases hop with (⟨count, _, rfl⟩ | ⟨count, _, rfl⟩) | hop
  · exact .limit count
  · exact .skip count
  · split at hop
    · cases hop
    · rw [List.mem_singleton.mp hop]
      exact .orderBy q.orderBy

theorem arrange_eq (q : Select) (B : Relation) :
    q.arrangement.foldr LogicalOp.arrange B =
      { tables := B.tables
        entries := q.cut (if q.orderBy.isEmpty then B.entries else (B.sort q.orderBy).entries) } := by
  rcases q with ⟨tables, predicate, orderBy, limit, skip, columns, groupBy⟩
  cases orderBy <;> cases limit <;> cases skip <;> rfl

theorem stablySorted_of_uniform (h : B.Uniform) (order : SortOrder) :
    B.StablySorted order (if order.isEmpty then B.entries else (B.sort order).entries) := by
  cases order with
  | nil => exact B.stablySorted_nil
  | cons o rest => exact h.stablySorted (o :: rest)

theorem check_unarranged (h : q.check = .ok ()) : q.unarranged.check = .ok () := by
  unfold check at h ⊢
  cases hempty : q.tables.isEmpty with
  | true => simp [hempty] at h
  | false =>
      have hempty' : q.unarranged.tables.isEmpty = false := hempty
      simp only [hempty, hempty', Bool.false_eq_true, if_false] at h ⊢
      rcases Outcome.bind_eq_ok_iff.mp h with ⟨_, hnames, h⟩
      rcases Outcome.bind_eq_ok_iff.mp h with ⟨_, hmentioned, hrest⟩
      refine Outcome.bind_eq_ok_iff.mpr ⟨(), hnames, Outcome.bind_eq_ok_iff.mpr ⟨(), ?_, hrest⟩⟩
      rw [Outcome.forM_eq_ok_iff] at hmentioned ⊢
      intro c hc
      apply hmentioned c
      simp only [mentioned, unarranged, List.mem_append, List.map_nil, List.not_mem_nil,
        or_false] at hc ⊢
      tauto

/-!
## The result of a query
-/

/-- Below the projection the plans of a query with and without its order and cuts are one formed
plan, under the operators that order and cut and by itself.  Its tests are those of the query. -/
theorem exists_logical (planner : Planner) (h : q.Checked) :
    ∃ t : LogicalPlan, t.Formed ∧ LogicalPlan.tables t = q.tables ∧
      planner.logical q = .node (.project q.columns q.groupBy) [under q.arrangement t] ∧
      planner.logical q.unarranged = .node (.project q.columns q.groupBy) [t] ∧
      ∀ p' ∈ LogicalPlan.guards t, ∀ test, Condition.test test ∈ p'.conditions →
        ∃ p ∈ q.predicate, Condition.test test ∈ p.conditions := by
  have hwithin : ∀ p' ∈ q.predicate, p'.Within (q.tables.map (·.effectiveName)) :=
    fun p hp => LogicalPlan.within_names h hp
  rcases (LogicalPlan.asks_leaves h.nonempty).select hwithin with
    ⟨t, hchain, hformed, htables, hguards⟩
  have hunarranged : LogicalPlan.ofSelect q.unarranged =
      .node (.project q.columns q.groupBy) [t] := by
    rw [LogicalPlan.ofSelect, stages_unarranged, LogicalPlan.chain_append]
    exact congrArg _ hchain
  have hq : LogicalPlan.ofSelect q =
      .node (.project q.columns q.groupBy) [under q.arrangement t] := by
    have hinputs := congrArg PlanTree.inputs hunarranged
    rw [LogicalPlan.ofSelect] at hinputs ⊢
    rw [stages_eq, LogicalPlan.chain_append, ← LogicalPlan.chain_singleton]
    exact congrArg _ (congrArg _ hinputs)
  rcases LogicalPlan.applyAll_under arranges_of_mem_arrangement q.columns q.groupBy hformed
    planner.transformations with ⟨t', halone, hunder, hstands⟩
  refine ⟨t', hstands.formed, hstands.tables.trans htables, ?_, ?_, ?_⟩
  · rw [Planner.logical, hq, hunder]
  · rw [Planner.logical, hunarranged, halone]
  · intro p' hp' test htest
    rcases hstands.tests p' hp' test htest with ⟨p, hp, htest⟩
    rw [hguards, Option.mem_toList] at hp
    exact ⟨p, hp, htest⟩

/-- The relation of the query without its order and cuts, and the result of the query read off
it. -/
theorem execute_eq (planner : Planner) (source : TableSource) (hcheck : q.check = .ok ())
    (hbound : q.checkBound = .ok ()) :
    planner.execute source q =
      (planner.relation source q.unarranged).map fun B =>
        (q.arrangement.foldr LogicalOp.arrange B).project q.items (1 < q.tables.length) := by
  rcases exists_logical planner (checked_of_check hcheck) with
    ⟨t, hformed, htables, hlogical, hlogical', _⟩
  have hbound' : q.unarranged.checkBound = .ok () := hbound
  simp only [Planner.execute, Planner.relation, Planner.physical, hcheck, hbound,
    check_unarranged hcheck, hbound', hlogical, hlogical', Outcome.ok_bind, ofLogical_project,
    LogicalPlan.tables_under, htables,
    LogicalPlan.accessed_under (arranges_of_mem_arrangement (q := q)),
    LogicalPlan.lower_under (arranges_of_mem_arrangement (q := q))]
  cases (q.tables.forM fun table => do
    let _ ← source.storeOf table : Outcome Unit) with
  | error e => rfl
  | ok u =>
      cases PhysicalPlan.lower (LogicalPlan.accessed source t)
        (PhysicalPlan.aggregation? (PhysicalPlan.itemsOf q.columns q.tables) q.groupBy) with
      | error e => rfl
      | ok lowered =>
          change (PhysicalPlan.evaluate source
            (under (q.arrangement.filterMap (·.physical?)) lowered.1) >>= fun R => _) =
              (PhysicalPlan.evaluate source lowered.1).map _
          rw [LogicalPlan.evaluate_under arranges_of_mem_arrangement]
          cases PhysicalPlan.evaluate source lowered.1 <;> rfl

theorem draws_relation (planner : Planner) (hcheck : q.check = .ok ())
    (hsource : ∀ name s, source name = some s → s.Sound)
    (hB : planner.relation source q.unarranged = .ok B) :
    B.Draws source q.tables (PhysicalPlan.aggregation? q.items q.groupBy) := by
  rcases exists_logical planner (checked_of_check hcheck) with
    ⟨t, hformed, htables, _, hlogical, _⟩
  simp only [Planner.relation, Planner.physical, hlogical, ofLogical_project] at hB
  rcases Outcome.bind_eq_ok_iff.mp hB with ⟨plan, hplan, hinput⟩
  rcases Outcome.bind_eq_ok_iff.mp hplan with ⟨_, _, hplan⟩
  rcases Outcome.bind_eq_ok_iff.mp hplan with ⟨_, _, hplan⟩
  rcases Outcome.bind_eq_ok_iff.mp hplan with ⟨_, _, hplan⟩
  rcases Outcome.bind_eq_ok_iff.mp hplan with ⟨⟨P, pending⟩, hlower, heq⟩
  cases heq
  rw [htables] at hlower
  have hdraws := (hformed.draws hsource hlower).2 B hinput
  rwa [htables] at hdraws

theorem aggregation?_cases (items : List Expression) (groupBy : List ColumnRef) :
    (PhysicalPlan.aggregation? items groupBy = none ∧ items.filterMap (·.aggregate?) = []) ∨
      PhysicalPlan.aggregation? items groupBy =
        some (.aggregate groupBy (items.filterMap (·.aggregate?))) := by
  unfold PhysicalPlan.aggregation?
  dsimp only
  split
  · next h =>
      rw [Bool.and_eq_true] at h
      exact Or.inl ⟨rfl, List.isEmpty_iff.mp h.1⟩
  · exact Or.inr rfl

theorem uniform_relation (planner : Planner) (hcheck : q.check = .ok ())
    (hsource : ∀ name s, source name = some s → s.Sound)
    (hB : planner.relation source q.unarranged = .ok B) :
    B.Uniform ∧ ∀ e ∈ B.entries,
      (q.items.filterMap (·.aggregate?)).length ≤ e.aggregates.length := by
  have hdraws := draws_relation planner hcheck hsource hB
  rcases aggregation?_cases q.items q.groupBy with ⟨hnone, hempty⟩ | hsome
  · rw [hnone] at hdraws
    refine ⟨Relation.Over.uniform hdraws hsource, ?_⟩
    intro e _
    rw [hempty]
    exact Nat.zero_le _
  · rw [hsome] at hdraws
    exact ⟨Relation.Summary.uniform hdraws hsource,
      fun e he => Nat.le_of_eq (Relation.Summary.values hdraws e he).symm⟩

theorem mem_of_mem_cut {entries : List Entry} {e : Entry} (h : e ∈ q.cut entries) :
    e ∈ entries := by
  unfold cut at h
  split at h
  · exact List.mem_of_mem_drop (List.mem_of_mem_take h)
  · exact List.mem_of_mem_drop h

/-- The query fails exactly as it does without its order and cuts.  If it does not, its rows show,
one by one, the entries of that relation as they are sorted stably and then cut. -/
theorem rows_show_the_sorted_and_cut_entries (planner : Planner) (q : Select)
    (hsource : ∀ name s, source name = some s → s.Sound) (hcheck : q.check = .ok ())
    (hbound : q.checkBound = .ok ()) :
    match planner.relation source q.unarranged with
    | .error e =>
        planner.execute source q.unarranged = .error e ∧ planner.execute source q = .error e
    | .ok B =>
        (∃ r, planner.execute source q.unarranged = .ok r) ∧
          ∃ sorted r, B.StablySorted q.orderBy sorted ∧ planner.execute source q = .ok r ∧
            List.Forall₂ (fun e row => B.Shows q.items e row) (q.cut sorted) r.rows := by
  have hreduced := execute_eq planner source (check_unarranged hcheck) hbound
  have hresult := execute_eq planner source hcheck hbound
  change planner.execute source q.unarranged =
    (planner.relation source q.unarranged).map _ at hreduced
  cases hB : planner.relation source q.unarranged with
  | error e =>
      rw [hB] at hreduced hresult
      exact ⟨hreduced, hresult⟩
  | ok B =>
      rw [hB] at hreduced hresult
      rcases uniform_relation planner hcheck hsource hB with ⟨huniform, haggregates⟩
      have hsorted := stablySorted_of_uniform huniform q.orderBy
      refine ⟨⟨_, hreduced⟩, _, _, hsorted, hresult, ?_⟩
      dsimp only
      rw [arrange_eq, Relation.project, List.forall₂_map_right_iff, List.forall₂_same]
      intro e he
      have hcarried := haggregates e (hsorted.perm.mem_iff.mp (mem_of_mem_cut he))
      exact (Relation.shows_expressionValues hcarried).of_tables rfl

def numbersCounted : Select where
  tables := [.items]
  orderBy := [({ table := "item", column := "number", position := 0, type := .int64 }, .descending)]
  skip := some 1
  limit := some 5
  columns :=
    [.aggregate { function := .count, column := none },
      .column { table := "item", column := "number", position := 0, type := .int64 }]
  groupBy := [{ table := "item", column := "number", position := 0, type := .int64 }]

theorem sound_twoItems : ∀ name s, twoItemsSource name = some s → s.Sound := by
  intro name s hs
  have hwritten : twoItems.Written := ⟨.items, _, .built Table.built_items, rfl⟩
  unfold twoItemsSource at hs
  split at hs
  · cases hs
    exact hwritten.sound
  · cases hs

theorem smaller_number_is_shown :
    (∀ name s, twoItemsSource name = some s → s.Sound) ∧ numbersCounted.check = .ok () ∧
      numbersCounted.checkBound = .ok () ∧
      ∃ B sorted r, Planner.relation {} twoItemsSource numbersCounted.unarranged = .ok B ∧
        B.StablySorted numbersCounted.orderBy sorted ∧
        Planner.execute {} twoItemsSource numbersCounted = .ok r ∧
        List.Forall₂ (fun e row => B.Shows numbersCounted.items e row)
          (numbersCounted.cut sorted) r.rows ∧
        r.rows = [[.int64 1, .int64 7]] := by
  have hcheck : numbersCounted.check = .ok () := rfl
  have hbound : numbersCounted.checkBound = .ok () := rfl
  have hexecute : Planner.execute {} twoItemsSource numbersCounted =
      .ok { names := ["count(*)", "number"], rows := [[.int64 1, .int64 7]] } := by cbv
  have h := rows_show_the_sorted_and_cut_entries {} numbersCounted sound_twoItems hcheck hbound
  refine ⟨sound_twoItems, hcheck, hbound, ?_⟩
  cases hB : Planner.relation {} twoItemsSource numbersCounted.unarranged with
  | error e =>
      rw [hB] at h
      rw [h.2] at hexecute
      cases hexecute
  | ok B =>
      rw [hB] at h
      rcases h with ⟨_, sorted, r, hsorted, hr, hrows⟩
      refine ⟨B, sorted, r, rfl, hsorted, hr, hrows, ?_⟩
      rw [hr] at hexecute
      cases hexecute
      rfl

end Select

end RelationalDb
