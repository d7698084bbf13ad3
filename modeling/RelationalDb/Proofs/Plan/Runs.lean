import Mathlib
import RelationalDb.Proofs.Plan.Arrangement

/-!
# Checked queries run without failures

A checked query whose placeholders were bound fails for one reason only: a test refers to a
column under another type than the column has, and the index that is scanned for the test has
keys of the column's type.  Where the references have the types of their columns, a plan is
found and every operator of it gets the inputs that it needs.
-/

namespace RelationalDb

namespace TableStore

variable {s : TableStore} {t : Table} {c : ColumnIndex} {ranges : List (KeyRange Value)}
  {selections : List Predicate} {path : AccessPath}

theorem Indexed.scanRanges_ok (h : s.Indexed) (hn : s.table.IndicesNamed) (hc : c ∈ s.indices)
    (hranges : ∀ r ∈ ranges, ∀ e ∈ r.endpoints, e.type? = some c.index.keyType) :
    ∃ rows, s.scanRanges c.index.name ranges = .ok rows := by
  have hparts : ∃ parts, ranges.mapM
      (fun r => s.scanIndex c.index.name (some r) .ascending none 0) = .ok parts ∧
        List.Forall₂ (fun _ _ => True) ranges parts := by
    apply Outcome.mapM_ok
    intro r hr
    have hcheck : c.index.checkRange r = .ok () := by
      rw [KeyIndex.checkRange, Outcome.forM_eq_ok_iff]
      intro e he
      simp [KeyIndex.checkKey, hranges r hr e he]
    simp [scanIndex, h.named.index?_name hn hc, TableIndex.range, KeyIndex.range, hcheck]
  rcases hparts with ⟨parts, hmap, _⟩
  exact ⟨parts.flatten, by simp [scanRanges, hmap]⟩

theorem Indexed.scan_path_ok (h : s.Indexed) (hn : s.table.IndicesNamed)
    (ht : s.table.columns = t.columns) (hfit : Predicate.FitIn selections [t])
    (hpath : s.accessPath? t selections = some path) :
    ∃ rows, s.scanRanges path.index path.ranges = .ok rows := by
  rcases accessPath?_eq_some hpath with
    ⟨test, ranges, c, hselection, htable, hranges, hc, hposition, hindex, rfl⟩
  rcases hfit _ (List.mem_of_getElem? hselection) test List.mem_cons_self with ⟨hsuited, htyped⟩
  rcases h.matchesColumn hc with ⟨column, hcolumn, hkeyType⟩
  have htype : column.type = test.column.type := by
    apply htyped t (List.mem_singleton_self t) htable column
    rwa [← ht, ← hposition]
  rw [hindex]
  apply h.scanRanges_ok hn hc
  intro r hr e he
  rw [← hkeyType, htype]
  exact (hsuited.readAs hranges).endpoints r hr e he

end TableStore

def TableSource.Provides (source : TableSource) (t : Table) : Prop :=
  ∃ s, source t.name = some s ∧ s.Indexed ∧ s.table.IndicesNamed ∧ s.table.columns = t.columns

def PhysicalOp.Aggregates (pending : Option PhysicalOp) : Prop :=
  ∀ op ∈ pending, ∃ groupBy aggregates, op = .aggregate groupBy aggregates

theorem PhysicalOp.aggregates_none : PhysicalOp.Aggregates none := by
  intro op hop
  cases hop

namespace LogicalPlan

variable {source : TableSource} {t l r : LogicalPlan} {ts : List LogicalPlan}
  {selections : List Predicate} {pending : Option PhysicalOp} {P : PhysicalPlan} {R : Relation}
  {Ps : List PhysicalPlan}

/-!
## Operators that run
-/

/-- The plan is lowered to one that computes a relation.  It takes the aggregation that is still to
be placed. -/
def Runs (source : TableSource) (selections : List Predicate) (pending : Option PhysicalOp)
    (t : LogicalPlan) : Prop :=
  ∃ P R, PhysicalPlan.lower (withAccess source selections t).1 pending = .ok (P, none) ∧
    PhysicalPlan.evaluate source P = .ok R

theorem evaluate_placeAbove (hpending : PhysicalOp.Aggregates pending)
    (hR : PhysicalPlan.evaluate source P = .ok R) :
    ∃ R', PhysicalPlan.evaluate source (PhysicalPlan.placeAbove pending P) = .ok R' := by
  cases pending with
  | none => exact ⟨R, hR⟩
  | some op =>
      rcases hpending op rfl with ⟨groupBy, aggregates, rfl⟩
      refine ⟨R.aggregate groupBy aggregates, ?_⟩
      simp [PhysicalPlan.placeAbove, PhysicalPlan.evaluate, hR]

theorem runs_of_lowerAll {op : LogicalOp} {op' : PhysicalOp}
    (hpending : PhysicalOp.Aggregates pending)
    (haccess : (withAccess source selections (.node op ts)).1 =
      .node (.asWritten op) (withAccessOf source [] ts).1)
    (hop : op.physical? = some op') (hplace : op'.followsAggregation = false)
    (hlower : PhysicalPlan.lowerAll (withAccessOf source [] ts).1 none = .ok (Ps, none))
    (hR : PhysicalPlan.evaluate source (.node op' Ps) = .ok R) :
    Runs source selections pending (.node op ts) := by
  rcases evaluate_placeAbove hpending hR with ⟨R', hR'⟩
  refine ⟨_, R', ?_, hR'⟩
  rw [haccess]
  exact PhysicalPlan.lower_above hop hplace hlower pending

theorem runs_table (u : Table) (h : source.Provides u) (hfit : Predicate.FitIn selections [u])
    (hpending : PhysicalOp.Aggregates pending) :
    Runs source selections pending (.node (.table u) []) := by
  rcases h with ⟨s, hs, hindexed, hnamed, hcolumns⟩
  have hstore := TableSource.storeOf_eq_ok hs
  have hpathIn : pathIn? source u selections = s.accessPath? u selections := by
    simp [pathIn?, hs]
  cases hpath : s.accessPath? u selections with
  | none =>
      have hR : PhysicalPlan.evaluate source (.node (.tableScan u) []) =
          .ok (.ofRows u.effectiveName s.toList) := by
        simp [PhysicalPlan.evaluate, hstore]
      apply runs_of_lowerAll hpending _ rfl rfl rfl hR
      rw [withAccess, hpathIn, hpath]
      rfl
  | some path =>
      rcases hindexed.scan_path_ok hnamed hcolumns hfit hpath with ⟨rows, hrows⟩
      have hR : PhysicalPlan.evaluate source (.node (.indexScan u path.index path.ranges) []) =
          .ok (.ofRows u.effectiveName rows) := by
        simp [PhysicalPlan.evaluate, hstore, hrows]
      rcases evaluate_placeAbove hpending hR with ⟨R', hR'⟩
      refine ⟨_, R', ?_, hR'⟩
      rw [withAccess, hpathIn, hpath]
      rfl

theorem runs_select {p : Predicate} (hpending : PhysicalOp.Aggregates pending)
    (h : ∀ {pending}, PhysicalOp.Aggregates pending → Runs source (p :: selections) pending t) :
    Runs source selections pending (.node (.select p) [t]) := by
  by_cases hzero : 0 ∈ (withAccess source (p :: selections) t).2
  · rcases h hpending with ⟨P, R, hlower, hR⟩
    refine ⟨P, R, ?_, hR⟩
    rw [withAccess_select]
    simpa [hzero, PhysicalPlan.lower] using hlower
  · rcases h PhysicalOp.aggregates_none with ⟨P, R, hlower, hR⟩
    have hfilter : PhysicalPlan.evaluate source (.node (.select p) [P]) = .ok (R.filter p) := by
      simp [PhysicalPlan.evaluate, hR]
    rcases evaluate_placeAbove hpending hfilter with ⟨R', hR'⟩
    refine ⟨_, R', ?_, hR'⟩
    rw [withAccess_select, if_neg (by simpa using hzero)]
    exact PhysicalPlan.lower_above rfl rfl (PhysicalPlan.lowerAll_singleton hlower) pending

theorem lowerAll_runs (h : ∀ t ∈ ts, Runs source [] none t) :
    ∃ Ps, PhysicalPlan.lowerAll (withAccessOf source [] ts).1 none = .ok (Ps, none) ∧
      List.Forall₂ (fun _ P => ∃ R, PhysicalPlan.evaluate source P = .ok R) ts Ps := by
  apply lowerAll_of_forall
  intro t ht
  rcases h t ht with ⟨P, R, hlower, hR⟩
  exact ⟨P, hlower, R, hR⟩

theorem evaluateProduct_runs {ts : List LogicalPlan}
    (h : List.Forall₂ (fun _ P => ∃ R, PhysicalPlan.evaluate source P = .ok R) ts Ps)
    (R : Relation) : ∃ R', PhysicalPlan.evaluateProduct source R Ps = .ok R' := by
  induction h generalizing R with
  | nil => exact ⟨R, rfl⟩
  | cons hP _ ih =>
      rcases hP with ⟨T, hT⟩
      rcases ih (R.product T) with ⟨R', hR'⟩
      exact ⟨R', by simp [PhysicalPlan.evaluateProduct, hT, hR']⟩

theorem runs_product (hne : ts ≠ []) (hpending : PhysicalOp.Aggregates pending)
    (h : ∀ t ∈ ts, Runs source [] none t) : Runs source selections pending (.node .product ts) := by
  rcases lowerAll_runs h with ⟨Ps, hlower, hall⟩
  have hproduct : ∃ R, PhysicalPlan.evaluate source (.node .product Ps) = .ok R := by
    cases hall with
    | nil => exact absurd rfl hne
    | cons hP hrest =>
        rcases hP with ⟨T, hT⟩
        rcases evaluateProduct_runs hrest T with ⟨R, hR⟩
        exact ⟨R, by simp [PhysicalPlan.evaluate, hT, hR]⟩
  rcases hproduct with ⟨R, hR⟩
  exact runs_of_lowerAll hpending rfl rfl rfl hlower hR

theorem runs_join (j : ColumnJoin) (hpending : PhysicalOp.Aggregates pending)
    (h : ∀ t ∈ [l, r], Runs source [] none t) :
    Runs source selections pending (.node (.join j) [l, r]) := by
  rcases lowerAll_runs h with ⟨Ps, hlower, hall⟩
  have hjoin : ∃ R, PhysicalPlan.evaluate source (.node (.join j) Ps) = .ok R := by
    rcases hall with _ | ⟨⟨L, hL⟩, _ | ⟨⟨T, hT⟩, _ | _⟩⟩
    exact ⟨L.join T j, by simp [PhysicalPlan.evaluate, hL, hT]⟩
  rcases hjoin with ⟨R, hR⟩
  exact runs_of_lowerAll hpending rfl rfl rfl hlower hR

theorem runs_orderBy (order : SortOrder) (h : Runs source [] pending t) :
    Runs source selections pending (.node (.orderBy order) [t]) := by
  rcases h with ⟨P, R, hlower, hR⟩
  refine ⟨.node (.orderBy order) [P], R.sort order, ?_, ?_⟩
  · exact PhysicalPlan.lower_past rfl rfl (PhysicalPlan.lowerAll_singleton hlower)
  · simp [PhysicalPlan.evaluate, hR]

/-!
## Plans that run
-/

/-- The source has the tables, and the tests fit in them. -/
structure Runnable (source : TableSource) (t : LogicalPlan) : Prop where
  provides : ∀ u ∈ t.tables, source.Provides u
  fit : Predicate.FitIn t.guards t.tables

theorem Runnable.input {op : LogicalOp} (h : Runnable source (.node op ts)) (ht : t ∈ ts) :
    t.Runnable source where
  provides := fun u hu => h.provides u (mem_tables_of_input ht hu)
  fit := h.fit.mono (fun _ hp => mem_guards_of_input ht hp)
    fun _ hu => mem_tables_of_input ht hu

theorem Formed.runs (h : t.Formed) (hrunnable : t.Runnable source)
    (hfit : Predicate.FitIn selections t.tables) (hpending : PhysicalOp.Aggregates pending) :
    Runs source selections pending t := by
  induction h generalizing selections pending with
  | table u =>
      exact runs_table u (hrunnable.provides u (List.mem_singleton_self u)) hfit hpending
  | @select p t ht hp ih =>
      apply runs_select hpending
      -- the selection goes along, as an access path further down may answer it
      intro pending hpending
      exact ih (hrunnable.input (List.mem_singleton_self t))
        (hfit.below_select hrunnable.fit) hpending
  | @product ts hne hts ih =>
      apply runs_product hne hpending
      intro t ht
      exact ih t ht (hrunnable.input ht) (Predicate.fitIn_nil _) PhysicalOp.aggregates_none
  | @join j l r hl hr hleft hright ihl ihr =>
      apply runs_join j hpending
      intro t ht
      have hinput := hrunnable.input ht
      rcases List.mem_cons.mp ht with rfl | ht
      · exact ihl hinput (Predicate.fitIn_nil _) PhysicalOp.aggregates_none
      · cases List.mem_singleton.mp ht
        exact ihr hinput (Predicate.fitIn_nil _) PhysicalOp.aggregates_none
  | @orderBy order t ht ih =>
      apply runs_orderBy order
      exact ih (hrunnable.input (List.mem_singleton_self t)) (Predicate.fitIn_nil _) hpending

end LogicalPlan

/-!
## Queries that run
-/

namespace Select

variable {q : Select} {source : TableSource}

def TestsTyped (q : Select) : Prop :=
  ∀ p ∈ q.predicate, ∀ test, Condition.test test ∈ p.conditions → test.column.TypedIn q.tables

/-- Every table is one of the source, under its own name or under an alias, whose store has the
indices that the table declares. -/
def StoredIn (q : Select) (source : TableSource) : Prop :=
  ∀ t ∈ q.tables, ∃ s, source t.name = some s ∧ s.Indexed ∧ s.table.Definable ∧
    (t = s.table ∨ ∃ byname, t = s.table.withAlias byname)

theorem StoredIn.provides (h : q.StoredIn source) : ∀ t ∈ q.tables, source.Provides t := by
  intro t ht
  rcases h t ht with ⟨s, hs, hindexed, hdefinable, halias⟩
  refine ⟨s, hs, hindexed, hdefinable.indicesNamed, ?_⟩
  rcases halias with rfl | ⟨byname, rfl⟩
  · rfl
  · rfl

theorem relation_ok (planner : Planner) (hcheck : q.check = .ok ())
    (hbound : q.checkBound = .ok ()) (hprovides : ∀ t ∈ q.tables, source.Provides t)
    (hfit : Predicate.FitIn q.predicate.toList q.tables) :
    ∃ B, planner.relation source q.unarranged = .ok B := by
  rcases exists_logical planner (checked_of_check hcheck) with
    ⟨t, hformed, htables, _, hlogical, htests⟩
  have hrunnable : LogicalPlan.Runnable source t := by
    constructor
    · rw [htables]
      exact hprovides
    · rw [htables]
      intro p' hp' test htest
      rcases htests p' hp' test htest with ⟨p, hp, htest⟩
      exact hfit p (Option.mem_toList.mpr hp) test htest
  have haggregates : PhysicalOp.Aggregates (PhysicalPlan.aggregation? q.items q.groupBy) := by
    rcases aggregation?_cases q.items q.groupBy with ⟨hnone, _⟩ | hsome
    · rw [hnone]
      exact PhysicalOp.aggregates_none
    · rw [hsome]
      intro op hop
      exact ⟨_, _, (Option.some.inj hop).symm⟩
  rcases hformed.runs hrunnable (Predicate.fitIn_nil _) haggregates with ⟨P, R, hlower, hR⟩
  have hstores := stores_ok fun t ht => (hprovides t ht).imp fun _ h => h.1
  have hbound' : q.unarranged.checkBound = .ok () := hbound
  have hlower' : PhysicalPlan.lower (LogicalPlan.accessed source t)
      (PhysicalPlan.aggregation? (PhysicalPlan.itemsOf q.columns q.tables) q.groupBy) =
        .ok (P, none) := hlower
  refine ⟨R, ?_⟩
  simp only [Planner.relation, Planner.physical, check_unarranged hcheck, hbound', hlogical,
    Outcome.ok_bind, ofLogical_project, htables, hstores, hlower']
  exact hR

/-- A checked query whose placeholders were bound has a result over stores of its tables, whatever
transformations the planner applies, if its tests refer to their columns by their types. -/
theorem checked_query_has_a_result (planner : Planner) (hcheck : q.check = .ok ())
    (hsettled : ∀ p ∈ q.predicate, p.Settled) (hstored : q.StoredIn source)
    (htyped : q.TestsTyped) : ∃ r, planner.execute source q = .ok r := by
  have hchecked := checked_of_check hcheck
  have hfit : Predicate.FitIn q.predicate.toList q.tables := by
    intro p hp test htest
    have hp' := Option.mem_toList.mp hp
    exact ⟨Predicate.suited_of_check (hchecked.predicate p hp') (hsettled p hp') htest,
      htyped p hp' test htest⟩
  have hbound := checkBound_of_fitIn hfit
  rcases relation_ok planner hcheck hbound hstored.provides hfit with ⟨B, hB⟩
  rw [execute_eq planner source hcheck hbound, hB]
  exact ⟨_, rfl⟩

def oneItemSource : TableSource := fun name =>
  if name = "item" then
    some ((TableStore.empty .items).after
      [.insert { id := 1, values := [.int64 7, .float64 ⟨0x3ff0000000000000⟩] }])
  else none

def countOfSize (type : ColumnType) (size : Value) : Select where
  tables := [.items]
  predicate := some (.condition (.test
    { column := { table := "item", column := "size", position := 1, type := type }
      comparison := .eq
      operands := [.literal size] }))
  columns := [.aggregate { function := .count, column := none }]

theorem storedIn_oneItemSource (type : ColumnType) (size : Value) :
    (countOfSize type size).StoredIn oneItemSource := by
  intro t ht
  cases List.mem_singleton.mp ht
  refine ⟨_, rfl, (TableStore.sound_after_empty _ _).indexed, ?_, Or.inl ?_⟩
  · rw [TableStore.table_after_empty]
    exact .built Table.built_items
  · rw [TableStore.table_after_empty]

theorem settled_countOfSize (type : ColumnType) (size : Value) :
    ∀ p ∈ (countOfSize type size).predicate, p.Settled := by
  intro p hp
  cases hp
  exact Predicate.settled_of_slots rfl

theorem items_of_size_one_are_counted :
    (countOfSize .float64 (.float64 ⟨0x3ff0000000000000⟩)).TestsTyped ∧
      ∃ r, Planner.execute {} oneItemSource
        (countOfSize .float64 (.float64 ⟨0x3ff0000000000000⟩)) = .ok r := by
  have htyped : (countOfSize .float64 (.float64 ⟨0x3ff0000000000000⟩)).TestsTyped := by
    intro p hp test htest t ht _ column hcolumn
    cases hp
    cases List.mem_singleton.mp htest
    cases List.mem_singleton.mp ht
    cases hcolumn
    rfl
  exact ⟨htyped, checked_query_has_a_result {} rfl (settled_countOfSize _ _)
    (storedIn_oneItemSource _ _) htyped⟩

/-- Under another type the query passes its check too, but the index over the column refuses the
scan that is planned for it. -/
theorem count_under_another_type_fails :
    (countOfSize .int64 (.int64 1)).check = .ok () ∧
      (countOfSize .int64 (.int64 1)).checkBound = .ok () ∧
      (∀ p ∈ (countOfSize .int64 (.int64 1)).predicate, p.Settled) ∧
      (countOfSize .int64 (.int64 1)).StoredIn oneItemSource ∧
      Planner.execute {} oneItemSource (countOfSize .int64 (.int64 1)) =
        .error (.data (.keyType "item.bySize" .float64 (.int64 1))) := by
  refine ⟨rfl, rfl, settled_countOfSize _ _, storedIn_oneItemSource _ _, ?_⟩
  cbv

end Select

end RelationalDb
