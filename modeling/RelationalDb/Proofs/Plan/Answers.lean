import Mathlib
import RelationalDb.Proofs.Plan.Evaluation
import RelationalDb.Proofs.Query.AllColumns
import RelationalDb.Proofs.Store.Histories

/-!
# Queries are answered as they are written

The answer of a query is read off the query alone: of all combinations of rows of its
tables those that satisfy its predicate, and of them the columns that it asks for.  A
planner finds this answer with any transformations, whatever indices the tables have.
-/

namespace RelationalDb

namespace Select

/-- The columns that the query asks for, which without any are all columns of its tables. -/
def wanted (q : Select) : List ColumnRef :=
  if q.columns.isEmpty then q.tables.flatMap (·.placedColumns)
  else q.columns.filterMap (·.column?)

/-- The columns that the query shows.  They are those that it asks for, except that a column with
the name of an earlier one of its table is shown as the earlier one. -/
def shown (q : Select) : List ColumnRef :=
  if q.columns.isEmpty then q.tables.flatMap (·.namedColumns)
  else q.columns.filterMap (·.column?)

/-- No table of which all columns are asked for has two columns of one name. -/
def NamesApart (q : Select) : Prop :=
  q.columns = [] → ∀ t ∈ q.tables, (t.columns.map (·.name)).Nodup

/-- These columns of the rows that the query asks for, in some order. -/
def answer (source : TableSource) (q : Select) (columns : List ColumnRef) : List (List Value) :=
  ((source.entriesOver q.tables).filter fun e =>
    q.predicate.all fun p => p.eval (e.assignment q.names)).map fun e =>
      columns.map fun c => (e.assignment q.names c).getD .null

/-- Every column that is mentioned has the type of the column that it refers to. -/
def Typed (q : Select) : Prop :=
  ∀ c ∈ q.mentioned, ∀ t ∈ q.tables, c.table = t.effectiveName →
    ∀ column, t.columns[c.position]? = some column → column.type = c.type

/-- Every table is one of the source, under its own name or under an alias. -/
def ReadsFrom (q : Select) (source : TableSource) : Prop :=
  ∀ t ∈ q.tables, ∃ s, source t.name = some s ∧ s.Written ∧
    (t = s.table ∨ ∃ byname, t = s.table.withAlias byname)

variable {q : Select} {source : TableSource}

/-!
## Checked queries
-/

theorem nodup_of_checkNames {seen names : List String} (h : checkNames seen names = .ok ()) :
    names.Nodup ∧ ∀ name ∈ names, name ∉ seen := by
  induction names generalizing seen with
  | nil => exact ⟨List.nodup_nil, nofun⟩
  | cons name rest ih =>
      unfold checkNames at h
      split at h
      · cases h
      · next hnew =>
          rcases ih h with ⟨hnodup, hrest⟩
          have hname : name ∉ seen := by simpa using hnew
          refine ⟨List.nodup_cons.mpr ⟨fun hmem => hrest name hmem List.mem_cons_self, hnodup⟩, ?_⟩
          intro x hx
          rcases List.mem_cons.mp hx with rfl | hx
          · exact hname
          · exact fun hseen => hrest x hx (List.mem_cons_of_mem _ hseen)

/-- What a query that passes its check has. -/
structure Checked (q : Select) : Prop where
  nonempty : q.tables ≠ []
  distinct : q.names.Nodup
  belongs : ∀ c ∈ q.mentioned, ∃ t ∈ q.tables, c.belongsTo t = true
  predicate : ∀ p ∈ q.predicate, p.check = .ok ()

theorem checked_of_check (h : q.check = .ok ()) : q.Checked := by
  unfold check at h
  cases hempty : q.tables.isEmpty with
  | true => simp [hempty] at h
  | false =>
      simp only [hempty, Bool.false_eq_true, if_false] at h
      rcases Outcome.bind_eq_ok_iff.mp h with ⟨_, hnames, h⟩
      rcases Outcome.bind_eq_ok_iff.mp h with ⟨_, hmentioned, h⟩
      refine ⟨by simpa using hempty, (nodup_of_checkNames hnames).1, ?_, ?_⟩
      · intro c hc
        have hcolumn := Outcome.forM_eq_ok_iff.mp hmentioned c hc
        unfold checkColumn at hcolumn
        split at hcolumn
        · next hany => simpa using hany
        · cases hcolumn
      · intro p hp
        rw [Option.mem_def] at hp
        simp only [hp] at h
        rcases Outcome.bind_eq_ok_iff.mp h with ⟨_, hcheck, _⟩
        exact hcheck

/-!
## The plan of a query
-/

end Select

namespace LogicalPlan

variable {q : Select} {t : LogicalPlan} {ts : List LogicalPlan} {source : TableSource}

/-- A single formed plan that reads these tables and asks for these predicates. -/
def Asks (ts : List LogicalPlan) (us : List Table) (ps : List Predicate) : Prop :=
  ∃ t : LogicalPlan, ts = [t] ∧ t.Formed ∧ t.tables = us ∧ t.guards = ps

theorem chain_append (ops ops' : List LogicalOp) (ts : List LogicalPlan) :
    chain (ops ++ ops') ts = chain ops (chain ops' ts) := by
  induction ops with
  | nil => rfl
  | cons op ops ih => rw [List.cons_append, chain, chain, ih]

theorem flatMap_tables_leaves (us : List Table) :
    (us.map fun u => (.node (.table u) [] : LogicalPlan)).flatMap tables = us := by
  induction us with
  | nil => rfl
  | cons u us ih => rw [List.map_cons, List.flatMap_cons, ih, tables_table, List.singleton_append]

theorem flatMap_guards_leaves (us : List Table) :
    (us.map fun u => (.node (.table u) [] : LogicalPlan)).flatMap guards = [] := by
  induction us with
  | nil => rfl
  | cons u us ih =>
      rw [List.map_cons, List.flatMap_cons, ih]
      rfl

theorem asks_leaves (h : q.tables ≠ []) :
    Asks (chain (if q.readsSeveral then [.product] else [])
      (q.tables.map fun u => .node (.table u) [])) q.tables [] := by
  cases hseveral : q.readsSeveral with
  | true =>
      refine ⟨_, rfl, ?_, ?_, ?_⟩
      · apply Formed.product
        · simpa [chain] using h
        · intro t ht
          rcases List.mem_map.mp ht with ⟨u, _, rfl⟩
          exact Formed.table u
      · rw [tables_node (by simpa [chain] using h)]
        exact flatMap_tables_leaves q.tables
      · rw [guards_node]
        exact flatMap_guards_leaves q.tables
  | false =>
      have hlength : ¬1 < q.tables.length := by simpa [Select.readsSeveral] using hseveral
      cases htables : q.tables with
      | nil => exact absurd htables h
      | cons u rest =>
          cases rest with
          | nil => exact ⟨_, rfl, Formed.table u, rfl, rfl⟩
          | cons v rest =>
              rw [htables] at hlength
              simp at hlength

theorem Asks.select {us : List Table} (h : Asks ts us []) {p : Option Predicate}
    (hp : ∀ p' ∈ p, p'.Within (us.map (·.effectiveName))) :
    Asks (chain (p.map .select).toList ts) us p.toList := by
  rcases h with ⟨t, rfl, hformed, rfl, hguards⟩
  cases p with
  | none => exact ⟨t, rfl, hformed, rfl, hguards⟩
  | some p =>
      refine ⟨_, rfl, Formed.select hformed (hp p rfl), tables_single, ?_⟩
      simp [LogicalOp.guard?, chain, hguards]

theorem Asks.orderBy {us : List Table} {ps : List Predicate} (h : Asks ts us ps)
    (order : SortOrder) : Asks (chain (if order.isEmpty then [] else [.orderBy order]) ts) us ps := by
  rcases h with ⟨t, rfl, hformed, rfl, rfl⟩
  cases order.isEmpty with
  | true => exact ⟨t, rfl, hformed, rfl, rfl⟩
  | false =>
      refine ⟨_, rfl, Formed.orderBy hformed, tables_single, ?_⟩
      simp [LogicalOp.guard?, chain]

theorem within_names (h : q.Checked) {p : Predicate} (hp : p ∈ q.predicate) :
    p.Within (q.tables.map (·.effectiveName)) := by
  intro c hc col hcol
  have hmentioned : col ∈ q.mentioned := by
    have hcolumn : col ∈ p.columns := Predicate.mem_columns_iff.mpr ⟨c, hc, hcol⟩
    rw [Option.mem_def] at hp
    simp [Select.mentioned, hp, hcolumn]
  rcases h.belongs col hmentioned with ⟨t, ht, hbelongs⟩
  have hname : t.effectiveName = col.table := by
    simp only [ColumnRef.belongsTo, Bool.and_eq_true, beq_iff_eq] at hbelongs
    exact hbelongs.1
  exact List.mem_map.mpr ⟨t, ht, hname⟩

theorem asks_ofSelect (h : q.Checked) (hlimit : q.limit = none) (hskip : q.skip = none) :
    ∃ ts, ofSelect q = .node (.project q.columns q.groupBy) ts ∧
      Asks ts q.tables q.predicate.toList := by
  refine ⟨_, rfl, ?_⟩
  have hstages : stages q = (if q.orderBy.isEmpty then [] else [.orderBy q.orderBy]) ++
      ((q.predicate.map .select).toList ++ if q.readsSeveral then [.product] else []) := by
    simp [stages, hlimit, hskip]
  rw [hstages, chain_append, chain_append]
  exact ((asks_leaves h.nonempty).select fun p hp => within_names h hp).orderBy q.orderBy

end LogicalPlan

/-!
## Execution
-/

namespace Select

variable {q : Select} {source : TableSource}

def items (q : Select) : List Expression :=
  PhysicalPlan.itemsOf q.columns q.tables

theorem shown_eq_wanted (h : q.NamesApart) : q.shown = q.wanted := by
  unfold shown wanted
  split
  next hempty =>
    have hnames := h (List.isEmpty_iff.mp hempty)
    exact List.flatMap_congr fun t ht => Table.namedColumns_eq (hnames t ht)
  next => rfl

theorem items_eq (h : q.aggregates = []) : q.items = q.shown.map .column := by
  have hcolumns : ∀ {es : List Expression}, es.filterMap (·.aggregate?) = [] →
      es = (es.filterMap (·.column?)).map .column := by
    intro es hes
    induction es with
    | nil => rfl
    | cons e es ih =>
        cases e with
        | column c =>
            have hsome : (Expression.column c).column? = some c := rfl
            rw [List.filterMap_cons_some hsome, List.map_cons, ← ih hes]
        | aggregate a => simp [Expression.aggregate?] at hes
  unfold items PhysicalPlan.itemsOf shown
  split
  · rw [List.map_flatMap]
  · exact hcolumns h

theorem aggregation?_eq_none (hgroupBy : q.groupBy = []) :
    PhysicalPlan.aggregation? (q.shown.map .column) q.groupBy = none := by
  rw [PhysicalPlan.aggregation?, hgroupBy, List.filterMap_map]
  have hnone : q.shown.filterMap ((fun e => e.aggregate?) ∘ Expression.column) = [] := by
    rw [List.filterMap_eq_nil_iff]
    exact fun _ _ => rfl
  rw [hnone]
  rfl

theorem expressionValues_columns (r : Relation) (e : Entry) (cs : List ColumnRef)
    (aggregates : List Value) :
    r.expressionValues e (cs.map .column) aggregates = cs.map (r.valueOrNull e) := by
  induction cs with
  | nil => rfl
  | cons c cs ih => rw [List.map_cons, Relation.expressionValues, ih, List.map_cons]

theorem rows_project_columns {R : Relation}
    (h : R.Answers source q.tables fun a => q.predicate.all fun p => p.eval a)
    (columns : List ColumnRef) (qualify : Bool) :
    (R.project (columns.map .column) qualify).rows.Perm (q.answer source columns) := by
  have hvalues : ∀ e : Entry, R.expressionValues e (columns.map .column) e.aggregates =
      columns.map fun c => (e.assignment q.names c).getD .null := by
    intro e
    rw [expressionValues_columns]
    apply List.map_congr_left
    intro c _
    simp only [Relation.valueOrNull, Relation.value?, h.tables, names]
  have hperm := h.entries.map fun e => R.expressionValues e (columns.map .column) e.aggregates
  simp only [hvalues] at hperm
  simpa only [Relation.project, answer, hvalues, names] using hperm

theorem ReadsFrom.has (h : q.ReadsFrom source) : ∀ t ∈ q.tables, source.Has t := by
  intro t ht
  rcases h t ht with ⟨s, hs, hwritten, halias⟩
  refine ⟨s, hs, hwritten.sound, hwritten.definable.indicesNamed, ?_⟩
  rcases halias with rfl | ⟨byname, rfl⟩
  · rfl
  · rfl

theorem fitIn_predicate (h : q.Checked) (hsettled : ∀ p ∈ q.predicate, p.Settled)
    (htyped : q.Typed) : Predicate.FitIn q.predicate.toList q.tables := by
  intro p hp test htest
  have hp' : p ∈ q.predicate := by simpa using hp
  refine ⟨Predicate.suited_of_check (h.predicate p hp') (hsettled p hp') htest, ?_⟩
  apply htyped
  have hcolumn : test.column ∈ p.columns :=
    Predicate.mem_columns_iff.mpr ⟨_, htest, List.mem_cons_self⟩
  rw [Option.mem_def] at hp'
  simp [mentioned, hp', hcolumn]

theorem checkBound_of_fitIn (hfit : Predicate.FitIn q.predicate.toList q.tables) :
    q.checkBound = .ok () := by
  have hq : q.isBound = true := by
    cases hp : q.predicate with
    | none => simp [isBound, hp]
    | some p =>
        simp only [isBound, hp, Option.all_some]
        apply Predicate.isBound_of_suited
        intro test htest
        exact (hfit p (by simp [hp]) test htest).1
  simp [checkBound, hq]

theorem stores_ok {ts : List Table} (hsource : ∀ t ∈ ts, ∃ s, source t.name = some s) :
    (ts.forM fun table => do
      let _ ← source.storeOf table : Outcome Unit) = .ok () := by
  rw [Outcome.forM_eq_ok_iff]
  intro t ht
  rcases hsource t ht with ⟨s, hs⟩
  rw [TableSource.storeOf_eq_ok hs]
  rfl

theorem ofLogical_project (source : TableSource) (columns : List Expression)
    (groupBy : List ColumnRef) (t : LogicalPlan) :
    PhysicalPlan.ofLogical source (.node (.project columns groupBy) [t]) = (do
      (LogicalPlan.tables t).forM fun table => do
        let _ ← source.storeOf table
      let lowered ← PhysicalPlan.lower (LogicalPlan.accessed source t)
        (PhysicalPlan.aggregation? (PhysicalPlan.itemsOf columns (LogicalPlan.tables t)) groupBy)
      return .node (.project (PhysicalPlan.itemsOf columns (LogicalPlan.tables t))
        (1 < (LogicalPlan.tables t).length)) [lowered.1]) := by
  rw [PhysicalPlan.ofLogical]
  simp only [PlanTree.op, PlanTree.inputs, LogicalPlan.tables_single,
    PhysicalPlan.resultColumns_eq, Outcome.ok_bind]

/-- A checked query without aggregates and cuts has a result, whatever transformations the planner
applies: what it shows of the rows that it asks for.  These are the columns that it asks for unless
it takes all columns of a table with two of one name. -/
theorem execute_perm_answer (planner : Planner) (hcheck : q.check = .ok ())
    (hsettled : ∀ p ∈ q.predicate, p.Settled) (htables : q.ReadsFrom source) (htyped : q.Typed)
    (haggregates : q.aggregates = []) (hgroupBy : q.groupBy = []) (hskip : q.skip = none)
    (hlimit : q.limit = none) :
    ∃ r, planner.execute source q = .ok r ∧ r.rows.Perm (q.answer source q.shown) ∧
      (q.NamesApart → r.rows.Perm (q.answer source q.wanted)) := by
  have hchecked := checked_of_check hcheck
  have hfit := fitIn_predicate hchecked hsettled htyped
  rcases LogicalPlan.asks_ofSelect hchecked hlimit hskip with
    ⟨_, hplan, t, rfl, hformed, htablesOf, hguards⟩
  rcases LogicalPlan.applyAll_project q.columns q.groupBy hformed planner.transformations with
    ⟨t', hlogical, hstands⟩
  have htablesOf' : LogicalPlan.tables t' = q.tables := hstands.tables.trans htablesOf
  have hreadable : LogicalPlan.Readable source t' := by
    refine ⟨by rw [htablesOf']; exact htables.has, ?_, ?_⟩
    · rw [LogicalPlan.tableNames, htablesOf']
      exact hchecked.distinct
    · intro p' hp' test htest
      rcases hstands.tests p' hp' test htest with ⟨p, hp, htest⟩
      rw [hguards] at hp
      rw [htablesOf']
      exact hfit p hp test htest
  rcases (hstands.formed.computes hreadable (Predicate.fitIn_nil _)).alone with
    ⟨P, R, hlower, hevaluate, hanswers⟩
  rw [htablesOf'] at hanswers
  have hrows := rows_project_columns (hanswers.congr (hstands.allHold_guards hguards)) q.shown
    (1 < q.tables.length)
  have hphysical : planner.physical source q =
      .ok (.node (.project (q.shown.map .column) (1 < q.tables.length)) [P]) := by
    have hbound := checkBound_of_fitIn hfit
    have hstores := stores_ok fun t ht => (htables t ht).imp fun _ h => h.1
    have hlogical' : planner.logical q = .node (.project q.columns q.groupBy) [t'] := by
      rw [Planner.logical, hplan, hlogical]
    have hitems : PhysicalPlan.itemsOf q.columns q.tables = q.shown.map .column :=
      items_eq haggregates
    simp only [Planner.physical, hcheck, hbound, hlogical', ofLogical_project, htablesOf', hstores,
      Outcome.ok_bind, hitems, aggregation?_eq_none hgroupBy, LogicalPlan.accessed, hlower]
    rfl
  refine ⟨R.project (q.shown.map .column) (1 < q.tables.length), ?_, hrows, ?_⟩
  · simp [Planner.execute, hphysical, PhysicalPlan.run, PlanTree.op, PhysicalPlan.input,
      PlanTree.inputs, hevaluate]
  · intro hapart
    rw [← shown_eq_wanted hapart]
    exact hrows

/-!
## A query of two tables
-/

def twoItems : TableStore :=
  (TableStore.empty .items).after
    [.insert { id := 1, values := [.int64 7, .float64 ⟨0⟩] },
      .insert { id := 2, values := [.int64 8, .float64 ⟨0⟩] }]

def twoItemsSource : TableSource := fun name =>
  if name = "item" then some twoItems else none

def sameSize (given : Option Value) : Select where
  tables := [.items, Table.items.withAlias "other"]
  predicate := some (.combine .conjunction
    [.condition (.test
      { column := { table := "item", column := "number", position := 0, type := .int64 }
        comparison := .eq
        operands := [.placeholder 0 given] }),
     .condition (.join
      { left := { table := "other", column := "size", position := 1, type := .float64 }
        right := { table := "item", column := "size", position := 1, type := .float64 }
        comparison := .eq })])
  columns := [.column { table := "other", column := "number", position := 0, type := .int64 }]

theorem bind_sameSize : (sameSize none).bind [.int64 7] = .ok (sameSize (some (.int64 7))) := rfl

theorem readsFrom_twoItems (given : Option Value) :
    (sameSize given).ReadsFrom twoItemsSource := by
  have hwritten : twoItems.Written := ⟨.items, _, .built Table.built_items, rfl⟩
  intro t ht
  rcases List.mem_cons.mp ht with rfl | ht
  · exact ⟨twoItems, rfl, hwritten, Or.inl rfl⟩
  · rw [List.mem_singleton.mp ht]
    exact ⟨twoItems, rfl, hwritten, Or.inr ⟨"other", rfl⟩⟩

theorem typed_sameSize (given : Option Value) : (sameSize given).Typed := by
  have hall : ∀ c ∈ (sameSize none).mentioned, ∀ t ∈ (sameSize none).tables,
      c.table = t.effectiveName →
        (t.columns[c.position]?).all (fun column => column.type = c.type) = true := by
    decide
  intro c hc t ht hname column hcolumn
  simpa [hcolumn] using hall c hc t ht hname

/-- Both items are found, the given one among them, and all columns of both of them are shown. -/
theorem both_items_have_the_size :
    (∃ r, Planner.execute {} twoItemsSource (sameSize (some (.int64 7))) = .ok r ∧
      r.rows.Perm [[.int64 7], [.int64 8]]) ∧
    ∃ r, Planner.execute {} twoItemsSource { tables := [.items] } = .ok r ∧
      r.rows.Perm [[.int64 7, .float64 ⟨0⟩], [.int64 8, .float64 ⟨0⟩]] := by
  constructor
  · rcases execute_perm_answer {} rfl (settled_of_bind bind_sameSize) (readsFrom_twoItems _)
      (typed_sameSize _) rfl rfl rfl rfl with ⟨r, hr, hrows, _⟩
    exact ⟨r, hr, hrows⟩
  · have hreads : ({ tables := [.items] } : Select).ReadsFrom twoItemsSource := by
      intro t ht
      cases List.mem_singleton.mp ht
      exact readsFrom_twoItems none .items List.mem_cons_self
    have hapart : ({ tables := [.items] } : Select).NamesApart := by
      intro _ t ht
      cases List.mem_singleton.mp ht
      decide
    rcases execute_perm_answer (q := { tables := [.items] }) {} rfl nofun hreads nofun rfl rfl rfl
      rfl with ⟨r, hr, _, hrows⟩
    exact ⟨r, hr, hrows hapart⟩

/-- Of two columns of one name the first is shown twice. -/
example :
    let pairs : Table :=
      { name := "pair"
        columns := [{ name := "side", type := .int64 }, { name := "side", type := .int64 }] }
    let pair : TableStore :=
      (TableStore.empty pairs).after [.insert { id := 1, values := [.int64 1, .int64 2] }]
    Planner.execute {} (fun _ => some pair) { tables := [pairs] } =
      .ok { names := ["side", "side"], rows := [[.int64 1, .int64 1]] } := by
  cbv

end Select

end RelationalDb
