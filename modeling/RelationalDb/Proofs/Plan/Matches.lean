import Mathlib
import RelationalDb.Proofs.Plan.Answers

/-!
# The rows of one table that a plan finds

The plan of a query over one table finds the rows of which its predicate holds, each of them
once.  Nothing is asked of the operands: a scan between ends that are no keys of the index
fails, and any other scan finds the right rows.
-/

namespace RelationalDb

def Table.assignment (t : Table) (row : Row) : Assignment := fun c =>
  if t.effectiveName = c.table then row.values[c.position]? else none

/-- Does the predicate hold of a row of the table?  Without a predicate every row is selected. -/
def Table.selects (t : Table) (p : Option Predicate) (row : Row) : Bool :=
  p.all fun p => p.eval (t.assignment row)

theorem Table.assignment_entry (t : Table) (row : Row) :
    ({ rows := [row] } : Entry).assignment [t.effectiveName] = t.assignment row := by
  funext c
  unfold Entry.assignment rowAmong Table.assignment
  by_cases h : t.effectiveName = c.table <;> simp [h]

namespace LogicalPlan

variable {source : TableSource} {t : LogicalPlan} {selections : List Predicate} {u : Table}
  {s : TableStore} {op : LogicalOp} {ts : List LogicalPlan} {P : PhysicalPlan}

theorem Formed.tables_ne_nil (h : t.Formed) : t.tables ≠ [] := by
  induction h with
  | table t => simp
  | select ht hp ih => simpa using ih
  | @product ts hne hts ih =>
      rcases List.exists_mem_of_ne_nil ts hne with ⟨t, ht⟩
      rw [tables_node hne]
      intro hnil
      exact ih t ht (List.flatMap_eq_nil_iff.mp hnil t ht)
  | join hl hr hleft hright ihl ihr => simp [ihl]
  | orderBy ht ih => simpa using ih

/-- Under some selections the plan is lowered to one that computes, if it computes anything, what
the plan stands for, restricted by those of the selections that it answers. -/
def Finds (source : TableSource) (t : LogicalPlan) (selections : List Predicate) : Prop :=
  (∀ height ∈ (withAccess source selections t).2, height < selections.length) ∧
    ∃ P, PhysicalPlan.lower (withAccess source selections t).1 none = .ok (P, none) ∧
      ∀ R, PhysicalPlan.evaluate source P = .ok R →
        R.Answers source t.tables
          (allHold (t.guards ++ answered selections (withAccess source selections t).2))

theorem Finds.alone (h : t.Finds source []) :
    ∃ P, PhysicalPlan.lower (withAccess source [] t).1 none = .ok (P, none) ∧
      ∀ R, PhysicalPlan.evaluate source P = .ok R →
        R.Answers source t.tables (allHold t.guards) := by
  rcases h with ⟨_, P, hlower, hanswers⟩
  refine ⟨P, hlower, fun R hR => (hanswers R hR).congr ?_⟩
  apply allHold_congr
  simp [answered]

theorem finds_table (hs : source u.name = some s) (hsound : s.Sound) (hn : s.table.IndicesNamed)
    (hcolumns : s.table.columns = u.columns)
    (htyped : ∀ p ∈ selections, ∀ test, Condition.test test ∈ p.conditions →
      test.column.TypedIn [u]) :
    Finds source (.node (.table u) []) selections := by
  have hstore := TableSource.storeOf_eq_ok hs
  unfold Finds
  rw [withAccess_table hs]
  cases hpath : s.accessPath? u selections with
  | none =>
      refine ⟨List.forall_mem_nil _, .node (.tableScan u) [], rfl, fun R hR => ?_⟩
      rw [PhysicalPlan.evaluate, hstore] at hR
      cases hR
      exact answers_table hs
  | some path =>
      rcases hsound.path_eq_some hcolumns htyped hpath with ⟨test, c, hselection, _⟩
      refine ⟨?_, .node (.indexScan u path.index path.ranges) [], rfl, fun R hR => ?_⟩
      · simpa using (List.getElem?_eq_some_iff.mp hselection).1
      · rw [PhysicalPlan.evaluate, hstore, Outcome.ok_bind] at hR
        rcases Outcome.bind_eq_ok_iff.mp hR with ⟨rows, hscan, heq⟩
        cases heq
        rcases hsound.scan_path_perm hn hcolumns htyped hpath hscan with ⟨p, hp, hperm⟩
        exact answers_selected hs hp hperm

theorem finds_select {p : Predicate} (h : t.Finds source (p :: selections)) :
    Finds source (.node (.select p) [t]) selections := by
  rcases h with ⟨hheights, P, hlower, hanswers⟩
  rcases lower_select hheights hlower with ⟨hheights', P', f, hlower', hevaluate', hf⟩
  refine ⟨hheights', P', hlower', fun R' hR' => ?_⟩
  rw [hevaluate'] at hR'
  cases hR : PhysicalPlan.evaluate source P with
  | error e =>
      rw [hR] at hR'
      cases hR'
  | ok R =>
      rw [hR] at hR'
      cases hR'
      exact hf R (hanswers R hR)

theorem finds_node (haccess : withAccess source selections (.node op ts) =
      (.node (.asWritten op) (withAccessOf source [] ts).1, []))
    (hlower : PhysicalPlan.lower (.node (.asWritten op) (withAccessOf source [] ts).1) none =
      .ok (P, none))
    (hanswers : ∀ R, PhysicalPlan.evaluate source P = .ok R →
      R.Answers source (tables (.node op ts)) (allHold (guards (.node op ts)))) :
    Finds source (.node op ts) selections := by
  unfold Finds
  rw [haccess]
  refine ⟨nofun, P, hlower, fun R hR => (hanswers R hR).congr ?_⟩
  apply allHold_congr
  simp [answered]

theorem finds_product (h : t.Finds source []) :
    Finds source (.node .product [t]) selections := by
  rcases h.alone with ⟨P, hlower, hanswers⟩
  apply finds_node rfl (P := .node .product [P])
  · exact PhysicalPlan.lower_above rfl rfl (PhysicalPlan.lowerAll_singleton hlower) none
  · intro R hR
    rw [PhysicalPlan.evaluate] at hR
    rcases Outcome.bind_eq_ok_iff.mp hR with ⟨R', hR', heq⟩
    cases heq
    simpa [LogicalOp.guard?] using hanswers _ hR'

theorem finds_orderBy {order : SortOrder} (h : t.Finds source []) :
    Finds source (.node (.orderBy order) [t]) selections := by
  rcases h.alone with ⟨P, hlower, hanswers⟩
  apply finds_node rfl (P := .node (.orderBy order) [P])
  · exact PhysicalPlan.lower_past rfl rfl (PhysicalPlan.lowerAll_singleton hlower)
  · intro R hR
    rw [PhysicalPlan.evaluate] at hR
    rcases Outcome.bind_eq_ok_iff.mp hR with ⟨R', hR', heq⟩
    cases heq
    simpa [LogicalOp.guard?] using (hanswers R' hR').sort order

theorem Formed.finds (h : t.Formed) (hs : source u.name = some s) (hsound : s.Sound)
    (hn : s.table.IndicesNamed) (hcolumns : s.table.columns = u.columns) (htables : t.tables = [u])
    (htyped : ∀ p ∈ t.guards ++ selections, ∀ test, Condition.test test ∈ p.conditions →
      test.column.TypedIn [u]) :
    t.Finds source selections := by
  induction h generalizing selections with
  | table v =>
      cases htables
      exact finds_table hs hsound hn hcolumns fun p hp => htyped p (List.mem_append_right _ hp)
  | @select p t ht hp ih =>
      apply finds_select
      apply ih (by simpa using htables)
      intro q hq
      apply htyped q
      simp only [guards_node, LogicalOp.guard?, Option.toList_some, List.flatMap_singleton,
        List.mem_append, List.mem_cons, List.not_mem_nil, or_false] at hq ⊢
      tauto
  | @product ts hne hts ih =>
      cases ts with
      | nil => exact absurd rfl hne
      | cons t rest =>
          cases rest with
          | nil =>
              apply finds_product
              apply ih t List.mem_cons_self (by simpa using htables)
              intro q hq
              apply htyped q
              simpa [LogicalOp.guard?] using Or.inl (by simpa using hq)
          | cons t' rest =>
              -- A product of two plans reads two tables.
              rw [tables_node hne, List.flatMap_cons, List.flatMap_cons] at htables
              have hlength := congrArg List.length htables
              have hpos := List.length_pos_iff.mpr (hts t List.mem_cons_self).tables_ne_nil
              have hpos' := List.length_pos_iff.mpr
                (hts t' (List.mem_cons_of_mem _ List.mem_cons_self)).tables_ne_nil
              simp only [List.length_append, List.length_singleton] at hlength
              omega
  | @join j l r hl hr hleft hright ihl ihr =>
      have hlength := congrArg List.length htables
      have hpos := List.length_pos_iff.mpr hl.tables_ne_nil
      have hpos' := List.length_pos_iff.mpr hr.tables_ne_nil
      simp only [tables_pair, List.length_append, List.length_singleton] at hlength
      omega
  | @orderBy order t ht ih =>
      apply finds_orderBy
      apply ih (by simpa using htables)
      intro q hq
      apply htyped q
      simpa [LogicalOp.guard?] using Or.inl (by simpa using hq)

end LogicalPlan

namespace Planner

variable {source : TableSource} {t : Table} {p : Option Predicate} {s : TableStore}
  {rows : List Row}

theorem filterMap_head_perm {entries : List Entry} {keep : Entry → Bool} {f : Row → Bool}
    (hs : source t.name = some s)
    (hentries : entries.Perm ((source.entriesOver [t]).filter keep))
    (hkeep : ∀ row, keep { rows := [row] } = f row) :
    (entries.filterMap fun e => e.rows.head?).Perm (s.toList.filter f) := by
  have hrowsOf : source.rowsOf t = s.toList := by simp [TableSource.rowsOf, hs]
  rw [TableSource.entriesOver_singleton, List.filter_map, hrowsOf] at hentries
  refine (hentries.filterMap _).trans (List.Perm.of_eq ?_)
  rw [List.filterMap_map]
  change List.filterMap some _ = _
  rw [List.filterMap_some]
  exact List.filter_congr fun row _ => hkeep row

/-- The rows that a planner finds in a table are those that the predicate selects, each of them
once. -/
theorem matchingRows_perm (planner : Planner) (hs : source t.name = some s) (hsound : s.Sound)
    (hn : s.table.IndicesNamed) (hcolumns : s.table.columns = t.columns)
    (htyped : ∀ p' ∈ p, ∀ c ∈ p'.columns, c.TypedIn [t])
    (hrows : planner.matchingRows source t p = .ok rows) :
    rows.Perm (s.toList.filter (t.selects p)) := by
  let q : Select := { tables := [t], predicate := p }
  rcases Outcome.bind_eq_ok_iff.mp hrows with ⟨plan, hplan, hrows⟩
  rcases Outcome.bind_eq_ok_iff.mp hrows with ⟨R, hinput, heq⟩
  cases heq
  rcases Outcome.bind_eq_ok_iff.mp hplan with ⟨_, hcheck, hplan⟩
  rcases Outcome.bind_eq_ok_iff.mp hplan with ⟨_, _, hplan⟩
  rcases LogicalPlan.asks_ofSelect (Select.checked_of_check hcheck) rfl rfl with
    ⟨_, hselect, t₀, rfl, hformed, htables, hguards⟩
  rcases LogicalPlan.applyAll_project q.columns q.groupBy hformed planner.transformations with
    ⟨t', hlogical, hstands⟩
  have htables' : LogicalPlan.tables t' = [t] := hstands.tables.trans htables
  have hfinds : LogicalPlan.Finds source t' [] := by
    apply hstands.formed.finds hs hsound hn hcolumns htables'
    intro p' hp' test htest
    rw [List.append_nil] at hp'
    rcases hstands.tests p' hp' test htest with ⟨p₀, hp₀, htest₀⟩
    rw [hguards] at hp₀
    have hcolumn : test.column ∈ p₀.columns :=
      Predicate.mem_columns_iff.mpr ⟨_, htest₀, List.mem_cons_self⟩
    exact htyped p₀ (by simpa using hp₀) test.column hcolumn
  rcases hfinds.alone with ⟨P, hlower, hanswers⟩
  have hplan' : plan = .node (.project (PhysicalPlan.itemsOf [] [t]) false) [P] := by
    have hnone : PhysicalPlan.aggregation? (PhysicalPlan.itemsOf [] [t]) [] = none :=
      (congrArg (PhysicalPlan.aggregation? · []) (Select.items_eq (q := q) rfl)).trans
        (Select.aggregation?_eq_none (q := q) rfl)
    rw [logical, hselect, hlogical, Select.ofLogical_project, htables'] at hplan
    rcases Outcome.bind_eq_ok_iff.mp hplan with ⟨_, _, hplan⟩
    rw [hnone, LogicalPlan.accessed, hlower] at hplan
    cases hplan
    rfl
  rw [hplan'] at hinput
  have hR := hanswers R hinput
  have hselects : ∀ row, LogicalPlan.allHold (LogicalPlan.guards t') (t.assignment row) =
      t.selects p row :=
    fun row => hstands.allHold_guards hguards (t.assignment row)
  rw [htables'] at hR
  apply filterMap_head_perm hs hR.entries
  intro row
  rw [← hselects row, ← Table.assignment_entry]
  rfl

end Planner

end RelationalDb
