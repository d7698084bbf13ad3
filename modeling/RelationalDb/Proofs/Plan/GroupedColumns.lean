import Mathlib
import RelationalDb.Proofs.Plan.Lowering
import RelationalDb.Proofs.Relation.Summaries

/-!
# Columns of groups

A query with groups or aggregates may show a column only if it is one of the grouping columns,
whose values are equal in all entries of a group.  The check looks at the columns that are written;
no columns at all stand for every column, grouped or not.
-/

namespace RelationalDb

namespace Select

variable {q : Select} {source : TableSource} {c : ColumnRef}

def GroupsBy (q : Select) (c : ColumnRef) : Prop :=
  q.groupBy.any (·.sameColumn c) = true

instance (q : Select) (c : ColumnRef) : Decidable (q.GroupsBy c) :=
  inferInstanceAs (Decidable (_ = true))

/-- Every column that the query shows is one of the grouping columns. -/
def ShowsGroups (q : Select) : Prop :=
  ∀ c, Expression.column c ∈ q.items → q.GroupsBy c

/-!
## What the check looks at
-/

theorem checkColumns_of_check (h : q.check = .ok ()) : q.checkColumns = .ok () := by
  unfold check at h
  cases hempty : q.tables.isEmpty with
  | true => simp [hempty] at h
  | false =>
      simp only [hempty, Bool.false_eq_true, if_false] at h
      rcases Outcome.bind_eq_ok_iff.mp h with ⟨_, _, h⟩
      rcases Outcome.bind_eq_ok_iff.mp h with ⟨_, _, h⟩
      cases hp : q.predicate with
      | none => simpa [hp] using h
      | some p =>
          simp only [hp] at h
          rcases Outcome.bind_eq_ok_iff.mp h with ⟨_, _, hcolumns⟩
          exact hcolumns

theorem groupsBy_of_checkPlain (h : q.checkPlain (.column c) = .ok ()) : q.GroupsBy c := by
  by_contra hgroups
  have hnone : ¬ q.groupBy.any (·.sameColumn c) = true := hgroups
  rw [checkPlain, if_neg hnone] at h
  cases hempty : q.groupBy.isEmpty with
  | true => simp [hempty] at h
  | false => simp [hempty] at h

theorem groupsBy_of_written (hcheck : q.check = .ok ()) (haggregates : q.hasAggregates = true)
    (hc : Expression.column c ∈ q.columns) : q.GroupsBy c := by
  have hcolumns := checkColumns_eq_ok_iff.mp (checkColumns_of_check hcheck)
  exact groupsBy_of_checkPlain (hcolumns.2.2 haggregates _ hc)

theorem items_of_written (h : q.columns ≠ []) : q.items = q.columns := by
  have hempty : ¬ q.columns.isEmpty = true := by simpa using h
  rw [items, PhysicalPlan.itemsOf, if_neg hempty]

theorem column_mem_items_of_empty (h : q.columns = []) :
    Expression.column c ∈ q.items ↔ ∃ t ∈ q.tables, c ∈ t.namedColumns := by
  rw [items, PhysicalPlan.itemsOf, h]
  simp

theorem showsGroups_iff (hcheck : q.check = .ok ()) (haggregates : q.hasAggregates = true) :
    q.ShowsGroups ↔ q.columns ≠ [] ∨ ∀ t ∈ q.tables, ∀ c ∈ t.namedColumns, q.GroupsBy c := by
  by_cases hempty : q.columns = []
  · constructor
    · intro h
      apply Or.inr
      intro t ht c hc
      exact h c ((column_mem_items_of_empty hempty).mpr ⟨t, ht, hc⟩)
    · intro h c hc
      rcases (column_mem_items_of_empty hempty).mp hc with ⟨t, ht, hc⟩
      exact h.resolve_left (not_not_intro hempty) t ht c hc
  · constructor
    · intro _
      exact Or.inl hempty
    · intro _ c hc
      rw [items_of_written hempty] at hc
      exact groupsBy_of_written hcheck haggregates hc

/-!
## The values of a group
-/

theorem valueOrNull_congr {g : ColumnRef} (h : g.sameColumn c = true) (r : Relation) (e : Entry) :
    r.valueOrNull e g = r.valueOrNull e c := by
  rw [ColumnRef.sameColumn, Bool.and_eq_true, beq_iff_eq, beq_iff_eq] at h
  unfold Relation.valueOrNull Relation.value? Entry.assignment
  rw [h.1, h.2]

theorem beq_of_mem_groupBy {r : Relation} {e e' : Entry} {groupBy : List ColumnRef}
    {g : ColumnRef} (hg : g ∈ groupBy)
    (hkeys : (r.groupKey groupBy e == r.groupKey groupBy e') = true) :
    (r.valueOrNull e g == r.valueOrNull e' g) = true := by
  unfold Relation.groupKey at hkeys
  induction groupBy with
  | nil => cases hg
  | cons g' rest ih =>
      rw [List.map_cons, List.map_cons, List.cons_beq_cons, Bool.and_eq_true] at hkeys
      rcases List.mem_cons.mp hg with rfl | hg
      · exact hkeys.1
      · exact ih hg hkeys.2

theorem GroupsBy.beq {r : Relation} {e e' : Entry} (h : q.GroupsBy c)
    (hkeys : (r.groupKey q.groupBy e == r.groupKey q.groupBy e') = true) :
    (r.valueOrNull e c == r.valueOrNull e' c) = true := by
  rcases List.any_eq_true.mp h with ⟨g, hg, hsame⟩
  rw [← valueOrNull_congr hsame, ← valueOrNull_congr hsame]
  exact beq_of_mem_groupBy hg hkeys

theorem expressionValues_beq {r : Relation} {e e' : Entry} {es : List Expression}
    (h : ∀ c, Expression.column c ∈ es → q.GroupsBy c)
    (hkeys : (r.groupKey q.groupBy e == r.groupKey q.groupBy e') = true) (values : List Value) :
    (r.expressionValues e es values == r.expressionValues e' es values) = true := by
  fun_induction Relation.expressionValues r e es values with
  | case1 values => rfl
  | case2 c rest values ih =>
      rw [Relation.expressionValues, List.cons_beq_cons, Bool.and_eq_true]
      constructor
      · exact (h c List.mem_cons_self).beq hkeys
      · exact ih fun c' hc' => h c' (List.mem_cons_of_mem _ hc')
  | case3 a rest ih =>
      rw [Relation.expressionValues, List.cons_beq_cons, Bool.and_eq_true]
      constructor
      · exact Value.beq_self _
      · exact ih fun c' hc' => h c' (List.mem_cons_of_mem _ hc')
  | case4 a rest v values ih =>
      rw [Relation.expressionValues, List.cons_beq_cons, Bool.and_eq_true]
      constructor
      · exact Value.beq_self _
      · exact ih fun c' hc' => h c' (List.mem_cons_of_mem _ hc')

/-- Over stores of its tables a checked query with groups or aggregates has a plan that shows its
items.  The columns among them are grouping columns if and only if columns are written or all
columns of its tables are grouping columns, and then a row does not depend on the entry that stands
for its group. -/
theorem written_columns_are_grouped (planner : Planner) (hcheck : q.check = .ok ())
    (haggregates : q.hasAggregates = true)
    (hsource : ∀ t ∈ q.tables, ∃ s, source t.name = some s) :
    (∃ P, PhysicalPlan.ofLogical source (planner.logical q) =
        .ok (.node (.project q.items (1 < q.tables.length)) [P])) ∧
      (q.ShowsGroups ↔ q.columns ≠ [] ∨ ∀ t ∈ q.tables, ∀ c ∈ t.namedColumns, q.GroupsBy c) ∧
      (q.ShowsGroups → ∀ (r : Relation) (e e' : Entry),
        (r.groupKey q.groupBy e == r.groupKey q.groupBy e') = true → e.aggregates = e'.aggregates →
          (r.expressionValues e q.items e.aggregates ==
            r.expressionValues e' q.items e'.aggregates) = true) := by
  constructor
  · -- How the tables are read does not matter here.
    rcases @exists_physical q source (fun _ _ _ _ => True) planner hcheck hsource
      (fun _ _ _ _ => trivial) with ⟨_, P, _, hphysical, _⟩
    exact ⟨P, hphysical⟩
  constructor
  · exact showsGroups_iff hcheck haggregates
  · intro hshows r e e' hkeys hvalues
    rw [← hvalues]
    exact expressionValues_beq hshows hkeys e.aggregates

theorem sizes_stand_for_their_items :
    let q := { sizesCounted with tables := [.items] }
    let seven : Entry :=
      { rows := [{ id := 1, values := [.int64 7, .float64 ⟨0⟩] }]
        aggregates := [.int64 2, .int64 7] }
    let eight : Entry :=
      { rows := [{ id := 2, values := [.int64 8, .float64 ⟨0⟩] }]
        aggregates := [.int64 2, .int64 7] }
    let r : Relation := { tables := ["item"], entries := [seven, eight] }
    q.check = .ok () ∧ q.hasAggregates = true ∧
      (∀ t ∈ q.tables, ∃ s, twoItemsSource t.name = some s) ∧
      (∃ P, PhysicalPlan.ofLogical twoItemsSource (Planner.logical {} q) =
        .ok (.node (.project q.items false) [P])) ∧
      q.ShowsGroups ∧
      (r.groupKey q.groupBy seven == r.groupKey q.groupBy eight) = true ∧
      (r.expressionValues seven q.items seven.aggregates ==
        r.expressionValues eight q.items eight.aggregates) = true := by
  intro q seven eight r
  have hsource : ∀ t ∈ q.tables, ∃ s, twoItemsSource t.name = some s := by
    intro t ht
    cases List.mem_singleton.mp ht
    exact ⟨twoItems, rfl⟩
  have hkeys : (r.groupKey q.groupBy seven == r.groupKey q.groupBy eight) = true := by decide
  have h := written_columns_are_grouped (q := q) {} rfl rfl hsource
  have hshows : q.ShowsGroups := h.2.1.mpr (Or.inl (List.cons_ne_nil _ _))
  exact ⟨rfl, rfl, hsource, h.1, hshows, hkeys, h.2.2 hshows r seven eight hkeys rfl⟩

def itemsOfSizes : Select where
  tables := [.items]
  groupBy := [{ table := "item", column := "size", position := 1, type := .float64 }]

/-- Without written columns the numbers are shown, although they are not grouped.  Which one depends
on the order of the items. -/
theorem number_of_the_first_item_is_shown :
    let number : ColumnRef := { table := "item", column := "number", position := 0, type := .int64 }
    let swapped : TableStore := (TableStore.empty .items).after
      [.insert { id := 1, values := [.int64 8, .float64 ⟨0⟩] },
        .insert { id := 2, values := [.int64 7, .float64 ⟨0⟩] }]
    itemsOfSizes.check = .ok () ∧ itemsOfSizes.hasAggregates = true ∧
      (∀ t ∈ itemsOfSizes.tables, ∃ s, twoItemsSource t.name = some s) ∧
      (∃ P, PhysicalPlan.ofLogical twoItemsSource (Planner.logical {} itemsOfSizes) =
        .ok (.node (.project itemsOfSizes.items false) [P])) ∧
      .column number ∈ itemsOfSizes.items ∧ ¬ itemsOfSizes.GroupsBy number ∧
      Planner.execute {} twoItemsSource itemsOfSizes =
        .ok { names := ["number", "size"], rows := [[.int64 7, .float64 ⟨0⟩]] } ∧
      Planner.execute {} (fun _ => some swapped) itemsOfSizes =
        .ok { names := ["number", "size"], rows := [[.int64 8, .float64 ⟨0⟩]] } := by
  intro number swapped
  constructor
  · rfl
  constructor
  · rfl
  constructor
  · intro t ht
    cases List.mem_singleton.mp ht
    exact ⟨twoItems, rfl⟩
  constructor
  · exact ⟨_, rfl⟩
  constructor
  · decide
  constructor
  · decide
  constructor
  · cbv
  · cbv

end Select

end RelationalDb
