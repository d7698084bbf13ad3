import Mathlib
import RelationalDb.Proofs.Relation.Aggregates

/-!
# Entries that sum up groups

Above an aggregation every entry sums up one group of the entries below it.  Which entries there
are, up to equal values, does not depend on the order of the entries below, as far as the counts,
the least and the greatest values and the groups themselves are concerned.
-/

namespace RelationalDb

/-!
## Aggregates that pass the check
-/

namespace Select

variable {q : Select} {a : Aggregate}

theorem checkAggregate_eq_ok_iff : checkAggregate a = .ok () ↔
    (a.column = none → a.function = .count) ∧
      ∀ c ∈ a.column, a.function.isNumeric = true → c.type.isNumeric = true := by
  unfold checkAggregate
  cases a.column with
  | none => simp
  | some c => simp

theorem checkColumns_eq_ok_iff : q.checkColumns = .ok () ↔
    (∀ a ∈ q.aggregates, a.function = .distinct → q.columns.length ≤ 1 ∧ q.groupBy = []) ∧
      (∀ a ∈ q.aggregates, checkAggregate a = .ok ()) ∧
      (q.hasAggregates = true → ∀ e ∈ q.columns, q.checkPlain e = .ok ()) := by
  let mixed := (q.aggregates.any fun a => a.function == .distinct) &&
    (1 < q.columns.length || !q.groupBy.isEmpty)
  have hmixed : mixed = false ↔
      ∀ a ∈ q.aggregates, a.function = .distinct → q.columns.length ≤ 1 ∧ q.groupBy = [] := by
    by_cases hsingle : q.columns.length ≤ 1 ∧ q.groupBy = []
    · simp [mixed, hsingle]
    · have hmany : (1 < q.columns.length || !q.groupBy.isEmpty) = true := by
        rw [not_and_or, not_le] at hsingle
        simpa using hsingle
      simp [mixed, hmany, hsingle]
  rw [← hmixed, ← Outcome.forM_eq_ok_iff]
  show (if mixed = true then _ else _) = _ ↔ _
  cases mixed with
  | true =>
      constructor
      · intro h
        cases h
      · intro h
        cases h.1
  | false =>
      rw [if_neg Bool.false_ne_true]
      constructor
      · intro h
        rcases Outcome.bind_eq_ok_iff.mp h with ⟨_, haggregates, hplain⟩
        constructor
        · rfl
        constructor
        · exact haggregates
        · intro hhas
          rwa [if_pos hhas, Outcome.forM_eq_ok_iff] at hplain
      · intro h
        apply Outcome.bind_eq_ok_iff.mpr
        exists ()
        constructor
        · exact h.2.1
        · split
          next hhas => exact Outcome.forM_eq_ok_iff.mpr (h.2.2 hhas)
          next => rfl

end Select

/-!
## The values of an aggregate
-/

namespace Relation

variable {r : Relation} {group group' : List Entry} {a : Aggregate} {c : ColumnRef}

def presentValues (r : Relation) (c : ColumnRef) (group : List Entry) : List Value :=
  (group.map fun e => r.valueOrNull e c).filter fun v => !v.isNull

/-- What an aggregate says of a group: without a column it counts the entries, otherwise it is
what its function says of the values of its column, looking at each value once if it is asked to. -/
inductive Gives (r : Relation) (group : List Entry) (a : Aggregate) : Value → Prop
  | entries : a.column = none → a.function = .count →
      Gives r group a (.int64 (.ofNat group.length))
  | values {c : ColumnRef} {values : List Value} {v : Value} : a.column = some c →
      values = (if a.distinct then (r.presentValues c group).eraseDups
        else r.presentValues c group) →
      a.function.Gives c.type values v → Gives r group a v

def Conforms (r : Relation) (c : ColumnRef) : Prop :=
  ∀ e ∈ r.entries, (r.valueOrNull e c).conformsTo c.type = true

theorem valuesOf_eq (r : Relation) (c : ColumnRef) (group : List Entry) :
    r.valuesOf c group = r.presentValues c group := by
  unfold valuesOf presentValues
  induction group with
  | nil => rfl
  | cons e rest ih =>
      rw [List.filterMap_cons, List.map_cons, List.filter_cons, valueOrNull, ← ih]
      cases r.value? e c with
      | none => rfl
      | some v => rw [List.filter_cons, Option.getD_some]

theorem Conforms.type?_eq (h : r.Conforms c) (hgroup : ∀ e ∈ group, e ∈ r.entries) {v : Value}
    (hv : v ∈ r.presentValues c group) : v.type? = some c.type := by
  rcases List.mem_filter.mp hv with ⟨hmem, hnull⟩
  rcases List.mem_map.mp hmem with ⟨e, he, rfl⟩
  have hconforms := h e (hgroup e he)
  unfold Value.conformsTo at hconforms
  cases htype : (r.valueOrNull e c).type? with
  | none =>
      rw [Value.isNull_iff.mpr htype] at hnull
      cases hnull
  | some t =>
      rw [htype] at hconforms
      rw [beq_iff_eq.mp hconforms]

theorem Conforms.type?_eq_of_distinct (h : r.Conforms c) (hgroup : ∀ e ∈ group, e ∈ r.entries)
    {distinct : Bool} {v : Value}
    (hv : v ∈ if distinct then (r.presentValues c group).eraseDups else r.presentValues c group) :
    v.type? = some c.type := by
  cases distinct with
  | true => exact h.type?_eq hgroup (mem_of_mem_eraseDups hv)
  | false => exact h.type?_eq hgroup hv

theorem gives_aggregateValue (hcheck : Select.checkAggregate a = .ok ())
    (hfunction : a.function ≠ .distinct) (hconforms : ∀ c ∈ a.column, r.Conforms c)
    (hgroup : ∀ e ∈ group, e ∈ r.entries) : r.Gives group a (r.aggregateValue group a) := by
  rw [Select.checkAggregate_eq_ok_iff] at hcheck
  unfold aggregateValue
  cases hcolumn : a.column with
  | none => exact .entries hcolumn (hcheck.1 hcolumn)
  | some c =>
      dsimp only
      rw [valuesOf_eq, firstOfEach_id, without_nil]
      apply Gives.values hcolumn rfl
      apply AggregateFunction.gives_apply hfunction (hcheck.2 c hcolumn)
      intro v hv
      exact (hconforms c hcolumn).type?_eq_of_distinct hgroup hv

theorem Gives.beq {v v' : Value} (horder : a.function.ignoresOrder = true)
    (hconforms : ∀ c ∈ a.column, r.Conforms c) (hgroup : ∀ e ∈ group, e ∈ r.entries)
    (hperm : group.Perm group') (hv : r.Gives group a v) (hv' : r.Gives group' a v') :
    (v == v') = true := by
  cases hv with
  | entries hnone _ =>
      cases hv' with
      | entries =>
          rw [hperm.length_eq]
          exact Value.beq_self _
      | values hcolumn =>
          rw [hnone] at hcolumn
          cases hcolumn
  | @values c values _ hcolumn hvalues hgives =>
      cases hv' with
      | entries hnone _ =>
          rw [hnone] at hcolumn
          cases hcolumn
      | @values c' values' _ hcolumn' hvalues' hgives' =>
          rw [hcolumn] at hcolumn'
          cases hcolumn'
          subst hvalues hvalues'
          have hpresent : (r.presentValues c group).Perm (r.presentValues c group') :=
            (hperm.map _).filter _
          apply AggregateFunction.Gives.beq horder _ _ _ hgives hgives'
          · cases a.distinct with
            | true => exact .eraseDups_of_perm hpresent
            | false => exact .of_perm hpresent
          · intro w hw
            exact (hconforms c hcolumn).type?_eq_of_distinct hgroup hw
          · intro w hw
            have hgroup' : ∀ e ∈ group', e ∈ r.entries :=
              fun e he => hgroup e (hperm.mem_iff.mpr he)
            exact (hconforms c hcolumn).type?_eq_of_distinct hgroup' hw

/-!
## One entry for each group
-/

/-- The entry has the rows of the first one of the group, or none if the group is empty, and what
the aggregates say of the group. -/
structure SumsUp (r : Relation) (aggregates : List Aggregate) (group : List Entry) (e : Entry) :
    Prop where
  rows : e.rows = (group.head?.getD {}).rows
  aggregates : List.Forall₂ (r.Gives group) aggregates e.aggregates

/-- An entry for a group whose entries have one value of a column: the rows of the first one and
that value. -/
def distinctEntry (r : Relation) (c : ColumnRef) (group : List Entry) : Entry :=
  { rows := (group.head?.getD {}).rows
    aggregates := [r.valueOrNull (group.head?.getD {}) c] }

/-- The entries have equal values in the grouping columns and equal values of the aggregates that
do not depend on an order. -/
structure SameSummary (r : Relation) (groupBy : List ColumnRef) (aggregates : List Aggregate)
    (e e' : Entry) : Prop where
  keys : (r.groupKey groupBy e == r.groupKey groupBy e') = true
  values : ∀ (i : Nat) (a : Aggregate), aggregates[i]? = some a →
    a.function.ignoresOrder = true ∨ a.function = .distinct →
      ∃ v v', e.aggregates[i]? = some v ∧ e'.aggregates[i]? = some v' ∧ (v == v') = true

theorem exists_getElem?_of_forall₂ {α β : Type} {R : α → β → Prop} {l : List α} {m : List β}
    (h : List.Forall₂ R l m) {i : Nat} {a : α} (hi : l[i]? = some a) :
    ∃ b, m[i]? = some b ∧ R a b := by
  induction h generalizing i with
  | nil => cases hi
  | cons hR _ ih =>
      cases i with
      | zero =>
          cases hi
          exact ⟨_, rfl, hR⟩
      | succ n => exact ih hi

theorem groupKey_congr {e e' : Entry} (groupBy : List ColumnRef) (h : e.rows = e'.rows) :
    r.groupKey groupBy e = r.groupKey groupBy e' := by
  unfold groupKey valueOrNull value? Entry.assignment
  rw [h]

theorem SumsUp.sameSummary {groupBy : List ColumnRef} {aggregates : List Aggregate}
    {e e' : Entry} (h : r.SumsUp aggregates group e) (h' : r.SumsUp aggregates group' e')
    (hperm : group.Perm group') (hgroup : ∀ e ∈ group, e ∈ r.entries)
    (hkeys : ∀ e ∈ group, ∀ e' ∈ group, (r.groupKey groupBy e == r.groupKey groupBy e') = true)
    (hconforms : ∀ a ∈ aggregates, ∀ c ∈ a.column, r.Conforms c)
    (hdistinct : ∀ a ∈ aggregates, a.function ≠ .distinct) :
    r.SameSummary groupBy aggregates e e' where
  keys := by
    rw [groupKey_congr groupBy h.rows, groupKey_congr groupBy h'.rows]
    cases group with
    | nil =>
        rw [List.nil_perm.mp hperm]
        exact BEq.rfl
    | cons first rest =>
        cases group' with
        | nil => exact absurd (List.perm_nil.mp hperm) (List.cons_ne_nil _ _)
        | cons first' rest' =>
            apply hkeys first List.mem_cons_self first'
            exact hperm.mem_iff.mpr List.mem_cons_self
  values := by
    intro i a hi horder
    have ha := List.mem_of_getElem? hi
    rcases exists_getElem?_of_forall₂ h.aggregates hi with ⟨v, hv, hgives⟩
    rcases exists_getElem?_of_forall₂ h'.aggregates hi with ⟨v', hv', hgives'⟩
    have horder := horder.resolve_right (hdistinct a ha)
    exact ⟨v, v', hv, hv', hgives.beq horder (hconforms a ha) hgroup hperm hgives'⟩

end Relation

namespace Select

variable {q : Select} {r : Relation} {a : Aggregate}

theorem eq_of_distinct (hcheck : q.checkColumns = .ok ()) (ha : a ∈ q.aggregates)
    (hdistinct : a.function = .distinct) :
    q.groupBy = [] ∧ q.aggregates = [a] ∧ ∃ c, a.column = some c := by
  rw [checkColumns_eq_ok_iff] at hcheck
  rcases hcheck.1 a ha hdistinct with ⟨hsingle, hgroupBy⟩
  have hlength : q.aggregates.length ≤ 1 := (List.length_filterMap_le _ _).trans hsingle
  constructor
  · exact hgroupBy
  constructor
  · cases haggregates : q.aggregates with
    | nil =>
        rw [haggregates] at ha
        cases ha
    | cons b rest =>
        rw [haggregates] at ha hlength
        have hrest : rest = [] := List.length_eq_zero_iff.mp (by simpa using hlength)
        subst hrest
        rw [List.mem_singleton.mp ha]
  · have hcolumn := checkAggregate_eq_ok_iff.mp (hcheck.2.1 a ha)
    cases ha : a.column with
    | none =>
        have hcount := hcolumn.1 ha
        rw [hdistinct] at hcount
        cases hcount
    | some c => exact ⟨c, rfl⟩

theorem loneDistinct?_eq_none (h : ∀ a ∈ q.aggregates, a.function ≠ .distinct) :
    Relation.loneDistinct? q.groupBy q.aggregates = none := by
  unfold Relation.loneDistinct?
  split
  next b _ haggregates =>
    exact if_neg (h b (by rw [haggregates]; exact List.mem_singleton_self b))
  next => rfl

/-!
## The aggregation
-/

theorem entries_aggregate_of_groupBy (hgroupBy : q.groupBy ≠ [])
    (hdistinct : ∀ a ∈ q.aggregates, a.function ≠ .distinct) :
    (r.aggregate q.groupBy q.aggregates).entries =
      (groupsOf (r.groupKey q.groupBy) r.entries).map (r.summarize q.aggregates) := by
  unfold Relation.aggregate
  rw [loneDistinct?_eq_none hdistinct]
  dsimp only
  rw [if_neg (by simpa using hgroupBy), ← map_snd_groupsBy, List.map_map]
  rfl

theorem entries_aggregate_of_empty (hgroupBy : q.groupBy = [])
    (hdistinct : ∀ a ∈ q.aggregates, a.function ≠ .distinct) :
    (r.aggregate q.groupBy q.aggregates).entries = [r.summarize q.aggregates r.entries] := by
  unfold Relation.aggregate
  rw [loneDistinct?_eq_none hdistinct, hgroupBy]
  rfl

theorem entries_aggregate_of_distinct {c : ColumnRef} (hgroupBy : q.groupBy = [])
    (haggregates : q.aggregates = [a]) (hdistinct : a.function = .distinct)
    (hcolumn : a.column = some c) :
    (r.aggregate q.groupBy q.aggregates).entries =
      (groupsOf (fun e => r.valueOrNull e c) r.entries).map (r.distinctEntry c) := by
  have hlone : Relation.loneDistinct? q.groupBy q.aggregates = some c := by
    rw [hgroupBy, haggregates, ← hcolumn]
    exact if_pos hdistinct
  have hfirst := forall₂_firstOfEach (fun e => r.valueOrNull e c) [] r.entries
  rw [without_nil] at hfirst
  unfold Relation.aggregate
  rw [hlone]
  show (firstOfEach _ [] r.entries).map _ = _
  rw [← List.forall₂_eq_eq_eq, List.forall₂_map_left_iff, List.forall₂_map_right_iff]
  apply hfirst.flip.imp
  intro e group hhead
  rw [Relation.distinctEntry, hhead]
  rfl

theorem sumsUp_summarize {group : List Entry} (hcheck : q.checkColumns = .ok ())
    (hdistinct : ∀ a ∈ q.aggregates, a.function ≠ .distinct)
    (hconforms : ∀ a ∈ q.aggregates, ∀ c ∈ a.column, r.Conforms c)
    (hgroup : ∀ e ∈ group, e ∈ r.entries) :
    r.SumsUp q.aggregates group (r.summarize q.aggregates group) where
  rows := rfl
  aggregates := by
    have hchecked := (checkColumns_eq_ok_iff.mp hcheck).2.1
    show List.Forall₂ _ q.aggregates (q.aggregates.map (r.aggregateValue group))
    rw [List.forall₂_map_right_iff, List.forall₂_same]
    intro a ha
    exact Relation.gives_aggregateValue (hchecked a ha) (hdistinct a ha) (hconforms a ha) hgroup

theorem sameSummary_summarize {group group' : List Entry} (hcheck : q.checkColumns = .ok ())
    (hdistinct : ∀ a ∈ q.aggregates, a.function ≠ .distinct)
    (hconforms : ∀ a ∈ q.aggregates, ∀ c ∈ a.column, r.Conforms c)
    (hperm : group.Perm group') (hgroup : ∀ e ∈ group, e ∈ r.entries)
    (hkeys : ∀ e ∈ group, ∀ e' ∈ group,
      (r.groupKey q.groupBy e == r.groupKey q.groupBy e') = true) :
    r.SameSummary q.groupBy q.aggregates (r.summarize q.aggregates group)
      (r.summarize q.aggregates group') := by
  have hgroup' : ∀ e ∈ group', e ∈ r.entries := fun e he => hgroup e (hperm.mem_iff.mpr he)
  have hsumsUp := sumsUp_summarize hcheck hdistinct hconforms hgroup
  have hsumsUp' := sumsUp_summarize hcheck hdistinct hconforms hgroup'
  exact hsumsUp.sameSummary hsumsUp' hperm hgroup hkeys hconforms hdistinct

theorem rel_aggregate_of_distinct {entries : List Entry} {c : ColumnRef}
    (hgroupBy : q.groupBy = []) (haggregates : q.aggregates = [a])
    (hdistinct : a.function = .distinct) (hcolumn : a.column = some c)
    (hperm : r.entries.Perm entries) :
    Multiset.Rel (r.SameSummary q.groupBy q.aggregates)
      (r.aggregate q.groupBy q.aggregates).entries
      ({ r with entries := entries }.aggregate q.groupBy q.aggregates).entries := by
  rw [entries_aggregate_of_distinct hgroupBy haggregates hdistinct hcolumn,
    entries_aggregate_of_distinct hgroupBy haggregates hdistinct hcolumn]
  apply rel_map_groupsOf hperm
  intro group hgroup group' hperm'
  rcases exists_of_mem_groupsOf hgroup with ⟨first, rest, rfl, hmem⟩
  cases group' with
  | nil => exact absurd (List.perm_nil.mp hperm') (List.cons_ne_nil _ _)
  | cons first' rest' =>
      constructor
      · rw [hgroupBy]
        rfl
      · intro i b hb _
        rw [haggregates] at hb
        cases i with
        | succ n => cases hb
        | zero =>
            have hsame := hmem first' (hperm'.mem_iff.mpr List.mem_cons_self)
            exact ⟨_, _, rfl, rfl, BEq.symm hsame.2⟩

theorem rel_aggregate_of_perm {entries : List Entry} (hcheck : q.checkColumns = .ok ())
    (hconforms : ∀ a ∈ q.aggregates, ∀ c ∈ a.column, r.Conforms c)
    (hperm : r.entries.Perm entries) :
    Multiset.Rel (r.SameSummary q.groupBy q.aggregates)
      (r.aggregate q.groupBy q.aggregates).entries
      ({ r with entries := entries }.aggregate q.groupBy q.aggregates).entries := by
  by_cases hlone : ∃ a ∈ q.aggregates, a.function = .distinct
  · rcases hlone with ⟨a, ha, hdistinct⟩
    rcases eq_of_distinct hcheck ha hdistinct with ⟨hgroupBy, haggregates, c, hcolumn⟩
    exact rel_aggregate_of_distinct hgroupBy haggregates hdistinct hcolumn hperm
  · have hdistinct : ∀ a ∈ q.aggregates, a.function ≠ .distinct :=
      fun a ha ha' => hlone ⟨a, ha, ha'⟩
    by_cases hgroupBy : q.groupBy = []
    · rw [entries_aggregate_of_empty hgroupBy hdistinct,
        entries_aggregate_of_empty hgroupBy hdistinct]
      apply rel_of_forall₂
      apply List.Forall₂.cons _ List.Forall₂.nil
      apply sameSummary_summarize hcheck hdistinct hconforms hperm fun e he => he
      intro e _ e' _
      rw [hgroupBy]
      rfl
    · rw [entries_aggregate_of_groupBy hgroupBy hdistinct,
        entries_aggregate_of_groupBy hgroupBy hdistinct]
      apply rel_map_groupsOf hperm
      intro group hgroup group' hperm'
      rcases exists_of_mem_groupsOf hgroup with ⟨_, _, _, hmem⟩
      apply sameSummary_summarize hcheck hdistinct hconforms hperm'
      · exact fun e he => (hmem e he).1
      · exact fun e he e' he' => BEq.trans (hmem e he).2 (BEq.symm (hmem e' he').2)

/-- An aggregation makes one entry for each group, which sums it up: with grouping columns for
each list of their values, without any for all entries together, and for distinct values alone
for each value.  For another order of the entries below it makes the same entries, as far as
their groups, counts, least, greatest and distinct values are concerned. -/
theorem groups_are_summed_up (hcheck : q.checkColumns = .ok ())
    (hconforms : ∀ a ∈ q.aggregates, ∀ c ∈ a.column, r.Conforms c) :
    (q.groupBy ≠ [] →
      List.Forall₂ (r.SumsUp q.aggregates) (groupsOf (r.groupKey q.groupBy) r.entries)
          (r.aggregate q.groupBy q.aggregates).entries ∧
        ((groupsOf (r.groupKey q.groupBy) r.entries).map List.length).sum = r.entries.length) ∧
      (q.groupBy = [] → (∀ a ∈ q.aggregates, a.function ≠ .distinct) →
        ∃ e, (r.aggregate q.groupBy q.aggregates).entries = [e] ∧
          r.SumsUp q.aggregates r.entries e) ∧
      (∀ a ∈ q.aggregates, a.function = .distinct → q.groupBy = [] ∧ q.aggregates = [a] ∧
        ∃ c, a.column = some c ∧ (r.aggregate q.groupBy q.aggregates).entries =
          (groupsOf (fun e => r.valueOrNull e c) r.entries).map (r.distinctEntry c)) ∧
      ∀ entries, r.entries.Perm entries →
        Multiset.Rel (r.SameSummary q.groupBy q.aggregates)
          (r.aggregate q.groupBy q.aggregates).entries
          ({ r with entries := entries }.aggregate q.groupBy q.aggregates).entries := by
  constructor
  · intro hgroupBy
    have hdistinct : ∀ a ∈ q.aggregates, a.function ≠ .distinct :=
      fun a ha ha' => hgroupBy (eq_of_distinct hcheck ha ha').1
    constructor
    · rw [entries_aggregate_of_groupBy hgroupBy hdistinct, List.forall₂_map_right_iff,
        List.forall₂_same]
      intro group hgroup
      rcases exists_of_mem_groupsOf hgroup with ⟨_, _, _, hmem⟩
      exact sumsUp_summarize hcheck hdistinct hconforms fun e he => (hmem e he).1
    · exact sum_length_groupsOf r.entries
  constructor
  · intro hgroupBy hdistinct
    exists r.summarize q.aggregates r.entries
    constructor
    · exact entries_aggregate_of_empty hgroupBy hdistinct
    · exact sumsUp_summarize hcheck hdistinct hconforms fun e he => he
  constructor
  · intro a ha hdistinct
    rcases eq_of_distinct hcheck ha hdistinct with ⟨hgroupBy, haggregates, c, hcolumn⟩
    exact ⟨hgroupBy, haggregates, c, hcolumn,
      entries_aggregate_of_distinct hgroupBy haggregates hdistinct hcolumn⟩
  · intro entries hperm
    exact rel_aggregate_of_perm hcheck hconforms hperm

def sizesCounted : Select where
  columns :=
    [.column { table := "item", column := "size", position := 1, type := .float64 },
      .aggregate { function := .count, column := none },
      .aggregate
        { function := .min
          column := some { table := "item", column := "number", position := 0, type := .int64 } }]
  groupBy := [{ table := "item", column := "size", position := 1, type := .float64 }]

def sizesColumn : ColumnRef :=
  { table := "item", column := "size", position := 1, type := .float64 }

def sizesMeasured : Select where
  columns :=
    [.aggregate { function := .sum, column := some sizesColumn },
      .aggregate { function := .avg, column := some sizesColumn },
      .aggregate { function := .stddev, column := some sizesColumn }]

/-- Two items of one size and one without a size, and the same items the other way round.  The sizes
one and five, with a missing one, add up to six, have the mean three and deviate from it by two. -/
theorem two_sizes_are_counted :
    let sized (number : Int64) (size : Value) : Entry :=
      { rows := [{ id := 0, values := [.int64 number, size] }] }
    let r : Relation :=
      { tables := ["item"]
        entries := [sized 8 (.float64 ⟨0⟩), sized 9 .null, sized 7 (.float64 ⟨0⟩)] }
    let swapped : Relation :=
      { tables := ["item"]
        entries := [sized 7 (.float64 ⟨0⟩), sized 9 .null, sized 8 (.float64 ⟨0⟩)] }
    let measured : Relation :=
      { tables := ["item"]
        entries :=
          [sized 7 (.float64 ⟨0x3ff0000000000000⟩), sized 9 .null,
            sized 8 (.float64 ⟨0x4014000000000000⟩)] }
    sizesCounted.checkColumns = .ok () ∧
      (∀ a ∈ sizesCounted.aggregates, ∀ c ∈ a.column, r.Conforms c) ∧
      List.Forall₂ (r.SumsUp sizesCounted.aggregates)
        (groupsOf (r.groupKey sizesCounted.groupBy) r.entries)
        (r.aggregate sizesCounted.groupBy sizesCounted.aggregates).entries ∧
      (r.aggregate sizesCounted.groupBy sizesCounted.aggregates).entries.map (·.aggregates) =
        [[.int64 2, .int64 7], [.int64 1, .int64 9]] ∧
      Multiset.Rel (r.SameSummary sizesCounted.groupBy sizesCounted.aggregates)
        (r.aggregate sizesCounted.groupBy sizesCounted.aggregates).entries
        (swapped.aggregate sizesCounted.groupBy sizesCounted.aggregates).entries ∧
      (∀ a ∈ sizesMeasured.aggregates, ∀ c ∈ a.column, measured.Conforms c) ∧
      (∃ e, (measured.aggregate sizesMeasured.groupBy sizesMeasured.aggregates).entries = [e] ∧
        measured.SumsUp sizesMeasured.aggregates measured.entries e) ∧
      (measured.aggregate sizesMeasured.groupBy sizesMeasured.aggregates).entries.map
          (·.aggregates) =
        [[.float64 ⟨0x4018000000000000⟩, .float64 ⟨0x4008000000000000⟩,
          .float64 ⟨0x4000000000000000⟩]] := by
  intro sized r swapped measured
  have hcheck : sizesCounted.checkColumns = .ok () := rfl
  have hconforms : ∀ a ∈ sizesCounted.aggregates, ∀ c ∈ a.column, r.Conforms c := by
    unfold Relation.Conforms
    decide
  have h := groups_are_summed_up hcheck hconforms
  constructor
  · exact hcheck
  constructor
  · exact hconforms
  constructor
  · exact (h.1 (List.cons_ne_nil _ _)).1
  constructor
  · rfl
  constructor
  · exact h.2.2.2 swapped.entries (List.reverse_perm r.entries).symm
  have hconforms' : ∀ a ∈ sizesMeasured.aggregates, ∀ c ∈ a.column, measured.Conforms c := by
    unfold Relation.Conforms
    decide
  have hdistinct : ∀ a ∈ sizesMeasured.aggregates, a.function ≠ .distinct := by
    decide
  have h' := groups_are_summed_up (q := sizesMeasured) rfl hconforms'
  constructor
  · exact hconforms'
  constructor
  · exact h'.2.1 rfl hdistinct
  · let sizes : List Binary64 := [⟨0x3ff0000000000000⟩, ⟨0x4014000000000000⟩]
    let center := mean sizes (.ofInt 2)
    have hsum : sumDoubles sizes = ⟨0x4018000000000000⟩ := by decide
    have hcenter : center = ⟨0x4008000000000000⟩ := by decide
    have hdeviation : (mean (sizes.map fun x => (x - center) * (x - center)) (.ofInt 2)).sqrt =
        ⟨0x4000000000000000⟩ := by decide +kernel
    rw [← hsum, ← hcenter, ← hdeviation]
    rfl

end Select

end RelationalDb
