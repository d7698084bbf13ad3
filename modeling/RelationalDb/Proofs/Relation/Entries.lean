import Mathlib
import RelationalDb.Proofs.Relation.Answers
import RelationalDb.Proofs.Relation.Sorting
import RelationalDb.Proofs.Store.Contents
import RelationalDb.Relation.Aggregate

/-!
# What entries hold

Below an aggregation an entry holds one row of each table, above it the rows of such an
entry or none at all, and one value for each aggregate.  If the tables are sound, the values
of every column are therefore null or of one type.
-/

namespace RelationalDb

/-!
## Items in groups
-/

section Groups

variable {α κ : Type} [BEq κ] {key : α → κ} {a : α}

theorem mem_of_mem_firstOfEach {seen : List κ} {items : List α}
    (h : a ∈ firstOfEach key seen items) : a ∈ items := by
  induction items generalizing seen with
  | nil => cases h
  | cons b rest ih =>
      rw [firstOfEach] at h
      split at h
      · exact List.mem_cons_of_mem _ (ih h)
      · rcases List.mem_cons.mp h with rfl | h
        · exact List.mem_cons_self
        · exact List.mem_cons_of_mem _ (ih h)

theorem of_mem_addToGroup {k : κ} {groups : List (κ × List α)} {g : κ × List α} {b : α}
    (hg : g ∈ addToGroup k a groups) (hb : b ∈ g.2) : b = a ∨ ∃ g' ∈ groups, b ∈ g'.2 := by
  induction groups with
  | nil =>
      rw [addToGroup, List.mem_singleton] at hg
      rw [hg, List.mem_singleton] at hb
      exact Or.inl hb
  | cons g' rest ih =>
      rw [addToGroup] at hg
      split at hg
      · rcases List.mem_cons.mp hg with rfl | hg
        · rcases List.mem_append.mp hb with hb | hb
          · exact Or.inr ⟨g', List.mem_cons_self, hb⟩
          · exact Or.inl (List.mem_singleton.mp hb)
        · exact Or.inr ⟨g, List.mem_cons_of_mem _ hg, hb⟩
      · rcases List.mem_cons.mp hg with rfl | hg
        · exact Or.inr ⟨g', List.mem_cons_self, hb⟩
        · rcases ih hg with heq | ⟨g'', hg'', hb⟩
          · exact Or.inl heq
          · exact Or.inr ⟨g'', List.mem_cons_of_mem _ hg'', hb⟩

theorem mem_of_mem_groupsBy {items : List α} {g : κ × List α} (hg : g ∈ groupsBy key items)
    (ha : a ∈ g.2) : a ∈ items := by
  have hfold : ∀ (items : List α) (groups : List (κ × List α)),
      g ∈ items.foldl (fun groups b => addToGroup (key b) b groups) groups →
        a ∈ items ∨ ∃ g' ∈ groups, a ∈ g'.2 := by
    intro items
    induction items with
    | nil => exact fun groups hg => Or.inr ⟨g, hg, ha⟩
    | cons b rest ih =>
        intro groups hg
        rcases ih _ hg with hrest | ⟨g', hg', ha'⟩
        · exact Or.inl (List.mem_cons_of_mem _ hrest)
        · rcases of_mem_addToGroup hg' ha' with rfl | hgroups
          · exact Or.inl List.mem_cons_self
          · exact Or.inr hgroups
  rcases hfold items [] hg with hitems | ⟨g', hg', _⟩
  · exact hitems
  · cases hg'

end Groups

namespace Relation

variable {source : TableSource} {ts us : List Table} {l r r' : Relation} {e : Entry}
  {aggregates : List Aggregate}

/-!
## Entries before an aggregation
-/

/-- Every entry holds one row of each table. -/
structure Over (source : TableSource) (ts : List Table) (r : Relation) : Prop where
  tables : r.tables = ts.map (·.effectiveName)
  entries : ∀ e ∈ r.entries, e ∈ source.entriesOver ts

theorem over_ofRows {t : Table} {rows : List Row} (h : ∀ row ∈ rows, row ∈ source.rowsOf t) :
    (ofRows t.effectiveName rows).Over source [t] where
  tables := rfl
  entries := by
    intro e he
    rcases List.mem_map.mp he with ⟨row, hrow, rfl⟩
    rw [TableSource.entriesOver_singleton]
    exact List.mem_map_of_mem (h row hrow)

theorem Over.of_subset (h : r.Over source ts) (htables : r'.tables = r.tables)
    (hentries : ∀ e ∈ r'.entries, e ∈ r.entries) : r'.Over source ts where
  tables := htables.trans h.tables
  entries := fun e he => h.entries e (hentries e he)

theorem append_mem_entriesOver {a b : Entry} (ha : a ∈ source.entriesOver ts)
    (hb : b ∈ source.entriesOver us) : a.append b ∈ source.entriesOver (ts ++ us) := by
  rw [TableSource.entriesOver_append]
  exact List.mem_flatMap.mpr ⟨a, ha, List.mem_map_of_mem hb⟩

theorem Over.product (hl : l.Over source ts) (hr : r.Over source us) :
    (l.product r).Over source (ts ++ us) where
  tables := by simp [Relation.product, hl.tables, hr.tables]
  entries := by
    intro e he
    rcases List.mem_flatMap.mp he with ⟨a, ha, he⟩
    rcases List.mem_map.mp he with ⟨b, hb, rfl⟩
    exact append_mem_entriesOver (hl.entries a ha) (hr.entries b hb)

theorem Over.join (hl : l.Over source ts) (hr : r.Over source us) (j : ColumnJoin) :
    (l.join r j).Over source (ts ++ us) where
  tables := by simp [Relation.join, hl.tables, hr.tables]
  entries := by
    intro e he
    rcases List.mem_map.mp he with ⟨⟨a, b⟩, hab, rfl⟩
    have hpair := (pairsInOrder_perm l r).mem_iff.mp (List.mem_filter.mp hab).1
    rw [List.pair_mem_product] at hpair
    exact append_mem_entriesOver (hl.entries a hpair.1) (hr.entries b hpair.2)

/-!
## Entries after an aggregation
-/

/-- Every entry holds the rows of an entry over the tables or none, and one value for each
aggregate. -/
structure Summary (source : TableSource) (ts : List Table) (aggregates : List Aggregate)
    (r : Relation) : Prop where
  tables : r.tables = ts.map (·.effectiveName)
  rows : ∀ e ∈ r.entries, e.rows = [] ∨ ∃ e' ∈ source.entriesOver ts, e.rows = e'.rows
  values : ∀ e ∈ r.entries, e.aggregates.length = aggregates.length

theorem Summary.of_subset (h : r.Summary source ts aggregates) (htables : r'.tables = r.tables)
    (hentries : ∀ e ∈ r'.entries, e ∈ r.entries) : r'.Summary source ts aggregates where
  tables := htables.trans h.tables
  rows := fun e he => h.rows e (hentries e he)
  values := fun e he => h.values e (hentries e he)

theorem length_of_loneDistinct? {groupBy : List ColumnRef} {c : ColumnRef}
    (h : loneDistinct? groupBy aggregates = some c) : aggregates.length = 1 := by
  unfold loneDistinct? at h
  split at h
  · rfl
  · cases h

theorem Over.aggregate (h : r.Over source ts) (groupBy : List ColumnRef)
    (aggregates : List Aggregate) :
    (r.aggregate groupBy aggregates).Summary source ts aggregates := by
  have hsummarize : ∀ entries : List Entry, (∀ e ∈ entries, e ∈ r.entries) →
      ((r.summarize aggregates entries).rows = [] ∨
        ∃ e' ∈ source.entriesOver ts, (r.summarize aggregates entries).rows = e'.rows) ∧
      (r.summarize aggregates entries).aggregates.length = aggregates.length := by
    intro entries hentries
    refine ⟨?_, List.length_map _⟩
    cases entries with
    | nil => exact Or.inl rfl
    | cons e rest => exact Or.inr ⟨e, h.entries e (hentries e List.mem_cons_self), rfl⟩
  unfold Relation.aggregate
  cases hlone : loneDistinct? groupBy aggregates with
  | some c =>
      constructor
      · exact h.tables
      · intro e he
        rcases List.mem_map.mp he with ⟨e', he', rfl⟩
        exact Or.inr ⟨e', h.entries e' (mem_of_mem_firstOfEach he'), rfl⟩
      · intro e he
        rcases List.mem_map.mp he with ⟨e', _, rfl⟩
        exact (length_of_loneDistinct? hlone).symm
  | none =>
      dsimp only
      split
      · constructor
        · exact h.tables
        · intro e he
          rw [List.mem_singleton.mp he]
          exact (hsummarize r.entries fun _ he => he).1
        · intro e he
          rw [List.mem_singleton.mp he]
          exact (hsummarize r.entries fun _ he => he).2
      · constructor
        · exact h.tables
        · intro e he
          rcases List.mem_map.mp he with ⟨g, hg, rfl⟩
          exact (hsummarize g.2 fun _ he => mem_of_mem_groupsBy hg he).1
        · intro e he
          rcases List.mem_map.mp he with ⟨g, hg, rfl⟩
          exact (hsummarize g.2 fun _ he => mem_of_mem_groupsBy hg he).2

/-!
## The types of values
-/

theorem uniform_of_rows (hsource : ∀ name s, source name = some s → s.Sound)
    (htables : r.tables = ts.map (·.effectiveName))
    (hrows : ∀ e ∈ r.entries, e.rows = [] ∨ ∃ e' ∈ source.entriesOver ts, e.rows = e'.rows) :
    r.Uniform := by
  intro c
  cases hfind : r.tables.findIdx? (· == c.table) with
  | none =>
      refine ⟨.boolean, fun e _ => Or.inl ?_⟩
      simp [valueOrNull, value?, Entry.assignment, rowAmong, hfind, Value.type?]
  | some i =>
      have hlt : i < ts.length := by
        have hlt := (List.findIdx?_eq_some_iff_getElem.mp hfind).1
        rwa [htables, List.length_map] at hlt
      let column := ((source ts[i].name).bind fun s => s.table.columns[c.position]?)
      refine ⟨(column.map (·.type)).getD .boolean, ?_⟩
      intro e he
      rw [valueOrNull, value?, Entry.assignment, rowAmong, hfind, Option.bind_some]
      cases hrow : e.rows[i]? with
      | none => exact Or.inl rfl
      | some row =>
          rcases hrows e he with hempty | ⟨e', he', heq⟩
          · rw [hempty] at hrow
            cases hrow
          · rcases List.mem_map.mp he' with ⟨rows, htuple, rfl⟩
            rw [heq] at hrow
            have hget : (ts.map source.rowsOf)[i]? = some (source.rowsOf ts[i]) := by
              rw [List.getElem?_map, List.getElem?_eq_getElem hlt]
              rfl
            have hmem := mem_of_mem_tuples htuple hget hrow
            rw [Option.bind_some]
            cases hvalue : row.values[c.position]? with
            | none => exact Or.inl rfl
            | some v =>
                cases hs : source ts[i].name with
                | none => simp [TableSource.rowsOf, hs] at hmem
                | some s =>
                    have hsound := hsource _ s hs
                    have hstored : s.rows.get? row.id = some row := by
                      rw [← hsound.toKeyed.mem_toList_iff]
                      simpa [TableSource.rowsOf, hs] using hmem
                    have hchecked := hsound.checked hstored
                    have hposition : c.position < s.table.columns.length := by
                      rw [← (Table.checkRow_eq_ok_iff.mp hchecked).1]
                      exact (List.getElem?_eq_some_iff.mp hvalue).1
                    have hcolumn := List.getElem?_eq_getElem hposition
                    have htype := Table.type?_of_checkRow hchecked hcolumn hvalue
                    simpa [column, hs, hcolumn] using htype

theorem Over.uniform (h : r.Over source ts)
    (hsource : ∀ name s, source name = some s → s.Sound) : r.Uniform :=
  uniform_of_rows hsource h.tables fun e he => Or.inr ⟨e, h.entries e he, rfl⟩

theorem Summary.uniform (h : r.Summary source ts aggregates)
    (hsource : ∀ name s, source name = some s → s.Sound) : r.Uniform :=
  uniform_of_rows hsource h.tables h.rows

end Relation

end RelationalDb
