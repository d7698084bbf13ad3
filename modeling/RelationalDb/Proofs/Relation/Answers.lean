import Mathlib
import RelationalDb.Plan.Access
import RelationalDb.Proofs.Relation.Products
import RelationalDb.Proofs.Relation.Sorting

/-!
# Relations that answer a condition

A relation over some tables answers a condition if its entries are, up to their order,
the combinations of rows of these tables of which the condition holds.  Every operator of
a plan makes relations of this kind out of relations of this kind.
-/

namespace RelationalDb

namespace TableSource

def rowsOf (source : TableSource) (t : Table) : List Row :=
  ((source t.name).map (·.toList)).getD []

/-- All entries with one row of each table. -/
def entriesOver (source : TableSource) (ts : List Table) : List Entry :=
  (tuples (ts.map source.rowsOf)).map fun rows => { rows := rows }

variable {source : TableSource} {ts us : List Table} {e : Entry}

theorem entriesOver_append :
    source.entriesOver (ts ++ us) =
      (source.entriesOver ts).flatMap fun a => (source.entriesOver us).map a.append := by
  simp only [entriesOver, List.map_append, tuples_append, List.map_flatMap, List.flatMap_map,
    List.map_map]
  rfl

theorem entriesOver_singleton (t : Table) :
    source.entriesOver [t] = (source.rowsOf t).map fun row => { rows := [row] } := by
  simp [entriesOver, tuples, List.map_eq_flatMap, List.flatMap_assoc]

theorem length_of_mem_entriesOver (h : e ∈ source.entriesOver ts) :
    e.rows.length = (ts.map (·.effectiveName)).length := by
  rcases List.mem_map.mp h with ⟨rows, hrows, rfl⟩
  simpa using length_of_mem_tuples hrows

end TableSource

/-!
## Values in combined entries
-/

section Assignments

variable {names names' : List String} {a b : Entry} {c : ColumnRef}

theorem assignment_append_left (hlength : a.rows.length = names.length)
    (hc : c.table ∈ names) :
    (a.append b).assignment (names ++ names') c = a.assignment names c := by
  unfold Entry.assignment rowAmong Entry.append
  cases hfind : names.findIdx? (· == c.table) with
  | none =>
      rw [List.findIdx?_eq_none_iff] at hfind
      simpa using hfind _ hc
  | some i =>
      have hlt : i < a.rows.length := by
        rw [hlength]
        exact (List.findIdx?_eq_some_iff_getElem.mp hfind).1
      simp [List.findIdx?_append, hfind, List.getElem?_append_left hlt]

theorem assignment_append_right (hlength : a.rows.length = names.length)
    (hc : c.table ∉ names) :
    (a.append b).assignment (names ++ names') c = b.assignment names' c := by
  unfold Entry.assignment rowAmong Entry.append
  have hfind : names.findIdx? (· == c.table) = none := by
    rw [List.findIdx?_eq_none_iff]
    intro name hname
    simp only [beq_eq_false_iff_ne]
    rintro rfl
    exact hc hname
  cases hfind' : names'.findIdx? (· == c.table) with
  | none => simp [List.findIdx?_append, hfind, hfind']
  | some i =>
      simp [List.findIdx?_append, hfind, hfind', ← hlength,
        List.getElem?_append_right (Nat.le_add_left a.rows.length i)]

end Assignments

/-- The value depends on the columns of these tables only. -/
def DependsOn (names : List String) (g : Assignment → Bool) : Prop :=
  ∀ a b : Assignment, (∀ c, c.table ∈ names → a c = b c) → g a = g b

namespace Relation

/-- The entries are the combinations of rows of which the condition holds. -/
structure Answers (source : TableSource) (ts : List Table) (g : Assignment → Bool)
    (r : Relation) : Prop where
  tables : r.tables = ts.map (·.effectiveName)
  entries : r.entries.Perm
    ((source.entriesOver ts).filter fun e => g (e.assignment (ts.map (·.effectiveName))))

variable {source : TableSource} {ts us : List Table} {g h : Assignment → Bool} {l r : Relation}

theorem Answers.mem_entriesOver (hr : r.Answers source ts g) {e : Entry} (he : e ∈ r.entries) :
    e ∈ source.entriesOver ts :=
  (List.mem_filter.mp (hr.entries.mem_iff.mp he)).1

theorem Answers.congr (hr : r.Answers source ts g) (hgh : ∀ a, g a = h a) :
    r.Answers source ts h := by
  have heq : g = h := funext hgh
  rwa [← heq]

theorem answers_ofRows {t : Table} {rows : List Row}
    (hrows : rows.Perm ((source.rowsOf t).filter fun row =>
      g (({ rows := [row] } : Entry).assignment [t.effectiveName]))) :
    (ofRows t.effectiveName rows).Answers source [t] g where
  tables := rfl
  entries := by
    rw [TableSource.entriesOver_singleton, List.filter_map]
    exact hrows.map _

theorem Answers.filter (hr : r.Answers source ts g) (p : Predicate) :
    (r.filter p).Answers source ts fun a => g a && p.eval a where
  tables := hr.tables
  entries := by
    have hperm := hr.entries.filter fun e => p.eval (e.assignment r.tables)
    rw [List.filter_filter] at hperm
    simpa only [Relation.filter, hr.tables, Bool.and_comm] using hperm

theorem Answers.sort (hr : r.Answers source ts g) (order : SortOrder) :
    (r.sort order).Answers source ts g where
  tables := hr.tables
  entries := (entries_sort_perm r order).trans hr.entries

/-- A product combines the conditions of its sides, which see their own tables only. -/
theorem Answers.product (hl : l.Answers source ts g) (hr : r.Answers source us h)
    (hdisjoint : ∀ name ∈ us.map (·.effectiveName), name ∉ ts.map (·.effectiveName))
    (hg : DependsOn (ts.map (·.effectiveName)) g) (hh : DependsOn (us.map (·.effectiveName)) h) :
    (l.product r).Answers source (ts ++ us) fun a => g a && h a where
  tables := by simp [Relation.product, hl.tables, hr.tables]
  entries := by
    have hperm : (l.product r).entries.Perm
        (((source.entriesOver ts).filter fun e => g (e.assignment (ts.map (·.effectiveName)))).flatMap
          fun a => ((source.entriesOver us).filter fun e =>
            h (e.assignment (us.map (·.effectiveName)))).map a.append) := by
      unfold Relation.product
      exact (List.Perm.flatMap_left _ fun a _ => hr.entries.map a.append).trans
        (List.Perm.flatMap_right _ hl.entries)
    rw [TableSource.entriesOver_append, filter_combinations]
    · exact hperm
    · intro a ha b hb
      have hlength := TableSource.length_of_mem_entriesOver ha
      rw [List.map_append]
      congr 1
      · apply hg
        intro c hc
        exact assignment_append_left hlength hc
      · apply hh
        intro c hc
        exact assignment_append_right hlength (hdisjoint _ hc)

/-!
## Joins
-/

theorem pairsInOrder_perm (l r : Relation) :
    (l.pairsInOrder r).Perm (l.entries.product r.entries) := by
  unfold pairsInOrder
  split
  · exact blockedPairs_perm _ _ _
  · exact ((blockedPairs_perm _ _ _).map _).trans (map_swap_product_perm _ _)

theorem join_entries_perm (l r : Relation) (j : ColumnJoin) :
    (l.join r j).entries.Perm
      (((l.entries.product r.entries).filter fun p => l.matches? r j p.1 p.2).map
        fun p => p.1.append p.2) :=
  ((pairsInOrder_perm l r).filter _).map _

def Full (r : Relation) : Prop :=
  ∀ e ∈ r.entries, e.rows.length = r.tables.length

theorem join_perm {j : ColumnJoin} (hl : l.Full) (hleft : j.left.table ∈ l.tables)
    (hright : j.right.table ∉ l.tables) :
    (l.join r j).entries.Perm
      ((l.product r).filter (.condition (.join j))).entries := by
  have hpairs : (l.product r).entries =
      (l.entries.product r.entries).map fun p => p.1.append p.2 := by
    simp only [Relation.product, List.product, List.map_flatMap, List.map_map]
    rfl
  refine (join_entries_perm l r j).trans ?_
  simp only [Relation.filter, hpairs, List.filter_map]
  apply List.Perm.of_eq
  congr 1
  apply List.filter_congr
  rintro ⟨a, b⟩ hab
  rw [List.pair_mem_product] at hab
  have hlength := hl a hab.1
  have hleft' : l.value? a j.left = (a.append b).assignment (l.product r).tables j.left :=
    (assignment_append_left hlength hleft).symm
  have hright' : r.value? b j.right = (a.append b).assignment (l.product r).tables j.right :=
    (assignment_append_right hlength hright).symm
  rw [Function.comp_apply, matches?, hleft', hright']
  rfl

theorem Answers.join {j : ColumnJoin} (hl : l.Answers source ts g) (hr : r.Answers source us h)
    (hdisjoint : ∀ name ∈ us.map (·.effectiveName), name ∉ ts.map (·.effectiveName))
    (hg : DependsOn (ts.map (·.effectiveName)) g) (hh : DependsOn (us.map (·.effectiveName)) h)
    (hleft : j.left.table ∈ ts.map (·.effectiveName))
    (hright : j.right.table ∈ us.map (·.effectiveName)) :
    (l.join r j).Answers source (ts ++ us) fun a =>
      (g a && h a) && (Predicate.condition (.join j)).eval a where
  tables := by simp [Relation.join, hl.tables, hr.tables]
  entries := by
    have hfiltered := (hl.product hr hdisjoint hg hh).filter (.condition (.join j))
    have hfull : l.Full := by
      intro e he
      rw [hl.tables]
      exact TableSource.length_of_mem_entriesOver (hl.mem_entriesOver he)
    rw [← hl.tables] at hleft
    have hright' : j.right.table ∉ l.tables := by
      rw [hl.tables]
      exact hdisjoint _ hright
    exact (join_perm hfull hleft hright').trans hfiltered.entries

end Relation

end RelationalDb
