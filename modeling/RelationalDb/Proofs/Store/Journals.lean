import Mathlib
import RelationalDb.Proofs.Actions
import RelationalDb.Proofs.Store.StagedWrites

/-!
# Journals over committed tables

A journal tracks the committed tables if each of its stores comes from the committed one
by the net changes on record.  Every write keeps that.  A reader sees the committed rows
under those changes, and installing the journal makes them the committed rows.
-/

namespace RelationalDb

namespace Committed

def rows? (c : Committed) (table : String) : Option RowMap :=
  (c.store? table).map (·.rows)

/-- Every store stands under the name of its table, with its rows under their ids. -/
structure WellKept (c : Committed) : Prop where
  ordered : c.stores.Ordered
  named : ∀ {table : String} {s : TableStore}, c.store? table = some s → s.table.name = table
  keyed : ∀ {table : String} {s : TableStore}, c.store? table = some s → s.Keyed

end Committed

namespace ChangeSet

variable (c : ChangeSet) (row old new : Row)

theorem table_add : (c.add row).table = c.table := by
  unfold add
  split
  · rfl
  · rfl

theorem table_modify : (c.modify old new).table = c.table := by
  unfold modify
  split
  · rfl
  · split
    · rfl
    · rfl

theorem table_delete : (c.delete row).table = c.table := by
  unfold delete
  split
  · rfl
  · split
    · rfl
    · rfl

end ChangeSet

namespace Journal

/-- The rows of a table under the net changes of the journal. -/
def overlay (j : Journal) (table : String) (rows : RowMap) : RowMap :=
  match j.changes.get? table with
  | some c => c.applyTo rows
  | none => rows

def Stages (j : Journal) (table : String) : Prop :=
  ∃ s, j.staged.get? table = some s

/-- A write of the journal touched the index. -/
def Touches (j : Journal) (index : String) : Prop :=
  index ∈ j.touched.keys

/-- Every staged store comes from the committed one by the net changes on record. -/
structure Tracks (j : Journal) (committed : Committed) : Prop where
  orderedStaged : j.staged.Ordered
  orderedChanges : j.changes.Ordered
  orderedTouched : j.touched.Ordered
  staged : ∀ {table : String} {s : TableStore}, j.staged.get? table = some s →
    ∃ base c, committed.store? table = some base ∧ j.changes.get? table = some c ∧
      c.table = table ∧ base.StagedFrom s c j.Touches
  recorded : ∀ {table : String} {c : ChangeSet}, j.changes.get? table = some c → j.Stages table

variable {j j' : Journal} {committed committed' : Committed} {table : String}
  {s s' base : TableStore} {c : ChangeSet} {row old : Row} {id : RowId}

theorem tracks_empty (committed : Committed) : ({} : Journal).Tracks committed where
  orderedStaged := SortedMap.ordered_empty
  orderedChanges := SortedMap.ordered_empty
  orderedTouched := SortedMap.ordered_empty
  staged := by
    intro table s h
    cases h
  recorded := by
    intro table c h
    cases h

theorem Tracks.changes_eq_none (h : j.Tracks committed) (hs : j.staged.get? table = none) :
    j.changes.get? table = none := by
  cases hc : j.changes.get? table with
  | none => rfl
  | some c =>
      rcases h.recorded hc with ⟨s, hstaged⟩
      rw [hs] at hstaged
      cases hstaged

theorem not_stages_empty (table : String) : ¬ ({} : Journal).Stages table := by
  intro h
  rcases h with ⟨s, hs⟩
  cases hs

/-!
## Staging a table
-/

theorem perform_stage (committed : Committed) (table : String) (j : Journal) :
    (stage committed table).perform j =
      match j.staged.get? table, committed.store? table with
      | some s, _ => (.ok s, j)
      | none, none => (.error (.tableNotFound table), j)
      | none, some s =>
          (.ok s, { j with
            staged := j.staged.insert table s
            changes := j.changes.insert table { table := table } }) := by
  unfold stage
  rw [Action.perform_bind_ok (Action.perform_get j)]
  cases hstaged : j.staged.get? table with
  | some s => rfl
  | none =>
      simp only [Action.perform_bind, Action.perform_ofOutcome, Committed.snapshot]
      cases hstore : committed.store? table with
      | none => rfl
      | some s => rfl

theorem stages_insert_iff (h : j.Tracks committed) {t : String} :
    ({ j with staged := j.staged.insert table s } : Journal).Stages t ↔ t = table ∨ j.Stages t := by
  unfold Stages
  rw [SortedMap.get?_insert h.orderedStaged]
  by_cases heq : t = table
  · simp [heq]
  · simp [heq]

theorem Tracks.staged_anew (h : j.Tracks committed) (hc : committed.WellKept)
    (hstore : committed.store? table = some s) :
    ({ j with
      staged := j.staged.insert table s
      changes := j.changes.insert table { table := table } } : Journal).Tracks committed where
  orderedStaged := h.orderedStaged.insert _ _
  orderedChanges := h.orderedChanges.insert _ _
  orderedTouched := h.orderedTouched
  staged := by
    intro t s' hs'
    rw [SortedMap.get?_insert h.orderedStaged] at hs'
    rw [SortedMap.get?_insert h.orderedChanges]
    split at hs'
    · next heq =>
        cases hs'
        rw [heq, if_pos rfl]
        exact ⟨s, _, hstore, rfl, rfl, TableStore.stagedFrom_self (hc.keyed hstore) table⟩
    · next hne =>
        rw [if_neg hne]
        exact h.staged hs'
  recorded := by
    intro t c' hc'
    unfold Stages
    rw [SortedMap.get?_insert h.orderedChanges] at hc'
    rw [SortedMap.get?_insert h.orderedStaged]
    split at hc'
    · next heq => exact ⟨s, by rw [if_pos heq]⟩
    · next hne =>
        rw [if_neg hne]
        exact h.recorded hc'

theorem Tracks.stage_ok (h : j.Tracks committed) (hc : committed.WellKept)
    (hok : (stage committed table).perform j = (.ok s, j')) :
    j'.Tracks committed ∧ j'.staged.get? table = some s ∧
      ∀ t, j'.Stages t → t = table ∨ j.Stages t := by
  rw [perform_stage] at hok
  split at hok
  · next hstaged =>
      cases hok
      exact ⟨h, hstaged, fun t ht => Or.inr ht⟩
  · cases hok
  · next hstaged hstore =>
      cases hok
      refine ⟨h.staged_anew hc hstore, ?_, fun t ht => (stages_insert_iff h).mp ht⟩
      rw [SortedMap.get?_insert h.orderedStaged, if_pos rfl]

theorem eq_of_stage_error {e : Failure} (hf : (stage committed table).perform j = (.error e, j')) :
    j' = j := by
  rw [perform_stage] at hf
  split at hf
  · cases hf
  · cases hf
    rfl
  · cases hf

/-!
## Writing to a staged table
-/

theorem touches_record_iff (h : j.Tracks committed) (table : String) (names : List String)
    (f : ChangeSet → ChangeSet) (name : String) :
    (record table names f j).Touches name ↔ j.Touches name ∨ name ∈ names := by
  unfold Touches record
  rw [SortedMap.mem_keys_insertAll_iff h.orderedTouched]
  simp

theorem Tracks.replace (h : j.Tracks committed) (hs : j.staged.get? table = some s)
    (hstep : ∀ base c, TableStore.StagedFrom base s c j.Touches →
      TableStore.StagedFrom base s' c j.Touches) :
    ({ j with staged := j.staged.insert table s' } : Journal).Tracks committed where
  orderedStaged := h.orderedStaged.insert _ _
  orderedChanges := h.orderedChanges
  orderedTouched := h.orderedTouched
  staged := by
    intro t s₁ hs₁
    rw [SortedMap.get?_insert h.orderedStaged] at hs₁
    split at hs₁
    · next heq =>
        cases hs₁
        rw [heq]
        rcases h.staged hs with ⟨base, c, hbase, hc, htable, hfrom⟩
        exact ⟨base, c, hbase, hc, htable, hstep base c hfrom⟩
    · exact h.staged hs₁
  recorded := by
    intro t c hc
    unfold Stages
    rw [SortedMap.get?_insert h.orderedStaged]
    split
    · exact ⟨s', rfl⟩
    · exact h.recorded hc

theorem Tracks.record (h : j.Tracks committed) (hs : j.staged.get? table = some s)
    {names : List String} {f : ChangeSet → ChangeSet} (hf : ∀ c, (f c).table = c.table)
    (hstep : ∀ base c, TableStore.StagedFrom base s c j.Touches →
      TableStore.StagedFrom base s' (f c) fun n => j.Touches n ∨ n ∈ names) :
    (Journal.record table names f { j with staged := j.staged.insert table s' }).Tracks committed := by
  have htouches : ∀ n, (Journal.record table names f
      { j with staged := j.staged.insert table s' }).Touches n ↔ j.Touches n ∨ n ∈ names :=
    touches_record_iff h table names f
  constructor
  · exact h.orderedStaged.insert _ _
  · exact h.orderedChanges.insert _ _
  · exact h.orderedTouched.insertAll _
  · intro t s₁ hs₁
    change (j.staged.insert table s').get? t = some s₁ at hs₁
    change ∃ base c, _ ∧ (j.changes.insert table _).get? t = some c ∧ _
    rw [SortedMap.get?_insert h.orderedStaged] at hs₁
    rw [SortedMap.get?_insert h.orderedChanges]
    split at hs₁
    · next heq =>
        cases hs₁
        rcases h.staged hs with ⟨base, c, hbase, hc, htable, hfrom⟩
        rw [if_pos heq, hc, heq]
        refine ⟨base, f c, hbase, rfl, (hf c).trans htable, ?_⟩
        exact (hstep base c hfrom).mono fun n => (htouches n).mpr
    · next hne =>
        rw [if_neg hne]
        rcases h.staged hs₁ with ⟨base, c, hbase, hc, htable, hfrom⟩
        exact ⟨base, c, hbase, hc, htable, hfrom.mono fun n hn => (htouches n).mpr (Or.inl hn)⟩
  · intro t c hc
    change (j.changes.insert table _).get? t = some c at hc
    change ∃ s₁, (j.staged.insert table s').get? t = some s₁
    rw [SortedMap.get?_insert h.orderedChanges] at hc
    rw [SortedMap.get?_insert h.orderedStaged]
    split
    · exact ⟨s', rfl⟩
    · next hne =>
        rw [if_neg hne] at hc
        exact h.recorded hc

def staging {α : Type} (committed : Committed) (table : String) (a : Action TableStore α)
    (names : TableStore → α → List String) (f : α → ChangeSet → ChangeSet) : Action Journal α := do
  let s ← stage committed table
  let r ← onStaged table s a
  modify (record table (names s r) (f r))
  return r

theorem insert_eq_staging (committed : Committed) (table : String) (row : Row) :
    insert committed table row =
      staging committed table (TableStore.insert row) (fun s _ => indexNames s)
        fun _ c => c.add row := by
  unfold insert staging
  simp

theorem update_eq_staging (committed : Committed) (table : String) (row : Row) :
    update committed table row =
      staging committed table (TableStore.update row) (fun s old => indexNamesBetween s old row)
        fun old c => c.modify old row := rfl

theorem delete_eq_staging (committed : Committed) (table : String) (id : RowId) :
    delete committed table id =
      staging committed table (TableStore.delete id) (fun s _ => indexNames s)
        fun old c => c.delete old := rfl

/-- The journal tracks the committed tables and stages no table but those of a kind. -/
structure TracksOnly (P : String → Prop) (committed : Committed) (j : Journal) : Prop
    extends j.Tracks committed where
  within : ∀ {table : String}, j.Stages table → P table

variable {P : String → Prop}

/-- Work on a staged store keeps the journal on track if its successes are recorded and its
failures leave the rows alone. -/
theorem keeps_staging {α : Type} {a : Action TableStore α} {names : TableStore → α → List String}
    {f : α → ChangeSet → ChangeSet} (hc : committed.WellKept) (htable : P table)
    (hf : ∀ r c, (f r c).table = c.table)
    (hok : ∀ {base s s' c touched r}, TableStore.StagedFrom base s c touched →
      a.perform s = (.ok r, s') →
        TableStore.StagedFrom base s' (f r c) fun n => touched n ∨ n ∈ names s r)
    (herror : ∀ {base s s' c touched e}, TableStore.StagedFrom base s c touched →
      a.perform s = (.error e, s') → TableStore.StagedFrom base s' c touched) :
    Action.Keeps (TracksOnly P committed) (staging committed table a names f) := by
  intro j h
  unfold staging
  rcases hstage : (stage committed table).perform j with ⟨r, j₁⟩
  cases r with
  | error e =>
      rw [Action.perform_bind_error hstage, eq_of_stage_error hstage]
      exact h
  | ok s =>
      rcases h.toTracks.stage_ok hc hstage with ⟨h₁, hs, hstages⟩
      have hwithin : ∀ t, t = table ∨ j₁.Stages t → P t := by
        intro t ht
        rcases ht with rfl | ht
        · exact htable
        · rcases hstages t ht with rfl | ht
          · exact htable
          · exact h.within ht
      rw [Action.perform_bind_ok hstage]
      have hon : (onStaged table s a).perform j₁ =
          ((a.perform s).1, { j₁ with staged := j₁.staged.insert table (a.perform s).2 }) := by
        unfold onStaged
        rw [Action.perform_onPart, hs]
        rfl
      rcases ha : a.perform s with ⟨r, s'⟩
      rw [ha] at hon
      cases r with
      | error e =>
          rw [Action.perform_bind_error hon]
          exact
            { toTracks := h₁.replace hs fun base c hfrom => herror hfrom ha
              within := fun ht => hwithin _ ((stages_insert_iff h₁).mp ht) }
      | ok r =>
          rw [Action.perform_bind_ok hon]
          exact
            { toTracks := h₁.record hs (hf r) fun base c hfrom => hok hfrom ha
              within := fun ht => hwithin _ ((stages_insert_iff h₁).mp ht) }

theorem keeps_insert (hc : committed.WellKept) (htable : P table) (row : Row) :
    Action.Keeps (TracksOnly P committed) (insert committed table row) := by
  rw [insert_eq_staging]
  apply keeps_staging hc htable
  · intro r c
    exact c.table_add row
  · intro base s s' c touched r hfrom hok
    exact hfrom.insert_ok hok
  · intro base s s' c touched e hfrom herror
    have hnames := TableStore.indexNames_insert row s
    rw [herror] at hnames
    exact hfrom.of_failed (TableStore.insert_error herror) hnames fun hs => hs.insert_error herror

theorem keeps_update (hc : committed.WellKept) (htable : P table) (row : Row) :
    Action.Keeps (TracksOnly P committed) (update committed table row) := by
  rw [update_eq_staging]
  apply keeps_staging hc htable
  · intro old c
    exact c.table_modify old row
  · intro base s s' c touched r hfrom hok
    exact hfrom.update_ok hok
  · intro base s s' c touched e hfrom herror
    have hnames := TableStore.indexNames_update row s
    rw [herror] at hnames
    exact hfrom.of_failed (TableStore.update_error herror) hnames fun hs => hs.update_error herror

theorem keeps_delete (hc : committed.WellKept) (htable : P table) (id : RowId) :
    Action.Keeps (TracksOnly P committed) (delete committed table id) := by
  rw [delete_eq_staging]
  apply keeps_staging hc htable
  · intro old c
    exact c.table_delete old
  · intro base s s' c touched r hfrom hok
    exact hfrom.delete_ok hok
  · intro base s s' c touched e hfrom herror
    have hnames := TableStore.indexNames_delete id s
    rw [herror] at hnames
    exact hfrom.of_failed (TableStore.delete_error herror) hnames fun hs => hs.delete_error herror

/-!
## What a reader sees
-/

theorem store?_view (committed : Committed) (j : Journal) (table : String) :
    ({ committed := committed, journal := some j } : View).store? table =
      match j.staged.get? table with
      | some s => some s
      | none => committed.store? table := rfl

theorem Tracks.rows_view (h : j.Tracks committed) (hc : committed.WellKept) (table : String) :
    (({ committed := committed, journal := some j } : View).store? table).map (·.rows) =
      (committed.rows? table).map (j.overlay table) := by
  rw [store?_view]
  unfold Committed.rows? overlay
  cases hstaged : j.staged.get? table with
  | some s =>
      rcases h.staged hstaged with ⟨base, c, hbase, hchanges, _, hfrom⟩
      simp only [hbase, hchanges, Option.map_some]
      rw [hfrom.net.applyTo_eq (hc.keyed hbase).ordered hfrom.keyed.ordered hfrom.keyed.id_eq]
  | none =>
      simp only [h.changes_eq_none hstaged, Option.map_map]
      rfl

theorem Tracks.sound_view (h : j.Tracks committed)
    (hsound : ∀ {table s}, committed.store? table = some s → s.Sound)
    (hs : ({ committed := committed, journal := some j } : View).store? table = some s) :
    s.Sound := by
  rw [store?_view] at hs
  split at hs
  · next hstaged =>
      cases hs
      rcases h.staged hstaged with ⟨base, c, hbase, _, _, hfrom⟩
      exact hfrom.sound (hsound hbase)
  · exact hsound hs

theorem overlay_of_isEmpty (h : j.Tracks committed) (hempty : j.isEmpty = true)
    (table : String) (rows : RowMap) : j.overlay table rows = rows := by
  unfold overlay
  cases hget : j.changes.get? table with
  | none => rfl
  | some c =>
      have hmem : c ∈ j.changes.values := (SortedMap.mem_values_iff h.orderedChanges).mpr ⟨table, hget⟩
      exact ChangeSet.applyTo_of_isEmpty (List.all_eq_true.mp hempty c hmem) rows

/-!
## Installing a journal
-/

theorem foldl_replaceStore {entries : List (String × TableStore)} (hc : committed.stores.Ordered)
    (h : ∀ e ∈ entries, e.2.table.name = e.1 ∧ committed.stores.contains e.1 = true) :
    (entries.map (·.2)).foldl Committed.replaceStore committed =
      { stores := committed.stores.insertAll entries } := by
  induction entries generalizing committed with
  | nil => rfl
  | cons e rest ih =>
      rcases h e List.mem_cons_self with ⟨hname, hcontains⟩
      have hreplace : committed.replaceStore e.2 =
          { stores := committed.stores.insert e.1 e.2 } := by
        unfold Committed.replaceStore
        rw [hname, if_pos hcontains]
      rw [List.map_cons, List.foldl_cons, hreplace, ih]
      · rfl
      · exact hc.insert _ _
      · intro e' he'
        rcases h e' (List.mem_cons_of_mem _ he') with ⟨hname', hcontains'⟩
        refine ⟨hname', ?_⟩
        rw [SortedMap.contains_iff] at hcontains' ⊢
        rw [SortedMap.get?_insert hc]
        split
        · exact ⟨_, rfl⟩
        · exact hcontains'

theorem Tracks.install_eq (h : j.Tracks committed) (hc : committed.WellKept) :
    j.install committed = { stores := committed.stores.insertAll j.staged.entries } := by
  apply foldl_replaceStore hc.ordered
  intro e he
  have hget : j.staged.get? e.1 = some e.2 := (SortedMap.mem_entries_iff h.orderedStaged).mp he
  rcases h.staged hget with ⟨base, c, hbase, _, _, hfrom⟩
  constructor
  · rw [hfrom.table_eq, hc.named hbase]
  · exact SortedMap.contains_iff.mpr ⟨base, hbase⟩

theorem Tracks.store?_install (h : j.Tracks committed) (hc : committed.WellKept) (table : String) :
    (j.install committed).store? table =
      ({ committed := committed, journal := some j } : View).store? table := by
  rw [h.install_eq hc, store?_view]
  change (committed.stores.insertAll j.staged.entries).get? table = _
  cases hstaged : j.staged.get? table with
  | some s =>
      apply SortedMap.get?_insertAll_of_mem hc.ordered
      · exact (SortedMap.mem_entries_iff h.orderedStaged).mpr hstaged
      · intro s' hs'
        rw [SortedMap.mem_entries_iff h.orderedStaged, hstaged] at hs'
        exact (Option.some.inj hs').symm
  | none =>
      apply SortedMap.get?_insertAll_of_not_mem hc.ordered
      intro s hs
      rw [SortedMap.mem_entries_iff h.orderedStaged, hstaged] at hs
      cases hs

theorem Tracks.rows_install (h : j.Tracks committed) (hc : committed.WellKept) (table : String) :
    (j.install committed).rows? table = (committed.rows? table).map (j.overlay table) := by
  unfold Committed.rows?
  rw [h.store?_install hc]
  exact h.rows_view hc table

theorem Tracks.wellKept_install (h : j.Tracks committed) (hc : committed.WellKept) :
    (j.install committed).WellKept where
  ordered := by
    rw [h.install_eq hc]
    exact hc.ordered.insertAll _
  named := by
    intro table s hs
    rw [h.store?_install hc, store?_view] at hs
    split at hs
    · next hstaged =>
        cases hs
        rcases h.staged hstaged with ⟨base, c, hbase, _, _, hfrom⟩
        rw [hfrom.table_eq, hc.named hbase]
    · exact hc.named hs
  keyed := by
    intro table s hs
    rw [h.store?_install hc, store?_view] at hs
    split at hs
    · next hstaged =>
        cases hs
        rcases h.staged hstaged with ⟨base, c, _, _, _, hfrom⟩
        exact hfrom.keyed
    · exact hc.keyed hs

/-- A journal goes on tracking the committed tables when another one, with other tables, is
installed. -/
theorem Tracks.of_install (h' : j'.Tracks committed) (h : j.Tracks committed)
    (hc : committed.WellKept) (hdisjoint : ∀ {table}, j'.Stages table → ¬ j.Stages table) :
    j'.Tracks (j.install committed) where
  orderedStaged := h'.orderedStaged
  orderedChanges := h'.orderedChanges
  orderedTouched := h'.orderedTouched
  staged := by
    intro table s hs
    rcases h'.staged hs with ⟨base, c, hbase, hrest⟩
    have hfree : j.staged.get? table = none := by
      cases hget : j.staged.get? table with
      | none => rfl
      | some s' => exact absurd ⟨s', hget⟩ (hdisjoint ⟨s, hs⟩)
    refine ⟨base, c, ?_, hrest⟩
    rw [h.store?_install hc, store?_view, hfree]
    exact hbase
  recorded := h'.recorded

end Journal

end RelationalDb
