import Mathlib
import RelationalDb.Proofs.Database.Offers
import RelationalDb.Proofs.Plan.Matches
import RelationalDb.Proofs.Store.Batches

/-!
# What updates and deletions change

An update changes the rows that its predicate selected before it began, and a deletion takes
them out.  Which rows these are is settled before the first of them is written, so a write does
not make a row match or miss, not even if the rows were found by an index over a column that is
changed.
-/

namespace RelationalDb

variable {committed : Committed} {w w' : Workspace} {t : Table} {s s' : TableStore}

/-!
## Updates
-/

namespace Update

/-- The value of the last set of the column at a position, if it is set. -/
def lastValue? (u : Update) (position : Nat) : Option Value :=
  (u.sets.reverse.find? fun s => s.1.position == position).map (·.2)

/-- The values of a row after the update: of a column that is set those of its last set. -/
def payload (u : Update) (values : List Value) : List Value :=
  values.mapIdx fun position v => (u.lastValue? position).getD v

theorem lastValue?_cons (u : Update) (first : ColumnRef × Value) (position : Nat) :
    ({ u with sets := first :: u.sets } : Update).lastValue? position =
      (u.lastValue? position).or (if first.1.position = position then some first.2 else none) := by
  unfold lastValue?
  rw [List.reverse_cons, List.find?_append]
  cases u.sets.reverse.find? fun s => s.1.position == position with
  | some last => rfl
  | none => by_cases h : first.1.position = position <;> simp [h]

theorem newValues_eq_payload (u : Update) (values : List Value) :
    u.newValues values = u.payload values := by
  rcases u with ⟨t, sets, p⟩
  -- The first set comes before the others, so its value stays only where no other one comes.
  induction sets generalizing values with
  | nil =>
      apply List.ext_getElem?
      intro i
      simp [newValues, payload, lastValue?]
  | cons first rest ih =>
      change newValues { table := t, sets := rest, predicate := p }
        (values.set first.1.position first.2) = _
      rw [ih]
      apply List.ext_getElem?
      intro i
      simp only [payload, List.getElem?_mapIdx, List.getElem?_set,
        lastValue?_cons { table := t, sets := rest, predicate := p } first]
      by_cases h : first.1.position = i
      · subst h
        cases lastValue? { table := t, sets := rest, predicate := p } first.1.position <;>
          by_cases hlt : first.1.position < values.length <;> simp [hlt]
      · simp [h]

def newRow (u : Update) (row : Row) : Row :=
  { row with values := u.payload row.values }

/-- What a successful update made of a store, and what it answered. -/
structure Changed (u : Update) (s s' : TableStore) (r : ResultSet) : Prop where
  sound : s'.Sound
  table : s'.table = s.table
  rows : ∀ id, s'.row? id = (s.row? id).map fun row =>
    if u.table.selects u.predicate row then u.newRow row else row
  answer : r.rows.Perm ((s.toList.filter (u.table.selects u.predicate)).map fun row =>
    u.payload row.values)

theorem changed_of_perm {u : Update} {rows : List Row} (h : s.Sound)
    (hrows : rows.Perm (s.toList.filter (u.table.selects u.predicate)))
    (hok : ((rows.map u.newRow).forM fun row => do
      let _ ← TableStore.update row).perform s = (.ok (), s')) :
    u.Changed s s' (u.table.writtenRows ((rows.map u.newRow).map (·.values))) := by
  have hmap : (rows.map u.newRow).map (·.id) = rows.map (·.id) := List.map_map
  have hids : (rows.map (·.id)).Nodup := by
    apply (hrows.map _).nodup_iff.mpr
    exact h.nodup_toList.sublist (List.filter_sublist.map _)
  rcases h.updateAll_ok (hmap ▸ hids) hok with ⟨hsound, htable, hwritten, hothers⟩
  refine ⟨hsound, htable, ?_, ?_⟩
  · intro id
    rw [hmap] at hothers
    by_cases hid : id ∈ rows.map (·.id)
    · rcases List.mem_map.mp hid with ⟨row, hrow, rfl⟩
      have hnew : s'.row? row.id = some (u.newRow row) := hwritten _ (List.mem_map_of_mem hrow)
      rw [hrows.mem_iff, List.mem_filter, h.mem_toList_iff] at hrow
      have hget : s.row? row.id = some row := hrow.1
      simp [hnew, hget, hrow.2]
    · rw [hothers id hid]
      rw [h.mem_ids_iff hrows, not_exists] at hid
      cases hget : s.row? id with
      | none => rfl
      | some row =>
          have hselected := not_and.mp (hid row) hget
          simp [hselected]
  · have hvalues := hrows.map fun row => u.payload row.values
    simpa [Table.writtenRows, newRow, Function.comp_def] using hvalues

end Update

/-!
## Deletions
-/

namespace Deletion

/-- What a successful deletion made of a store, and what it answered. -/
structure Changed (d : Deletion) (s s' : TableStore) (r : ResultSet) : Prop where
  sound : s'.Sound
  table : s'.table = s.table
  rows : ∀ id, s'.row? id = (s.row? id).filter fun row => !d.table.selects d.predicate row
  answer : r.rows.Perm ((s.toList.filter (d.table.selects d.predicate)).map (·.values))

theorem changed_of_perm {d : Deletion} {rows : List Row} (h : s.Sound)
    (hrows : rows.Perm (s.toList.filter (d.table.selects d.predicate)))
    (hok : (rows.forM fun row => do
      let _ ← TableStore.delete row.id).perform s = (.ok (), s')) :
    d.Changed s s' (d.table.writtenRows (rows.map (·.values))) := by
  rcases h.deleteAll_ok hok with ⟨hsound, htable, hleft⟩
  refine ⟨hsound, htable, ?_, hrows.map _⟩
  intro id
  rw [hleft]
  simp only [h.mem_ids_iff hrows]
  cases s.row? id with
  | none => simp
  | some row =>
      by_cases hselected : d.table.selects d.predicate row = true <;>
        simp [hselected, Option.filter]

end Deletion

/-!
## Statements that change rows
-/

namespace Workspace

/-- A statement that goes on with the rows that match goes on with those that the predicate
selects. -/
theorem Offers.matching {planner : Planner} {p : Option Predicate} {α : Type} {a : α}
    {k : List Row → Action Workspace α} (h : w.Offers committed t s)
    (htyped : ∀ p' ∈ p, ∀ c ∈ p'.columns, c.TypedIn [t])
    (hrun : (do
      let view ← Action.ofOutcome ((← get).work.view committed)
      let rows ← Action.ofOutcome (planner.matchingRows view.store? t p)
      k rows : Action Workspace α).perform w = (.ok a, w')) :
    ∃ rows, rows.Perm (s.toList.filter (t.selects p)) ∧ (k rows).perform w = (.ok a, w') := by
  rw [perform_view h.writable] at hrun
  rcases Action.perform_bind_eq_ok hrun with ⟨rows, w₁, hrows, hrun⟩
  rcases Prod.mk.inj hrows with ⟨hmatching, rfl⟩
  have hnamed := h.schema.wellFormed.indicesNamedApart
  exact ⟨rows, planner.matchingRows_perm h.found h.sound hnamed h.columns htyped hmatching, hrun⟩

/-- What successful updates and deletions do to a table that the workspace offers: the rows that
their predicate selected in it are changed or gone, all other rows and all other tables are as they
were, and every row that was affected is answered once. -/
theorem changes_affect_the_selected_rows (planner : Planner) (h : w.Offers committed t s) :
    (∀ (u : Update) (r : ResultSet) (w' : Workspace), u.table = t →
      (∀ p ∈ u.predicate, ∀ c ∈ p.columns, c.TypedIn [t]) →
      ((Statement.update u).run planner committed).perform w = (.ok r, w') →
      ∃ s', w.Wrote committed t.name s' w' ∧ u.Changed s s' r) ∧
    ∀ (d : Deletion) (r : ResultSet) (w' : Workspace), d.table = t →
      (∀ p ∈ d.predicate, ∀ c ∈ p.columns, c.TypedIn [t]) →
      ((Statement.delete d).run planner committed).perform w = (.ok r, w') →
      ∃ s', w.Wrote committed t.name s' w' ∧ d.Changed s s' r := by
  constructor
  -- The rows are found before the first of them is written, so the writes go on as they would on
  -- the store alone, one row after the other.
  · rintro u r w' rfl htyped hrun
    change (u.run planner committed).perform w = _ at hrun
    rcases h.matching htyped hrun with ⟨rows, hperm, hrun⟩
    have hnew : (rows.map fun row => { row with values := u.newValues row.values } : List Row) =
        rows.map u.newRow := by
      simp only [Update.newValues_eq_payload]
      rfl
    simp only [hnew] at hrun
    rcases Action.perform_bind_eq_ok hrun with ⟨_, w₁, hwrites, heq⟩
    cases heq
    have hmatches : Action.Matches (fun s w' => w.Wrote committed u.table.name s w')
        ((rows.map u.newRow).forM fun row => do let _ ← TableStore.update row)
        ((rows.map u.newRow).forM fun row => do
          let _ ← onWork (UnitOfWork.update committed u.table.name row)) :=
      Action.Matches.forM (fun row => (matches_store _ _ _).bind fun _ => Action.matches_pure ()) _
    rcases exists_store hmatches h.writable h.found hwrites with ⟨s', hok, hwrote⟩
    exact ⟨s', hwrote, Update.changed_of_perm h.sound hperm hok⟩
  · rintro d r w' rfl htyped hrun
    change (d.run planner committed).perform w = _ at hrun
    rcases h.matching htyped hrun with ⟨rows, hperm, hrun⟩
    rcases Action.perform_bind_eq_ok hrun with ⟨_, w₁, hwrites, heq⟩
    cases heq
    have hmatches : Action.Matches (fun s w' => w.Wrote committed d.table.name s w')
        (rows.forM fun row => do let _ ← TableStore.delete row.id)
        (rows.forM fun row => do
          let _ ← onWork (UnitOfWork.delete committed d.table.name row.id)) :=
      Action.Matches.forM (fun row => (matches_store _ _ _).bind fun _ => Action.matches_pure ()) _
    rcases exists_store hmatches h.writable h.found hwrites with ⟨s', hok, hwrote⟩
    exact ⟨s', hwrote, Deletion.changed_of_perm h.sound hperm hok⟩

def sizeIn (name : String) : ColumnRef where
  table := name
  column := "size"
  position := 1
  type := .float64

def sizeIs (name : String) (comparison : Comparison) (size : Value) : Predicate :=
  .condition (.test
    { column := sizeIn name, comparison := comparison, operands := [.literal size] })

theorem typedIn_of_mem_columns_sizeIs {name : String} {comparison : Comparison} {size : Value}
    (ht : t.columns = Table.items.columns) :
    ∀ p ∈ some (sizeIs name comparison size), ∀ c ∈ p.columns, c.TypedIn [t] := by
  intro p hp c hc u hu _ column hcolumn
  cases hp
  cases List.mem_singleton.mp hu
  rw [List.mem_singleton.mp hc, ht] at hcolumn
  rw [List.mem_singleton.mp hc]
  cases hcolumn
  rfl

def growth : Update where
  table := Table.items.withAlias "it"
  sets := [(sizeIn "it", .float64 ⟨2⟩), (sizeIn "it", .float64 ⟨1⟩)]
  predicate := some (sizeIs "it" .le (.float64 ⟨1⟩))

def removal (size : Value) : Deletion where
  table := .items
  predicate := some (sizeIs "item" .eq size)

/-- Both items grow, each of them once, although they are found by an index over their sizes and
still satisfy the predicate afterwards.  Both can be removed by their size. -/
theorem items_grow_once :
    let w : Workspace := { work := { id := 1, mode := .readWrite }, rowIds := {} }
    (∃ r w' s', ((Statement.update growth).run {} overTwoItems).perform w = (.ok r, w') ∧
      w'.sees overTwoItems "item" = some s' ∧
        s'.row? 1 = some { id := 1, values := [.int64 7, .float64 ⟨1⟩] } ∧
        s'.row? 2 = some { id := 2, values := [.int64 8, .float64 ⟨1⟩] }) ∧
    ∃ r w' s', ((Statement.delete (removal (.float64 ⟨0⟩))).run {} overTwoItems).perform w =
        (.ok r, w') ∧
      w'.sees overTwoItems "item" = some s' ∧ s'.row? 1 = none ∧ s'.row? 2 = none := by
  intro w
  have hoffers : w.Offers overTwoItems .items Select.twoItems := offers_twoItems 1 {}
  have hgrowth : ∃ r w', ((Statement.update growth).run {} overTwoItems).perform w = (.ok r, w') :=
    ⟨_, _, rfl⟩
  have hremoval : ∃ r w', ((Statement.delete (removal (.float64 ⟨0⟩))).run {}
      overTwoItems).perform w = (.ok r, w') := ⟨_, _, rfl⟩
  rcases hgrowth with ⟨r, w', hgrowth⟩
  rcases hremoval with ⟨r₁, w₁, hremoval⟩
  constructor
  · rcases (changes_affect_the_selected_rows {} (hoffers.withAlias "it")).1 growth r w' rfl
      (typedIn_of_mem_columns_sizeIs rfl) hgrowth with ⟨s', hwrote, hchanged⟩
    exact ⟨r, w', s', hgrowth, hwrote.found, hchanged.rows 1, hchanged.rows 2⟩
  · rcases (changes_affect_the_selected_rows {} hoffers).2 _ r₁ w₁ rfl
      (typedIn_of_mem_columns_sizeIs rfl) hremoval with ⟨s', hwrote, hchanged⟩
    exact ⟨r₁, w₁, s', hremoval, hwrote.found, hchanged.rows 1, hchanged.rows 2⟩

theorem not_changed_of_length {d : Deletion} {r : ResultSet}
    (h : (r.rows.length != (s.toList.filter (d.table.selects d.predicate)).length) = true) :
    ¬ ∃ s', d.Changed s s' r := by
  rintro ⟨s', hchanged⟩
  have hlength := hchanged.answer.length_eq
  rw [List.length_map] at hlength
  simp [hlength] at h

/-- An item that is listed under its old size is not removed by its size. -/
theorem replaced_item_is_not_removed :
    (Statement.delete (removal (.float64 ⟨1⟩))).check = .ok () ∧
    ∃ d b s r w', (Database.load .shop { persistIndices := some true }).perform
        (Backstore.afterSittings .shop {} Service.replacedItem).repair = (.ok d, b) ∧
      (d.workspace { work := { id := 1, mode := .readWrite } }).sees d.committed "item" = some s ∧
      ((Statement.delete (removal (.float64 ⟨1⟩))).run d.planner d.committed).perform
        (d.workspace { work := { id := 1, mode := .readWrite } }) = (.ok r, w') ∧
      ¬ ∃ s', (removal (.float64 ⟨1⟩)).Changed s s' r := by
  refine ⟨rfl, ?_⟩
  have hpasses : Database.passes
      ((Database.load .shop { persistIndices := some true }).perform
        (Backstore.afterSittings .shop {} Service.replacedItem).repair)
      { work := { id := 1, mode := .readWrite } } "item" (.delete (removal (.float64 ⟨1⟩)))
      (fun _ s r _ => r.rows.length != (s.toList.filter ((removal (.float64 ⟨1⟩)).table.selects
        (removal (.float64 ⟨1⟩)).predicate)).length) = true := by
    decide +kernel
  rcases Database.exists_of_passes hpasses with ⟨d, b, s, r, w', hload, hs, hrun, htest⟩
  exact ⟨d, b, s, r, w', hload, hs, hrun, not_changed_of_length htest⟩

end Workspace

end RelationalDb
