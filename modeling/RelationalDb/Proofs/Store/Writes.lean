import Mathlib
import RelationalDb.Proofs.Actions
import RelationalDb.Proofs.Index.KeyIndices
import RelationalDb.Proofs.Index.RowIdSets
import RelationalDb.Store.TableStore

/-!
# What a write to a table store does

The three writes as equations: every check comes before the first change, and what can
still fail afterwards is spelled out with the state that it would leave.  The lemmas on
successful writes say what becomes of the rows, whatever state the indices are in.
-/

namespace RelationalDb

namespace TableStore

variable {s s' : TableStore} {row old : Row} {id : RowId}

theorem perform_onIndices (a : Action ColumnIndex Unit) (s : TableStore) :
    (onIndices a).perform s =
      (((Action.onEach a).perform s.indices).1,
        { s with indices := ((Action.onEach a).perform s.indices).2 }) := rfl

theorem perform_insert (row : Row) (s : TableStore) :
    (insert row).perform s =
      if s.rows.contains row.id then
        (.error (.operation (.rowExists row.id s.table.name)), s)
      else
        match s.table.checkRow row.values, s.checkUnique row,
            s.rowIds.add (RowIdIndex.keyOfId row.id),
            (Action.onEach (ColumnIndex.enter row)).perform s.indices with
        | .error e, _, _, _ => (.error e, s)
        | .ok (), .error e, _, _ => (.error e, s)
        | .ok (), .ok (), .error e, _ => (.error e, s)
        | .ok (), .ok (), .ok rowIds, (.error e, indices) =>
            (.error e, { s with rowIds := rowIds, indices := indices })
        | .ok (), .ok (), .ok rowIds, (.ok (), indices) =>
            (.ok (), { s with
              rowIds := rowIds, indices := indices, rows := s.rows.insert row.id row }) := by
  unfold insert
  rw [Action.perform_bind_ok (Action.perform_get s)]
  by_cases h : s.rows.contains row.id = true
  · simp only [h, if_true]
    rfl
  · simp only [h]
    simp [Action.perform_bind]
    cases s.table.checkRow row.values with
    | error e => rfl
    | ok u =>
    cases s.checkUnique row with
    | error e => rfl
    | ok u =>
    cases s.rowIds.add (RowIdIndex.keyOfId row.id) with
    | error e => rfl
    | ok rowIds =>
    simp only [perform_onIndices]
    rcases (Action.onEach (ColumnIndex.enter row)).perform s.indices with ⟨r, indices⟩
    cases r <;> rfl

theorem perform_update (row : Row) (s : TableStore) :
    (update row).perform s =
      match s.rows.get? row.id with
      | none => (.error (s.rowMissing row.id), s)
      | some old =>
          match s.table.checkRow row.values, s.checkUnique row,
              (Action.onEach (ColumnIndex.move old row)).perform s.indices with
          | .error e, _, _ => (.error e, s)
          | .ok (), .error e, _ => (.error e, s)
          | .ok (), .ok (), (.error e, indices) => (.error e, { s with indices := indices })
          | .ok (), .ok (), (.ok (), indices) =>
              (.ok old, { s with indices := indices, rows := s.rows.insert row.id row }) := by
  unfold update
  rw [Action.perform_bind_ok (Action.perform_get s)]
  change (match s.rows.get? row.id with | none => _ | some old => _ : Action _ _).perform s = _
  cases s.rows.get? row.id with
  | none => rfl
  | some old =>
      simp [Action.perform_bind]
      cases s.table.checkRow row.values with
      | error e => rfl
      | ok u =>
      cases s.checkUnique row with
      | error e => rfl
      | ok u =>
      simp only [perform_onIndices]
      rcases (Action.onEach (ColumnIndex.move old row)).perform s.indices with ⟨r, indices⟩
      cases r <;> rfl

theorem perform_delete (id : RowId) (s : TableStore) :
    (delete id).perform s =
      match s.rows.get? id with
      | none => (.error (s.rowMissing id), s)
      | some row =>
          let struck := (Action.onEach (ColumnIndex.strike row)).perform s.indices
          (struck.1.map fun _ => row,
            { s with
              rows := s.rows.erase id
              rowIds := s.rowIds.remove (RowIdIndex.keyOfId id)
              indices := struck.2 }) := by
  unfold delete
  rw [Action.perform_bind_ok (Action.perform_get s)]
  change (match s.rows.get? id with | none => _ | some row => _ : Action _ _).perform s = _
  cases s.rows.get? id with
  | none => rfl
  | some row =>
      simp only [Action.perform_bind, Action.perform_modify, perform_onIndices]
      rcases (Action.onEach (ColumnIndex.strike row)).perform s.indices with ⟨r, indices⟩
      cases r <;> rfl

/-!
## Successful writes
-/

theorem insert_eq_ok (h : (insert row).perform s = (.ok (), s')) :
    s.rows.get? row.id = none ∧ s.table.checkRow row.values = .ok () ∧
      s.checkUnique row = .ok () ∧
      ∃ rowIds indices, s.rowIds.add (RowIdIndex.keyOfId row.id) = .ok rowIds ∧
        (Action.onEach (ColumnIndex.enter row)).perform s.indices = (.ok (), indices) ∧
        s' = { s with
          rowIds := rowIds, indices := indices, rows := s.rows.insert row.id row } := by
  rw [perform_insert] at h
  split at h
  · cases h
  · next hcontains =>
      split at h
      · cases h
      · cases h
      · cases h
      · cases h
      · next hrow hunique hadd henter =>
          cases h
          exact ⟨SortedMap.contains_eq_false_iff.mp (by simpa using hcontains), hrow, hunique,
            _, _, hadd, henter, rfl⟩

theorem update_eq_ok (h : (update row).perform s = (.ok old, s')) :
    s.rows.get? row.id = some old ∧ s.table.checkRow row.values = .ok () ∧
      s.checkUnique row = .ok () ∧
      ∃ indices, (Action.onEach (ColumnIndex.move old row)).perform s.indices = (.ok (), indices) ∧
        s' = { s with indices := indices, rows := s.rows.insert row.id row } := by
  rw [perform_update] at h
  split at h
  · cases h
  · next hget =>
      split at h
      · cases h
      · cases h
      · cases h
      · next hrow hunique hmove =>
          cases h
          exact ⟨hget, hrow, hunique, _, hmove, rfl⟩

theorem delete_eq_ok (h : (delete id).perform s = (.ok old, s')) :
    s.rows.get? id = some old ∧
      s' = { s with
        rows := s.rows.erase id
        rowIds := s.rowIds.remove (RowIdIndex.keyOfId id)
        indices := ((Action.onEach (ColumnIndex.strike old)).perform s.indices).2 } := by
  rw [perform_delete] at h
  split at h
  · cases h
  · next row hget =>
      simp only [Prod.mk.injEq] at h
      rcases h with ⟨hok, hs'⟩
      rcases Outcome.map_eq_ok_iff.mp hok with ⟨_, _, rfl⟩
      exact ⟨hget, hs'.symm⟩

theorem table_of_insert (h : (insert row).perform s = (.ok (), s')) : s'.table = s.table := by
  rcases insert_eq_ok h with ⟨_, _, _, rowIds, indices, _, _, rfl⟩
  rfl

theorem table_of_update (h : (update row).perform s = (.ok old, s')) : s'.table = s.table := by
  rcases update_eq_ok h with ⟨_, _, _, indices, _, rfl⟩
  rfl

theorem table_of_delete (h : (delete id).perform s = (.ok old, s')) : s'.table = s.table := by
  rcases delete_eq_ok h with ⟨_, rfl⟩
  rfl

end TableStore

end RelationalDb
