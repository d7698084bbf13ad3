import Mathlib
import RelationalDb.Proofs.Database.Statements
import RelationalDb.Proofs.Store.Views

/-!
# Statements and what they see

How a statement ends, and what it makes of the stores, depends only on the stores that it sees
and on the source of row ids.  It does not matter which of them are committed and which are
staged.
-/

namespace RelationalDb

namespace Workspace

/-- The stores that a statement sees. -/
def sees (committed : Committed) (w : Workspace) : TableSource :=
  w.work.journal.sees committed

/-- The unit of work goes on and may write. -/
structure Writable (w : Workspace) : Prop where
  active : w.work.phase = .active
  mode : w.work.mode = .readWrite
  ordered : w.work.journal.staged.Ordered

variable {committed committed' : Committed} {w w' : Workspace} {table : String} {s s' : TableStore}
  {row : Row} {α : Type}

/-!
## Reading
-/

theorem perform_view (h : w.Writable) (k : View → Action Workspace α) :
    (do
      let view ← Action.ofOutcome ((← get).work.view committed)
      k view : Action Workspace α).perform w =
      (k { committed := committed, journal := some w.work.journal }).perform w := by
  rcases w with ⟨⟨number, mode, journal, phase⟩, rowIds⟩
  cases h.active
  rfl

/-!
## Writing
-/

/-- The workspace after a write: that store has been put in its place, nothing else has changed. -/
structure Wrote (committed : Committed) (w : Workspace) (table : String) (s : TableStore)
    (w' : Workspace) : Prop where
  writable : w'.Writable
  rowIds : w'.rowIds = w.rowIds
  sees : w'.sees committed = Function.update (w.sees committed) table (some s)

theorem perform_onWork_write (h : w.Writable) (a : Action Journal α) :
    (onWork (UnitOfWork.write a)).perform w =
      ((a.perform w.work.journal).1,
        { w with work := { w.work with journal := (a.perform w.work.journal).2 } }) := by
  rcases w with ⟨⟨number, mode, journal, phase⟩, rowIds⟩
  cases h.active
  cases h.mode
  rfl

theorem perform_staging (h : w.Writable) (hs : w.sees committed table = some s)
    (a : Action TableStore α) (names : TableStore → α → List String)
    (f : α → ChangeSet → ChangeSet) :
    ∃ w', (onWork (UnitOfWork.write (Journal.staging committed table a names f))).perform w =
        ((a.perform s).1, w') ∧ w.Wrote committed table (a.perform s).2 w' := by
  rcases Journal.perform_staging_sees h.ordered hs a names f with ⟨j', hperform, hordered, hsees⟩
  rw [perform_onWork_write h, hperform]
  exact ⟨_, rfl, ⟨h.active, h.mode, hordered⟩, rfl, hsees⟩

theorem perform_staging_none (h : w.Writable) (hs : w.sees committed table = none)
    (a : Action TableStore α) (names : TableStore → α → List String)
    (f : α → ChangeSet → ChangeSet) :
    (onWork (UnitOfWork.write (Journal.staging committed table a names f))).perform w =
      (.error (.tableNotFound table), w) := by
  rw [perform_onWork_write h, Journal.perform_staging_none hs]

theorem perform_update (h : w.Writable) (hs : w.sees committed table = some s) (row : Row) :
    ∃ w', (onWork (UnitOfWork.update committed table row)).perform w =
        (((TableStore.update row).perform s).1, w') ∧
      w.Wrote committed table ((TableStore.update row).perform s).2 w' :=
  perform_staging h hs _ _ _

theorem perform_update_none (h : w.Writable) (hs : w.sees committed table = none) (row : Row) :
    (onWork (UnitOfWork.update committed table row)).perform w =
      (.error (.tableNotFound table), w) :=
  perform_staging_none h hs _ _ _

theorem perform_delete (h : w.Writable) (hs : w.sees committed table = some s) (id : RowId) :
    ∃ w', (onWork (UnitOfWork.delete committed table id)).perform w =
        (((TableStore.delete id).perform s).1, w') ∧
      w.Wrote committed table ((TableStore.delete id).perform s).2 w' :=
  perform_staging h hs _ _ _

theorem perform_delete_none (h : w.Writable) (hs : w.sees committed table = none) (id : RowId) :
    (onWork (UnitOfWork.delete committed table id)).perform w =
      (.error (.tableNotFound table), w) :=
  perform_staging_none h hs _ _ _

theorem perform_insert_eq (row : Row) (w : Workspace) :
    (onWork (UnitOfWork.insert committed table row)).perform w =
      ((((onWork (UnitOfWork.write (Journal.insert committed table row))).perform w).1.map
        fun _ => row.id),
        ((onWork (UnitOfWork.write (Journal.insert committed table row))).perform w).2) := by
  unfold UnitOfWork.insert onWork
  rw [Action.perform_onPart, Action.perform_onPart, Action.perform_bind]
  rcases (UnitOfWork.write (Journal.insert committed table row)).perform w.work with ⟨r, u⟩
  cases r with
  | error e => rfl
  | ok x => rfl

theorem perform_insert (h : w.Writable) (hs : w.sees committed table = some s) (row : Row) :
    ∃ w', (onWork (UnitOfWork.insert committed table row)).perform w =
        (((TableStore.insert row).perform s).1.map fun _ => row.id, w') ∧
      w.Wrote committed table ((TableStore.insert row).perform s).2 w' := by
  rw [perform_insert_eq, Journal.insert_eq_staging]
  rcases perform_staging h hs (TableStore.insert row) (fun s _ => Journal.indexNames s)
    (fun _ c => c.add row) with ⟨w', hperform, hwrote⟩
  rw [hperform]
  exact ⟨w', rfl, hwrote⟩

theorem perform_insert_none (h : w.Writable) (hs : w.sees committed table = none) (row : Row) :
    (onWork (UnitOfWork.insert committed table row)).perform w =
      (.error (.tableNotFound table), w) := by
  rw [perform_insert_eq, Journal.insert_eq_staging, perform_staging_none h hs]
  rfl

theorem Wrote.nothing (h : w.Writable) (hs : w.sees committed table = some s) :
    w.Wrote committed table s w :=
  ⟨h, rfl, by rw [← hs, Function.update_eq_self]⟩

theorem Wrote.found (h : w.Wrote committed table s w') :
    w'.sees committed table = some s := by
  rw [h.sees, Function.update_self]

theorem Wrote.trans {w'' : Workspace} (h : w.Wrote committed table s w')
    (h' : w'.Wrote committed table s' w'') : w.Wrote committed table s' w'' where
  writable := h'.writable
  rowIds := h'.rowIds.trans h.rowIds
  sees := by rw [h'.sees, h.sees, Function.update_idem]

theorem matches_store (a : Action TableStore α)
    (names : TableStore → α → List String) (f : α → ChangeSet → ChangeSet) :
    Action.Matches (fun s w' => w.Wrote committed table s w') a
      (onWork (UnitOfWork.write (Journal.staging committed table a names f))) := by
  intro s w' h
  rcases perform_staging h.writable h.found a names f with ⟨w'', hperform, hwrote⟩
  rw [hperform]
  exact ⟨rfl, h.trans hwrote⟩

theorem exists_store {a : Action TableStore Unit} {b : Action Workspace Unit}
    (hab : Action.Matches (fun s w' => w.Wrote committed table s w') a b) (h : w.Writable)
    (hs : w.sees committed table = some s) (hok : b.perform w = (.ok (), w')) :
    ∃ s', a.perform s = (.ok (), s') ∧ w.Wrote committed table s' w' := by
  have hmatch := hab s w (Wrote.nothing h hs)
  rw [hok] at hmatch
  exact ⟨_, Prod.ext hmatch.1 rfl, hmatch.2⟩

/-!
## Workspaces that look alike
-/

/-- The two workspaces may write, see the same stores and have the same source of row ids. -/
structure Alike (committed committed' : Committed) (w w' : Workspace) : Prop where
  left : w.Writable
  right : w'.Writable
  sees : w.sees committed = w'.sees committed'
  rowIds : w.rowIds = w'.rowIds

theorem matches_staging (a : Action TableStore α) (names : TableStore → α → List String)
    (f : α → ChangeSet → ChangeSet) :
    Action.Matches (Alike committed committed')
      (onWork (UnitOfWork.write (Journal.staging committed table a names f)))
      (onWork (UnitOfWork.write (Journal.staging committed' table a names f))) := by
  intro w w' h
  cases hs : w.sees committed table with
  | none =>
      rw [perform_staging_none h.left hs, perform_staging_none h.right (h.sees ▸ hs)]
      exact ⟨rfl, h⟩
  | some s =>
      rcases perform_staging h.left hs a names f with ⟨w₁, hperform, hwrote⟩
      rcases perform_staging h.right (h.sees ▸ hs) a names f with ⟨w₁', hperform', hwrote'⟩
      rw [hperform, hperform']
      refine ⟨rfl, hwrote.writable, hwrote'.writable, ?_, ?_⟩
      · rw [hwrote.sees, hwrote'.sees, h.sees]
      · rw [hwrote.rowIds, hwrote'.rowIds, h.rowIds]

theorem matches_onWork_bind {β : Type} {a b : Action UnitOfWork α} {f g : α → Action UnitOfWork β}
    (h : Action.Matches (Alike committed committed') (onWork a >>= fun x => onWork (f x))
      (onWork b >>= fun x => onWork (g x))) :
    Action.Matches (Alike committed committed') (onWork (a >>= f)) (onWork (b >>= g)) := by
  have hsplit : ∀ (a : Action UnitOfWork α) (f : α → Action UnitOfWork β) (w : Workspace),
      (onWork (a >>= f)).perform w = (onWork a >>= fun x => onWork (f x)).perform w := by
    intro a f w
    unfold onWork
    rw [Action.perform_onPart, Action.perform_bind, Action.perform_bind, Action.perform_onPart]
    rcases a.perform w.work with ⟨r, u⟩
    cases r with
    | error e => rfl
    | ok x => rfl
  intro w w' hw
  rw [hsplit, hsplit]
  exact h w w' hw

theorem matches_insert (row : Row) :
    Action.Matches (Alike committed committed') (onWork (UnitOfWork.insert committed table row))
      (onWork (UnitOfWork.insert committed' table row)) := by
  unfold UnitOfWork.insert
  rw [Journal.insert_eq_staging, Journal.insert_eq_staging]
  exact matches_onWork_bind ((matches_staging _ _ _).bind fun _ _ _ h => ⟨rfl, h⟩)

theorem perform_freshId (w : Workspace) :
    freshId.perform w = (.ok w.rowIds.take.1, { w with rowIds := w.rowIds.take.2 }) := rfl

theorem matches_freshId : Action.Matches (Alike committed committed') freshId freshId := by
  intro w w' h
  rw [perform_freshId, perform_freshId, h.rowIds]
  exact ⟨rfl, ⟨h.left.active, h.left.mode, h.left.ordered⟩,
    ⟨h.right.active, h.right.mode, h.right.ordered⟩, h.sees, rfl⟩

theorem matches_view {k k' : View → Action Workspace α}
    (h : ∀ v v' : View, v.store? = v'.store? →
      Action.Matches (Alike committed committed') (k v) (k' v')) :
    Action.Matches (Alike committed committed')
      (do
        let view ← Action.ofOutcome ((← get).work.view committed)
        k view)
      (do
        let view ← Action.ofOutcome ((← get).work.view committed')
        k' view) := by
  intro w w' hw
  rw [perform_view hw.left, perform_view hw.right]
  exact h _ _ hw.sees w w' hw

theorem matches_matching {planner : Planner} {t : Table} {p : Option Predicate}
    {k k' : List Row → Action Workspace α}
    (hk : ∀ rows, Action.Matches (Alike committed committed') (k rows) (k' rows)) :
    Action.Matches (Alike committed committed')
      (do
        let view ← Action.ofOutcome ((← get).work.view committed)
        let rows ← Action.ofOutcome (planner.matchingRows view.store? t p)
        k rows)
      (do
        let view ← Action.ofOutcome ((← get).work.view committed')
        let rows ← Action.ofOutcome (planner.matchingRows view.store? t p)
        k' rows) := by
  apply matches_view
  intro v v' hv
  rw [hv]
  exact (Action.matches_ofOutcome _).bind hk

end Workspace

open Workspace (Alike)

variable {committed committed' : Committed}

namespace Insertion

def old? (i : Insertion) (stores : TableSource) (values : List Value) : Option Row :=
  if i.replace then (stores i.table.name).bind (·.rowWithKeyOf? values) else none

/-- Write values in the place of an old row, or as a fresh row. -/
def place (i : Insertion) (committed : Committed) (values : List Value) (old : Option Row) :
    Action Workspace Unit :=
  old.elim
    (do
      let id ← Workspace.freshId
      let _ ← Workspace.onWork
        (UnitOfWork.insert committed i.table.name { id := id, values := values }))
    fun old => do
      let _ ← Workspace.onWork
        (UnitOfWork.update committed i.table.name { old with values := values })

theorem perform_writeRow {w : Workspace} (h : w.Writable) (i : Insertion) (values : List Value) :
    (i.writeRow committed values).perform w =
      (i.place committed values (i.old? (w.sees committed) values)).perform w := by
  unfold writeRow old?
  by_cases hreplace : i.replace = true
  · simp only [hreplace, if_true]
    rw [Workspace.perform_view h]
    change _ = (i.place committed values
      (i.replaced? { committed := committed, journal := some w.work.journal } values)).perform w
    cases i.replaced? { committed := committed, journal := some w.work.journal } values with
    | none => rfl
    | some old => rfl
  · simp only [hreplace]
    rfl

theorem matches_place (i : Insertion) (values : List Value) (old : Option Row) :
    Action.Matches (Alike committed committed') (i.place committed values old)
      (i.place committed' values old) := by
  cases old with
  | some old =>
      exact (Workspace.matches_staging _ _ _).bind fun _ => Action.matches_pure _
  | none =>
      refine Workspace.matches_freshId.bind fun id => ?_
      exact (Workspace.matches_insert _).bind fun _ => Action.matches_pure _

theorem matches_writeRow (i : Insertion) (values : List Value) :
    Action.Matches (Alike committed committed') (i.writeRow committed values)
      (i.writeRow committed' values) := by
  intro w w' hw
  rw [perform_writeRow hw.left, perform_writeRow hw.right, hw.sees]
  exact matches_place i values _ w w' hw

end Insertion

/-- How a statement ends and what it makes of the stores depends on the stores that it sees and
on the source of row ids. -/
theorem Statement.matches_run (s : Statement) (planner : Planner) :
    Action.Matches (Alike committed committed') (s.run planner committed)
      (s.run planner committed') := by
  cases s with
  | select q =>
      apply Workspace.matches_view
      intro v v' hv
      rw [hv]
      exact Action.matches_ofOutcome _
  | insert i =>
      exact (Action.Matches.forM i.matches_writeRow i.rows).bind fun _ => Action.matches_pure _
  | update u =>
      apply Workspace.matches_matching
      intro rows
      refine Action.Matches.bind ?_ fun _ => Action.matches_pure _
      apply Action.Matches.forM
      intro row
      exact (Workspace.matches_staging _ _ _).bind fun _ => Action.matches_pure _
  | delete d =>
      apply Workspace.matches_matching
      intro rows
      refine Action.Matches.bind ?_ fun _ => Action.matches_pure _
      apply Action.Matches.forM
      intro row
      exact (Workspace.matches_staging _ _ _).bind fun _ => Action.matches_pure _

end RelationalDb
