import Mathlib
import RelationalDb.Database.Execution
import RelationalDb.Proofs.Store.Journals

/-!
# What a statement leaves behind

A statement that runs, to its end or up to a failure, leaves a unit of work that is still
going on, whose journal tracks the committed tables and stages no more of them than before,
except for the table that the statement changes.
-/

namespace RelationalDb

variable {P : String → Prop} {committed : Committed} {id : Nat} {mode : AccessMode} {table : String}

namespace UnitOfWork

/-- A unit of work goes on under a number and in a mode, with a journal that tracks the committed
tables and stages only those of a kind. -/
structure Going (P : String → Prop) (committed : Committed) (id : Nat) (mode : AccessMode)
    (u : UnitOfWork) : Prop where
  id_eq : u.id = id
  mode_eq : u.mode = mode
  active : u.phase = .active
  tracks : u.journal.TracksOnly P committed

theorem keeps_write {α : Type} {a : Action Journal α}
    (ha : Action.Keeps (Journal.TracksOnly P committed) a) :
    Action.Keeps (Going P committed id mode) (write a) := by
  unfold write
  refine Action.keeps_get.bind fun u => ?_
  refine (Action.keeps_ofOutcome _).bind fun _ => ?_
  exact ha.onPart (fun u h => h.tracks) fun u j h hj =>
    ⟨h.id_eq, h.mode_eq, h.active, hj⟩

theorem keeps_insert (hc : committed.WellKept) (htable : P table) (row : Row) :
    Action.Keeps (Going P committed id mode) (insert committed table row) :=
  (keeps_write (Journal.keeps_insert hc htable row)).bind fun _ => Action.keeps_pure _

theorem keeps_update (hc : committed.WellKept) (htable : P table) (row : Row) :
    Action.Keeps (Going P committed id mode) (update committed table row) :=
  keeps_write (Journal.keeps_update hc htable row)

theorem keeps_delete (hc : committed.WellKept) (htable : P table) (rowId : RowId) :
    Action.Keeps (Going P committed id mode) (delete committed table rowId) :=
  keeps_write (Journal.keeps_delete hc htable rowId)

end UnitOfWork

namespace Workspace

def Going (P : String → Prop) (committed : Committed) (id : Nat) (mode : AccessMode)
    (w : Workspace) : Prop :=
  w.work.Going P committed id mode

theorem keeps_onWork {α : Type} {a : Action UnitOfWork α}
    (ha : Action.Keeps (UnitOfWork.Going P committed id mode) a) :
    Action.Keeps (Going P committed id mode) (onWork a) := by
  exact ha.onPart (fun w h => h) fun w u _ hu => hu

theorem keeps_freshId : Action.Keeps (Going P committed id mode) freshId := by
  intro w h
  exact h

end Workspace

open Workspace (Going)

theorem Insertion.keeps_writeRow (i : Insertion) (hc : committed.WellKept)
    (htable : P i.table.name) (values : List Value) :
    Action.Keeps (Going P committed id mode) (i.writeRow committed values) := by
  unfold writeRow
  have hupdate : ∀ old : Row, Action.Keeps (Going P committed id mode) (do
      let _ ← Workspace.onWork
        (UnitOfWork.update committed i.table.name { old with values := values })) := by
    intro old
    exact (Workspace.keeps_onWork (UnitOfWork.keeps_update hc htable _)).bind fun _ =>
      Action.keeps_pure _
  have hinsert : Action.Keeps (Going P committed id mode) (do
      let rowId ← Workspace.freshId
      let _ ← Workspace.onWork
        (UnitOfWork.insert committed i.table.name { id := rowId, values := values })) := by
    refine Workspace.keeps_freshId.bind fun rowId => ?_
    exact (Workspace.keeps_onWork (UnitOfWork.keeps_insert hc htable _)).bind fun _ =>
      Action.keeps_pure _
  dsimp only
  split
  · refine Action.keeps_get.bind fun w => ?_
    refine (Action.keeps_ofOutcome _).bind fun view => ?_
    refine (Action.keeps_pure _).bind fun old => ?_
    cases old with
    | none => exact hinsert
    | some old => exact hupdate old
  · refine (Action.keeps_pure _).bind fun old => ?_
    cases old with
    | none => exact hinsert
    | some old => exact hupdate old

theorem Insertion.keeps_run (i : Insertion) (hc : committed.WellKept) (htable : P i.table.name) :
    Action.Keeps (Going P committed id mode) (i.run committed) := by
  unfold run
  refine (Action.Keeps.forM fun values _ => i.keeps_writeRow hc htable values).bind fun _ => ?_
  exact Action.keeps_pure _

theorem Workspace.keeps_matching {Q : Workspace → Prop} {α : Type} {planner : Planner} {t : Table}
    {p : Option Predicate} {k : List Row → Action Workspace α}
    (hk : ∀ rows, Action.Keeps Q (k rows)) :
    Action.Keeps Q (do
      let view ← Action.ofOutcome ((← get).work.view committed)
      let rows ← Action.ofOutcome (planner.matchingRows view.store? t p)
      k rows) := by
  refine Action.keeps_get.bind fun w => ?_
  refine (Action.keeps_ofOutcome _).bind fun view => ?_
  exact (Action.keeps_ofOutcome _).bind hk

theorem Update.keeps_run (u : Update) (planner : Planner) (hc : committed.WellKept)
    (htable : P u.table.name) :
    Action.Keeps (Going P committed id mode) (u.run planner committed) := by
  apply Workspace.keeps_matching
  intro rows
  refine Action.Keeps.bind ?_ fun _ => Action.keeps_pure _
  apply Action.Keeps.forM
  intro row _
  exact (Workspace.keeps_onWork (UnitOfWork.keeps_update hc htable row)).bind fun _ =>
    Action.keeps_pure _

theorem Deletion.keeps_run (d : Deletion) (planner : Planner) (hc : committed.WellKept)
    (htable : P d.table.name) :
    Action.Keeps (Going P committed id mode) (d.run planner committed) := by
  apply Workspace.keeps_matching
  intro rows
  refine Action.Keeps.bind ?_ fun _ => Action.keeps_pure _
  apply Action.Keeps.forM
  intro row _
  exact (Workspace.keeps_onWork (UnitOfWork.keeps_delete hc htable row.id)).bind fun _ =>
    Action.keeps_pure _

theorem Statement.keeps_run (s : Statement) (planner : Planner) (hc : committed.WellKept)
    (htarget : ∀ t, s.target = some t → P t.name) :
    Action.Keeps (Going P committed id mode) (s.run planner committed) := by
  cases s with
  | select q =>
      refine Action.keeps_get.bind fun w => ?_
      refine (Action.keeps_ofOutcome _).bind fun view => ?_
      exact Action.keeps_ofOutcome _
  | insert i => exact i.keeps_run hc (htarget _ rfl)
  | update u => exact u.keeps_run planner hc (htarget _ rfl)
  | delete d => exact d.keeps_run planner hc (htarget _ rfl)

end RelationalDb
