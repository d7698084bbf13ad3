import Mathlib
import RelationalDb.Proofs.Database.Endings
import RelationalDb.Proofs.Database.Workspaces

/-!
# Statements one after the other

Statements that run in one transaction end as if each of them was run alone and its writes were
committed before the next one runs.  What the transaction sees at the end is what is committed
then.
-/

namespace RelationalDb

/-- The committed tables and the source of row ids. -/
structure Tables where
  committed : Committed
  rowIds : RowIdSource

namespace Tables

def run (planner : Planner) (s : Statement) : Action Tables ResultSet := do
  Action.ofOutcome s.check
  let x ← get
  let (r, w) := (s.run planner x.committed).perform
    { work := { id := 0, mode := .readWrite }, rowIds := x.rowIds }
  set { committed := w.work.journal.install x.committed, rowIds := w.rowIds : Tables }
  Action.ofOutcome r

def runAll (planner : Planner) : List Statement → Action Tables (List ResultSet)
  | [] => return []
  | s :: rest => do
      let r ← run planner s
      return r :: (← runAll planner rest)

variable {planner : Planner} {s : Statement} {x : Tables}

def workspace (x : Tables) : Workspace :=
  { work := { id := 0, mode := .readWrite }, rowIds := x.rowIds }

theorem writable_workspace (x : Tables) : x.workspace.Writable :=
  ⟨rfl, rfl, SortedMap.ordered_empty⟩

theorem perform_run (planner : Planner) (hcheck : s.check = .ok ()) (x : Tables) :
    (run planner s).perform x =
      (((s.run planner x.committed).perform x.workspace).1,
        { committed := ((s.run planner x.committed).perform x.workspace).2.work.journal.install
            x.committed
          rowIds := ((s.run planner x.committed).perform x.workspace).2.rowIds }) := by
  unfold run
  rw [hcheck]
  rfl

theorem perform_run_error {e : Failure} (hcheck : s.check = .error e) (x : Tables) :
    (run planner s).perform x = (.error e, x) := by
  unfold run
  rw [hcheck]
  rfl

/-- A statement that ran alone leaves in the tables what it saw at its end. -/
theorem installed (planner : Planner) (hx : x.committed.WellKept) (s : Statement) :
    let w := ((s.run planner x.committed).perform x.workspace).2
    (w.work.journal.install x.committed).WellKept ∧
      ∀ table, (w.work.journal.install x.committed).store? table = w.sees x.committed table := by
  intro w
  have hgoing : w.work.Going (fun _ => True) x.committed 0 .readWrite :=
    s.keeps_run planner hx (fun _ _ => trivial) x.workspace
      ⟨rfl, rfl, rfl, Journal.tracksOnly_empty _ _⟩
  have htracks := hgoing.tracks.toTracks
  exact ⟨htracks.wellKept_install hx, htracks.store?_install hx⟩

end Tables

namespace Database

variable {waiting : SortedMap Nat Journal} {d d' : Database} {id : Nat} {t : Transaction}
  {x : Tables} {s : Statement} {statements : List Statement} {e : Failure}

/-- The transaction goes on and sees the given tables. -/
structure Follows (id : Nat) (x : Tables) (d : Database) : Prop where
  wellKept : x.committed.WellKept
  rowIds : x.rowIds = d.rowIds
  going : ∃ t, d.transactions.get? id = some t ∧ t.work.mode = .readWrite ∧
    t.work.phase = .active ∧
      ∀ table, x.committed.store? table = t.work.journal.sees d.committed table

/-- A statement of the list changes a table that another transaction has locked. -/
def Locked (d : Database) (id : Nat) (statements : List Statement) (e : Failure) : Prop :=
  ∃ s ∈ statements, ∃ table holder, s.target = some table ∧
    d.locks.holder? table.name = some holder ∧ holder ≠ id ∧
      e = .operation (.tableLocked table.name holder)

theorem accept_eq_error (hactive : t.work.phase = .active) (hmode : t.work.mode = .readWrite)
    (h : d.accept t s = .error e) : s.check = .error e ∨ d.Locked t.work.id [s] e := by
  have hgoing : t.work.isActive = true := by
    unfold UnitOfWork.isActive
    rw [hactive]
    rfl
  unfold accept at h
  rw [if_neg (by simp [hgoing])] at h
  cases hcheck : s.check with
  | error e' =>
      rw [hcheck] at h
      cases h
      exact Or.inl rfl
  | ok u =>
      right
      rw [hcheck] at h
      cases htarget : s.target with
      | none =>
          rw [htarget] at h
          cases h
      | some table =>
          rw [htarget, hmode] at h
          change d.locks.acquire table.name t.work.id = .error e at h
          unfold Locks.acquire at h
          split at h
          · cases h
          · next holder hholder =>
              split at h
              · cases h
              · next hne =>
                  cases h
                  exact ⟨s, List.mem_singleton_self s, table, holder, htarget, hholder, hne, rfl⟩

theorem abortFor_of_active {f : Failure} (hd : d.transactions.Ordered)
    (ht : d.transactions.get? id = some t) (hid : t.work.id = id)
    (hactive : t.work.phase = .active) :
    ∃ d' t', (abortFor f id).perform d = (.ok (), d') ∧
      d'.transactions.get? id = some t' ∧ t'.work.phase = .ended .aborted := by
  rw [perform_abortFor, ht]
  dsimp only
  rw [hactive]
  have hended : (d.putTransaction (Session.settled t (.error f))).transactions.get? id =
      some (Session.settled t (.error f)) := by
    change (d.transactions.insert t.work.id _).get? id = _
    rw [SortedMap.get?_insert hd, if_pos hid.symm]
  exact ⟨_, _, rfl, hended, rfl⟩

theorem Follows.alike (h : d.Follows id x) (hd : d.Consistent waiting)
    (ht : d.transactions.get? id = some t) :
    Workspace.Alike d.committed x.committed { work := t.work, rowIds := d.rowIds } x.workspace := by
  rcases h.going with ⟨t', ht', hmode, hactive, hsees⟩
  rw [ht] at ht'
  cases ht'
  refine ⟨⟨hactive, hmode, (hd.guarded ht).orderedStaged⟩, x.writable_workspace, ?_, h.rowIds.symm⟩
  funext table
  exact (hsees table).symm

theorem Follows.attach_ok (h : d.Follows id x) (hd : d.Consistent waiting) {r : ResultSet}
    (hattach : (attach id s).perform d = (.ok r, d')) :
    (∃ x', (Tables.run d.planner s).perform x = (.ok r, x') ∧ d'.Follows id x') ∧
      ∀ {table holder}, d'.locks.holder? table = some holder → holder ≠ id →
        d.locks.holder? table = some holder := by
  rcases h.going with ⟨t, ht, hmode, _, _⟩
  rw [perform_attach, ht] at hattach
  dsimp only at hattach
  cases haccept : d.accept t s with
  | error e =>
      rw [haccept] at hattach
      cases hattach
  | ok locks =>
      rw [haccept] at hattach
      dsimp only at hattach
      rcases accept_eq_ok haccept with ⟨_, hcheck, htarget⟩
      have hnumber := (hd.numbered ht).1
      have hmatch := s.matches_run d.planner _ _ (h.alike hd ht)
      have hgoing := hd.going ht haccept
      cases hr : ((s.run d.planner d.committed).perform { work := t.work, rowIds := d.rowIds }).1 with
      | error f =>
          rw [hr] at hattach
          dsimp only at hattach
          rw [Action.perform_bind] at hattach
          split at hattach
          · cases hattach
          · cases hattach
      | ok rows =>
          rw [hr] at hattach hmatch
          cases hattach
          rcases hmatch with ⟨hsame, halike⟩
          rcases Tables.installed d.planner h.wellKept s with ⟨hinstalled, hstores⟩
          constructor
          · have hrun := Tables.perform_run d.planner hcheck x
            rw [← hsame] at hrun
            refine ⟨_, hrun, hinstalled, halike.rowIds.symm, ?_⟩
            refine ⟨_, hd.get?_ran ht haccept, hgoing.mode_eq.trans hmode, hgoing.active, ?_⟩
            intro table
            exact (hstores table).trans (congrFun halike.sees table).symm
          · intro table holder hheld hne
            change locks.holder? table = some holder at hheld
            rcases htarget with ⟨_, rfl⟩ | ⟨_, _, _, hacquire⟩
            · exact hheld
            · rcases Locks.holder?_of_acquire hacquire hd.orderedLocks hheld with hheld' | heq
              · exact hheld'
              · exact absurd (heq.trans hnumber) hne

/-- A statement that fails in the transaction fails alone too, unless its table is locked.  The
transaction goes on as it was, or it is aborted. -/
theorem Follows.attach_error (h : d.Follows id x) (hd : d.Consistent waiting)
    (hattach : (attach id s).perform d = (.error e, d')) :
    (((Tables.run d.planner s).perform x).1 = .error e ∨ d.Locked id [s] e) ∧
      ∃ t', d'.transactions.get? id = some t' ∧
        (t'.work.phase = .active ∨ t'.work.phase = .ended .aborted) := by
  rcases h.going with ⟨t, ht, hmode, hactive, _⟩
  rw [perform_attach, ht] at hattach
  dsimp only at hattach
  cases haccept : d.accept t s with
  | error e' =>
      rw [haccept] at hattach
      cases hattach
      refine ⟨?_, t, ht, Or.inl hactive⟩
      rcases accept_eq_error hactive hmode haccept with hcheck | hlocked
      · left
        rw [Tables.perform_run_error hcheck]
      · right
        rwa [(hd.numbered ht).1] at hlocked
  | ok locks =>
      rw [haccept] at hattach
      dsimp only at hattach
      rcases accept_eq_ok haccept with ⟨_, hcheck, _⟩
      have hmatch := s.matches_run d.planner _ _ (h.alike hd ht)
      have hgoing := hd.going ht haccept
      cases hr : ((s.run d.planner d.committed).perform { work := t.work, rowIds := d.rowIds }).1 with
      | ok rows =>
          rw [hr] at hattach
          cases hattach
      | error f =>
          rw [hr] at hattach hmatch
          dsimp only at hattach
          rcases abortFor_of_active (f := f) (hd.orderedTransactions.insert _ _)
            (hd.get?_ran ht haccept) hgoing.id_eq hgoing.active with ⟨d₁, t₁, habort, ht₁, hended⟩
          rw [Action.perform_bind_ok habort] at hattach
          cases hattach
          refine ⟨Or.inl ?_, t₁, ht₁, Or.inr hended⟩
          rw [Tables.perform_run d.planner hcheck]
          exact hmatch.1.symm

theorem Follows.attachAll_ok (h : d.Follows id x) (hd : d.Consistent waiting)
    (hwaiting : waiting.get? id = none) {results : List ResultSet}
    (hattach : (Session.attachAll id statements).perform d = (.ok results, d')) :
    ∃ x', (Tables.runAll d.planner statements).perform x = (.ok results, x') ∧
      d'.Follows id x' := by
  -- What carries the induction is that the transaction sees the tables of the run in order.
  induction statements generalizing d x results with
  | nil =>
      cases hattach
      exact ⟨x, rfl, h⟩
  | cons s rest ih =>
      rcases Action.perform_bind_eq_ok hattach with ⟨r, d₁, hfirst, hrest⟩
      rcases Action.perform_bind_eq_ok hrest with ⟨rs, d₂, hattached, hresults⟩
      cases hresults
      have hstays := keeps_attach (x := d.base) hwaiting s d ⟨hd, rfl⟩
      rw [hfirst] at hstays
      have hplanner : d₁.planner = d.planner := congrArg Base.planner hstays.base_eq
      rcases h.attach_ok hd hfirst with ⟨⟨x₁, hrun, h₁⟩, _⟩
      rcases ih h₁ hstays.consistent hattached with ⟨x', hrunAll, h'⟩
      rw [hplanner] at hrunAll
      refine ⟨x', ?_, h'⟩
      rw [Tables.runAll, Action.perform_bind_ok hrun, Action.perform_bind_ok hrunAll]
      rfl

theorem Follows.attachAll_error (h : d.Follows id x) (hd : d.Consistent waiting)
    (hwaiting : waiting.get? id = none)
    (hattach : (Session.attachAll id statements).perform d = (.error e, d')) :
    (((Tables.runAll d.planner statements).perform x).1 = .error e ∨ d.Locked id statements e) ∧
      ∃ t', d'.transactions.get? id = some t' ∧
        (t'.work.phase = .active ∨ t'.work.phase = .ended .aborted) := by
  induction statements generalizing d x with
  | nil => cases hattach
  | cons s rest ih =>
      rcases Action.perform_bind_eq_error hattach with hfirst | ⟨r, d₁, hfirst, hrest⟩
      · rcases h.attach_error hd hfirst with ⟨hcause, hended⟩
        refine ⟨?_, hended⟩
        rcases hcause with hrun | ⟨s', hs', hlocked⟩
        · left
          rcases hperform : (Tables.run d.planner s).perform x with ⟨r, x₁⟩
          rw [hperform] at hrun
          cases hrun
          rw [Tables.runAll, Action.perform_bind_error hperform]
        · right
          rw [List.mem_singleton.mp hs'] at hlocked
          exact ⟨s, List.mem_cons_self, hlocked⟩
      · have hfailed : (Session.attachAll id rest).perform d₁ = (.error e, d') := by
          rcases Action.perform_bind_eq_error hrest with hfailed | ⟨rs, d₂, _, hpure⟩
          · exact hfailed
          · cases hpure
        have hstays := keeps_attach (x := d.base) hwaiting s d ⟨hd, rfl⟩
        rw [hfirst] at hstays
        have hplanner : d₁.planner = d.planner := congrArg Base.planner hstays.base_eq
        rcases h.attach_ok hd hfirst with ⟨⟨x₁, hrun, h₁⟩, hlocks⟩
        rcases ih h₁ hstays.consistent hfailed with ⟨hcause, hended⟩
        refine ⟨?_, hended⟩
        rw [hplanner] at hcause
        rcases hcause with hrunAll | ⟨s', hs', table, holder, htarget, hholder, hne, he⟩
        · left
          rcases hperform : (Tables.runAll d.planner rest).perform x₁ with ⟨r, x₂⟩
          rw [hperform] at hrunAll
          cases hrunAll
          rw [Tables.runAll, Action.perform_bind_ok hrun, Action.perform_bind_error hperform]
        · -- The locks that others hold are those they held before the first statement.
          exact Or.inr ⟨s', List.mem_cons_of_mem _ hs', table, holder, htarget,
            hlocks hholder hne, hne, he⟩

end Database

end RelationalDb
