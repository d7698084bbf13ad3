import Mathlib
import RelationalDb.Proofs.Database.Opening
import RelationalDb.Proofs.Store.Histories
import RelationalDb.Proofs.Store.Views

/-!
# Journals after any writes

A history of a journal is a list of calls that insert, update and delete rows of any tables,
each of which succeeds or fails.  After every history the net changes on record account for
the difference between the committed and the staged rows.
-/

namespace RelationalDb

namespace ChangeSet

/-- The net changes are the difference between two maps of rows: each is on record in one way,
with the row as it was and the row as it is. -/
structure Accounts (c : ChangeSet) (before after : RowMap) : Prop where
  applied : c.applyTo before = after
  added_modified : c.added.keys.Disjoint c.modified.keys
  added_deleted : c.added.keys.Disjoint c.deleted.keys
  modified_deleted : c.modified.keys.Disjoint c.deleted.keys
  added : ∀ {id : RowId} {row : Row}, c.added.get? id = some row →
    before.get? id = none ∧ after.get? id = some row
  modified : ∀ {id : RowId} {old new : Row}, c.modified.get? id = some (old, new) →
    before.get? id = some old ∧ after.get? id = some new
  deleted : ∀ {id : RowId} {old : Row}, c.deleted.get? id = some old →
    before.get? id = some old ∧ after.get? id = none

section NetChange

variable {a d b r : Option Row} {m : Option (Row × Row)} {row old new : Row}

theorem NetChange.alone_of_added (h : NetChange (some row) m d b r) :
    m = none ∧ d = none ∧ b = none := by
  cases h
  exact ⟨rfl, rfl, rfl⟩

theorem NetChange.alone_of_modified (h : NetChange a (some (old, new)) d b r) : d = none := by
  cases h
  rfl

end NetChange

theorem disjoint_keys {α β : Type} {m : SortedMap RowId α} {n : SortedMap RowId β}
    (hm : m.Ordered) (hn : n.Ordered) (h : ∀ id a, m.get? id = some a → n.get? id = none) :
    m.keys.Disjoint n.keys := by
  intro id hid hid'
  rcases (SortedMap.mem_keys_iff hm).mp hid with ⟨a, ha⟩
  rcases (SortedMap.mem_keys_iff hn).mp hid' with ⟨b, hb⟩
  rw [h id a ha] at hb
  cases hb

variable {c : ChangeSet} {before after : RowMap}

theorem Between.accounts (h : c.Between before after) (hbefore : before.Ordered)
    (hafter : after.Ordered) (hkeyed : after.Keyed) : c.Accounts before after where
  applied := h.applyTo_eq hbefore hafter hkeyed
  added_modified := by
    apply disjoint_keys h.orderedAdded h.orderedModified
    intro id row hadded
    have hnet := h.net id
    rw [hadded] at hnet
    exact hnet.alone_of_added.1
  added_deleted := by
    apply disjoint_keys h.orderedAdded h.orderedDeleted
    intro id row hadded
    have hnet := h.net id
    rw [hadded] at hnet
    exact hnet.alone_of_added.2.1
  modified_deleted := by
    apply disjoint_keys h.orderedModified h.orderedDeleted
    intro id p hmodified
    have hnet := h.net id
    rw [hmodified] at hnet
    exact hnet.alone_of_modified
  added := by
    intro id row hadded
    have hnet := h.net id
    rw [hadded] at hnet
    exact ⟨hnet.alone_of_added.2.2, hnet.of_added⟩
  modified := by
    intro id old new hmodified
    have hnet := h.net id
    rw [hmodified] at hnet
    exact hnet.of_modified
  deleted := by
    intro id old hdeleted
    have hnet := h.net id
    rw [hdeleted] at hnet
    exact hnet.of_deleted

end ChangeSet

/-!
## Failing calls
-/

namespace SortedMap

theorem filter_values_insert {κ α : Type} [Ord κ] {m : SortedMap κ α} {k : κ} {a : α}
    {p : α → Bool} (hk : m.get? k = none) (ha : p a = false) :
    (m.insert k a).values.filter p = m.values.filter p := by
  have hentries : ∀ l : List (κ × α), lookup k l = none →
      ((insertEntry k a l).map (·.2)).filter p = (l.map (·.2)).filter p := by
    intro l
    induction l with
    | nil =>
        intro _
        simp [insertEntry, ha]
    | cons e rest ih =>
        intro hl
        unfold lookup at hl
        split at hl
        · cases hl
        · next hne =>
            cases hc : compare k e.1 with
            | lt => simp [insertEntry, hc, ha]
            | eq => exact absurd hc hne
            | gt => simp [insertEntry, hc, List.filter_cons, ih hl]
  exact hentries m.entries hk

end SortedMap

namespace Journal

def changesOf (j : Journal) (table : String) : ChangeSet :=
  (j.changes.get? table).getD { table := table }

/-- Two journals record the same changes and indices, and a reader sees the same rows. -/
structure Alike (committed : Committed) (j j' : Journal) : Prop where
  changesOf : ∀ table, j'.changesOf table = j.changesOf table
  netChanges : j'.netChanges = j.netChanges
  touched : j'.touched = j.touched
  rows : ∀ table, (j'.sees committed table).map (·.rows) = (j.sees committed table).map (·.rows)

variable {committed : Committed} {j j' : Journal} {table : String} {s s' : TableStore} {e : Failure}

theorem Alike.refl (committed : Committed) (j : Journal) : j.Alike committed j where
  changesOf := fun _ => rfl
  netChanges := rfl
  touched := rfl
  rows := fun _ => rfl

theorem Tracks.stage_record (h : j.Tracks committed)
    (hok : (stage committed table).perform j = (.ok s, j')) :
    (∀ t, j'.changesOf t = j.changesOf t) ∧ j'.netChanges = j.netChanges ∧
      j'.touched = j.touched := by
  rw [perform_stage] at hok
  split at hok
  · cases hok
    exact ⟨fun t => rfl, rfl, rfl⟩
  · cases hok
  · next hstaged _ =>
      cases hok
      have hnone := h.changes_eq_none hstaged
      refine ⟨?_, ?_, rfl⟩
      · intro t
        unfold Journal.changesOf
        rw [SortedMap.get?_insert h.orderedChanges]
        split
        · next heq =>
            rw [heq, hnone]
            rfl
        · rfl
      · exact SortedMap.filter_values_insert hnone rfl

/-- Work on a staged store that fails without a change to the rows leaves the journal as it was,
to all who read it. -/
theorem Tracks.alike_of_staging_error {α : Type} {a : Action TableStore α}
    {names : TableStore → α → List String} {f : α → ChangeSet → ChangeSet} (h : j.Tracks committed)
    (ha : ∀ {s s' e}, a.perform s = (.error e, s') → s'.rows = s.rows)
    (hf : (staging committed table a names f).perform j = (.error e, j')) :
    j.Alike committed j' := by
  cases hs : j.sees committed table with
  | none =>
      rw [perform_staging_none hs] at hf
      cases hf
      exact Alike.refl committed j
  | some s =>
      rcases perform_staging_sees h.orderedStaged hs a names f with ⟨j₂, hstaging, _, hsees⟩
      rcases perform_stage_sees h.orderedStaged hs with ⟨j₁, hstage, _, hs₁, _⟩
      rw [hstaging] at hf
      rcases hwork : a.perform s with ⟨r, s'⟩
      rw [hwork] at hf hsees
      cases hf
      have hon : (onStaged table s a).perform j₁ =
          (.error e, { j₁ with staged := j₁.staged.insert table s' }) := by
        unfold onStaged
        rw [Action.perform_onPart, hs₁]
        simp [hwork]
      have hj' : j' = { j₁ with staged := j₁.staged.insert table s' } := by
        unfold staging at hstaging
        rw [Action.perform_bind_ok hstage, Action.perform_bind_error hon] at hstaging
        exact (congrArg Prod.snd hstaging).symm
      rcases h.stage_record hstage with ⟨hchanges, hnet, htouched⟩
      constructor
      · rw [hj']
        exact hchanges
      · rw [hj']
        exact hnet
      · rw [hj']
        exact htouched
      · intro t
        rw [hsees]
        by_cases ht : t = table
        · rw [ht, Function.update_self, hs]
          simp [ha hwork]
        · rw [Function.update_of_ne ht]

end Journal

/-!
## One call
-/

/-- A call that writes to a table through a journal. -/
inductive JournalCall
  | insert (table : String) (row : Row)
  | update (table : String) (row : Row)
  | delete (table : String) (id : RowId)

namespace JournalCall

def action (committed : Committed) : JournalCall → Action Journal (Option Row)
  | insert table row => do
      Journal.insert committed table row
      return none
  | update table row => do
      let old ← Journal.update committed table row
      return some old
  | delete table id => do
      let old ← Journal.delete committed table id
      return some old

variable {committed : Committed} {j j' : Journal} {call : JournalCall} {e : Failure}

theorem keeps_tracks (hc : committed.WellKept) (call : JournalCall) :
    Action.Keeps (fun j => j.Tracks committed) (call.action committed) := by
  have honly : Action.Keeps (Journal.TracksOnly (fun _ => True) committed)
      (call.action committed) := by
    cases call with
    | insert table row =>
        exact (Journal.keeps_insert hc trivial row).bind fun _ => Action.keeps_pure _
    | update table row =>
        exact (Journal.keeps_update hc trivial row).bind fun _ => Action.keeps_pure _
    | delete table id =>
        exact (Journal.keeps_delete hc trivial id).bind fun _ => Action.keeps_pure _
  intro j h
  exact (honly j { toTracks := h, within := fun _ => trivial }).toTracks

theorem alike_of_error (h : j.Tracks committed)
    (hf : (call.action committed).perform j = (.error e, j')) : j.Alike committed j' := by
  cases call with
  | insert table row =>
      rcases Action.perform_bind_eq_error hf with hinsert | ⟨u, j₁, _, hr⟩
      · rw [Journal.insert_eq_staging] at hinsert
        exact h.alike_of_staging_error (fun hs => (TableStore.insert_error hs).1) hinsert
      · cases hr
  | update table row =>
      rcases Action.perform_bind_eq_error hf with hupdate | ⟨old, j₁, _, hr⟩
      · rw [Journal.update_eq_staging] at hupdate
        exact h.alike_of_staging_error (fun hs => (TableStore.update_error hs).1) hupdate
      · cases hr
  | delete table id =>
      rcases Action.perform_bind_eq_error hf with hdelete | ⟨old, j₁, _, hr⟩
      · rw [Journal.delete_eq_staging] at hdelete
        exact h.alike_of_staging_error (fun hs => (TableStore.delete_error hs).1) hdelete
      · cases hr

end JournalCall

/-!
## Histories
-/

namespace Journal

/-- The journal after some calls; those that fail are part of the history too. -/
def after (committed : Committed) (calls : List JournalCall) : Journal :=
  calls.foldl (fun j call => ((call.action committed).perform j).2) {}

variable {committed : Committed} {j : Journal} {table : String} {s : TableStore}

theorem tracks_after (hc : committed.WellKept) (calls : List JournalCall) :
    (after committed calls).Tracks committed := by
  -- by induction on the calls, each of which starts where the last one ended, failed or not
  have hrun : ∀ j : Journal, j.Tracks committed →
      (calls.foldl (fun j call => ((call.action committed).perform j).2) j).Tracks committed := by
    induction calls with
    | nil => exact fun j h => h
    | cons call calls ih => exact fun j h => ih _ (JournalCall.keeps_tracks hc call j h)
  exact hrun {} (tracks_empty committed)

theorem Tracks.accounts (h : j.Tracks committed) (hc : committed.WellKept)
    (hs : j.staged.get? table = some s) :
    ∃ base c, committed.store? table = some base ∧ j.changes.get? table = some c ∧
      c.table = table ∧ c.Accounts base.rows s.rows := by
  rcases h.staged hs with ⟨base, c, hbase, hrecord, htable, hfrom⟩
  exact ⟨base, c, hbase, hrecord, htable,
    hfrom.net.accounts (hc.keyed hbase).ordered hfrom.keyed.ordered hfrom.keyed.id_eq⟩

/-- After any calls the net changes of every staged table are the difference between its committed
and its staged rows.  A further call that fails changes neither them, nor the touched indices, nor
the rows that are seen, and an installation changes the staged tables and no others. -/
theorem net_changes_account_for_staged_rows (hc : committed.WellKept) (calls : List JournalCall) :
    (∀ {table s}, (after committed calls).staged.get? table = some s →
      ∃ base c, committed.store? table = some base ∧
        (after committed calls).changes.get? table = some c ∧ c.table = table ∧
        c.Accounts base.rows s.rows) ∧
    (∀ {table}, (after committed calls).staged.get? table = none →
      (after committed calls).changes.get? table = none) ∧
    (∀ (call : JournalCall) (e : Failure) (j' : Journal),
      (call.action committed).perform (after committed calls) = (.error e, j') →
        (after committed calls).Alike committed j') ∧
    ∀ table, ((after committed calls).install committed).store? table =
      ((after committed calls).staged.get? table).or (committed.store? table) := by
  have h := tracks_after hc calls
  refine ⟨h.accounts hc, h.changes_eq_none, ?_, ?_⟩
  · intro call e j' hf
    exact JournalCall.alike_of_error h hf
  · intro table
    rw [h.store?_install hc, store?_view]
    cases (after committed calls).staged.get? table with
    | some s => rfl
    | none => rfl

def oneItem : Committed where
  stores := ({} : SortedMap String TableStore).insert "item"
    ((TableStore.empty .items).after [.insert { id := 1, values := [.int64 7, .float64 ⟨0⟩] }])

theorem wellKept_oneItem : oneItem.WellKept := by
  have hkeyed := (TableStore.sound_after_empty .items
    [.insert { id := 1, values := [.int64 7, .float64 ⟨0⟩] }]).toKeyed
  exact Committed.wellKept_empty.addStore hkeyed rfl

def itemComesBack : List JournalCall :=
  [.delete "item" 1,
   .insert "item" { id := 1, values := [.int64 7, .float64 ⟨1⟩] },
   .insert "item" { id := 2, values := [.int64 7, .float64 ⟨1⟩] }]

theorem item_that_came_back_is_modified :
    oneItem.WellKept ∧
      ∃ base s c, oneItem.store? "item" = some base ∧
        (after oneItem itemComesBack).staged.get? "item" = some s ∧
        (after oneItem itemComesBack).changes.get? "item" = some c ∧
        c.Accounts base.rows s.rows ∧
        c.added.keys = [] ∧ c.modified.keys = [1] ∧ c.deleted.keys = [] := by
  refine ⟨wellKept_oneItem, ?_⟩
  have hstaged : ((after oneItem itemComesBack).staged.get? "item").isSome = true := by
    decide +kernel
  have hkeys : ((after oneItem itemComesBack).changes.get? "item").map (fun c =>
      (c.added.keys, c.modified.keys, c.deleted.keys)) = some ([], [1], []) := by
    decide +kernel
  rcases Option.isSome_iff_exists.mp hstaged with ⟨s, hs⟩
  rcases (net_changes_account_for_staged_rows wellKept_oneItem itemComesBack).1 hs with
    ⟨base, c, hbase, hc, _, haccounts⟩
  rw [hc, Option.map_some, Option.some.injEq, Prod.mk.injEq, Prod.mk.injEq] at hkeys
  exact ⟨base, s, c, hbase, hs, hc, haccounts, hkeys⟩

end Journal

end RelationalDb
