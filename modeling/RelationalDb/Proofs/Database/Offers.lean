import Mathlib
import RelationalDb.Proofs.Database.OptionChanges
import RelationalDb.Proofs.Database.Workspaces
import RelationalDb.Proofs.Plan.Answers

/-!
# Tables that are offered to a statement

A statement that changes a table finds it among the stores that its transaction sees, maybe
under an alias.  The indices of these stores are in step with their rows in every transaction,
unless indices were kept once again after they had not been kept.
-/

namespace RelationalDb

/-- The workspace may write, and sees the table, maybe under an alias, with its indices in step
with its rows. -/
structure Workspace.Offers (committed : Committed) (w : Workspace) (t : Table) (s : TableStore) :
    Prop where
  writable : w.Writable
  found : w.sees committed t.name = some s
  sound : s.Sound
  schema : s.table.Built
  named : t = s.table ∨ ∃ byname, t = s.table.withAlias byname

variable {committed : Committed} {w w' : Workspace} {t : Table} {s s' : TableStore}

theorem Workspace.Offers.changed (h : w.Offers committed t s) (hwritable : w'.Writable)
    (hfound : w'.sees committed t.name = some s') (hsound : s'.Sound)
    (htable : s'.table = s.table) : w'.Offers committed t s' where
  writable := hwritable
  found := hfound
  sound := hsound
  schema := htable ▸ h.schema
  named := htable ▸ h.named

theorem Workspace.Offers.columns (h : w.Offers committed t s) : s.table.columns = t.columns := by
  rcases h.named with rfl | ⟨byname, rfl⟩
  · rfl
  · rfl

theorem Workspace.Offers.withAlias (h : w.Offers committed t s) (byname : String) :
    w.Offers committed (t.withAlias byname) s where
  writable := h.writable
  found := h.found
  sound := h.sound
  schema := h.schema
  named := by
    rcases h.named with rfl | ⟨byname', rfl⟩
    · exact Or.inr ⟨byname, rfl⟩
    · exact Or.inr ⟨byname, rfl⟩

def Database.workspace (d : Database) (t : Transaction) : Workspace :=
  { work := t.work, rowIds := d.rowIds }

namespace Service

/-- A transaction that goes on and may write offers all tables, unless a table that does not keep
its indices by its own definition had them kept, then not kept, and then kept once again. -/
theorem offers_unless_kept_again {c : Catalog} (hc : c.Built) (sittings : List Sitting)
    (hchecked : ∀ s ∈ sittings, s.options.check = .ok ()) {options : DatabaseOptions}
    (hcheck : options.check = .ok ())
    (hsteady : ∀ t ∈ c.tables, t.persistsIndices = false →
      ¬ [true, false, true].Sublist (keptUnder (sittings.map (·.options) ++ [options]) t))
    {d : Database} {b : Backstore}
    (hload : (Database.load c options).perform (Backstore.afterSittings c {} sittings).repair =
      (.ok d, b)) (events : List Event) {id : Nat} {x : Transaction}
    (hx : ((opened b d).after events).session.database.transactions.get? id = some x)
    (hactive : x.work.phase = .active) (hmode : x.work.mode = .readWrite)
    {t : Table} (ht : t ∈ c.tables) :
    ∃ s, s.table = t ∧ (((opened b d).after events).session.database.workspace x).Offers
      ((opened b d).after events).session.database.committed t s := by
  have hwf := hc.wellFormed
  rcases Backstore.backs_afterSittings hwf hchecked
    (fun t ht hflag => not_kept_again_append (hsteady t ht hflag)) with ⟨hordered, ref, hbacks⟩
  rcases hbacks.opens_while hordered hwf hcheck hsteady with ⟨d', b', hload', _, _, hmirrors⟩
  rw [hload] at hload'
  cases hload'
  have hm := hmirrors events
  have hv := consistent_after (consistent_opened hload) events
  have htracks := (hv.database.guarded hx).toTracks
  rcases hm.present t ht with ⟨base, hbase⟩
  -- The store is staged, or it is seen as it is committed.
  have hsees : ∃ s, x.work.journal.sees ((opened b d).after events).session.database.committed
      t.name = some s := by
    unfold Journal.sees
    rw [Journal.store?_view]
    split
    · next s _ => exact ⟨s, rfl⟩
    · exact ⟨base, hbase⟩
  rcases hsees with ⟨s, hs⟩
  rcases htracks.table_installed (hm.founded hwf.tables)
      ((htracks.store?_install hm.wellKept t.name).trans hs) with
    ⟨hsound, hknown, hname⟩
  have htable : s.table = t := hwf.eq_of_name hknown ht hname
  exact ⟨s, htable, ⟨hactive, hmode, htracks.orderedStaged⟩, hs, hsound,
    htable ▸ hc.built_of_mem ht, Or.inl htable.symm⟩

end Service

/-!
## Examples
-/

def Workspace.overTwoItems : Committed :=
  { stores := ({} : SortedMap String TableStore).insert "item" Select.twoItems }

theorem Workspace.offers_twoItems (id : Nat) (rowIds : RowIdSource) :
    ({ work := { id := id, mode := .readWrite }, rowIds := rowIds } : Workspace).Offers
      overTwoItems .items Select.twoItems where
  writable := ⟨rfl, rfl, SortedMap.ordered_empty⟩
  found := rfl
  sound := TableStore.sound_after_empty .items _
  schema := Table.built_items
  named := Or.inl rfl

/-- Does a statement succeed on a database that was opened, in a way that passes a test? -/
def Database.passes (opened : Outcome Database × Backstore) (x : Transaction) (table : String)
    (statement : Statement) (test : Database → TableStore → ResultSet → Workspace → Bool) : Bool :=
  match opened with
  | (.ok d, _) =>
      match (d.workspace x).sees d.committed table,
        (statement.run d.planner d.committed).perform (d.workspace x) with
      | some s, (.ok r, w) => test d s r w
      | _, _ => false
  | (.error _, _) => false

theorem Database.exists_of_passes {opened : Outcome Database × Backstore} {x : Transaction}
    {table : String} {statement : Statement}
    {test : Database → TableStore → ResultSet → Workspace → Bool}
    (h : passes opened x table statement test = true) :
    ∃ d b s r w, opened = (.ok d, b) ∧ (d.workspace x).sees d.committed table = some s ∧
      (statement.run d.planner d.committed).perform (d.workspace x) = (.ok r, w) ∧
      test d s r w = true := by
  unfold passes at h
  split at h
  · next d b =>
      split at h
      · next s r w hs hrun => exact ⟨d, b, s, r, w, rfl, hs, hrun, h⟩
      · cases h
  · cases h

end RelationalDb
