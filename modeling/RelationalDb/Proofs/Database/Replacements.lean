import Mathlib
import RelationalDb.Proofs.Database.Offers
import RelationalDb.Proofs.Store.Replacements

/-!
# What replacing insertions change

Each payload of an insertion that replaces is matched against the rows that the payloads before
it left.  Their keys are found in the index of the primary key, so this index has to be in step
with the rows.
-/

namespace RelationalDb

variable {committed : Committed} {w w' : Workspace} {t : Table} {s s' : TableStore}
  {values : List Value}

theorem TableStore.Sound.rowWithKeyOf?_eq (h : s.Sound) (ht : s.table.Built)
    (hvalues : s.table.checkRow values = .ok ()) :
    s.rowWithKeyOf? values = (s.withKeyOf values).head? := by
  cases hd : s.table.primaryKey with
  | none =>
      have hnull : (s.table.keyOf values).isNull = true := by
        rw [keyOf_eq_null hd]
        rfl
      rw [withKeyOf_eq_nil hnull]
      simp [rowWithKeyOf?, hd]
  | some d =>
      rcases h.exists_keyIndex ht hd with ⟨c, hc⟩
      rw [← h.rowOfKey?_eq ht hd hvalues]
      rcases h.matchesColumn hc.mem with ⟨column, hcolumn, _⟩
      rcases Table.getElem?_of_checkRow hvalues hcolumn with ⟨v, hv⟩
      have hkey : s.table.keyOf values = v := by simp [Table.keyOf, hd, hc.position, hv]
      rw [hkey]
      simp [rowWithKeyOf?, hd, hc.position, hv]

namespace Insertion

theorem writeRow_placed {i : Insertion} (h : w.Offers committed i.table s)
    (hreplace : i.replace = true)
    (hok : (i.writeRow committed values).perform w = (.ok (), w')) :
    ∃ row s', row.values = values ∧ s.Placed s' row ∧ w'.Writable ∧
      w'.sees committed = Function.update (w.sees committed) i.table.name (some s') := by
  have hold : i.old? (w.sees committed) values = s.rowWithKeyOf? values := by
    simp [old?, hreplace, h.found]
  rw [perform_writeRow h.writable, hold] at hok
  -- The write checks the payload, and only a checked payload can be looked up by its key.
  cases hrow : s.rowWithKeyOf? values with
  | some old =>
      rw [hrow] at hok
      rcases Action.perform_bind_eq_ok hok with ⟨replaced, w₁, hupdate, heq⟩
      cases heq
      rcases Workspace.perform_update h.writable h.found { old with values := values } with
        ⟨w₂, hperform, hwrote⟩
      rcases Prod.mk.inj (hperform.symm.trans hupdate) with ⟨hresult, rfl⟩
      have hok : (TableStore.update { old with values := values }).perform s =
        (.ok replaced, _) := Prod.ext hresult rfl
      rw [h.sound.rowWithKeyOf?_eq h.schema (TableStore.update_eq_ok hok).2.1] at hrow
      have hplaced := h.sound.placed_update h.schema (List.mem_of_mem_head? hrow) hok
      exact ⟨_, _, rfl, hplaced, hwrote.writable, hwrote.sees⟩
  | none =>
      rw [hrow] at hok
      rcases Action.perform_bind_eq_ok hok with ⟨id, w₁, hid, hok⟩
      cases (Workspace.perform_freshId w).symm.trans hid
      rcases Action.perform_bind_eq_ok hok with ⟨id', w₂, hinsert, heq⟩
      cases heq
      let fresh : Row := { id := w.rowIds.take.1, values := values }
      have hwritable : ({ w with rowIds := w.rowIds.take.2 } : Workspace).Writable :=
        ⟨h.writable.active, h.writable.mode, h.writable.ordered⟩
      rcases Workspace.perform_insert hwritable h.found fresh with ⟨w₂, hperform, hwrote⟩
      rcases Prod.mk.inj (hperform.symm.trans hinsert) with ⟨hresult, rfl⟩
      rcases Outcome.map_eq_ok_iff.mp hresult with ⟨_, hresult, _⟩
      have hok : (TableStore.insert fresh).perform s = (.ok (), _) := Prod.ext hresult rfl
      rw [h.sound.rowWithKeyOf?_eq h.schema (TableStore.insert_eq_ok hok).2.1,
        List.head?_eq_none_iff] at hrow
      exact ⟨fresh, _, rfl, h.sound.placed_insert hrow hok, hwrote.writable, hwrote.sees⟩

theorem writeRows_replaced {i : Insertion} {rows : List (List Value)}
    (h : w.Offers committed i.table s) (hreplace : i.replace = true)
    (hok : (rows.forM (i.writeRow committed)).perform w = (.ok (), w')) :
    ∃ s', s.Replaced s' rows ∧
      w'.sees committed = Function.update (w.sees committed) i.table.name (some s') := by
  -- A payload is matched against the store that those before it left, so the store changes along.
  induction rows generalizing w s with
  | nil =>
      cases hok
      exact ⟨s, h.sound.replaced_nil, (Workspace.Wrote.nothing h.writable h.found).sees⟩
  | cons values rest ih =>
      rcases Action.perform_bind_eq_ok hok with ⟨_, w₁, hrow, hrest⟩
      rcases writeRow_placed h hreplace hrow with ⟨row, s₁, rfl, hplaced, hwritable, hsees⟩
      have hfound : w₁.sees committed i.table.name = some s₁ := by
        rw [hsees, Function.update_self]
      have hoffers := h.changed hwritable hfound hplaced.sound hplaced.table
      rcases ih hoffers hrest with ⟨s', hreplaced, hsees'⟩
      refine ⟨s', hplaced.replaced h.sound h.schema hreplaced, ?_⟩
      rw [hsees', hsees, Function.update_idem]

end Insertion

namespace Workspace

/-- A successful insertion that replaces: under every primary key among the payloads there is one
row, with the last payload of this key and under the id of the row that had the key before, if
there was one.  Payloads without a key are fresh rows, rows with other keys stay as they were, and
all other tables too. -/
theorem payloads_replace_by_primary_key (planner : Planner) {i : Insertion} {r : ResultSet}
    (h : w.Offers committed i.table s) (hreplace : i.replace = true)
    (hrun : ((Statement.insert i).run planner committed).perform w = (.ok r, w')) :
    ∃ s', s.Replaced s' i.rows ∧
      w'.sees committed = Function.update (w.sees committed) i.table.name (some s') := by
  rcases Action.perform_bind_eq_ok hrun with ⟨_, w₁, hrows, heq⟩
  cases heq
  exact Insertion.writeRows_replaced h hreplace hrows

def newSizes : Insertion where
  table := .items
  rows := [[.int64 7, .float64 ⟨1⟩], [.int64 9, .float64 ⟨0⟩], [.int64 7, .float64 ⟨2⟩]]
  replace := true

theorem last_size_stays :
    ∃ r w' s' row, ((Statement.insert newSizes).run {} overTwoItems).perform
        { work := { id := 1, mode := .readWrite }, rowIds := { next := 3 } } = (.ok r, w') ∧
      w'.sees overTwoItems "item" = some s' ∧ s'.size = 3 ∧
      s'.withKeyOf [.int64 7, .float64 ⟨2⟩] = [row] ∧ row.id = 1 ∧
      row.values = [.int64 7, .float64 ⟨2⟩] := by
  have hrun : ∃ r w', ((Statement.insert newSizes).run {} overTwoItems).perform
      { work := { id := 1, mode := .readWrite }, rowIds := { next := 3 } } = (.ok r, w') :=
    ⟨_, _, rfl⟩
  rcases hrun with ⟨r, w', hrun⟩
  rcases payloads_replace_by_primary_key {} (offers_twoItems 1 { next := 3 }) rfl hrun with
    ⟨s', hreplaced, hsees⟩
  have hfound : w'.sees overTwoItems "item" = some s' := by
    rw [hsees]
    exact Function.update_self _ _ _
  have hold : Select.twoItems.withKeyOf [.int64 7, .float64 ⟨2⟩] =
      [{ id := 1, values := [.int64 7, .float64 ⟨0⟩] }] := rfl
  rcases hreplaced.keyed [.int64 7, .float64 ⟨2⟩] (by simp [newSizes]) rfl with
    ⟨row, hrow, hlast, hid⟩
  have hid : row.id = 1 := hid.1 _ (hold ▸ List.mem_singleton_self _)
  exact ⟨r, w', s', row, hrun, hfound, hreplaced.size, hrow, hid, (Option.some.inj hlast).symm⟩

/-- A sitting in which an item is entered and the indices are kept, and one in which the item gets
another number and the indices are not kept. -/
def renumberedItem : List Sitting :=
  [{ options := { persistIndices := some true }
     events := [.request (.executeAlone
      (.insert { table := .items, rows := [[.int64 7, .float64 ⟨0⟩]] }))] },
   { options := {}
     events := [.request (.executeAlone (.update
      { table := .items
        sets := [({ table := "item", column := "number", position := 0, type := .int64 },
          .int64 8)] }))] }]

def renumberedSize : Insertion where
  table := .items
  rows := [[.int64 8, .float64 ⟨1⟩]]
  replace := true

theorem not_replaced_of_length {payloads : List (List Value)}
    (hvalues : values ∈ payloads) (hkey : (s.table.keyOf values).isNull = false)
    (hlength : ((s'.withKeyOf values).length != 1) = true) : ¬ s.Replaced s' payloads := by
  intro hreplaced
  rcases hreplaced.keyed values hvalues hkey with ⟨row, hrow, _⟩
  simp [hrow] at hlength

/-- An item that is listed under its old number is not replaced: two rows have the number. -/
theorem renumbered_item_is_doubled :
    (Statement.insert renumberedSize).check = .ok () ∧
    ∃ d b s r w', (Database.load .shop { persistIndices := some true }).perform
        (Backstore.afterSittings .shop {} renumberedItem).repair = (.ok d, b) ∧
      (d.workspace { work := { id := 1, mode := .readWrite } }).sees d.committed "item" = some s ∧
      ((Statement.insert renumberedSize).run d.planner d.committed).perform
        (d.workspace { work := { id := 1, mode := .readWrite } }) = (.ok r, w') ∧
      ¬ ∃ s', s.Replaced s' renumberedSize.rows ∧ w'.sees d.committed "item" = some s' := by
  refine ⟨rfl, ?_⟩
  have hpasses : Database.passes
      ((Database.load .shop { persistIndices := some true }).perform
        (Backstore.afterSittings .shop {} renumberedItem).repair)
      { work := { id := 1, mode := .readWrite } } "item" (.insert renumberedSize)
      (fun d s _ w => !(s.table.keyOf [.int64 8, .float64 ⟨1⟩]).isNull &&
        (w.sees d.committed "item").all fun s' =>
          (s'.withKeyOf [.int64 8, .float64 ⟨1⟩]).length != 1) = true := by
    decide +kernel
  rcases Database.exists_of_passes hpasses with ⟨d, b, s, r, w', hload, hs, hrun, htest⟩
  refine ⟨d, b, s, r, w', hload, hs, hrun, ?_⟩
  rintro ⟨s', hreplaced, hsees⟩
  rw [hsees, Option.all_some, Bool.and_eq_true, Bool.not_eq_true'] at htest
  exact not_replaced_of_length List.mem_cons_self htest.1 htest.2 hreplaced

end Workspace

end RelationalDb
