import Mathlib
import RelationalDb.Proofs.Index.Readable
import RelationalDb.Proofs.Index.RowIdCalls
import RelationalDb.Proofs.Store.Histories

/-!
# The counters of indices

Every index of a store counts what is in it, through all writes.  An index that is read from its
stored form counts the same, so it is the index that was stored but for the greatest row id that
this one was ever given.
-/

namespace RelationalDb

def KeyIndex.SameButGreatest (i i' : KeyIndex) : Prop :=
  ∃ id, i' = { i with tally := { i.tally with greatest := id } }

theorem KeyIndex.SameEntries.sameButGreatest {i i' : KeyIndex} (h : i.SameEntries i')
    (hi : i.Counted) (hi' : i'.Counted) : i.SameButGreatest i' := by
  refine ⟨i'.tally.greatest, ?_⟩
  have htotal : i'.size = i.size := by rw [hi', hi, h.entries]
  have hemptied := h.emptied
  have hentries := h.entries
  rcases i with ⟨name, keyType, unique, direction, entries, total, greatest⟩
  rcases i' with ⟨name', keyType', unique', direction', entries', total', greatest'⟩
  cases hemptied
  cases hentries
  cases htotal
  rfl

namespace RowIdIndex

variable {i i' : RowIdIndex} {key : Value} {keys : List Value}

def SameButGreatest (i i' : RowIdIndex) : Prop :=
  ∃ id, i' = { i with tally := { i.tally with greatest := id } }

theorem Counted.foldlM_add (h : i.Counted) (hi : i.ids.Ordered)
    (hfold : keys.foldlM RowIdIndex.add i = .ok i') : i'.Counted := by
  induction keys generalizing i with
  | nil =>
      cases hfold
      exact h
  | cons key rest ih =>
      rw [List.foldlM_cons] at hfold
      rcases Outcome.bind_eq_ok_iff.mp hfold with ⟨i₁, hadd, hrest⟩
      exact ih (h.add hi hadd).1 (h.add hi hadd).2 hrest

theorem Counted.ofRows_toRows (h : i.Counted) (hi : i.ids.Ordered)
    (hids : ∀ id ∈ i.toList, isSigned id = true) :
    ∃ i', ofRows i.name i.toRows = .ok i' ∧ i.SameButGreatest i' ∧ i'.name = i.name ∧
      i'.ids = i.ids := by
  rcases RowIdIndex.ofRows_toRows hi hids with ⟨i', hread, hname, hsame⟩
  refine ⟨i', hread, ⟨i'.tally.greatest, ?_⟩, hname, hsame⟩
  have hcounted : i'.Counted := by
    unfold ofRows toRows at hread
    rw [List.foldlM_cons, if_pos rfl] at hread
    rcases Outcome.bind_eq_ok_iff.mp hread with ⟨i₁, hfold, hnil⟩
    cases hnil
    have hempty : ({ name := i.name } : RowIdIndex).Counted := rfl
    exact hempty.foldlM_add SortedMap.ordered_empty hfold
  have htotal : i'.tally.total = i.tally.total := by
    rw [hcounted, h, size, size, hsame]
  rcases i with ⟨name, ids, total, greatest⟩
  rcases i' with ⟨name', ids', total', greatest'⟩
  dsimp only at hname hsame htotal ⊢
  rw [hname, hsame, htotal]

end RowIdIndex

namespace ColumnIndex

variable {c c' : ColumnIndex} {row old new : Row}

theorem counted_of_enter (h : c.index.Sound) (hc : c.index.Counted)
    (henter : (enter row).perform c = (.ok (), c')) : c'.index.Counted := by
  rw [perform_enter] at henter
  split at henter
  · cases henter
  · next i hadd =>
      cases henter
      exact hc.add h hadd

theorem counted_remove (h : c.index.Sound) (hc : c.index.Counted) (key : Value) (id : RowId) :
    (c.index.remove key id).Sound ∧ (c.index.remove key id).Counted := by
  rw [KeyIndex.remove_eq_leave]
  exact ⟨h.leave (fun ids => List.filter_sublist) key,
    hc.leave h (fun ids => List.filter_sublist) key⟩

theorem counted_of_move (h : c.index.Sound) (hc : c.index.Counted)
    (hmove : (move old new).perform c = (.ok (), c')) : c'.index.Counted := by
  rw [perform_move] at hmove
  split at hmove
  · cases hmove
    exact hc
  · rcases counted_remove h hc (c.keyOf old) old.id with ⟨hsound, hcounted⟩
    exact counted_of_enter hsound hcounted hmove

end ColumnIndex

namespace TableStore

variable {s s' : TableStore} {row old : Row} {c : ColumnIndex} {kept : List ColumnIndex}
  {others : List KeyIndex}

/-- Every index of the store has counted what is in it. -/
structure Counted (s : TableStore) : Prop where
  rowIds : s.rowIds.Counted
  indices : ∀ c ∈ s.indices, c.index.Counted

theorem counted_empty (t : Table) : (empty t).Counted where
  rowIds := rfl
  indices := by
    intro c hc
    rcases mem_emptyIndices_iff.mp hc with ⟨d, _, position, column, _, _, rfl⟩
    rfl

theorem Counted.onEach (h : s.Counted) (hs : s.Sound) {a : Action ColumnIndex Unit}
    {indices : List ColumnIndex}
    (ha : ∀ {c c'}, c.index.Sound → c.index.Counted → a.perform c = (.ok (), c') →
      c'.index.Counted)
    (hindices : (Action.onEach a).perform s.indices = (.ok (), indices)) :
    ∀ c ∈ indices, c.index.Counted := by
  intro c' hc'
  rcases exists_of_mem_right (forall₂_mem (Action.forall₂_of_perform_onEach hindices)) hc' with
    ⟨c, _, hc, _, hperform⟩
  exact ha (hs.indexSound hc) (h.indices c hc) hperform

theorem Counted.step (h : s.Counted) (hs : s.Sound) (call : StoreCall) :
    (call.action.perform s).2.Counted := by
  rcases hcall : call.action.perform s with ⟨r, s'⟩
  cases r with
  | error e =>
      rw [StoreCall.eq_of_error hs hcall]
      exact h
  | ok r =>
      rcases StoreCall.perform_eq_ok hcall with ⟨row, _, hok⟩ | ⟨row, old, _, hok⟩ | ⟨id, old, _, hok⟩
      · rcases insert_eq_ok hok with ⟨_, _, _, rowIds, indices, hadd, henter, rfl⟩
        exact ⟨(h.rowIds.add hs.idsOrdered hadd).1,
          h.onEach hs ColumnIndex.counted_of_enter henter⟩
      · rcases update_eq_ok hok with ⟨_, _, _, indices, hmove, rfl⟩
        exact ⟨h.rowIds, h.onEach hs ColumnIndex.counted_of_move hmove⟩
      · rcases delete_eq_ok hok with ⟨hold, rfl⟩
        rcases hs.perform_strike hold with ⟨indices, hstrike, _⟩
        refine ⟨h.rowIds.remove _, ?_⟩
        rw [hstrike]
        refine h.onEach hs ?_ hstrike
        intro c c' hsound hcounted hperform
        cases hperform
        exact (ColumnIndex.counted_remove hsound hcounted _ _).2

theorem Counted.after (h : s.Counted) (hs : s.Sound) (calls : List StoreCall) :
    (s.after calls).Counted := by
  induction calls generalizing s with
  | nil => exact h
  | cons call calls ih => exact ih (h.step hs call) (hs.step call).1

theorem Written.counted (h : s.Written) : s.Counted := by
  rcases h with ⟨t, calls, _, rfl⟩
  exact (counted_empty t).after (sound_empty t) calls

end TableStore

end RelationalDb
