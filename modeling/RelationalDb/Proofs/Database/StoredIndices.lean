import Mathlib
import RelationalDb.Proofs.Database.Reloading
import RelationalDb.Proofs.Index.Readable
import RelationalDb.Proofs.Index.RowIdCalls

/-!
# Indices kept in a store

An index of either kind, whatever calls it has seen, is read back from the store that its
stored form was written to.  Nothing but the greatest row id that it was ever given is lost.
-/

namespace RelationalDb

namespace SortedMap

variable {κ α : Type} [Ord κ] [Std.ReflOrd κ]

theorem lookup_insertEntry_self (k : κ) (a : α) (l : List (κ × α)) :
    lookup k (insertEntry k a l) = some a := by
  induction l with
  | nil => simp [insertEntry, lookup]
  | cons e rest ih =>
      rcases e with ⟨k', a'⟩
      cases hc : compare k k' with
      | lt => simp [insertEntry, lookup, hc]
      | eq => simp [insertEntry, lookup, hc]
      | gt => simp [insertEntry, lookup, hc, ih]

theorem get?_insert_self (m : SortedMap κ α) (k : κ) (a : α) : (m.insert k a).get? k = some a :=
  lookup_insertEntry_self k a m.entries

end SortedMap

namespace Backstore

variable {b : Backstore} {name : String} {rows : List Row}

theorem perform_forM_call (hf : b.faults = []) (writes : List StoreChange) :
    ∃ b', (writes.forM fun w => call w.call).perform b = (.ok (), b') ∧ b'.faults = [] ∧
      b'.stores = b.stores := by
  induction writes generalizing b with
  | nil => exact ⟨b, rfl, hf, rfl⟩
  | cons w rest ih =>
      rcases reads_call w.call b rfl hf with ⟨b₁, hcall, hstores, hf₁⟩
      rcases ih hf₁ with ⟨b₂, hrest, hf₂, hstores₂⟩
      refine ⟨b₂, ?_, hf₂, hstores₂.trans hstores⟩
      change (call w.call >>= fun _ => rest.forM fun w => call w.call).perform b = _
      rw [Action.perform_bind_ok hcall, hrest]

theorem perform_write_ok (hf : b.faults = []) (writes : List StoreChange) :
    ∃ b', (write writes).perform b = (.ok (), b') ∧ b'.faults = [] ∧
      b'.stores = storesAfter b.stores writes := by
  rcases perform_forM_call (b := { b with calls := .begin :: b.calls }) hf writes with
    ⟨b₁, hcalls, hf₁, hstores₁⟩
  rcases reads_call .commit b₁ rfl hf₁ with ⟨b₂, hcommit, hstores₂, hf₂⟩
  refine ⟨b₂.applyAll writes, ?_, ?_, ?_⟩
  · unfold write
    rw [Action.perform_bind_ok (perform_count .begin b),
      Action.perform_bind_ok (Action.perform_attempt _ _), hcalls]
    change (call .commit >>= _).perform b₁ = _
    rw [Action.perform_bind_ok hcommit]
    rfl
  · rw [faults_applyAll, hf₂]
  · rw [stores_applyAll, hstores₂, hstores₁]

def replaceAll (name : String) (rows : List Row) : Action Backstore (List Row) := do
  write [.clear name, .put name rows]
  read name

theorem perform_replaceAll (hf : b.faults = [])
    (hrows : (rows.map (·.id)).Pairwise fun a b => compare a b = .lt) :
    ((replaceAll name rows).perform b).1 = .ok rows := by
  rcases perform_write_ok hf [.clear name, .put name rows] with ⟨b', hwrite, hf', hstores⟩
  unfold replaceAll
  rw [Action.perform_bind_ok hwrite, perform_read hf']
  have hstore : b'.stores.get? name = some (RowMap.putAll {} rows) := by
    rw [hstores]
    change ((b.stores.insert name {}).insert name
      ((((b.stores.insert name {}).get? name).getD {} : RowMap).putAll rows)).get? name = _
    rw [SortedMap.get?_insert_self, SortedMap.get?_insert_self]
    rfl
  rw [Backstore.rows, hstore]
  exact congrArg Except.ok (RowMap.values_putAll_empty hrows)

end Backstore

/-!
## Indices over a column
-/

namespace KeyIndex

variable {i i' base : KeyIndex} {key : Value} {id : RowId}

theorem ascending_ids_toRows (h : i.pairs.length + 1 < 0x10000000000000000) :
    (i.toRows.map (·.id)).Pairwise fun a b => compare a b = .lt := by
  rw [map_id_toRows, List.pairwise_map]
  apply List.pairwise_lt_range.imp_of_mem
  intro m n _ hn hlt
  rw [List.mem_range] at hn
  exact compare_ofNat hlt (by omega)

/-- What every sequence of calls keeps of an index that starts empty. -/
structure Intact (base i : KeyIndex) : Prop where
  emptied : i.emptied = base.emptied
  sound : i.Sound
  counted : i.Counted
  signed : ∀ e ∈ i.entries.entries, ∀ id ∈ e.2, RowIdIndex.isSigned id = true

theorem Intact.add (h : Intact base i) (hid : RowIdIndex.isSigned id = true)
    (hadd : i.add key id = .ok i') : Intact base i' where
  emptied := (h.sound.of_add hadd).2.1.trans h.emptied
  sound := (h.sound.of_add hadd).1
  counted := h.counted.add h.sound hadd
  signed := by
    rcases eq_of_add hadd with rfl | rfl
    · exact h.signed
    · apply SortedMap.forall_insertEntry (Q := fun ids => ∀ id ∈ ids, RowIdIndex.isSigned id = true)
        h.signed
      rw [List.forall_mem_append, List.forall_mem_singleton]
      refine ⟨?_, hid⟩
      rcases get_eq_nil_or_mem i key with hnil | ⟨k', hmem, _⟩
      · simp [hnil]
      · exact h.signed _ hmem

theorem Intact.leave (h : Intact base i) {keep : List RowId → List RowId}
    (hkeep : ∀ ids, (keep ids).Sublist ids) (key : Value) : Intact base (i.leave key keep) where
  emptied := (emptied_leave i key keep).trans h.emptied
  sound := h.sound.leave hkeep key
  counted := h.counted.leave h.sound hkeep key
  signed := by
    apply forall_leave (Q := fun ids => ∀ id ∈ ids, RowIdIndex.isSigned id = true) h.signed
    exact fun ids hids _ id hid => hids id ((hkeep ids).subset hid)

theorem Intact.clear (h : Intact base i) : Intact base i.clear where
  emptied := h.emptied
  sound := (follows_clear i).sound
  counted := (follows_clear i).counted
  signed := by simp [KeyIndex.clear]

end KeyIndex

namespace IndexCall

/-- The row ids that the call gives to an index are below `2 ^ 63`. -/
def GivesSigned : IndexCall → Prop
  | add _ id => RowIdIndex.isSigned id = true
  | set _ id => RowIdIndex.isSigned id = true
  | remove _ _ => True
  | clear => True

variable {base : KeyIndex} {c : IndexCall}

theorem keeps_enter (key : Value) {id : RowId} (hid : RowIdIndex.isSigned id = true) :
    Action.Keeps (KeyIndex.Intact base) (enter key id) := by
  intro i h
  rw [perform_enter]
  cases hadd : i.add key id with
  | error f => exact h
  | ok i' => exact h.add hid hadd

theorem keeps_action (hc : c.GivesSigned) : Action.Keeps (KeyIndex.Intact base) c.action := by
  intro i h
  cases c with
  | add key id => exact keeps_enter key hc i h
  | set key id =>
      rw [perform_set]
      split
      · exact h
      · split
        · apply keeps_enter key hc
          rw [KeyIndex.removeKey_eq_leave]
          exact h.leave (fun ids => List.nil_sublist ids) key
        · exact h
  | remove key id =>
      cases id with
      | none =>
          rw [action, Action.perform_modify, KeyIndex.removeKey_eq_leave]
          exact h.leave (fun ids => List.nil_sublist ids) key
      | some id =>
          rw [action, Action.perform_modify, KeyIndex.remove_eq_leave]
          exact h.leave (fun ids => List.filter_sublist) key
  | clear => exact h.clear

end IndexCall

namespace KeyIndex

variable {base i : KeyIndex}

theorem intact_performAll (hbase : base.emptied = base) {calls : List IndexCall}
    (hcalls : ∀ c ∈ calls, c.GivesSigned) :
    Intact base (Action.performAll (calls.map IndexCall.action) base).2 := by
  apply Action.keeps_performAll
  · intro a ha
    rcases List.mem_map.mp ha with ⟨c, hc, rfl⟩
    exact IndexCall.keeps_action (hcalls c hc)
  · rw [← hbase]
    exact ⟨rfl, Sound.of_emptied base, rfl, by simp [KeyIndex.emptied]⟩

theorem Intact.ofRows_toRows (h : Intact base i) (hcount : i.size + 1 < 0x10000000000000000)
    (name : String) :
    ∃ i', ofRows name i.toRows = .ok i' ∧ i'.emptied = { base.emptied with name := name } ∧
      i'.entries = i.entries ∧ i'.size = i.size := by
  let named : KeyIndex := { i with name := name }
  have hnamed : named.Sound := ⟨h.sound.ascending, h.sound.nonempty, h.sound.nodup, h.sound.single⟩
  have hsigned : ∀ p ∈ named.pairs, RowIdIndex.isSigned p.2 = true := by
    intro p hp
    rcases mem_pairs_iff.mp hp with ⟨ids, hmem, hid⟩
    exact h.signed _ hmem p.2 hid
  have hlength : named.pairs.length = i.size := h.counted.length_pairs
  rcases hnamed.ofRows_toRows hsigned (by omega) with ⟨i', hread, hsame⟩
  have hentries : i'.entries = i.entries := hsame.entries
  refine ⟨i', hread, ?_, hentries, ?_⟩
  · rw [hsame.emptied, ← h.emptied]
    rfl
  · have hcounted := (sound_of_ofRows hread).2
    rw [hcounted, hentries, h.counted]

end KeyIndex

/-!
## The index over row ids
-/

namespace RowIdIndex

variable {i : RowIdIndex}

theorem Intact.ofRows_toRows (h : i.Intact) (name : String) :
    ∃ i', ofRows name i.toRows = .ok i' ∧ i'.name = name ∧ i'.ids = i.ids := by
  apply RowIdIndex.ofRows_toRows (i := { i with name := name }) h.ordered
  intro id hid
  rcases (SortedMap.mem_keys_iff h.ordered).mp hid with ⟨u, hu⟩
  exact h.signed hu

end RowIdIndex

/-!
## Both kinds
-/

/-- The stored form of an index survives a store unchanged, and an index that is read from it
has the entries of the first one; rows that are no stored form are refused. -/
theorem stored_indices_read_back :
    (∀ (name : String) (keyType : ColumnType) (unique : Bool) (direction : Direction)
      (calls : List IndexCall) (_ : ∀ c ∈ calls, c.GivesSigned),
      let base : KeyIndex := { name, keyType, unique, direction }
      let i := (Action.performAll (calls.map IndexCall.action) base).2
      i.size + 1 < 0x10000000000000000 →
        (∀ (b : Backstore) (store : String), b.faults = [] →
          ((Backstore.replaceAll store i.toRows).perform b).1 = .ok i.toRows) ∧
        ∀ name', ∃ i', KeyIndex.ofRows name' i.toRows = .ok i' ∧
          i'.emptied = { base with name := name' } ∧ i'.entries = i.entries ∧
          i'.size = i.size) ∧
    (∀ (name : String) (calls : List IndexCall),
      let i := (Action.performAll (calls.map IndexCall.onRowIds) { name := name }).2
      (∀ (b : Backstore) (store : String), b.faults = [] →
        ((Backstore.replaceAll store i.toRows).perform b).1 = .ok i.toRows) ∧
      ∀ name', ∃ i', RowIdIndex.ofRows name' i.toRows = .ok i' ∧
        i'.name = name' ∧ i'.ids = i.ids ∧ i'.size = i.size) ∧
    ∀ name rows, (∃ f, KeyIndex.ofRows name rows = .error f) ↔ KeyIndex.Unreadable rows := by
  refine ⟨?_, ?_, KeyIndex.ofRows_fails_iff⟩
  · intro name keyType unique direction calls hcalls base i hcount
    have hi : KeyIndex.Intact base i := KeyIndex.intact_performAll rfl hcalls
    have hlength : i.pairs.length = i.size := hi.counted.length_pairs
    refine ⟨?_, hi.ofRows_toRows hcount⟩
    intro b store hf
    exact Backstore.perform_replaceAll hf (KeyIndex.ascending_ids_toRows (by omega))
  · intro name calls i
    have hi : i.Intact ∧ i.name = name := by
      apply Action.keeps_performAll (P := fun i : RowIdIndex => i.Intact ∧ i.name = name)
      · intro a ha
        rcases List.mem_map.mp ha with ⟨c, _, rfl⟩
        exact RowIdIndex.keeps_onRowIds name c
      · exact ⟨⟨SortedMap.ordered_empty, fun h => by cases h⟩, rfl⟩
    refine ⟨?_, ?_⟩
    · intro b store hf
      exact Backstore.perform_replaceAll hf (List.pairwise_singleton _ _)
    · intro name'
      rcases hi.1.ofRows_toRows name' with ⟨i', hread, hname, hids⟩
      exact ⟨i', hread, hname, hids, congrArg SortedMap.size hids⟩

theorem stored_indices_read_back_sizes :
    let calls : List IndexCall :=
      [.add (.int64 7) 1, .add (.int64 7) 2, .add (.int64 9) 3, .remove (.float64 (.ofInt 9)) none,
        .remove (.float64 (.ofInt 8)) (some 1)]
    let base : KeyIndex :=
      { name := "item.bySize", keyType := .int64, unique := false, direction := .descending }
    let i := (Action.performAll (calls.map IndexCall.action) base).2
    i.size = 2 ∧ ((Backstore.replaceAll "copy" i.toRows).perform {}).1 = .ok i.toRows ∧
      ∃ i', KeyIndex.ofRows "copy" i.toRows = .ok i' ∧ i'.emptied = { base with name := "copy" } ∧
        i'.entries = i.entries ∧ i'.size = 2 := by
  intro calls base i
  have hcalls : ∀ c ∈ calls, c.GivesSigned := by
    simp [calls, IndexCall.GivesSigned, RowIdIndex.isSigned]
  have hsize : i.size = 2 := by decide
  rcases stored_indices_read_back.1 "item.bySize" .int64 false .descending calls hcalls
    (hsize ▸ by decide) with ⟨hstored, hread⟩
  exact ⟨hsize, hstored {} "copy" rfl, hsize ▸ hread "copy"⟩

end RelationalDb
