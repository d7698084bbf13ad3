import Mathlib
import RelationalDb.Database.Backstore
import RelationalDb.Proofs.SortedMaps

/-!
# Net changes between two states of a table

A change set lies between two maps of rows if its records say, for every row id, how the
second map comes from the first.  Then applying it to the first map gives the second, in
the same way in which a backstore applies the writes that are made from it.
-/

namespace RelationalDb

namespace RowMap

def Keyed (m : RowMap) : Prop :=
  ∀ {id : RowId} {row : Row}, m.get? id = some row → row.id = id

variable {m : RowMap} {rows : List Row} {row : Row} {id : RowId}

theorem mem_map_id_iff :
    (id, row) ∈ rows.map (fun row => (row.id, row)) ↔ row ∈ rows ∧ row.id = id := by
  rw [List.mem_map]
  constructor
  · intro h
    rcases h with ⟨row', hrow, heq⟩
    cases heq
    exact ⟨hrow, rfl⟩
  · intro h
    exact ⟨row, h.1, by rw [h.2]⟩

theorem ordered_putAll (hm : m.Ordered) (rows : List Row) : (m.putAll rows).Ordered :=
  hm.insertAll _

theorem get?_putAll_of_mem (hm : m.Ordered) (hrow : row ∈ rows)
    (hsame : ∀ row' ∈ rows, row'.id = row.id → row' = row) :
    (m.putAll rows).get? row.id = some row := by
  apply SortedMap.get?_insertAll_of_mem hm (mem_map_id_iff.mpr ⟨hrow, rfl⟩)
  intro row' hrow'
  rcases mem_map_id_iff.mp hrow' with ⟨hmem, hid⟩
  exact hsame row' hmem hid

theorem get?_putAll_of_not_mem (hm : m.Ordered) (hrow : ∀ row ∈ rows, row.id ≠ id) :
    (m.putAll rows).get? id = m.get? id := by
  apply SortedMap.get?_insertAll_of_not_mem hm
  intro row hmem
  rcases mem_map_id_iff.mp hmem with ⟨hmem', hid⟩
  exact hrow row hmem' hid

theorem keyed_putAll (hm : m.Ordered) (hkeyed : m.Keyed) (rows : List Row) :
    (m.putAll rows).Keyed := by
  unfold putAll SortedMap.insertAll
  induction rows generalizing m with
  | nil => exact hkeyed
  | cons row rest ih =>
      apply ih (hm.insert row.id row)
      exact SortedMap.forall_insert hm (Q := fun id row => row.id = id) rfl hkeyed

end RowMap

namespace ChangeSet

/-- The rows after the net changes: the rows to be written are put, then the deleted ones are
erased. -/
def applyTo (c : ChangeSet) (rows : RowMap) : RowMap :=
  c.deleted.keys.foldl SortedMap.erase (rows.putAll c.puts)

/-- What is on record for a row id as added, modified and deleted, and the rows that stand under
it before and after. -/
inductive NetChange :
    Option Row → Option (Row × Row) → Option Row → Option Row → Option Row → Prop
  | kept (row : Option Row) : NetChange none none none row row
  | added (row : Row) : NetChange (some row) none none none (some row)
  | modified (old new : Row) : NetChange none (some (old, new)) none (some old) (some new)
  | deleted (old : Row) : NetChange none none (some old) (some old) none

/-- The net changes that lead from one map of rows to another. -/
structure Between (c : ChangeSet) (before after : RowMap) : Prop where
  orderedAdded : c.added.Ordered
  orderedModified : c.modified.Ordered
  orderedDeleted : c.deleted.Ordered
  net : ∀ id, NetChange (c.added.get? id) (c.modified.get? id) (c.deleted.get? id)
    (before.get? id) (after.get? id)

variable {c : ChangeSet} {before after : RowMap} {row old new : Row} {id : RowId}

section NetChange

variable {a d b r : Option Row} {m : Option (Row × Row)}

theorem NetChange.of_absent (h : NetChange a m d b none) :
    a = none ∧ m = none ∧ d = b := by
  cases h with
  | kept => exact ⟨rfl, rfl, rfl⟩
  | deleted old => exact ⟨rfl, rfl, rfl⟩

theorem NetChange.of_unrecorded (h : NetChange none none none b r) : r = b := by
  cases h
  rfl

theorem NetChange.of_added (h : NetChange (some row) m d b r) : r = some row := by
  cases h
  rfl

theorem NetChange.of_modified (h : NetChange a (some (old, new)) d b r) :
    b = some old ∧ r = some new := by
  cases h
  exact ⟨rfl, rfl⟩

theorem NetChange.of_deleted (h : NetChange a m (some old) b r) : b = some old ∧ r = none := by
  cases h
  exact ⟨rfl, rfl⟩

theorem NetChange.of_present (h : NetChange a m d b (some row)) :
    d = none ∧
      ((a = some row ∧ m = none ∧ b = none) ∨
        (a = none ∧ ∃ old, m = some (old, row) ∧ b = some old) ∨
        (a = none ∧ m = none ∧ b = some row)) := by
  cases h with
  | kept => exact ⟨rfl, Or.inr (Or.inr ⟨rfl, rfl, rfl⟩)⟩
  | added => exact ⟨rfl, Or.inl ⟨rfl, rfl, rfl⟩⟩
  | modified old => exact ⟨rfl, Or.inr (Or.inl ⟨rfl, old, rfl, rfl⟩)⟩

end NetChange

theorem between_empty (table : String) (rows : RowMap) :
    ({ table := table } : ChangeSet).Between rows rows where
  orderedAdded := SortedMap.ordered_empty
  orderedModified := SortedMap.ordered_empty
  orderedDeleted := SortedMap.ordered_empty
  net := fun id => NetChange.kept (rows.get? id)

/-!
## Recording a change
-/

theorem Between.record (h : c.Between before after) (id : RowId)
    {c' : ChangeSet} {after' : RowMap}
    (hadded : c'.added.Ordered) (hmodified : c'.modified.Ordered) (hdeleted : c'.deleted.Ordered)
    (hother : ∀ id', id' ≠ id → c'.added.get? id' = c.added.get? id' ∧
      c'.modified.get? id' = c.modified.get? id' ∧ c'.deleted.get? id' = c.deleted.get? id' ∧
      after'.get? id' = after.get? id')
    (hself : NetChange (c'.added.get? id) (c'.modified.get? id) (c'.deleted.get? id)
      (before.get? id) (after'.get? id)) :
    c'.Between before after' where
  orderedAdded := hadded
  orderedModified := hmodified
  orderedDeleted := hdeleted
  net := by
    intro id'
    by_cases heq : id' = id
    · rw [heq]
      exact hself
    · rcases hother id' heq with ⟨hadd, hmod, hdel, hrow⟩
      rw [hadd, hmod, hdel, hrow]
      exact h.net id'

theorem Between.recordAdded (h : c.Between before after) (ha : after.Ordered)
    (hself : NetChange (some new) (c.modified.get? id) (c.deleted.get? id) (before.get? id)
      (some new)) :
    ({ c with added := c.added.insert id new } : ChangeSet).Between before
      (after.insert id new) := by
  apply h.record id
  · exact h.orderedAdded.insert _ _
  · exact h.orderedModified
  · exact h.orderedDeleted
  · intro id' hne
    simp [SortedMap.get?_insert h.orderedAdded, SortedMap.get?_insert ha, hne]
  · rw [SortedMap.get?_insert h.orderedAdded, SortedMap.get?_insert ha, if_pos rfl, if_pos rfl]
    exact hself

theorem Between.recordModified (h : c.Between before after) (ha : after.Ordered)
    (hself : NetChange (c.added.get? id) (some (old, new)) (c.deleted.get? id) (before.get? id)
      (some new)) :
    ({ c with modified := c.modified.insert id (old, new) } : ChangeSet).Between before
      (after.insert id new) := by
  apply h.record id
  · exact h.orderedAdded
  · exact h.orderedModified.insert _ _
  · exact h.orderedDeleted
  · intro id' hne
    simp [SortedMap.get?_insert h.orderedModified, SortedMap.get?_insert ha, hne]
  · rw [SortedMap.get?_insert h.orderedModified, SortedMap.get?_insert ha, if_pos rfl, if_pos rfl]
    exact hself

theorem Between.add (h : c.Between before after) (ha : after.Ordered)
    (hfree : after.get? row.id = none) :
    (c.add row).Between before (after.insert row.id row) := by
  have hnet := h.net row.id
  rw [hfree] at hnet
  rcases hnet.of_absent with ⟨hadded, hmodified, hdeleted⟩
  unfold ChangeSet.add
  cases hold : c.deleted.get? row.id with
  | none =>
      apply h.recordAdded ha
      rw [hmodified, hold, ← hdeleted, hold]
      exact NetChange.added row
  | some old =>
      dsimp only
      apply h.record row.id
      · exact h.orderedAdded
      · exact h.orderedModified.insert _ _
      · exact h.orderedDeleted.erase _
      · intro id' hne
        simp [SortedMap.get?_insert h.orderedModified, SortedMap.get?_erase h.orderedDeleted,
          SortedMap.get?_insert ha, hne]
      · rw [SortedMap.get?_insert h.orderedModified, SortedMap.get?_erase h.orderedDeleted,
          SortedMap.get?_insert ha, if_pos rfl, if_pos rfl, if_pos rfl, hadded, ← hdeleted, hold]
        exact NetChange.modified old row

theorem Between.modify (h : c.Between before after) (ha : after.Ordered)
    (hold : after.get? id = some old) (hid : old.id = id) :
    (c.modify old new).Between before (after.insert id new) := by
  have hnet := h.net id
  rw [hold] at hnet
  rcases hnet.of_present with ⟨hdeleted, hcase⟩
  unfold ChangeSet.modify
  rw [hid]
  rcases hcase with ⟨hadded, hmodified, hbefore⟩ | ⟨hadded, first, hmodified, hbefore⟩ |
    ⟨hadded, hmodified, hbefore⟩
  · rw [if_pos (SortedMap.contains_iff.mpr ⟨_, hadded⟩)]
    apply h.recordAdded ha
    rw [hmodified, hdeleted, hbefore]
    exact NetChange.added new
  · rw [if_neg (by simp [SortedMap.contains, hadded]), hmodified]
    apply h.recordModified ha
    rw [hadded, hdeleted, hbefore]
    exact NetChange.modified first new
  · rw [if_neg (by simp [SortedMap.contains, hadded]), hmodified]
    apply h.recordModified ha
    rw [hadded, hdeleted, hbefore]
    exact NetChange.modified old new

theorem Between.delete (h : c.Between before after) (ha : after.Ordered)
    (hold : after.get? id = some old) (hid : old.id = id) :
    (c.delete old).Between before (after.erase id) := by
  have hnet := h.net id
  rw [hold] at hnet
  rcases hnet.of_present with ⟨hdeleted, hcase⟩
  unfold ChangeSet.delete
  rw [hid]
  rcases hcase with ⟨hadded, hmodified, hbefore⟩ | ⟨hadded, first, hmodified, hbefore⟩ |
    ⟨hadded, hmodified, hbefore⟩
  · rw [if_pos (SortedMap.contains_iff.mpr ⟨_, hadded⟩)]
    apply h.record id
    · exact h.orderedAdded.erase _
    · exact h.orderedModified
    · exact h.orderedDeleted
    · intro id' hne
      simp [SortedMap.get?_erase h.orderedAdded, SortedMap.get?_erase ha, hne]
    · rw [SortedMap.get?_erase h.orderedAdded, SortedMap.get?_erase ha, if_pos rfl, if_pos rfl,
        hmodified, hdeleted, hbefore]
      exact NetChange.kept none
  · rw [if_neg (by simp [SortedMap.contains, hadded]), hmodified]
    apply h.record id
    · exact h.orderedAdded
    · exact h.orderedModified.erase _
    · exact h.orderedDeleted.insert _ _
    · intro id' hne
      simp [SortedMap.get?_erase h.orderedModified, SortedMap.get?_insert h.orderedDeleted,
        SortedMap.get?_erase ha, hne]
    · rw [SortedMap.get?_erase h.orderedModified, SortedMap.get?_insert h.orderedDeleted,
        SortedMap.get?_erase ha, if_pos rfl, if_pos rfl, if_pos rfl, hadded, hbefore]
      exact NetChange.deleted first
  · rw [if_neg (by simp [SortedMap.contains, hadded]), hmodified]
    apply h.record id
    · exact h.orderedAdded
    · exact h.orderedModified
    · exact h.orderedDeleted.insert _ _
    · intro id' hne
      simp [SortedMap.get?_insert h.orderedDeleted, SortedMap.get?_erase ha, hne]
    · rw [SortedMap.get?_insert h.orderedDeleted, SortedMap.get?_erase ha, if_pos rfl, if_pos rfl,
        hadded, hmodified, hbefore]
      exact NetChange.deleted old

/-!
## Applying the changes
-/

theorem Between.mem_puts_iff (h : c.Between before after) (hkeyed : after.Keyed) :
    row ∈ c.puts ↔ c.added.get? row.id = some row ∨
      ∃ old, c.modified.get? row.id = some (old, row) := by
  unfold puts
  rw [List.mem_append, SortedMap.mem_values_iff h.orderedAdded, List.mem_map]
  constructor
  · intro hrow
    rcases hrow with ⟨id, hadded⟩ | ⟨⟨old, new⟩, hmem, hnew⟩
    · have hnet := h.net id
      rw [hadded] at hnet
      rw [hkeyed hnet.of_added]
      exact Or.inl hadded
    · rcases (SortedMap.mem_values_iff h.orderedModified).mp hmem with ⟨id, hmodified⟩
      have hnet := h.net id
      rw [hmodified] at hnet
      have hid : new.id = id := hkeyed hnet.of_modified.2
      rw [← hnew, hid]
      exact Or.inr ⟨old, hmodified⟩
  · intro hrow
    rcases hrow with hadded | ⟨old, hmodified⟩
    · exact Or.inl ⟨row.id, hadded⟩
    · exact Or.inr ⟨(old, row), (SortedMap.mem_values_iff h.orderedModified).mpr ⟨_, hmodified⟩, rfl⟩

theorem Between.get?_of_mem_puts (h : c.Between before after) (hkeyed : after.Keyed)
    (hrow : row ∈ c.puts) : after.get? row.id = some row := by
  have hnet := h.net row.id
  rcases (h.mem_puts_iff hkeyed).mp hrow with hadded | ⟨old, hmodified⟩
  · rw [hadded] at hnet
    exact hnet.of_added
  · rw [hmodified] at hnet
    exact hnet.of_modified.2

theorem ordered_applyTo (c : ChangeSet) (h : before.Ordered) : (c.applyTo before).Ordered :=
  (RowMap.ordered_putAll h _).eraseAll _

/-- Applied to any rows, the net changes make of the row under an id what they made of it before,
or leave it alone if they did so before. -/
theorem Between.get?_applyTo_cases {m : RowMap} (h : c.Between before after) (hm : m.Ordered)
    (hkeyed : after.Keyed) (id : RowId) :
    (c.applyTo m).get? id = after.get? id ∨
      ((c.applyTo m).get? id = m.get? id ∧ after.get? id = before.get? id) := by
  unfold applyTo
  rw [SortedMap.get?_eraseAll (RowMap.ordered_putAll hm _)]
  have hnet := h.net id
  cases hdeleted : c.deleted.get? id with
  | some old =>
      left
      rw [hdeleted] at hnet
      rw [if_pos ((SortedMap.mem_keys_iff h.orderedDeleted).mpr ⟨old, hdeleted⟩), hnet.of_deleted.2]
  | none =>
      have hkey : id ∉ c.deleted.keys := by
        intro hmem
        rcases (SortedMap.mem_keys_iff h.orderedDeleted).mp hmem with ⟨old, hrecord⟩
        rw [hdeleted] at hrecord
        cases hrecord
      rw [if_neg hkey]
      by_cases hput : ∃ row ∈ c.puts, row.id = id
      · left
        rcases hput with ⟨row, hrow, rfl⟩
        rw [h.get?_of_mem_puts hkeyed hrow]
        apply RowMap.get?_putAll_of_mem hm hrow
        intro row' hrow' hid
        have hget := h.get?_of_mem_puts hkeyed hrow'
        rw [hid, h.get?_of_mem_puts hkeyed hrow] at hget
        exact (Option.some.inj hget).symm
      · right
        have hnone : ∀ row ∈ c.puts, row.id ≠ id := fun row hrow hid => hput ⟨row, hrow, hid⟩
        rw [RowMap.get?_putAll_of_not_mem hm hnone]
        refine ⟨rfl, ?_⟩
        cases hadded : c.added.get? id with
        | some row =>
            rw [hadded] at hnet
            have hid : row.id = id := hkeyed hnet.of_added
            exact absurd hid (hnone row ((h.mem_puts_iff hkeyed).mpr (Or.inl (by rw [hid, hadded]))))
        | none =>
            cases hmodified : c.modified.get? id with
            | some p =>
                rw [hmodified] at hnet
                have hid : p.2.id = id := hkeyed hnet.of_modified.2
                exact absurd hid (hnone p.2
                  ((h.mem_puts_iff hkeyed).mpr (Or.inr ⟨p.1, by rw [hid, hmodified]⟩)))
            | none =>
                rw [hadded, hmodified, hdeleted] at hnet
                exact hnet.of_unrecorded

theorem Between.get?_applyTo (h : c.Between before after) (hbefore : before.Ordered)
    (hkeyed : after.Keyed) (id : RowId) : (c.applyTo before).get? id = after.get? id := by
  rcases h.get?_applyTo_cases hbefore hkeyed id with heq | ⟨hkept, hsame⟩
  · exact heq
  · rw [hkept, hsame]

theorem applyTo_of_isEmpty (h : c.isEmpty = true) (rows : RowMap) : c.applyTo rows = rows := by
  rcases c with ⟨table, ⟨added⟩, ⟨modified⟩, ⟨deleted⟩⟩
  simp only [isEmpty, SortedMap.isEmpty, Bool.and_eq_true, List.isEmpty_iff] at h
  rcases h with ⟨⟨rfl, rfl⟩, rfl⟩
  rfl

theorem Between.applyTo_eq (h : c.Between before after) (hbefore : before.Ordered)
    (hafter : after.Ordered) (hkeyed : after.Keyed) : c.applyTo before = after :=
  SortedMap.ext_get? (c.ordered_applyTo hbefore) hafter (h.get?_applyTo hbefore hkeyed)

end ChangeSet

end RelationalDb
