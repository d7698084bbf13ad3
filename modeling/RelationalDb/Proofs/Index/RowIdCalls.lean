import Mathlib
import RelationalDb.Proofs.Index.KeyMaps
import RelationalDb.Proofs.Index.RowIdSets

/-!
# Calls to an index over row ids

An index over row ids takes the same calls as an index over a column, but the keys alone count.
Whatever the keys are, the ids in it are ids that keys stand for, they stand in ascending order,
and as many are counted as there are.
-/

namespace RelationalDb

namespace IndexCall

def enterId (key : Value) : Action RowIdIndex Unit := do
  let i ← Action.ofOutcome ((← get).add key)
  modify fun _ => i

/-- What the call does to an index over row ids, where the key alone counts. -/
def onRowIds : IndexCall → Action RowIdIndex Unit
  | add key _ => enterId key
  | set key _ => do
      modify fun i => i.remove key
      enterId key
  | remove key _ => modify fun i => i.remove key
  | clear => modify RowIdIndex.clear

theorem perform_enterId (i : RowIdIndex) (key : Value) :
    (enterId key).perform i =
      match i.add key with
      | .ok i' => (.ok (), i')
      | .error f => (.error f, i) := by
  change (Action.ofOutcome (i.add key) >>= fun i' => modify fun _ => i').perform i = _
  rw [Action.perform_bind, Action.perform_ofOutcome]
  cases i.add key <;> rfl

theorem perform_set_onRowIds (i : RowIdIndex) (key : Value) (id : RowId) :
    (set key id).onRowIds.perform i = (enterId key).perform (i.remove key) := rfl

/-- What is kept when an id is added, when one is removed and when all are is kept by every
call. -/
theorem keeps_onRowIds_of {P : RowIdIndex → Prop}
    (hadd : ∀ {i i' key}, P i → i.add key = .ok i' → P i')
    (hremove : ∀ {i} key, P i → P (i.remove key)) (hclear : ∀ {i}, P i → P i.clear)
    (c : IndexCall) : Action.Keeps P c.onRowIds := by
  have henter : ∀ key, Action.Keeps P (enterId key) := by
    intro key i h
    rw [perform_enterId]
    cases hi : i.add key with
    | error f => exact h
    | ok i' => exact hadd h hi
  intro i h
  cases c with
  | add key id => exact henter key i h
  | set key id => exact henter key (i.remove key) (hremove key h)
  | remove key id => exact hremove key h
  | clear => exact hclear h

end IndexCall

namespace RowIdIndex

variable {i i' : RowIdIndex} {key : Value} {id : RowId}

/-!
## Ids that keys stand for
-/

/-- Ids that keys stand for, in ascending order. -/
structure Intact (i : RowIdIndex) : Prop where
  ordered : i.ids.Ordered
  signed : ∀ {id u}, i.ids.get? id = some u → isSigned id = true

theorem signed_of_idOfKey (h : i.idOfKey key = .ok id) : isSigned id = true := by
  unfold idOfKey at h
  cases hint : key.toInt? with
  | none => simp [hint] at h
  | some n =>
      have hlt := Value.toInt?_lt hint
      by_cases hneg : n < 0
      · simp [hint, hneg] at h
      · simp only [hint, hneg, if_false, Except.ok.injEq] at h
        have hsmall : n.toNat < 0x10000000000000000 := by omega
        rw [isSigned_iff, ← h, UInt64.toNat_ofNat_of_lt' hsmall]
        omega

theorem intact_empty (name : String) : ({ name := name } : RowIdIndex).Intact :=
  ⟨SortedMap.ordered_empty, fun h => by cases h⟩

theorem Intact.add (h : i.Intact) (hadd : i.add key = .ok i') : i'.Intact ∧ i'.name = i.name := by
  rcases Outcome.bind_eq_ok_iff.mp hadd with ⟨id, hid, hrest⟩
  by_cases hheld : i.holds id = true
  · simp only [hheld] at hrest
    cases hrest
    exact ⟨h, rfl⟩
  · simp only [hheld] at hrest
    cases hrest
    exact ⟨⟨h.ordered.insert id (), SortedMap.forall_insert h.ordered (signed_of_idOfKey hid)
      h.signed⟩, rfl⟩

theorem Intact.remove (h : i.Intact) (key : Value) : (i.remove key).Intact := by
  unfold RowIdIndex.remove
  split
  · exact h
  · next id hid =>
      split
      · exact ⟨h.ordered.erase id, SortedMap.forall_erase h.ordered h.signed⟩
      · exact h

theorem intact_clear (i : RowIdIndex) : i.clear.Intact :=
  ⟨SortedMap.ordered_empty, fun h => by cases h⟩

theorem keeps_onRowIds (name : String) (c : IndexCall) :
    Action.Keeps (fun i : RowIdIndex => i.Intact ∧ i.name = name) c.onRowIds := by
  apply IndexCall.keeps_onRowIds_of
  · intro i i' key h hadd
    exact ⟨(h.1.add hadd).1, (h.1.add hadd).2.trans h.2⟩
  · intro i key h
    exact ⟨h.1.remove key, (name_remove i key).trans h.2⟩
  · intro i h
    exact ⟨intact_clear i, h.2⟩

/-!
## Counting
-/

def Counted (i : RowIdIndex) : Prop :=
  i.tally.total = i.size

theorem Counted.add (h : i.Counted) (hi : i.ids.Ordered) (hadd : i.add key = .ok i') :
    i'.Counted ∧ i'.ids.Ordered := by
  rcases Outcome.bind_eq_ok_iff.mp hadd with ⟨id, _, hrest⟩
  by_cases hheld : i.holds id = true
  · simp only [hheld] at hrest
    cases hrest
    exact ⟨h, hi⟩
  · simp only [hheld] at hrest
    cases hrest
    refine ⟨?_, hi.insert id ()⟩
    have hnone : i.ids.get? id = none :=
      SortedMap.contains_eq_false_iff.mp (Bool.eq_false_iff.mpr hheld)
    have hsize := SortedMap.size_insert hi id ()
    rw [hnone] at hsize
    unfold Counted size at h ⊢
    simp only [IndexTally.add, h, hsize]
    rfl

theorem Counted.remove (h : i.Counted) (key : Value) : (i.remove key).Counted := by
  unfold RowIdIndex.remove
  split
  · exact h
  · next id _ =>
      split
      · next hheld =>
          rcases SortedMap.contains_iff.mp hheld with ⟨u, hu⟩
          have hsize := SortedMap.size_erase i.ids id
          rw [hu, Option.isSome_some, if_pos rfl] at hsize
          unfold Counted size at h ⊢
          simp only [IndexTally.remove]
          omega
      · exact h

theorem keeps_counted (c : IndexCall) :
    Action.Keeps (fun i : RowIdIndex => i.Intact ∧ i.Counted) c.onRowIds := by
  apply IndexCall.keeps_onRowIds_of
  · intro i i' key h hadd
    exact ⟨(h.1.add hadd).1, (h.2.add h.1.ordered hadd).1⟩
  · intro i key h
    exact ⟨h.1.remove key, h.2.remove key⟩
  · intro i h
    exact ⟨intact_clear i, rfl⟩

end RowIdIndex

end RelationalDb
