import Mathlib
import RelationalDb.Index.RowIds
import RelationalDb.Proofs.Actions
import RelationalDb.Proofs.SortedMaps

/-!
# The index over row ids as a set

Keys stand for row ids through the signed words, so the ids from `2 ^ 63` on have no key.
Below that bound adding and removing the key of an id adds and removes the id.
-/

namespace RelationalDb

theorem Value.toInt?_lt {v : Value} {n : Int} (h : v.toInt? = some n) :
    n < 0x8000000000000000 := by
  cases v <;> cases h
  case int32 m =>
    have := m.toInt_lt
    omega
  case int64 m => exact m.toInt_lt

namespace RowIdIndex

variable {i : RowIdIndex} {id : RowId}

theorem isSigned_iff : isSigned id = true ↔ id.toNat < 0x8000000000000000 := by
  simp [isSigned]

theorem toInt_toInt64_of_signed (h : isSigned id = true) :
    id.toInt64.toInt = (id.toNat : Int) := by
  have hlt := isSigned_iff.mp h
  rw [Int64.toInt, BitVec.toInt_eq_toNat_cond]
  change (if 2 * id.toNat < 2 ^ 64 then (id.toNat : Int) else _) = _
  rw [if_pos (by omega)]

theorem toInt_toInt64_of_not_signed (h : isSigned id = false) : id.toInt64.toInt < 0 := by
  have hge : ¬ id.toNat < 0x8000000000000000 := by
    intro hlt
    rw [isSigned_iff.mpr hlt] at h
    cases h
  have hbound := id.toNat_lt
  rw [Int64.toInt, BitVec.toInt_eq_toNat_cond]
  change (if 2 * id.toNat < 2 ^ 64 then (id.toNat : Int) else (id.toNat : Int) - ((2 ^ 64 : Nat) : Int)) < 0
  rw [if_neg (by omega)]
  omega

theorem idOfKey_keyOfId (i : RowIdIndex) (h : isSigned id = true) :
    i.idOfKey (keyOfId id) = .ok id := by
  have hint := toInt_toInt64_of_signed h
  have hnonneg : ¬ (id.toNat : Int) < 0 := by omega
  simp only [idOfKey, keyOfId, Value.toInt?, hint, hnonneg, if_false, Int.toNat_natCast,
    UInt64.ofNat_toNat]

/-- The key of any other id is negative and stands for none. -/
theorem idOfKey_keyOfId_error (i : RowIdIndex) (h : isSigned id = false) :
    i.idOfKey (keyOfId id) = .error (.data (.idKeyNegative i.name id.toInt64.toInt)) := by
  simp only [idOfKey, keyOfId, Value.toInt?, toInt_toInt64_of_not_signed h, if_true]

/-!
## Adding and removing
-/

theorem insert_of_holds (h : i.ids.Ordered) (hid : i.holds id = true) :
    i.ids.insert id () = i.ids := by
  rcases SortedMap.contains_iff.mp hid with ⟨u, hu⟩
  apply SortedMap.ext_get? (h.insert id ()) h
  intro k
  rw [SortedMap.get?_insert h]
  split
  · next heq => rw [heq, hu]
  · rfl

theorem erase_of_not_holds (h : i.ids.Ordered) (hid : i.holds id = false) :
    i.ids.erase id = i.ids := by
  apply SortedMap.ext_get? (h.erase id) h
  intro k
  rw [SortedMap.get?_erase h]
  split
  · next heq => rw [heq, SortedMap.contains_eq_false_iff.mp hid]
  · rfl

theorem add_keyOfId (h : i.ids.Ordered) (hid : isSigned id = true) :
    ∃ i', i.add (keyOfId id) = .ok i' ∧ i'.name = i.name ∧ i'.ids = i.ids.insert id () := by
  by_cases hheld : i.holds id = true
  · refine ⟨i, ?_, rfl, (insert_of_holds h hheld).symm⟩
    simp [add, idOfKey_keyOfId i hid, hheld]
  · refine ⟨{ i with ids := i.ids.insert id (), tally := i.tally.add 1 id }, ?_, rfl, rfl⟩
    simp [add, idOfKey_keyOfId i hid, hheld]

theorem add_keyOfId_error (i : RowIdIndex) (hid : isSigned id = false) :
    i.add (keyOfId id) = .error (.data (.idKeyNegative i.name id.toInt64.toInt)) := by
  simp [add, idOfKey_keyOfId_error i hid]

theorem name_remove (i : RowIdIndex) (key : Value) : (i.remove key).name = i.name := by
  unfold remove
  cases i.idOfKey key with
  | error e => rfl
  | ok id => by_cases h : i.holds id = true <;> simp [h]

theorem ids_remove_keyOfId (h : i.ids.Ordered) (hid : isSigned id = true) :
    (i.remove (keyOfId id)).ids = i.ids.erase id := by
  simp only [remove, idOfKey_keyOfId i hid]
  cases hheld : i.holds id with
  | true => simp
  | false => simp [erase_of_not_holds h hheld]

end RowIdIndex

end RelationalDb
