import Mathlib
import RelationalDb.Proofs.Index.RowIdCalls

/-!
# The index over row ids as a set of integers

To its callers an index over row ids is a set of natural numbers.  A number is in it if some call
added it, under a key of either width, and no later call removed it.  What a range of keys gives
are the members of the set between its ends.
-/

namespace RelationalDb

/-!
## Keys and ranges as integers
-/

/-- The integer that a value of either width stands for. -/
inductive Value.IsInteger : Value → Int → Prop
  | int32 (n : Int32) : IsInteger (.int32 n) n.toInt
  | int64 (n : Int64) : IsInteger (.int64 n) n.toInt

namespace Value

variable {v : Value} {m n : Int}

theorem isInteger_iff : v.IsInteger n ↔ v.toInt? = some n := by
  constructor
  · rintro (_ | _) <;> rfl
  · intro h
    cases v <;> cases h
    · exact .int32 _
    · exact .int64 _

theorem toInt?_eq_none_iff : v.toInt? = none ↔ ∀ n, ¬ v.IsInteger n := by
  simp only [isInteger_iff, Option.eq_none_iff_forall_ne_some]

theorem IsInteger.unique (hm : v.IsInteger m) (hn : v.IsInteger n) : m = n := by
  rw [isInteger_iff] at hm hn
  exact Option.some.inj (hm.symm.trans hn)

instance (v : Value) (n : Int) : Decidable (v.IsInteger n) :=
  decidable_of_iff _ isInteger_iff.symm

/-- The integer lies above the value, or on it unless it is left out. -/
def IsBelow (v : Value) (exclusive : Bool) (n : Int) : Prop :=
  ∃ m, v.IsInteger m ∧ if exclusive then m < n else m ≤ n

/-- The integer lies below the value, or on it unless it is left out. -/
def IsAbove (v : Value) (exclusive : Bool) (n : Int) : Prop :=
  ∃ m, v.IsInteger m ∧ if exclusive then n < m else n ≤ m

instance (v : Value) (exclusive : Bool) (n : Int) : Decidable (v.IsBelow exclusive n) :=
  decidable_of_iff (∃ m ∈ v.toInt?, if exclusive then m < n else m ≤ n)
    (by simp [IsBelow, isInteger_iff])

instance (v : Value) (exclusive : Bool) (n : Int) : Decidable (v.IsAbove exclusive n) :=
  decidable_of_iff (∃ m ∈ v.toInt?, if exclusive then n < m else n ≤ m)
    (by simp [IsAbove, isInteger_iff])

theorem IsInteger.isBelow_iff (h : v.IsInteger m) {exclusive : Bool} :
    v.IsBelow exclusive n ↔ (Edge.ofKey m exclusive).admitsFromBelow n = true := by
  have hbelow : v.IsBelow exclusive n ↔ if exclusive then m < n else m ≤ n :=
    ⟨fun ⟨_, hm, hlt⟩ => h.unique hm ▸ hlt, fun hlt => ⟨m, h, hlt⟩⟩
  rw [hbelow]
  cases exclusive with
  | true => simp [Edge.ofKey, Edge.admitsFromBelow, compare_gt_iff_gt]
  | false => simpa [Edge.ofKey, Edge.admitsFromBelow] using compare_ge_iff_ge.symm

theorem IsInteger.isAbove_iff (h : v.IsInteger m) {exclusive : Bool} :
    v.IsAbove exclusive n ↔ (Edge.ofKey m exclusive).admitsFromAbove n = true := by
  have habove : v.IsAbove exclusive n ↔ if exclusive then n < m else n ≤ m :=
    ⟨fun ⟨_, hm, hlt⟩ => h.unique hm ▸ hlt, fun hlt => ⟨m, h, hlt⟩⟩
  rw [habove]
  cases exclusive with
  | true => simp [Edge.ofKey, Edge.admitsFromAbove, compare_lt_iff_lt]
  | false => simpa [Edge.ofKey, Edge.admitsFromAbove] using compare_le_iff_le.symm

end Value

namespace KeyRange

/-- The integer lies in the range, the ends of which are integers themselves. -/
def HasInteger (r : KeyRange Value) (n : Int) : Prop :=
  match r with
  | all => True
  | only k => k.IsInteger n
  | above k exclusive => k.IsBelow exclusive n
  | below k exclusive => k.IsAbove exclusive n
  | between l u lowerExclusive upperExclusive =>
      l.IsBelow lowerExclusive n ∧ u.IsAbove upperExclusive n

instance : (r : KeyRange Value) → (n : Int) → Decidable (r.HasInteger n)
  | all, _ => inferInstanceAs (Decidable True)
  | only k, n => inferInstanceAs (Decidable (k.IsInteger n))
  | above k exclusive, n => inferInstanceAs (Decidable (k.IsBelow exclusive n))
  | below k exclusive, n => inferInstanceAs (Decidable (k.IsAbove exclusive n))
  | between l u lowerExclusive upperExclusive, n =>
      inferInstanceAs (Decidable (l.IsBelow lowerExclusive n ∧ u.IsAbove upperExclusive n))

end KeyRange

namespace RowIdIndex

variable {i : RowIdIndex} {k : Value} {r : KeyRange Value}

theorem boundOfKey_eq_ok {n : Int} (h : k.IsInteger n) : i.boundOfKey k = .ok n := by
  rw [boundOfKey, Value.isInteger_iff.mp h]

theorem boundOfKey_eq_error (h : ∀ n, ¬ k.IsInteger n) :
    i.boundOfKey k = .error (.data (.idBoundType i.name k)) := by
  rw [boundOfKey, Value.toInt?_eq_none_iff.mpr h]

theorem mapM_boundOfKey_ok (h : ∀ e ∈ r.endpoints, ∃ n, e.IsInteger n) :
    ∃ r', r.mapM i.boundOfKey = .ok r' ∧ ∀ n, r'.contains n = true ↔ r.HasInteger n := by
  cases r with
  | all => exact ⟨.all, rfl, fun n => by simp [KeyRange.contains, KeyRange.HasInteger]⟩
  | only k =>
      rcases h k List.mem_cons_self with ⟨m, hm⟩
      refine ⟨.only m, by rw [KeyRange.mapM, boundOfKey_eq_ok hm]; rfl, fun n => ?_⟩
      rw [KeyRange.contains, beq_iff_eq, KeyRange.HasInteger]
      exact ⟨fun heq => heq ▸ hm, fun hn => hn.unique hm⟩
  | above k exclusive =>
      rcases h k List.mem_cons_self with ⟨m, hm⟩
      refine ⟨.above m exclusive, by rw [KeyRange.mapM, boundOfKey_eq_ok hm]; rfl, fun n => ?_⟩
      exact hm.isBelow_iff.symm
  | below k exclusive =>
      rcases h k List.mem_cons_self with ⟨m, hm⟩
      refine ⟨.below m exclusive, by rw [KeyRange.mapM, boundOfKey_eq_ok hm]; rfl, fun n => ?_⟩
      exact hm.isAbove_iff.symm
  | between l u lowerExclusive upperExclusive =>
      rcases h l List.mem_cons_self with ⟨a, ha⟩
      rcases h u (List.mem_cons_of_mem _ List.mem_cons_self) with ⟨b, hb⟩
      refine ⟨.between a b lowerExclusive upperExclusive, ?_, fun n => ?_⟩
      · rw [KeyRange.mapM, boundOfKey_eq_ok ha, boundOfKey_eq_ok hb]
        rfl
      · rw [KeyRange.contains, Bool.and_eq_true, KeyRange.HasInteger, ha.isBelow_iff,
          hb.isAbove_iff]

theorem mapM_boundOfKey_error (h : ∃ e ∈ r.endpoints, ∀ n, ¬ e.IsInteger n) :
    ∃ e ∈ r.endpoints, (∀ n, ¬ e.IsInteger n) ∧
      r.mapM i.boundOfKey = .error (.data (.idBoundType i.name e)) := by
  cases r with
  | all => simp [KeyRange.endpoints] at h
  | only k | above k exclusive | below k exclusive =>
      have hk : ∀ n, ¬ k.IsInteger n := by simpa [KeyRange.endpoints] using h
      refine ⟨k, List.mem_cons_self, hk, ?_⟩
      rw [KeyRange.mapM, boundOfKey_eq_error hk]
      rfl
  | between l u lowerExclusive upperExclusive =>
      by_cases hl : ∃ n, l.IsInteger n
      · rcases hl with ⟨a, ha⟩
        have hu : ∀ n, ¬ u.IsInteger n := by
          rcases h with ⟨e, he, hne⟩
          rcases List.mem_pair.mp he with rfl | rfl
          · exact absurd ha (hne a)
          · exact hne
        refine ⟨u, List.mem_cons_of_mem _ List.mem_cons_self, hu, ?_⟩
        rw [KeyRange.mapM, boundOfKey_eq_ok ha, boundOfKey_eq_error hu]
        rfl
      · have hl' : ∀ n, ¬ l.IsInteger n := not_exists.mp hl
        refine ⟨l, List.mem_cons_self, hl', ?_⟩
        rw [KeyRange.mapM, boundOfKey_eq_error hl']
        rfl

/-!
## The set of an index
-/

/-- What is wrong with a key that no id can be added under: it is no integer or a negative one. -/
inductive Unfit (index : String) : Value → Failure → Prop
  | type {key : Value} (h : ∀ n, ¬ key.IsInteger n) :
      Unfit index key (.data (.idKeyType index key))
  | negative {key : Value} {n : Int} (h : key.IsInteger n) (hn : n < 0) :
      Unfit index key (.data (.idKeyNegative index n))

variable {i' : RowIdIndex} {key : Value} {id : RowId} {f : Failure} {n : ℕ}

theorem exists_idOfKey (i : RowIdIndex) (h : key.IsInteger n) :
    ∃ id : RowId, id.toNat = n ∧ i.idOfKey key = .ok id := by
  have hid : i.idOfKey key = .ok (UInt64.ofNat n) := by
    rw [idOfKey, Value.isInteger_iff.mp h]
    simp
  have hsmall := Value.toInt?_lt (Value.isInteger_iff.mp h)
  have hbound : n < 0x10000000000000000 := by omega
  exact ⟨UInt64.ofNat n, UInt64.toNat_ofNat_of_lt' hbound, hid⟩

theorem idOfKey_eq_ok_iff : i.idOfKey key = .ok id ↔ key.IsInteger id.toNat := by
  constructor
  · intro h
    cases hkey : key.toInt? with
    | none => simp [idOfKey, hkey] at h
    | some m =>
        have hm := Value.isInteger_iff.mpr hkey
        by_cases hneg : m < 0
        · simp [idOfKey, hkey, hneg] at h
        · lift m to ℕ using not_lt.mp hneg
          rcases exists_idOfKey i hm with ⟨id', hid', hok⟩
          rw [hok] at h
          cases h
          rwa [hid']
  · intro h
    rcases exists_idOfKey i h with ⟨id', hid', hok⟩
    rw [hok, UInt64.toNat_inj.mp hid']

theorem idOfKey_eq_error_iff : i.idOfKey key = .error f ↔ Unfit i.name key f := by
  constructor
  · intro h
    cases hkey : key.toInt? with
    | none =>
        simp only [idOfKey, hkey, Except.error.injEq] at h
        exact h ▸ .type (Value.toInt?_eq_none_iff.mp hkey)
    | some m =>
        by_cases hneg : m < 0
        · simp only [idOfKey, hkey, hneg, if_true, Except.error.injEq] at h
          exact h ▸ .negative (Value.isInteger_iff.mpr hkey) hneg
        · simp [idOfKey, hkey, hneg] at h
  · rintro (h | ⟨h, hneg⟩)
    · rw [idOfKey, Value.toInt?_eq_none_iff.mpr h]
    · rw [idOfKey, Value.isInteger_iff.mp h]
      simp [hneg]

theorem not_isInteger_of_unfit {index : String} (h : Unfit index key f) (n : ℕ) :
    ¬ key.IsInteger n := by
  intro hn
  cases h with
  | type h => exact h n hn
  | negative h hneg =>
      have := h.unique hn
      omega

def numbers (i : RowIdIndex) : Finset ℕ :=
  (i.toList.map UInt64.toNat).toFinset

theorem Intact.mem_toList_iff (h : i.Intact) : id ∈ i.toList ↔ i.holds id = true := by
  rw [toList, SortedMap.mem_keys_iff h.ordered, holds, SortedMap.contains_iff]

theorem Intact.mem_numbers_iff (h : i.Intact) :
    n ∈ i.numbers ↔ ∃ id, i.holds id = true ∧ id.toNat = n := by
  simp only [numbers, List.mem_toFinset, List.mem_map, h.mem_toList_iff]

theorem add_eq_error_iff : i.add key = .error f ↔ Unfit i.name key f := by
  rw [← idOfKey_eq_error_iff, add]
  cases i.idOfKey key with
  | error f' => simp
  | ok id => by_cases hheld : i.holds id = true <;> simp [hheld]

theorem holds_of_add (h : i.ids.Ordered) (hadd : i.add key = .ok i') :
    i'.holds id = true ↔ key.IsInteger id.toNat ∨ i.holds id = true := by
  rcases Outcome.bind_eq_ok_iff.mp hadd with ⟨id', hid', hrest⟩
  rw [← idOfKey_eq_ok_iff (i := i), hid', Except.ok.injEq]
  by_cases hheld : i.holds id' = true
  · rw [if_pos hheld] at hrest
    cases hrest
    exact ⟨Or.inr, fun h => h.elim (fun heq => heq ▸ hheld) fun hkept => hkept⟩
  · rw [if_neg hheld] at hrest
    cases hrest
    simp only [holds, SortedMap.contains, SortedMap.get?_insert h]
    by_cases heq : id = id'
    · simp [heq]
    · simp [heq, Ne.symm heq]

theorem holds_remove (h : i.ids.Ordered) (key : Value) :
    (i.remove key).holds id = true ↔ i.holds id = true ∧ ¬ key.IsInteger id.toNat := by
  rw [← idOfKey_eq_ok_iff (i := i)]
  unfold remove
  cases hid : i.idOfKey key with
  | error f => simp
  | ok id' =>
      rw [Except.ok.injEq]
      by_cases hheld : i.holds id' = true
      · simp only [hheld, if_true]
        simp only [holds, SortedMap.contains, SortedMap.get?_erase h]
        by_cases heq : id = id'
        · simp [heq]
        · simp [heq, Ne.symm heq]
      · simp only [hheld]
        exact ⟨fun hkept => ⟨hkept, fun heq => hheld (heq ▸ hkept)⟩, fun hkept => hkept.1⟩

theorem Intact.mem_numbers_add (h : i.Intact) (hadd : i.add key = .ok i') :
    n ∈ i'.numbers ↔ key.IsInteger n ∨ n ∈ i.numbers := by
  rw [(h.add hadd).1.mem_numbers_iff, h.mem_numbers_iff]
  simp only [holds_of_add h.ordered hadd, or_and_right, exists_or]
  apply or_congr_left
  constructor
  · rintro ⟨id, hkey, rfl⟩
    exact hkey
  · intro hkey
    rcases exists_idOfKey i hkey with ⟨id, rfl, -⟩
    exact ⟨id, hkey, rfl⟩

theorem Intact.mem_numbers_remove (h : i.Intact) (key : Value) :
    n ∈ (i.remove key).numbers ↔ n ∈ i.numbers ∧ ¬ key.IsInteger n := by
  rw [(h.remove key).mem_numbers_iff, h.mem_numbers_iff]
  simp only [holds_remove h.ordered key]
  constructor
  · rintro ⟨id, ⟨hkept, hkey⟩, rfl⟩
    exact ⟨⟨id, hkept, rfl⟩, hkey⟩
  · rintro ⟨⟨id, hkept, rfl⟩, hkey⟩
    exact ⟨id, ⟨hkept, hkey⟩, rfl⟩

end RowIdIndex

/-!
## Numbers added and not removed since
-/

namespace IndexCall

def Adds (c : IndexCall) (n : ℕ) : Prop :=
  match c with
  | add key _ | set key _ => key.IsInteger n
  | remove _ _ | clear => False

def Removes (c : IndexCall) (n : ℕ) : Prop :=
  match c with
  | add _ _ | set _ _ => False
  | remove key _ => key.IsInteger n
  | clear => True

def Refused (index : String) (c : IndexCall) (f : Failure) : Prop :=
  match c with
  | add key _ | set key _ => RowIdIndex.Unfit index key f
  | remove _ _ | clear => False

/-- One of the calls adds the number, and none after it removes the number. -/
def Leave (calls : List IndexCall) (n : ℕ) : Prop :=
  ∃ earlier c later, calls = earlier ++ c :: later ∧ c.Adds n ∧ ∀ c' ∈ later, ¬ c'.Removes n

variable {i : RowIdIndex} {c : IndexCall} {calls : List IndexCall} {n : ℕ}

theorem not_leave_nil : ¬ Leave [] n := by
  rintro ⟨earlier, c, later, hcalls, -⟩
  simp at hcalls

theorem leave_cons_iff :
    Leave (c :: calls) n ↔ (c.Adds n ∧ ∀ c' ∈ calls, ¬ c'.Removes n) ∨ Leave calls n := by
  constructor
  · rintro ⟨earlier, c', later, hcalls, hadds, hlater⟩
    cases earlier with
    | nil =>
        cases hcalls
        exact Or.inl ⟨hadds, hlater⟩
    | cons c₀ earlier =>
        cases hcalls
        exact Or.inr ⟨earlier, c', later, rfl, hadds, hlater⟩
  · rintro (⟨hadds, hlater⟩ | ⟨earlier, c', later, rfl, hadds, hlater⟩)
    · exact ⟨[], c, calls, rfl, hadds, hlater⟩
    · exact ⟨c :: earlier, c', later, rfl, hadds, hlater⟩

theorem perform_enterId_eq_error_iff {key : Value} {f : Failure} :
    ((enterId key).perform i).1 = .error f ↔ RowIdIndex.Unfit i.name key f := by
  rw [← RowIdIndex.add_eq_error_iff, perform_enterId]
  cases i.add key <;> simp

theorem perform_onRowIds_eq_error_iff {f : Failure} :
    (c.onRowIds.perform i).1 = .error f ↔ c.Refused i.name f := by
  cases c with
  | add key id => exact perform_enterId_eq_error_iff
  | set key id =>
      rw [perform_set_onRowIds, perform_enterId_eq_error_iff, RowIdIndex.name_remove]
      rfl
  | remove key id => simp [onRowIds, Refused]
  | clear => simp [onRowIds, Refused]

/-- A key that no id can be added under is not removed first either. -/
theorem perform_onRowIds_of_refused {f : Failure} (h : c.Refused i.name f) :
    (c.onRowIds.perform i).2 = i := by
  have henter : ∀ key, RowIdIndex.Unfit i.name key f → ((enterId key).perform i).2 = i := by
    intro key hkey
    rw [perform_enterId, RowIdIndex.add_eq_error_iff.mpr hkey]
  cases c with
  | add key id => exact henter key h
  | set key id =>
      have hremove : i.remove key = i := by
        rw [RowIdIndex.remove, RowIdIndex.idOfKey_eq_error_iff.mpr h]
      rw [perform_set_onRowIds, hremove]
      exact henter key h
  | remove key id => exact h.elim
  | clear => exact h.elim

end IndexCall

namespace RowIdIndex

variable {i : RowIdIndex} {c : IndexCall} {calls : List IndexCall} {n : ℕ}

theorem Intact.mem_numbers_enterId (h : i.Intact) (key : Value) :
    n ∈ ((IndexCall.enterId key).perform i).2.numbers ↔ key.IsInteger n ∨ n ∈ i.numbers := by
  rw [IndexCall.perform_enterId]
  cases hadd : i.add key with
  | error f =>
      have hkey := not_isInteger_of_unfit (add_eq_error_iff.mp hadd) n
      simp [hkey]
  | ok i' => exact h.mem_numbers_add hadd

theorem Intact.mem_numbers_perform (h : i.Intact) (c : IndexCall) :
    n ∈ (c.onRowIds.perform i).2.numbers ↔ c.Adds n ∨ n ∈ i.numbers ∧ ¬ c.Removes n := by
  cases c with
  | add key id =>
      rw [IndexCall.onRowIds, h.mem_numbers_enterId]
      simp [IndexCall.Adds, IndexCall.Removes]
  | set key id =>
      rw [IndexCall.perform_set_onRowIds, (h.remove key).mem_numbers_enterId,
        h.mem_numbers_remove]
      simp only [IndexCall.Adds, IndexCall.Removes, not_false_eq_true, and_true]
      tauto
  | remove key id =>
      rw [IndexCall.onRowIds, Action.perform_modify, h.mem_numbers_remove]
      simp [IndexCall.Adds, IndexCall.Removes]
  | clear =>
      rw [IndexCall.onRowIds, Action.perform_modify]
      simp [numbers, RowIdIndex.clear, toList, SortedMap.keys, IndexCall.Adds, IndexCall.Removes]

/-- Calls leave the numbers that they add last, and those of the index that they do not remove. -/
theorem Intact.mem_numbers_performAll (h : i.Intact) (calls : List IndexCall) :
    n ∈ (Action.performAll (calls.map IndexCall.onRowIds) i).2.numbers ↔
      IndexCall.Leave calls n ∨ n ∈ i.numbers ∧ ∀ c ∈ calls, ¬ c.Removes n := by
  induction calls generalizing i with
  | nil => simp [Action.performAll, IndexCall.not_leave_nil]
  | cons c rest ih =>
      have hi : (c.onRowIds.perform i).2.Intact := (keeps_onRowIds i.name c i ⟨h, rfl⟩).1
      rw [List.map_cons, Action.performAll_cons, ih hi, h.mem_numbers_perform,
        IndexCall.leave_cons_iff, List.forall_mem_cons]
      -- What the first call adds or leaves alone stays unless one of the rest removes it.
      tauto

end RowIdIndex

/-!
## What callers see
-/

def Direction.sort (d : Direction) (s : Finset ℕ) : List ℕ :=
  match d with
  | .ascending => s.sort (· ≤ ·)
  | .descending => s.sort (· ≥ ·)

theorem Direction.arrange_eq_sort (d : Direction) {l : List ℕ} (h : l.Pairwise (· < ·)) :
    d.arrange l = d.sort l.toFinset := by
  have hnodup : l.Nodup := h.imp Nat.ne_of_lt
  cases d with
  | ascending => exact ((List.toFinset_sort _ hnodup).mpr (h.imp Nat.le_of_lt)).symm
  | descending =>
      have hreverse : l.reverse.Pairwise (· ≥ ·) :=
        List.pairwise_reverse.mpr (h.imp Nat.le_of_lt)
      rw [sort, ← List.toFinset_reverse]
      exact ((List.toFinset_sort _ (List.nodup_reverse.mpr hnodup)).mpr hreverse).symm

theorem map_slice {α β : Type} (f : α → β) (l : List α) (limit : Option Nat) (skip : Nat) :
    (slice l limit skip).map f =
      let rest := (l.map f).drop skip
      limit.elim rest rest.take := by
  cases limit <;> simp [slice]

namespace RowIdIndex

variable {i : RowIdIndex}

/-- The answers of an index over row ids, read off a set of numbers. -/
structure Represents (i : RowIdIndex) (s : Finset ℕ) : Prop where
  ids : i.toList.map UInt64.toNat = s.sort (· ≤ ·)
  contains : ∀ key, i.contains key = true ↔ ∃ n ∈ s, key.IsInteger n
  size : i.size = s.card
  counted : i.tally.total = s.card
  range : ∀ wanted direction limit skip,
    (∀ e ∈ (wanted.getD .all).endpoints, ∃ n, e.IsInteger n) →
      let inside := s.filter fun n : ℕ => (wanted.getD .all).HasInteger n
      let rest := (direction.sort inside).drop skip
      ∃ ids, i.range wanted direction limit skip = .ok ids ∧
        ids.map UInt64.toNat = limit.elim rest rest.take
  rejects : ∀ wanted direction limit skip,
    (∃ e ∈ (wanted.getD .all).endpoints, ∀ n, ¬ e.IsInteger n) →
      ∃ e ∈ (wanted.getD .all).endpoints, (∀ n, ¬ e.IsInteger n) ∧
        i.range wanted direction limit skip = .error (.data (.idBoundType i.name e))

theorem Intact.sorted_toNat (h : i.Intact) : (i.toList.map UInt64.toNat).Pairwise (· < ·) := by
  rw [List.pairwise_map]
  exact h.ordered.sorted_keys.imp fun hlt => UInt64.lt_iff_toNat_lt.mp (Std.compare_eq_lt.mp hlt)

theorem Intact.card_numbers (h : i.Intact) : i.numbers.card = i.size := by
  rw [numbers, List.toFinset_card_of_nodup (h.sorted_toNat.imp Nat.ne_of_lt), List.length_map,
    toList, SortedMap.keys, List.length_map]
  rfl

theorem Intact.contains_iff (h : i.Intact) (key : Value) :
    i.contains key = true ↔ ∃ n ∈ i.numbers, key.IsInteger n := by
  have hholds : i.contains key = true ↔ ∃ id, i.idOfKey key = .ok id ∧ i.holds id = true := by
    unfold RowIdIndex.contains
    cases i.idOfKey key <;> simp
  rw [hholds]
  simp only [h.mem_numbers_iff, idOfKey_eq_ok_iff]
  constructor
  · rintro ⟨id, hkey, hid⟩
    exact ⟨id.toNat, ⟨id, hid, rfl⟩, hkey⟩
  · rintro ⟨n, ⟨id, hid, rfl⟩, hkey⟩
    exact ⟨id, hkey, hid⟩

theorem Intact.isSigned_of_mem (h : i.Intact) {id : RowId} (hid : id ∈ i.toList) :
    isSigned id = true := by
  rcases (SortedMap.mem_keys_iff h.ordered).mp hid with ⟨u, hu⟩
  exact h.signed hu

theorem Intact.range_eq (h : i.Intact) {wanted : Option (KeyRange Value)}
    (hr : ∀ e ∈ (wanted.getD .all).endpoints, ∃ n, e.IsInteger n) (direction : Direction)
    (limit : Option Nat) (skip : Nat) :
    let inside := i.numbers.filter fun n : ℕ => (wanted.getD .all).HasInteger n
    let rest := (direction.sort inside).drop skip
    ∃ ids, i.range wanted direction limit skip = .ok ids ∧
      ids.map UInt64.toNat = limit.elim rest rest.take := by
  intro inside rest
  rcases mapM_boundOfKey_ok (i := i) hr with ⟨wanted', hread, hcontains⟩
  let hits := i.toList.filter fun id => isSigned id && wanted'.contains (id.toNat : Int)
  have hrange : i.range wanted direction limit skip =
      .ok (slice (direction.arrange hits) limit skip) := by
    rw [RowIdIndex.range, hread, Outcome.ok_bind]
    cases direction <;> rfl
  have hsorted : (hits.map UInt64.toNat).Pairwise (· < ·) :=
    h.sorted_toNat.sublist (List.filter_sublist.map _)
  have hinside : (hits.map UInt64.toNat).toFinset = inside := by
    ext n
    simp only [hits, inside, numbers, List.mem_toFinset, List.mem_map, List.mem_filter,
      Finset.mem_filter, Bool.and_eq_true, hcontains]
    constructor
    · rintro ⟨id, ⟨hid, -, hn⟩, rfl⟩
      exact ⟨⟨id, hid, rfl⟩, hn⟩
    · rintro ⟨⟨id, hid, rfl⟩, hn⟩
      exact ⟨id, ⟨hid, h.isSigned_of_mem hid, hn⟩, rfl⟩
  refine ⟨_, hrange, ?_⟩
  rw [map_slice, Direction.map_arrange, direction.arrange_eq_sort hsorted, hinside]

theorem range_eq_error {wanted : Option (KeyRange Value)}
    (hr : ∃ e ∈ (wanted.getD .all).endpoints, ∀ n, ¬ e.IsInteger n) (direction : Direction)
    (limit : Option Nat) (skip : Nat) :
    ∃ e ∈ (wanted.getD .all).endpoints, (∀ n, ¬ e.IsInteger n) ∧
      i.range wanted direction limit skip = .error (.data (.idBoundType i.name e)) := by
  rcases mapM_boundOfKey_error (i := i) hr with ⟨e, he, hne, herror⟩
  refine ⟨e, he, hne, ?_⟩
  rw [range, herror, Outcome.error_bind]

theorem Intact.represents (h : i.Intact) (hcounted : i.Counted) : i.Represents i.numbers where
  ids := Direction.arrange_eq_sort .ascending h.sorted_toNat
  contains := h.contains_iff
  size := h.card_numbers.symm
  counted := hcounted.trans h.card_numbers.symm
  range := fun _ direction limit skip hr => h.range_eq hr direction limit skip
  rejects := fun _ direction limit skip hr => range_eq_error hr direction limit skip

/-- After any calls an index over row ids is the set of the natural numbers that were added and
not removed since.  A call is refused because of its key alone, and then it changes nothing. -/
theorem performAll_represents_numbers (name : String) (calls : List IndexCall) :
    let i := (Action.performAll (calls.map IndexCall.onRowIds) { name := name }).2
    (∃ s : Finset ℕ, (∀ n, n ∈ s ↔ IndexCall.Leave calls n) ∧ i.Represents s) ∧
      ∀ (c : IndexCall) (f : Failure),
        ((c.onRowIds.perform i).1 = .error f ↔ c.Refused name f) ∧
          (c.Refused name f → (c.onRowIds.perform i).2 = i) := by
  intro i
  have hempty : ({ name := name } : RowIdIndex).Intact := intact_empty name
  have hcounted : i.Intact ∧ i.Counted :=
    Action.keeps_performAll (P := fun i : RowIdIndex => i.Intact ∧ i.Counted)
      (List.forall_mem_map.mpr fun c _ => keeps_counted c) ⟨hempty, rfl⟩
  have hname : i.Intact ∧ i.name = name :=
    Action.keeps_performAll (P := fun i : RowIdIndex => i.Intact ∧ i.name = name)
      (List.forall_mem_map.mpr fun c _ => keeps_onRowIds name c) ⟨hempty, rfl⟩
  refine ⟨⟨i.numbers, fun n => ?_, hcounted.1.represents hcounted.2⟩, fun c f => ?_⟩
  · rw [hempty.mem_numbers_performAll]
    have hnone : n ∉ ({ name := name } : RowIdIndex).numbers := by
      simp [numbers, toList, SortedMap.keys]
    simp [hnone]
  · rw [← hname.2]
    exact ⟨IndexCall.perform_onRowIds_eq_error_iff, IndexCall.perform_onRowIds_of_refused⟩

/-- A key of the narrow width removes what one of the wide width added, a negative key is refused
before anything is removed, and the ends of a range may be negative. -/
example :
    let calls : List IndexCall :=
      [.add (.int64 3) 0, .set (.int32 7) 0, .add (.int64 7) 0, .remove (.int32 3) none,
        .set (.int64 (-7)) 0, .add (.string "9") 0, .add (.int32 5) 0]
    let i := (Action.performAll (calls.map IndexCall.onRowIds) { name := "item.#" }).2
    i.toList = [5, 7] ∧ i.tally.total = 2 ∧
      i.range (some (.above (.int32 (-4)) true)) .descending none 1 = .ok [5] := by
  exact ⟨by decide, by decide, rfl⟩

end RowIdIndex

end RelationalDb
