import Mathlib
import RelationalDb.Proofs.Index.KeyIndices
import RelationalDb.Proofs.MixedValues

/-!
# Removing rows under any key

A value of another type can compare equal to keys of an index: an integer to a double, and a
double even to several integers.  Rows may be removed under such a value.  It finds one entry,
and as keys keep their order when they are compared with it, the index stays sound.
-/

namespace RelationalDb

namespace Value

theorem compare_ne_lt_of_eq {a b k : Value} (htype : a.type? = b.type?) (hab : compare a b = .lt)
    (hkb : compare k b = .eq) : compare k a ≠ .lt := by
  intro hka
  have hle : (compare a b).isLE = true := by
    rw [hab]
    rfl
  have hbk : (compare b k).isLE = true := by
    rw [compare_swap, hkb]
    rfl
  have hak := (isLE_iff_not_mergesBetween hle hbk).mpr (not_mergesBetween_of_type htype)
  rw [compare_swap, hka] at hak
  cases hak

end Value

/-!
## Entries that a key reaches
-/

namespace SortedMap

variable {κ α : Type} [Ord κ] {P : κ → Prop} {k : κ} {a : α} {l l' : List (κ × α)}

/-- Up to an entry with this key no entry lies beyond it. -/
def Reaches (k : κ) (l : List (κ × α)) : Prop :=
  l.Pairwise fun e e' => compare k e'.1 = .eq → compare k e.1 ≠ .lt

theorem Ascending.of_keys (h : Ascending P l) (hkeys : l'.map (·.1) = l.map (·.1)) :
    Ascending P l' where
  kind := by
    intro e he
    have hmem : e.1 ∈ l.map (·.1) := hkeys ▸ List.mem_map_of_mem he
    rcases List.mem_map.mp hmem with ⟨e', he', heq⟩
    exact heq ▸ h.kind e' he'
  sorted := by
    have hsorted : (l.map (·.1)).Pairwise fun a b => compare a b = .lt := by
      rw [List.pairwise_map]
      exact h.sorted
    rw [← hkeys, List.pairwise_map] at hsorted
    exact hsorted

theorem keys_insertEntry (hl : Reaches k l) (h : lookup k l ≠ none) :
    (insertEntry k a l).map (·.1) = l.map (·.1) := by
  induction l with
  | nil => exact absurd rfl h
  | cons e rest ih =>
      rcases e with ⟨k₀, a₀⟩
      rcases List.pairwise_cons.mp hl with ⟨hfirst, hrest⟩
      cases hc : compare k k₀ with
      | lt =>
          simp only [lookup, hc, reduceCtorEq, if_false] at h
          rcases Option.ne_none_iff_exists'.mp h with ⟨b, hb⟩
          rcases mem_of_lookup hb with ⟨k', hmem, heq⟩
          exact absurd hc (hfirst (k', b) hmem heq)
      | eq => simp [insertEntry, hc]
      | gt =>
          simp only [lookup, hc, reduceCtorEq, if_false] at h
          simp [insertEntry, hc, ih hrest h]

section Sizes

variable (f : α → Nat)

theorem sum_insertEntry (hl : Reaches k l) :
    ((insertEntry k a l).map fun e => f e.2).sum + ((lookup k l).map f).getD 0 =
      (l.map fun e => f e.2).sum + f a := by
  induction l with
  | nil => simp [insertEntry, lookup]
  | cons e rest ih =>
      rcases e with ⟨k₀, a₀⟩
      rcases List.pairwise_cons.mp hl with ⟨hfirst, hrest⟩
      cases hc : compare k k₀ with
      | lt =>
          have hnone : lookup k rest = none := by
            rw [lookup_eq_none_iff]
            intro e he heq
            exact hfirst e he heq hc
          simp only [insertEntry, lookup, hc, hnone, reduceCtorEq, if_false, List.map_cons,
            List.sum_cons, Option.map_none, Option.getD_none]
          omega
      | eq =>
          simp only [insertEntry, lookup, hc, if_true, List.map_cons, List.sum_cons,
            Option.map_some, Option.getD_some]
          omega
      | gt =>
          simp only [insertEntry, lookup, hc, reduceCtorEq, if_false, List.map_cons, List.sum_cons]
          have hsum := ih hrest
          omega

theorem sum_eraseEntry (k : κ) (l : List (κ × α)) :
    ((eraseEntry k l).map fun e => f e.2).sum + ((lookup k l).map f).getD 0 =
      (l.map fun e => f e.2).sum := by
  induction l with
  | nil => simp [eraseEntry, lookup]
  | cons e rest ih =>
      rcases e with ⟨k₀, a₀⟩
      by_cases hc : compare k k₀ = .eq
      · simp only [eraseEntry, lookup, hc, if_true, List.map_cons, List.sum_cons,
          Option.map_some, Option.getD_some]
        omega
      · simp only [eraseEntry, lookup, hc, if_false, List.map_cons, List.sum_cons]
        omega

end Sizes

theorem size_erase (m : SortedMap κ α) (k : κ) :
    (m.erase k).size + (if (m.get? k).isSome then 1 else 0) = m.size := by
  have hsum := sum_eraseEntry (fun _ => 1) k m.entries
  rw [List.map_const', List.map_const', List.sum_replicate, List.sum_replicate, smul_eq_mul,
    smul_eq_mul, mul_one, mul_one] at hsum
  unfold size get? erase
  rw [← hsum]
  cases lookup k m.entries <;> rfl

end SortedMap

/-!
## Indices with fewer rows under a key
-/

namespace KeyIndex

variable {i i' : KeyIndex} {k key : Value} {id : RowId} {keep : List RowId → List RowId}

/-- The index with some of the rows under a key; the key goes with its last row. -/
def leave (i : KeyIndex) (key : Value) (keep : List RowId → List RowId) : KeyIndex :=
  match i.entries.get? key with
  | none => i
  | some ids =>
      { i with
        entries :=
          if (keep ids).isEmpty then i.entries.erase key else i.entries.insert key (keep ids)
        tally := i.tally.remove (ids.length - (keep ids).length) }

theorem remove_eq_leave (i : KeyIndex) (key : Value) (id : RowId) :
    i.remove key id = i.leave key fun ids => ids.filter (· != id) := rfl

theorem removeKey_eq_leave (i : KeyIndex) (key : Value) :
    i.removeKey key = i.leave key fun _ => [] := rfl

theorem Sound.reaches (h : i.Sound) (key : Value) :
    SortedMap.Reaches key i.entries.entries :=
  h.ascending.sorted.imp_of_mem fun he he' hlt heq =>
    Value.compare_ne_lt_of_eq ((h.ascending.kind _ he).trans (h.ascending.kind _ he').symm) hlt heq

theorem emptied_leave (i : KeyIndex) (key : Value) (keep : List RowId → List RowId) :
    (i.leave key keep).emptied = i.emptied := by
  unfold leave
  split
  · rfl
  · rfl

theorem forall_leave {Q : List RowId → Prop} (h : ∀ e ∈ i.entries.entries, Q e.2)
    (hkeep : ∀ ids, Q ids → keep ids ≠ [] → Q (keep ids)) :
    ∀ e ∈ (i.leave key keep).entries.entries, Q e.2 := by
  unfold leave
  split
  · exact h
  · next ids hget =>
      rcases SortedMap.mem_of_lookup hget with ⟨k', hmem, _⟩
      dsimp only
      split
      · exact fun e he => h e (SortedMap.eraseEntry_sublist.subset he)
      · next hne =>
          apply SortedMap.forall_insertEntry h
          exact hkeep ids (h _ hmem) (by simpa using hne)

theorem Sound.leave (h : i.Sound) (hkeep : ∀ ids, (keep ids).Sublist ids) (key : Value) :
    (i.leave key keep).Sound where
  ascending := by
    rw [keyType_eq_of_emptied (emptied_leave i key keep)]
    unfold KeyIndex.leave
    split
    · exact h.ascending
    · next ids hget =>
        dsimp only
        split
        · exact SortedMap.ascending_eraseEntry h.ascending
        · apply h.ascending.of_keys
          apply SortedMap.keys_insertEntry (h.reaches key)
          intro hnone
          rw [SortedMap.get?, hnone] at hget
          cases hget
  nonempty := by
    apply forall_leave (Q := (· ≠ [])) h.nonempty
    exact fun _ _ hne => hne
  nodup := by
    apply forall_leave (Q := List.Nodup) h.nodup
    exact fun ids hids _ => hids.sublist (hkeep ids)
  single := by
    rw [unique_eq_of_emptied (emptied_leave i key keep)]
    intro hunique
    apply forall_leave (Q := fun ids => ids.length ≤ 1) (h.single hunique)
    exact fun ids hids _ => (hkeep ids).length_le.trans hids

theorem Sound.get_leave (h : i.Sound) (hkeep : keep [] = []) (hkey : key.type? = some i.keyType)
    (hk : k.type? = some i.keyType) :
    (i.leave key keep).get k = if compare k key = .eq then keep (i.get key) else i.get k := by
  have ord := Value.orderedOn_type i.keyType
  unfold KeyIndex.leave
  split
  · next hget =>
      have hnil : i.get key = [] := by simp [get, hget]
      split
      · next heq => rw [h.get_congr hk hkey heq, hnil, hkeep]
      · rfl
  · next ids hget =>
      have hids : i.get key = ids := by simp [get, hget]
      rw [get_eq]
      dsimp only
      split
      · next hempty =>
          rw [SortedMap.entries_erase, SortedMap.lookup_eraseEntry ord h.ascending hkey hk, hids,
            List.isEmpty_iff.mp hempty]
          split
          · rfl
          · exact (get_eq i k).symm
      · rw [SortedMap.entries_insert, SortedMap.lookup_insertEntry ord h.ascending hkey hk, hids]
        split
        · rfl
        · exact (get_eq i k).symm

theorem Sound.remove_spec (h : i.Sound) (hkey : key.type? = some i.keyType) (id : RowId) :
    (i.remove key id).Sound ∧ (i.remove key id).emptied = i.emptied ∧
      ∀ k, k.type? = some i.keyType →
        (i.remove key id).get k =
          if compare k key = .eq then (i.get key).filter (· != id) else i.get k := by
  rw [remove_eq_leave]
  refine ⟨h.leave (fun ids => List.filter_sublist) key, emptied_leave i key _, ?_⟩
  intro k hk
  exact h.get_leave rfl hkey hk

/-!
## Counting
-/

def Counted (i : KeyIndex) : Prop :=
  i.size = (i.entries.entries.map fun e => e.2.length).sum

theorem Counted.length_pairs (h : i.Counted) : i.pairs.length = i.size := by
  rw [h]
  simp [pairs, List.length_flatMap]

theorem length_get (i : KeyIndex) (key : Value) :
    (i.get key).length = ((SortedMap.lookup key i.entries.entries).map List.length).getD 0 := by
  rw [get_eq]
  cases SortedMap.lookup key i.entries.entries <;> rfl

theorem eq_of_add (h : i.add key id = .ok i') :
    i' = i ∨
      i' = { i with
        entries := i.entries.insert key (i.get key ++ [id]), tally := i.tally.add 1 id } := by
  unfold KeyIndex.add at h
  split at h
  · cases h
    exact Or.inl rfl
  · rcases Outcome.bind_eq_ok_iff.mp h with ⟨_, _, hrest⟩
    by_cases hconflict : i.conflicts key id = true
    · simp [hconflict] at hrest
    · by_cases hthere : (i.get key).contains id = true
      · simp only [hconflict, hthere] at hrest
        cases hrest
        exact Or.inl rfl
      · simp only [hconflict, hthere] at hrest
        cases hrest
        exact Or.inr rfl

theorem Counted.add (h : i.Counted) (hi : i.Sound) (hadd : i.add key id = .ok i') :
    i'.Counted := by
  rcases eq_of_add hadd with rfl | rfl
  · exact h
  · have hsum := SortedMap.sum_insertEntry List.length (a := i.get key ++ [id]) (hi.reaches key)
    rw [← length_get, List.length_append, List.length_singleton] at hsum
    unfold Counted size at h ⊢
    simp only [IndexTally.add, SortedMap.entries_insert]
    omega

theorem Counted.leave (h : i.Counted) (hi : i.Sound) (hkeep : ∀ ids, (keep ids).Sublist ids)
    (key : Value) : (i.leave key keep).Counted := by
  unfold KeyIndex.leave
  split
  · exact h
  · next ids hget =>
      have hlookup : SortedMap.lookup key i.entries.entries = some ids := hget
      have hle := (hkeep ids).length_le
      unfold Counted size at h ⊢
      simp only [IndexTally.remove]
      split
      · next hempty =>
          have hsum := SortedMap.sum_eraseEntry List.length key i.entries.entries
          rw [hlookup, Option.map_some, Option.getD_some] at hsum
          rw [List.isEmpty_iff.mp hempty, SortedMap.entries_erase, List.length_nil]
          omega
      · have hsum := SortedMap.sum_insertEntry List.length (a := keep ids) (hi.reaches key)
        rw [hlookup, Option.map_some, Option.getD_some] at hsum
        rw [SortedMap.entries_insert]
        omega

end KeyIndex

end RelationalDb
