import Mathlib
import RelationalDb.Index.Keys
import RelationalDb.Proofs.Actions
import RelationalDb.Proofs.SortedMaps

/-!
# What an index over a column holds

An index is looked at through `get`, the row ids under a key.  A sound index has keys of
its own type in ascending order and no row id twice under one key; adding a row keeps it
sound and changes `get` at one key only.
-/

namespace RelationalDb

namespace KeyIndex

def emptied (i : KeyIndex) : KeyIndex :=
  { i with entries := {}, tally := {} }

/-- Keys of the right type in ascending order, each with some rows and no row twice; a unique
index has one row under a key. -/
structure Sound (i : KeyIndex) : Prop where
  ascending : SortedMap.Ascending (fun v : Value => v.type? = some i.keyType) i.entries.entries
  nonempty : ∀ e ∈ i.entries.entries, e.2 ≠ []
  nodup : ∀ e ∈ i.entries.entries, e.2.Nodup
  single : i.unique = true → ∀ e ∈ i.entries.entries, e.2.length ≤ 1

variable {i i' : KeyIndex} {k key : Value} {id : RowId}

theorem keyType_eq_of_emptied (h : i'.emptied = i.emptied) : i'.keyType = i.keyType :=
  (congrArg KeyIndex.keyType h : i'.emptied.keyType = i.emptied.keyType)

theorem unique_eq_of_emptied (h : i'.emptied = i.emptied) : i'.unique = i.unique :=
  (congrArg KeyIndex.unique h : i'.emptied.unique = i.emptied.unique)

theorem name_eq_of_emptied (h : i'.emptied = i.emptied) : i'.name = i.name :=
  (congrArg KeyIndex.name h : i'.emptied.name = i.emptied.name)

theorem Sound.of_emptied (i : KeyIndex) : i.emptied.Sound where
  ascending := SortedMap.Ascending.nil
  nonempty := by simp [emptied]
  nodup := by simp [emptied]
  single := by simp [emptied]

/-!
## The rows under a key
-/

theorem get_eq (i : KeyIndex) (key : Value) :
    i.get key = (SortedMap.lookup key i.entries.entries).getD [] := rfl

theorem Sound.get_congr (h : i.Sound) (hk : k.type? = some i.keyType)
    (hkey : key.type? = some i.keyType) (heq : compare k key = .eq) : i.get k = i.get key := by
  rw [get_eq, get_eq, SortedMap.lookup_congr (Value.orderedOn_type _) h.ascending hk hkey heq]

theorem get_eq_nil_or_mem (i : KeyIndex) (key : Value) :
    i.get key = [] ∨ ∃ k', (k', i.get key) ∈ i.entries.entries ∧ compare key k' = .eq := by
  rw [get_eq]
  cases h : SortedMap.lookup key i.entries.entries with
  | none => exact Or.inl rfl
  | some ids => exact Or.inr (SortedMap.mem_of_lookup h)

theorem Sound.nodup_get (h : i.Sound) (key : Value) : (i.get key).Nodup := by
  rcases get_eq_nil_or_mem i key with hnil | ⟨k', hmem, _⟩
  · rw [hnil]
    exact List.nodup_nil
  · exact h.nodup _ hmem

theorem Sound.length_get_le_one (h : i.Sound) (hunique : i.unique = true) (key : Value) :
    (i.get key).length ≤ 1 := by
  rcases get_eq_nil_or_mem i key with hnil | ⟨k', hmem, _⟩
  · simp [hnil]
  · exact h.single hunique _ hmem

theorem Sound.get?_null (h : i.Sound) : i.entries.get? .null = none := by
  apply SortedMap.lookup_eq_none_iff.mpr
  intro e he
  rw [Value.compare_null_left (Value.isNull_eq_false_of_type (h.ascending.kind e he))]
  simp

theorem Sound.remove_null (h : i.Sound) (id : RowId) : i.remove .null id = i := by
  unfold remove
  rw [h.get?_null]

theorem mem_pairs_iff {p : Value × RowId} :
    p ∈ i.pairs ↔ ∃ ids, (p.1, ids) ∈ i.entries.entries ∧ p.2 ∈ ids := by
  rcases p with ⟨k, id⟩
  simp only [pairs, List.mem_flatMap, List.mem_map, Prod.mk.injEq, Prod.exists]
  constructor
  · rintro ⟨k', ids, hmem, id', hid, rfl, rfl⟩
    exact ⟨ids, hmem, hid⟩
  · rintro ⟨ids, hmem, hid⟩
    exact ⟨k, ids, hmem, id, hid, rfl, rfl⟩

theorem Sound.mem_get_of_mem_pairs (h : i.Sound) {p : Value × RowId} (hp : p ∈ i.pairs) :
    p.2 ∈ i.get p.1 := by
  rcases mem_pairs_iff.mp hp with ⟨ids, hmem, hid⟩
  have hkey := h.ascending.kind _ hmem
  rw [get_eq, SortedMap.lookup_of_mem (Value.orderedOn_type _) h.ascending hkey hmem
    (Value.compare_self _)]
  exact hid

theorem Sound.entries_eq_empty (h : i.Sound) (hpairs : ∀ p, p ∉ i.pairs) : i.entries = {} := by
  rcases hentries : i.entries with ⟨_ | ⟨e, rest⟩⟩
  · rfl
  · have he : e ∈ i.entries.entries := by
      rw [hentries]
      exact List.mem_cons_self
    rcases List.exists_mem_of_ne_nil _ (h.nonempty e he) with ⟨id, hid⟩
    exact absurd (mem_pairs_iff.mpr ⟨e.2, he, hid⟩) (hpairs (e.1, id))

theorem mem_pairs_of_mem_get (hid : id ∈ i.get key) :
    ∃ k', (k', id) ∈ i.pairs ∧ compare key k' = .eq := by
  rcases get_eq_nil_or_mem i key with hnil | ⟨k', hmem, heq⟩
  · simp [hnil] at hid
  · exact ⟨k', mem_pairs_iff.mpr ⟨_, hmem, hid⟩, heq⟩

theorem ids_pairs (i : KeyIndex) : i.pairs.map (·.2) = i.entries.entries.flatMap (·.2) := by
  simp [pairs, List.map_flatMap, Function.comp_def]

theorem Sound.nodup_ids (h : i.Sound)
    (hone : ∀ p ∈ i.pairs, ∀ q ∈ i.pairs, p.2 = q.2 → compare p.1 q.1 = .eq) :
    (i.pairs.map (·.2)).Nodup := by
  rw [ids_pairs, List.nodup_flatMap]
  refine ⟨h.nodup, h.ascending.sorted.imp_of_mem ?_⟩
  intro e e' he he' hlt id hid hid'
  have heq : compare e.1 e'.1 = .eq :=
    hone (e.1, id) (mem_pairs_iff.mpr ⟨e.2, he, hid⟩) (e'.1, id)
      (mem_pairs_iff.mpr ⟨e'.2, he', hid'⟩) rfl
  rw [hlt] at heq
  cases heq

/-!
## Adding a row
-/

theorem conflicts_eq_false_iff (hkey : key.isNull = false) :
    i.conflicts key id = false ↔ (i.unique = true → ∀ x ∈ i.get key, x = id) := by
  simp only [conflicts, hkey, Bool.not_false, Bool.and_true, Bool.and_eq_false_imp,
    List.any_eq_false, bne_iff_ne, ne_eq, Decidable.not_not]

theorem conflicts_of_subset (hemptied : i'.emptied = i.emptied)
    (hsubset : key.isNull = false → ∀ x ∈ i'.get key, x ∈ i.get key)
    (h : i.conflicts key id = false) : i'.conflicts key id = false := by
  cases hnull : key.isNull with
  | true => simp [conflicts, hnull]
  | false =>
      rw [conflicts_eq_false_iff hnull] at h ⊢
      rw [unique_eq_of_emptied hemptied]
      intro hunique x hx
      exact h hunique x (hsubset hnull x hx)

theorem Sound.add_ok (h : i.Sound) (hkey : key.type? = some i.keyType)
    (hconf : i.conflicts key id = false) :
    ∃ i', i.add key id = .ok i' ∧ i'.Sound ∧ i'.emptied = i.emptied ∧
      ∀ k, k.type? = some i.keyType →
        i'.get k =
          if compare k key = .eq then
            if id ∈ i.get key then i.get key else i.get key ++ [id]
          else i.get k := by
  have hnull : key.isNull = false := Value.isNull_eq_false_of_type hkey
  have hcheck : i.checkKey key = .ok () := by simp [checkKey, hkey]
  by_cases hid : id ∈ i.get key
  · refine ⟨i, ?_, h, rfl, ?_⟩
    · simp [add, hnull, hcheck, hconf, hid]
    · intro k hk
      by_cases heq : compare k key = .eq
      · simp [heq, hid, h.get_congr hk hkey heq]
      · simp [heq]
  · refine ⟨{ i with
      entries := i.entries.insert key (i.get key ++ [id]), tally := i.tally.add 1 id },
      ?_, ?_, rfl, ?_⟩
    · simp [add, hnull, hcheck, hconf, hid]
    · refine ⟨SortedMap.ascending_insertEntry (Value.orderedOn_type _) h.ascending hkey,
        SortedMap.forall_insertEntry (Q := (· ≠ [])) h.nonempty (by simp),
        SortedMap.forall_insertEntry (Q := List.Nodup) h.nodup ?_, ?_⟩
      · exact (List.concat_eq_append ▸ List.Nodup.concat hid (h.nodup_get key))
      · intro hunique
        apply SortedMap.forall_insertEntry (Q := fun ids : List RowId => ids.length ≤ 1) (h.single hunique)
        -- A row other than this one would be a conflict, so there is none yet.
        have hall := (conflicts_eq_false_iff hnull).mp hconf hunique
        have hnil : i.get key = [] := by
          apply List.eq_nil_iff_forall_not_mem.mpr
          intro x hx
          exact hid (hall x hx ▸ hx)
        simp [hnil]
    · intro k hk
      rw [get_eq, SortedMap.entries_insert,
        SortedMap.lookup_insertEntry (Value.orderedOn_type _) h.ascending hkey hk]
      by_cases heq : compare k key = .eq
      · simp [heq, hid]
      · simp [heq, get_eq]

end KeyIndex

end RelationalDb
