import Mathlib
import RelationalDb.Proofs.Index.Removals
import RelationalDb.Proofs.Index.StoredForms

/-!
# Looking up values of any type

A value that compares equal to keys of another type finds the rows under the first of them.
Indices that list the same rows under the keys of their type list the same rows under it too.
-/

namespace RelationalDb

namespace SortedMap

variable {κ α : Type} [Ord κ] {P : κ → Prop} {k : κ} {a : α} {l : List (κ × α)}

/-- The entry that is found comes before all others that the key compares equal to. -/
theorem first_of_lookup (ord : OrderedOn P) (hl : Ascending P l) (h : lookup k l = some a) :
    ∃ k', (k', a) ∈ l ∧ compare k k' = .eq ∧
      ∀ e ∈ l, compare k e.1 = .eq → (compare k' e.1).isLE = true := by
  induction l with
  | nil => cases h
  | cons e rest ih =>
      rcases e with ⟨k₀, a₀⟩
      by_cases heq : compare k k₀ = .eq
      · simp only [lookup, heq, if_true, Option.some.injEq] at h
        refine ⟨k₀, by simp [h], heq, ?_⟩
        rw [List.forall_mem_cons]
        constructor
        · intro _
          simp [ord.compare_self hl.head]
        · intro e he _
          simp [(List.pairwise_cons.mp hl.sorted).1 e he]
      · simp only [lookup, heq, if_false] at h
        rcases ih hl.tail h with ⟨k', hmem, hk', hfirst⟩
        refine ⟨k', List.mem_cons_of_mem _ hmem, hk', ?_⟩
        rw [List.forall_mem_cons]
        exact ⟨fun h' => absurd h' heq, hfirst⟩

end SortedMap

namespace KeyIndex

variable {i i' : KeyIndex} {key : Value}

theorem Alike.symm (h : i.Alike i') (hi : i.Sound) : i'.Alike i where
  emptied := h.emptied.symm
  sound := fun _ => hi
  mem_get := by
    intro key id hkey
    rw [keyType_eq_of_emptied h.emptied] at hkey
    exact (h.mem_get key id hkey).symm

/-- For every key of one index there is one of the other that no value tells from it. -/
theorem Alike.exists_entry (h : i.Alike i') (hi : i.Sound) {e : Value × List RowId}
    (he : e ∈ i.entries.entries) :
    ∃ e' ∈ i'.entries.entries, ∀ k, compare k e.1 = compare k e'.1 := by
  rcases List.exists_mem_of_ne_nil _ (hi.nonempty e he) with ⟨id, hid⟩
  have htype := hi.ascending.kind e he
  have hget : id ∈ i.get e.1 :=
    hi.mem_get_of_mem_pairs (mem_pairs_iff.mpr ⟨e.2, he, hid⟩ : (e.1, id) ∈ i.pairs)
  rcases mem_pairs_of_mem_get ((h.mem_get e.1 id htype).mpr hget) with ⟨k', hk', heq⟩
  rcases mem_pairs_iff.mp hk' with ⟨ids, hmem, _⟩
  have htype' := (h.sound hi).ascending.kind _ hmem
  rw [keyType_eq_of_emptied h.emptied] at htype'
  exact ⟨(k', ids), hmem, Value.compare_congr_right (htype.trans htype'.symm) heq⟩

theorem Alike.isLE_of_first (h : i.Alike i') (hi : i.Sound) {e : Value × List RowId} {k : Value}
    (he : e ∈ i.entries.entries) (hkey : compare key e.1 = .eq)
    (hfirst : ∀ f ∈ i'.entries.entries, compare key f.1 = .eq → (compare k f.1).isLE = true) :
    (compare k e.1).isLE = true := by
  rcases h.exists_entry hi he with ⟨f, hf, hsame⟩
  rw [hsame k]
  exact hfirst f hf (hsame key ▸ hkey)

theorem Alike.perm_get_any (h : i.Alike i') (hi : i.Sound) (key : Value) :
    (i'.get key).Perm (i.get key) := by
  have ord := Value.orderedOn_type i.keyType
  have hi' := h.sound hi
  have hsymm := h.symm hi
  have hascending' := hi'.ascending
  rw [keyType_eq_of_emptied h.emptied] at hascending'
  cases hlookup : SortedMap.lookup key i.entries.entries with
  | none =>
      have hnone : SortedMap.lookup key i'.entries.entries = none := by
        rw [SortedMap.lookup_eq_none_iff] at hlookup ⊢
        intro e' he' heq
        rcases hsymm.exists_entry hi' he' with ⟨e, he, hsame⟩
        exact hlookup e he (hsame key ▸ heq)
      rw [get_eq, get_eq, hlookup, hnone]
  | some ids =>
      rcases SortedMap.first_of_lookup ord hi.ascending hlookup with ⟨k, hmem, heq, hfirst⟩
      have hk := hi.ascending.kind _ hmem
      cases hlookup' : SortedMap.lookup key i'.entries.entries with
      | none =>
          rcases h.exists_entry hi hmem with ⟨f, hf, hsame⟩
          exact absurd (hsame key ▸ heq) (SortedMap.lookup_eq_none_iff.mp hlookup' f hf)
      | some ids' =>
          -- The value can meet several keys, but the first one it meets is the same in both.
          rcases SortedMap.first_of_lookup ord hascending' hlookup' with
            ⟨k', hmem', heq', hfirst'⟩
          have hle := h.isLE_of_first hi hmem heq hfirst'
          have hge := hsymm.isLE_of_first hi' hmem' heq' hfirst
          have hmeet : compare k k' = .eq := by
            rw [Value.compare_swap k' k] at hle
            cases hcompare : compare k k' with
            | lt => simp [hcompare] at hle
            | eq => rfl
            | gt => simp [hcompare] at hge
          have hget : i.get key = i.get k := by
            rw [get_eq, get_eq, hlookup,
              SortedMap.lookup_of_mem ord hi.ascending hk hmem (Value.compare_self k)]
          have hget' : i'.get key = i'.get k := by
            rw [get_eq, get_eq, hlookup',
              SortedMap.lookup_of_mem ord hascending' hk hmem' hmeet]
          rw [hget, hget']
          exact h.perm_get hi hk

theorem Alike.conflicts_eq (h : i.Alike i') (hi : i.Sound) (key : Value) (id : RowId) :
    i'.conflicts key id = i.conflicts key id := by
  unfold conflicts
  rw [unique_eq_of_emptied h.emptied, (h.perm_get_any hi key).any_eq]

end KeyIndex

end RelationalDb
