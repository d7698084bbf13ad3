import Mathlib
import RelationalDb.Proofs.Ordering
import RelationalDb.SortedMap

/-!
# Sorted maps as finite functions

A sorted map is looked at through `get?`.  As long as its keys are of a kind that is in
order and stand in ascending order, insertion and removal change `get?` at one key only.
The kind is a parameter because the keys of an index are ordered within one type alone.
-/

namespace RelationalDb

universe u v

namespace SortedMap

variable {κ : Type u} {α : Type v} [Ord κ]

/-- The keys of a list of entries are of the given kind and strictly ascending. -/
structure Ascending (P : κ → Prop) (l : List (κ × α)) : Prop where
  kind : ∀ e ∈ l, P e.1
  sorted : l.Pairwise fun a b => compare a.1 b.1 = .lt

variable {P : κ → Prop} {k k' : κ} {a b : α} {l : List (κ × α)}

theorem Ascending.nil : Ascending P ([] : List (κ × α)) where
  kind := by simp
  sorted := List.Pairwise.nil

theorem Ascending.head {e : κ × α} (h : Ascending P (e :: l)) : P e.1 :=
  h.kind e List.mem_cons_self

theorem Ascending.tail {e : κ × α} (h : Ascending P (e :: l)) : Ascending P l where
  kind := fun e' he' => h.kind e' (List.mem_cons_of_mem e he')
  sorted := (List.pairwise_cons.mp h.sorted).2

theorem Ascending.cons {e : κ × α} (hl : Ascending P l) (he : P e.1)
    (hlt : ∀ e' ∈ l, compare e.1 e'.1 = .lt) : Ascending P (e :: l) where
  kind := by
    intro e' he'
    rcases List.mem_cons.mp he' with rfl | he'
    · exact he
    · exact hl.kind e' he'
  sorted := List.pairwise_cons.mpr ⟨hlt, hl.sorted⟩

theorem Ascending.sublist {l' : List (κ × α)} (h : Ascending P l) (hsub : l'.Sublist l) :
    Ascending P l' where
  kind := fun e he => h.kind e (hsub.subset he)
  sorted := h.sorted.sublist hsub

/-!
## Lookup
-/

theorem mem_of_lookup (h : lookup k l = some a) : ∃ k', (k', a) ∈ l ∧ compare k k' = .eq := by
  induction l with
  | nil => simp [lookup] at h
  | cons e rest ih =>
      rcases e with ⟨k', a'⟩
      by_cases hk : compare k k' = .eq
      · simp only [lookup, hk, if_true, Option.some.injEq] at h
        exact ⟨k', by simp [h], hk⟩
      · simp only [lookup, hk, if_false] at h
        rcases ih h with ⟨k'', hmem, heq⟩
        exact ⟨k'', List.mem_cons_of_mem _ hmem, heq⟩

theorem lookup_of_mem (ord : OrderedOn P) (hl : Ascending P l) (hk : P k)
    (hmem : (k', a) ∈ l) (heq : compare k k' = .eq) : lookup k l = some a := by
  induction l with
  | nil => simp at hmem
  | cons e rest ih =>
      rcases e with ⟨k₀, a₀⟩
      rcases List.mem_cons.mp hmem with h | h
      · cases h
        simp [lookup, heq]
      · have hlt : compare k₀ k' = .lt := (List.pairwise_cons.mp hl.sorted).1 _ h
        have hne : compare k k₀ ≠ .eq := by
          intro hk₀
          rw [ord.congr_left hk hl.head (hl.tail.kind _ h) hk₀, hlt] at heq
          cases heq
        simp only [lookup, hne, if_false]
        exact ih hl.tail h

theorem lookup_eq_some_iff (ord : OrderedOn P) (hl : Ascending P l) (hk : P k) :
    lookup k l = some a ↔ ∃ k', (k', a) ∈ l ∧ compare k k' = .eq := by
  constructor
  · exact mem_of_lookup
  · rintro ⟨k', hmem, heq⟩
    exact lookup_of_mem ord hl hk hmem heq

theorem lookup_eq_none_iff : lookup k l = none ↔ ∀ e ∈ l, compare k e.1 ≠ .eq := by
  induction l with
  | nil => simp [lookup]
  | cons e rest ih =>
      rcases e with ⟨k', a'⟩
      by_cases hk : compare k k' = .eq
      · simp [lookup, hk]
      · simp [lookup, hk, ih]

theorem lookup_congr (ord : OrderedOn P) (hl : Ascending P l) (hk : P k) (hk' : P k')
    (heq : compare k k' = .eq) : lookup k l = lookup k' l := by
  induction l with
  | nil => rfl
  | cons e rest ih =>
      rcases e with ⟨k₀, a₀⟩
      simp only [lookup, ord.congr_left hk hk' hl.head heq, ih hl.tail]

/-!
## Insertion
-/

theorem mem_insertEntry {e : κ × α} (h : e ∈ insertEntry k a l) :
    e ∈ l ∨ e = (k, a) ∨ ∃ k', e = (k', a) ∧ compare k k' = .eq ∧ ∃ a', (k', a') ∈ l := by
  induction l with
  | nil => simpa [insertEntry] using h
  | cons e₀ rest ih =>
      rcases e₀ with ⟨k₀, a₀⟩
      cases hc : compare k k₀ with
      | lt =>
          simp only [insertEntry, hc, List.mem_cons] at h ⊢
          tauto
      | eq =>
          simp only [insertEntry, hc, List.mem_cons] at h ⊢
          rcases h with h | h
          · exact Or.inr (Or.inr ⟨k₀, h, hc, a₀, Or.inl rfl⟩)
          · exact Or.inl (Or.inr h)
      | gt =>
          simp only [insertEntry, hc, List.mem_cons] at h ⊢
          rcases h with h | h
          · exact Or.inl (Or.inl h)
          · rcases ih h with h | h | ⟨k', he, hk', a', hmem⟩
            · exact Or.inl (Or.inr h)
            · exact Or.inr (Or.inl h)
            · exact Or.inr (Or.inr ⟨k', he, hk', a', Or.inr hmem⟩)

theorem forall_insertEntry {Q : α → Prop} (hl : ∀ e ∈ l, Q e.2) (ha : Q a) :
    ∀ e ∈ insertEntry k a l, Q e.2 := by
  intro e he
  rcases mem_insertEntry he with h | h | ⟨k', h, _⟩
  · exact hl e h
  · simpa [h] using ha
  · simpa [h] using ha

theorem ascending_insertEntry (ord : OrderedOn P) (hl : Ascending P l) (hk : P k) :
    Ascending P (insertEntry k a l) := by
  induction l with
  | nil => exact Ascending.nil.cons hk (by simp)
  | cons e rest ih =>
      rcases e with ⟨k₀, a₀⟩
      have hrest : ∀ e ∈ rest, compare k₀ e.1 = .lt := (List.pairwise_cons.mp hl.sorted).1
      cases hc : compare k k₀ with
      | lt =>
          simp only [insertEntry, hc]
          apply hl.cons hk
          intro e he
          rcases List.mem_cons.mp he with rfl | he
          · exact hc
          · exact ord.lt_trans hk hl.head (hl.tail.kind e he) hc (hrest e he)
      | eq =>
          simp only [insertEntry, hc]
          exact hl.tail.cons hl.head hrest
      | gt =>
          simp only [insertEntry, hc]
          apply (ih hl.tail).cons hl.head
          intro e he
          rcases mem_insertEntry he with h | h | ⟨k', h, _, a', hmem⟩
          · exact hrest e h
          · rw [h]
            exact (ord.gt_iff_lt hk hl.head).mp hc
          · rw [h]
            exact hrest (k', a') hmem

theorem lookup_insertEntry (ord : OrderedOn P) (hl : Ascending P l) (hk : P k) (hk' : P k') :
    lookup k' (insertEntry k a l) = if compare k' k = .eq then some a else lookup k' l := by
  induction l with
  | nil => simp [insertEntry, lookup]
  | cons e rest ih =>
      rcases e with ⟨k₀, a₀⟩
      have hk₀ : P k₀ := hl.head
      cases hc : compare k k₀ with
      | lt => simp only [insertEntry, hc, lookup]
      | eq =>
          simp only [insertEntry, hc, lookup]
          rw [← ord.congr_right hk' hk hk₀ hc]
          split <;> rfl
      | gt =>
          simp only [insertEntry, hc, lookup, ih hl.tail]
          by_cases h : compare k' k₀ = .eq
          · have hne : compare k' k ≠ .eq := by
              intro h'
              have heq := ord.congr_left hk hk' hk₀ (ord.eq_symm hk' hk h')
              rw [hc, h] at heq
              cases heq
            simp [h, hne]
          · simp [h]

theorem insertEntry_at_end (h : ∀ e ∈ l, compare k e.1 = .gt) :
    insertEntry k a l = l ++ [(k, a)] := by
  induction l with
  | nil => rfl
  | cons e rest ih =>
      rcases e with ⟨k', a'⟩
      have hgt : compare k k' = .gt := h (k', a') List.mem_cons_self
      simp only [insertEntry, hgt, List.cons_append,
        ih fun e he => h e (List.mem_cons_of_mem _ he)]

theorem insertEntry_of_last (h : ∀ e ∈ l, compare k e.1 = .gt) (hk : compare k k = .eq) :
    insertEntry k b (l ++ [(k, a)]) = l ++ [(k, b)] := by
  induction l with
  | nil => simp [insertEntry, hk]
  | cons e rest ih =>
      rcases e with ⟨k', a'⟩
      have hgt : compare k k' = .gt := h (k', a') List.mem_cons_self
      simp only [List.cons_append, insertEntry, hgt,
        ih fun e he => h e (List.mem_cons_of_mem _ he)]

theorem lookup_of_last (h : ∀ e ∈ l, compare k e.1 = .gt) (hk : compare k k = .eq) :
    lookup k (l ++ [(k, a)]) = some a := by
  induction l with
  | nil => simp [lookup, hk]
  | cons e rest ih =>
      rcases e with ⟨k', a'⟩
      have hgt : compare k k' = .gt := h (k', a') List.mem_cons_self
      simp only [List.cons_append, lookup, hgt, reduceCtorEq, if_false,
        ih fun e he => h e (List.mem_cons_of_mem _ he)]

/-!
## Removal
-/

theorem eraseEntry_sublist : (eraseEntry k l).Sublist l := by
  induction l with
  | nil => exact List.Sublist.refl _
  | cons e rest ih =>
      rcases e with ⟨k₀, a₀⟩
      simp only [eraseEntry]
      split
      · exact List.sublist_cons_self _ _
      · exact ih.cons_cons _

theorem ascending_eraseEntry (hl : Ascending P l) : Ascending P (eraseEntry k l) :=
  hl.sublist eraseEntry_sublist

theorem lookup_eraseEntry (ord : OrderedOn P) (hl : Ascending P l) (hk : P k) (hk' : P k') :
    lookup k' (eraseEntry k l) = if compare k' k = .eq then none else lookup k' l := by
  induction l with
  | nil => simp [eraseEntry, lookup]
  | cons e rest ih =>
      rcases e with ⟨k₀, a₀⟩
      have hk₀ : P k₀ := hl.head
      by_cases hc : compare k k₀ = .eq
      · simp only [eraseEntry, hc, if_true, lookup, ← ord.congr_right hk' hk hk₀ hc]
        split
        · next h =>
            rw [lookup_eq_none_iff]
            intro e he h'
            have hlt : compare k₀ e.1 = .lt := (List.pairwise_cons.mp hl.sorted).1 e he
            have heq := ord.congr_left hk' hk (hl.tail.kind e he) h
            rw [h', ord.congr_left hk hk₀ (hl.tail.kind e he) hc, hlt] at heq
            cases heq
        · rfl
      · simp only [eraseEntry, hc, if_false, lookup, ih hl.tail]
        by_cases h : compare k' k₀ = .eq
        · have hne : compare k' k ≠ .eq := by
            intro h'
            exact hc (by rw [← ord.congr_left hk' hk hk₀ h', h])
          simp [h, hne]
        · simp [h]

/-!
## Maps over keys that are in order throughout

Row ids, names and numbers are compared by lawful orders, so that comparing equal is being
equal.  A map over such keys is a finite function.
-/

def Ordered (m : SortedMap κ α) : Prop :=
  Ascending (fun _ => True) m.entries

theorem ordered_empty : (empty : SortedMap κ α).Ordered :=
  Ascending.nil

theorem Ordered.insert [Std.TransOrd κ] {m : SortedMap κ α} (h : m.Ordered) (k : κ) (a : α) :
    (m.insert k a).Ordered :=
  ascending_insertEntry OrderedOn.of_transOrd h trivial

theorem Ordered.erase {m : SortedMap κ α} (h : m.Ordered) (k : κ) : (m.erase k).Ordered :=
  ascending_eraseEntry h

@[simp] theorem get?_empty (k : κ) : (empty : SortedMap κ α).get? k = none := rfl

theorem contains_iff {m : SortedMap κ α} {k : κ} :
    m.contains k = true ↔ ∃ a, m.get? k = some a := by
  simp [contains, Option.isSome_iff_exists]

theorem contains_eq_false_iff {m : SortedMap κ α} {k : κ} :
    m.contains k = false ↔ m.get? k = none := by
  simp [contains]

theorem insert_insert [Std.ReflOrd κ] (m : SortedMap κ α) (k : κ) (a b : α) :
    (m.insert k a).insert k b = m.insert k b := by
  have hentries : ∀ l : List (κ × α),
      insertEntry k b (insertEntry k a l) = insertEntry k b l := by
    intro l
    induction l with
    | nil => simp [insertEntry]
    | cons e rest ih =>
        rcases e with ⟨k₀, a₀⟩
        cases hc : compare k k₀ with
        | lt => simp [insertEntry, hc]
        | eq => simp [insertEntry, hc]
        | gt => simp [insertEntry, hc, ih]
  exact congrArg SortedMap.mk (hentries m.entries)

section Lawful

variable [Std.TransOrd κ] [Std.LawfulEqOrd κ] {m m' : SortedMap κ α}

theorem get?_insert [DecidableEq κ] (h : m.Ordered) (k k' : κ) (a : α) :
    (m.insert k a).get? k' = if k' = k then some a else m.get? k' := by
  have hlookup : lookup k' (insertEntry k a m.entries) = _ :=
    lookup_insertEntry OrderedOn.of_transOrd h trivial trivial
  simpa [get?, Std.LawfulEqCmp.compare_eq_iff_eq] using hlookup

theorem get?_erase [DecidableEq κ] (h : m.Ordered) (k k' : κ) :
    (m.erase k).get? k' = if k' = k then none else m.get? k' := by
  have hlookup : lookup k' (eraseEntry k m.entries) = _ :=
    lookup_eraseEntry OrderedOn.of_transOrd h trivial trivial
  simpa [get?, Std.LawfulEqCmp.compare_eq_iff_eq] using hlookup

theorem forall_insert (h : m.Ordered) {Q : κ → α → Prop} {k : κ} {a : α} (hnew : Q k a)
    (hrest : ∀ {k' b}, m.get? k' = some b → Q k' b) {k' : κ} {b : α}
    (hb : (m.insert k a).get? k' = some b) : Q k' b := by
  classical
  rw [get?_insert h] at hb
  split at hb
  · next heq =>
      cases hb
      rwa [heq]
  · exact hrest hb

theorem forall_erase (h : m.Ordered) {Q : κ → α → Prop} {k : κ}
    (hrest : ∀ {k' b}, m.get? k' = some b → Q k' b) {k' : κ} {b : α}
    (hb : (m.erase k).get? k' = some b) : Q k' b := by
  classical
  rw [get?_erase h] at hb
  split at hb
  · cases hb
  · exact hrest hb

theorem mem_entries_iff (h : m.Ordered) {k : κ} {a : α} :
    (k, a) ∈ m.entries ↔ m.get? k = some a := by
  rw [get?, lookup_eq_some_iff OrderedOn.of_transOrd h trivial]
  constructor
  · intro hmem
    exact ⟨k, hmem, Std.ReflCmp.compare_self⟩
  · rintro ⟨k', hmem, heq⟩
    rw [Std.LawfulEqCmp.compare_eq_iff_eq] at heq
    rwa [heq]

theorem mem_keys_iff (h : m.Ordered) {k : κ} : k ∈ m.keys ↔ ∃ a, m.get? k = some a := by
  simp only [keys, List.mem_map, Prod.exists, exists_and_right, exists_eq_right,
    mem_entries_iff h]

theorem mem_values_iff (h : m.Ordered) {a : α} : a ∈ m.values ↔ ∃ k, m.get? k = some a := by
  simp only [values, List.mem_map, Prod.exists, exists_eq_right, mem_entries_iff h]

omit [Std.TransOrd κ] in
theorem Ordered.nodup_keys (h : m.Ordered) : m.keys.Nodup := by
  unfold keys
  rw [List.Nodup, List.pairwise_map]
  apply h.sorted.imp
  intro e e' hlt heq
  rw [heq] at hlt
  simp at hlt

omit [Std.TransOrd κ] [Std.LawfulEqOrd κ] in
theorem Ordered.sorted_keys (h : m.Ordered) :
    m.keys.Pairwise fun k k' => compare k k' = .lt := by
  unfold keys
  rw [List.pairwise_map]
  exact h.sorted

theorem keys_eq_of_get? {β : Type v} {n : SortedMap κ β} (h : m.Ordered) (hn : n.Ordered)
    (hget : ∀ k, (∃ a, m.get? k = some a) ↔ ∃ b, n.get? k = some b) : m.keys = n.keys := by
  have hperm : m.keys.Perm n.keys := by
    rw [List.perm_ext_iff_of_nodup h.nodup_keys hn.nodup_keys]
    intro k
    rw [mem_keys_iff h, mem_keys_iff hn, hget k]
  apply List.Perm.eq_of_pairwise _ h.sorted_keys hn.sorted_keys hperm
  intro k k' _ _ hlt hgt
  have hself := Std.TransCmp.lt_trans hlt hgt
  simp at hself

theorem size_insert [DecidableEq κ] (h : m.Ordered) (k : κ) (a : α) :
    (m.insert k a).size = m.size + if (m.get? k).isSome then 0 else 1 := by
  have hsize : ∀ n : SortedMap κ α, n.size = n.keys.length := fun n => (List.length_map _).symm
  rw [hsize, hsize]
  cases hget : m.get? k with
  | some b =>
      rw [keys_eq_of_get? (h.insert k a) h]
      · rfl
      · intro k'
        rw [get?_insert h]
        by_cases hk : k' = k
        · simp [hk, hget]
        · simp [hk]
  | none =>
      have hnew : k ∉ m.keys := by
        rw [mem_keys_iff h, hget]
        simp
      have hperm : (m.insert k a).keys.Perm (k :: m.keys) := by
        rw [List.perm_ext_iff_of_nodup (h.insert k a).nodup_keys
          (List.nodup_cons.mpr ⟨hnew, h.nodup_keys⟩)]
        intro k'
        rw [mem_keys_iff (h.insert k a), get?_insert h, List.mem_cons, mem_keys_iff h]
        by_cases hk : k' = k
        · simp [hk]
        · simp [hk]
      exact hperm.length_eq

omit [Std.LawfulEqOrd κ] in
theorem Ordered.insertAll (h : m.Ordered) (entries : List (κ × α)) :
    (m.insertAll entries).Ordered := by
  unfold SortedMap.insertAll
  induction entries generalizing m with
  | nil => exact h
  | cons e rest ih => exact ih (h.insert e.1 e.2)

omit [Std.LawfulEqOrd κ] in
theorem ordered_ofList (entries : List (κ × α)) : (ofList entries).Ordered :=
  ordered_empty.insertAll entries

theorem mem_keys_insertAll_iff (h : m.Ordered) {entries : List (κ × α)} {k : κ} :
    k ∈ (m.insertAll entries).keys ↔ k ∈ m.keys ∨ k ∈ entries.map (·.1) := by
  classical
  unfold insertAll
  induction entries generalizing m with
  | nil => simp
  | cons e rest ih =>
      rw [List.foldl_cons, ih (h.insert e.1 e.2), mem_keys_iff (h.insert e.1 e.2),
        mem_keys_iff h, get?_insert h, List.map_cons, List.mem_cons]
      by_cases heq : k = e.1
      · simp [heq]
      · simp [heq]

theorem mem_keys_ofList_iff {entries : List (κ × α)} {k : κ} :
    k ∈ (ofList entries).keys ↔ k ∈ entries.map (·.1) := by
  rw [ofList, mem_keys_insertAll_iff ordered_empty]
  simp [keys, empty]

theorem get?_insertAll_of_not_mem (h : m.Ordered) {entries : List (κ × α)} {k : κ}
    (hk : ∀ a, (k, a) ∉ entries) : (m.insertAll entries).get? k = m.get? k := by
  classical
  unfold insertAll
  induction entries generalizing m with
  | nil => rfl
  | cons e rest ih =>
      have hrest : ∀ a, (k, a) ∉ rest := fun a ha => hk a (List.mem_cons_of_mem _ ha)
      rw [List.foldl_cons, ih (h.insert e.1 e.2) hrest, get?_insert h, if_neg]
      intro heq
      exact hk e.2 (by simp [heq])

theorem get?_insertAll_of_mem (h : m.Ordered) {entries : List (κ × α)} {k : κ} {a : α}
    (hmem : (k, a) ∈ entries) (hsame : ∀ b, (k, b) ∈ entries → b = a) :
    (m.insertAll entries).get? k = some a := by
  classical
  unfold insertAll
  induction entries generalizing m with
  | nil => cases hmem
  | cons e rest ih =>
      rw [List.foldl_cons]
      by_cases hrest : (k, a) ∈ rest
      · exact ih (h.insert e.1 e.2) hrest fun b hb => hsame b (List.mem_cons_of_mem _ hb)
      · have hnot : ∀ b, (k, b) ∉ rest := by
          intro b hb
          rw [hsame b (List.mem_cons_of_mem _ hb)] at hb
          exact hrest hb
        rcases List.mem_cons.mp hmem with heq | htail
        · rw [← heq]
          have hkept := get?_insertAll_of_not_mem (h.insert k a) hnot
          unfold insertAll at hkept
          rw [hkept, get?_insert h, if_pos rfl]
        · exact absurd htail hrest

omit [Std.TransOrd κ] [Std.LawfulEqOrd κ] in
theorem Ordered.eraseAll (h : m.Ordered) (keys : List κ) :
    (keys.foldl SortedMap.erase m).Ordered := by
  induction keys generalizing m with
  | nil => exact h
  | cons k rest ih => exact ih (h.erase k)

theorem get?_eraseAll [DecidableEq κ] (h : m.Ordered) (keys : List κ) (k : κ) :
    (keys.foldl SortedMap.erase m).get? k = if k ∈ keys then none else m.get? k := by
  induction keys generalizing m with
  | nil => simp
  | cons k₀ rest ih =>
      rw [List.foldl_cons, ih (h.erase k₀), get?_erase h]
      by_cases heq : k = k₀
      · simp [heq]
      · simp [heq]

omit [Std.TransOrd κ] [Std.LawfulEqOrd κ] in
theorem Ordered.filter (h : m.Ordered) (p : κ × α → Bool) :
    (⟨m.entries.filter p⟩ : SortedMap κ α).Ordered :=
  Ascending.sublist h List.filter_sublist

theorem get?_filter_eq_some_iff (h : m.Ordered) {p : κ × α → Bool} {k : κ} {a : α} :
    (⟨m.entries.filter p⟩ : SortedMap κ α).get? k = some a ↔
      m.get? k = some a ∧ p (k, a) = true := by
  rw [← mem_entries_iff (h.filter p), ← mem_entries_iff h, List.mem_filter]

theorem ext_get? (h : m.Ordered) (h' : m'.Ordered) (hget : ∀ k, m.get? k = m'.get? k) :
    m = m' := by
  have hmem : ∀ e, e ∈ m.entries ↔ e ∈ m'.entries := by
    rintro ⟨k, a⟩
    rw [mem_entries_iff h, mem_entries_iff h', hget k]
  have hnodup : m.entries.Nodup := List.Nodup.of_map _ h.nodup_keys
  have hnodup' : m'.entries.Nodup := List.Nodup.of_map _ h'.nodup_keys
  have hperm : m.entries.Perm m'.entries :=
    (List.perm_ext_iff_of_nodup hnodup hnodup').mpr hmem
  have heq : m.entries = m'.entries := by
    apply List.Perm.eq_of_pairwise _ h.sorted h'.sorted hperm
    intro e e' _ _ hlt hgt
    have hself := Std.TransCmp.lt_trans hlt hgt
    simp at hself
  cases m
  cases m'
  simpa using heq

theorem ofList_entries (h : m.Ordered) : ofList m.entries = m := by
  apply ext_get? (ordered_ofList m.entries) h
  intro k
  unfold ofList
  cases hget : m.get? k with
  | some a =>
      apply get?_insertAll_of_mem ordered_empty ((mem_entries_iff h).mpr hget)
      intro b hb
      rw [mem_entries_iff h, hget] at hb
      exact (Option.some.inj hb).symm
  | none =>
      apply get?_insertAll_of_not_mem ordered_empty
      intro a ha
      rw [mem_entries_iff h, hget] at ha
      cases ha

end Lawful

end SortedMap

end RelationalDb
