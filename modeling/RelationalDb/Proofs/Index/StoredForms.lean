import Mathlib
import RelationalDb.Index.TableIndex
import RelationalDb.Proofs.Index.KeyIndices
import RelationalDb.Proofs.Index.RowIdSets

/-!
# Indices read back from their stored forms

What an index writes is read back as an index with the same entries.  Only the counters
may differ: they are not stored.
-/

namespace RelationalDb

/-!
## The index over row ids
-/

namespace RowIdIndex

variable {i : RowIdIndex}

theorem foldlM_add_keyOfId {ids : List RowId} (hi : i.ids.Ordered)
    (hids : ∀ id ∈ ids, isSigned id = true) :
    ∃ i', (ids.map keyOfId).foldlM add i = .ok i' ∧ i'.name = i.name ∧ i'.ids.Ordered ∧
      ∀ id, i'.ids.get? id = if id ∈ ids then some () else i.ids.get? id := by
  induction ids generalizing i with
  | nil => exact ⟨i, rfl, rfl, hi, fun id => by simp⟩
  | cons id rest ih =>
      rcases add_keyOfId hi (hids id List.mem_cons_self) with ⟨i₁, hadd, hname, hset⟩
      have hi₁ : i₁.ids.Ordered := by
        rw [hset]
        exact hi.insert _ _
      rcases ih hi₁ fun id' hid' => hids id' (List.mem_cons_of_mem _ hid') with
        ⟨i₂, hfold, hname₂, hordered, hget⟩
      refine ⟨i₂, ?_, hname₂.trans hname, hordered, ?_⟩
      · rw [List.map_cons, List.foldlM_cons, hadd, Outcome.ok_bind, hfold]
      · intro id'
        rw [hget, hset, SortedMap.get?_insert hi]
        by_cases hrest : id' ∈ rest
        · simp [hrest]
        · by_cases heq : id' = id
          · simp [heq]
          · simp [hrest, heq]

/-- The stored form has all ids that the index holds. -/
theorem ofRows_toRows (hi : i.ids.Ordered) (hids : ∀ id ∈ i.toList, isSigned id = true) :
    ∃ i', ofRows i.name i.toRows = .ok i' ∧ i'.name = i.name ∧ i'.ids = i.ids := by
  rcases foldlM_add_keyOfId (i := { name := i.name }) SortedMap.ordered_empty hids with
    ⟨i', hfold, hname, hordered, hget⟩
  refine ⟨i', ?_, hname, ?_⟩
  · unfold ofRows toRows
    rw [List.foldlM_cons, if_pos rfl, hfold]
    rfl
  · apply SortedMap.ext_get? hordered hi
    intro id
    rw [hget]
    by_cases hmem : id ∈ i.toList
    · rcases (SortedMap.mem_keys_iff hi).mp hmem with ⟨u, hu⟩
      rw [if_pos hmem, hu]
    · rw [if_neg hmem]
      cases hid : i.ids.get? id with
      | none => rfl
      | some u => exact absurd ((SortedMap.mem_keys_iff hi).mpr ⟨u, hid⟩) hmem

end RowIdIndex

/-!
## An index over a column
-/

namespace KeyIndex

variable {i i' : KeyIndex} {k : Value} {id : RowId} {ids : List RowId}
  {l es : List (Value × List RowId)}

/-- The same index but for its counters. -/
structure SameEntries (i i' : KeyIndex) : Prop where
  emptied : i'.emptied = i.emptied
  entries : i'.entries = i.entries

theorem get_of_beyond (hl : ∀ e ∈ i.entries.entries, compare k e.1 = .gt) : i.get k = [] := by
  have hnone : i.entries.get? k = none := by
    apply SortedMap.lookup_eq_none_iff.mpr
    intro e he
    rw [hl e he]
    simp
  unfold get
  rw [hnone]
  rfl

theorem add_beyond (hkey : k.type? = some i.keyType)
    (hl : ∀ e ∈ i.entries.entries, compare k e.1 = .gt) (id : RowId) :
    ∃ i', i.add k id = .ok i' ∧ i'.emptied = i.emptied ∧
      i'.entries.entries = i.entries.entries ++ [(k, [id])] := by
  have hnull : k.isNull = false := Value.isNull_eq_false_of_type hkey
  have hget := get_of_beyond hl
  refine ⟨{ i with
    entries := i.entries.insert k ([] ++ [id]), tally := i.tally.add 1 id }, ?_, rfl, ?_⟩
  · simp [add, hnull, checkKey, hkey, conflicts, hget]
  · exact SortedMap.insertEntry_at_end hl

theorem add_under_last (hkey : k.type? = some i.keyType) (hunique : i.unique = false)
    (hentries : i.entries.entries = l ++ [(k, ids)]) (hl : ∀ e ∈ l, compare k e.1 = .gt)
    (hid : id ∉ ids) :
    ∃ i', i.add k id = .ok i' ∧ i'.emptied = i.emptied ∧
      i'.entries.entries = l ++ [(k, ids ++ [id])] := by
  have hnull : k.isNull = false := Value.isNull_eq_false_of_type hkey
  have hself : compare k k = .eq := Value.compare_self k
  have hget : i.get k = ids := by
    rw [get_eq, hentries, SortedMap.lookup_of_last hl hself]
    rfl
  refine ⟨{ i with
    entries := i.entries.insert k (ids ++ [id]), tally := i.tally.add 1 id }, ?_, rfl, ?_⟩
  · simp [add, hnull, checkKey, hkey, conflicts, hunique, hget, hid]
  · change SortedMap.insertEntry k (ids ++ [id]) i.entries.entries = _
    rw [hentries]
    exact SortedMap.insertEntry_of_last hl hself

def addPair (i : KeyIndex) (p : Value × RowId) : Outcome KeyIndex :=
  i.add p.1 p.2

theorem foldlM_under_last {rest : List RowId} (hkey : k.type? = some i.keyType)
    (hunique : rest ≠ [] → i.unique = false) (hentries : i.entries.entries = l ++ [(k, ids)])
    (hl : ∀ e ∈ l, compare k e.1 = .gt) (hnodup : (ids ++ rest).Nodup) :
    ∃ i', (rest.map fun id => (k, id)).foldlM addPair i = .ok i' ∧ i'.emptied = i.emptied ∧
      i'.entries.entries = l ++ [(k, ids ++ rest)] := by
  induction rest generalizing i ids with
  | nil => exact ⟨i, rfl, rfl, by simp [hentries]⟩
  | cons id rest ih =>
      have hid : id ∉ ids := by
        intro hmem
        rw [List.nodup_append] at hnodup
        exact hnodup.2.2 id hmem id List.mem_cons_self rfl
      have hmany : i.unique = false := hunique (by simp)
      rcases add_under_last hkey hmany hentries hl hid with ⟨i₁, hadd, hemptied, hentries₁⟩
      have hnodup₁ : ((ids ++ [id]) ++ rest).Nodup := by simpa using hnodup
      have hkey₁ : k.type? = some i₁.keyType := by rw [hkey, keyType_eq_of_emptied hemptied]
      have hmany₁ : i₁.unique = false := by rw [unique_eq_of_emptied hemptied, hmany]
      rcases ih hkey₁ (fun _ => hmany₁) hentries₁ hnodup₁ with ⟨i₂, hfold, hemptied₂, hentries₂⟩
      refine ⟨i₂, ?_, hemptied₂.trans hemptied, by simpa using hentries₂⟩
      rw [List.map_cons, List.foldlM_cons, addPair, hadd, Outcome.ok_bind, hfold]

def pairsOf (es : List (Value × List RowId)) : List (Value × RowId) :=
  es.flatMap fun e => e.2.map fun id => (e.1, id)

theorem foldlM_pairsOf
    (hall : SortedMap.Ascending (fun v : Value => v.type? = some i.keyType)
      (i.entries.entries ++ es))
    (hnonempty : ∀ e ∈ es, e.2 ≠ []) (hnodup : ∀ e ∈ es, e.2.Nodup)
    (hsingle : i.unique = true → ∀ e ∈ es, e.2.length ≤ 1) :
    ∃ i', (pairsOf es).foldlM addPair i = .ok i' ∧ i'.emptied = i.emptied ∧
      i'.entries.entries = i.entries.entries ++ es := by
  induction es generalizing i with
  | nil => exact ⟨i, rfl, rfl, by simp⟩
  | cons e rest ih =>
      rcases e with ⟨k, ids⟩
      have hkey : k.type? = some i.keyType := hall.kind (k, ids) (by simp)
      have hbeyond : ∀ e ∈ i.entries.entries, compare k e.1 = .gt := by
        intro e he
        have hlt := (List.pairwise_append.mp hall.sorted).2.2 e he (k, ids) List.mem_cons_self
        have htype := hall.kind e (List.mem_append_left _ he)
        exact ((Value.orderedOn_type i.keyType).gt_iff_lt hkey htype).mpr hlt
      cases ids with
      | nil => exact absurd rfl (hnonempty (k, []) List.mem_cons_self)
      | cons id ids =>
          rcases add_beyond hkey hbeyond id with ⟨i₁, hadd, hemptied₁, hentries₁⟩
          have htype₁ : i₁.keyType = i.keyType := keyType_eq_of_emptied hemptied₁
          have hunique₁ : i₁.unique = i.unique := unique_eq_of_emptied hemptied₁
          have hmany : ids ≠ [] → i₁.unique = false := by
            intro hids
            rw [hunique₁]
            by_contra htrue
            have hlength := hsingle (by simpa using htrue) (k, id :: ids) List.mem_cons_self
            exact hids (by simpa using hlength)
          rcases foldlM_under_last (by rw [htype₁]; exact hkey) hmany hentries₁ hbeyond
            (hnodup (k, id :: ids) List.mem_cons_self) with ⟨i₂, hfold₂, hemptied₂, hentries₂⟩
          have hemptied : i₂.emptied = i.emptied := hemptied₂.trans hemptied₁
          rcases @ih i₂ (by
              rw [hentries₂, keyType_eq_of_emptied hemptied]
              simpa using hall)
            (fun e he => hnonempty e (List.mem_cons_of_mem _ he))
            (fun e he => hnodup e (List.mem_cons_of_mem _ he))
            (fun hu e he => hsingle (by rwa [unique_eq_of_emptied hemptied] at hu) e
              (List.mem_cons_of_mem _ he)) with ⟨i₃, hfold₃, hemptied₃, hentries₃⟩
          refine ⟨i₃, ?_, hemptied₃.trans hemptied, ?_⟩
          · have hpairs : pairsOf ((k, id :: ids) :: rest) =
                (k, id) :: ((ids.map fun id => (k, id)) ++ pairsOf rest) := by
              simp [pairsOf]
            rw [hpairs, List.foldlM_cons, addPair, hadd, Outcome.ok_bind, List.foldlM_append, hfold₂,
              Outcome.ok_bind, hfold₃]
          · rw [hentries₃, hentries₂]
            simp

/-!
## Rows of the stored form
-/

theorem ofHeader?_header (i : KeyIndex) : ofHeader? i.name i.header = some i.emptied := by
  rcases i with ⟨name, keyType, unique, direction, entries, tally⟩
  cases keyType <;> cases direction <;> rfl

def rowOfPair (p : (Value × RowId) × Nat) : Row :=
  { id := UInt64.ofNat (p.2 + 1), values := [p.1.1, .int64 p.1.2.toInt64] }

theorem toRows_eq (i : KeyIndex) :
    i.toRows = { id := reservedRowId, values := i.header } :: i.pairs.zipIdx.map rowOfPair := rfl

theorem entryOfRow?_rowOfPair {p : (Value × RowId) × Nat}
    (hp : RowIdIndex.isSigned p.1.2 = true) : entryOfRow? (rowOfPair p).values = some p.1 := by
  have hint := RowIdIndex.toInt_toInt64_of_signed hp
  have hnonneg : ¬ p.1.2.toInt64.toInt < 0 := by omega
  change (if p.1.2.toInt64.toInt < 0 then none else some (p.1.1, p.1.2.toInt64.toUInt64)) = some p.1
  rw [if_neg hnonneg]
  rfl

theorem id_rowOfPair {p : (Value × RowId) × Nat} (hp : p.2 + 1 < 0x10000000000000000) :
    (rowOfPair p).id.toNat = p.2 + 1 := by
  unfold rowOfPair
  exact UInt64.toNat_ofNat_of_lt' hp

def addRow (name : String) (i : KeyIndex) (row : Row) : Outcome KeyIndex :=
  match entryOfRow? row.values with
  | none => .error (.data (.indexEntryMalformed name row.id))
  | some (key, id) => i.add key id

theorem foldlM_addRow (name : String) {pairs : List (Value × RowId)}
    (hpairs : ∀ p ∈ pairs, RowIdIndex.isSigned p.2 = true) (n : Nat) (i : KeyIndex) :
    ((pairs.zipIdx n).map rowOfPair).foldlM (addRow name) i = pairs.foldlM addPair i := by
  induction pairs generalizing n i with
  | nil => rfl
  | cons p rest ih =>
      have hrow : addRow name i (rowOfPair (p, n)) = addPair i p := by
        unfold addRow
        rw [entryOfRow?_rowOfPair (hpairs p List.mem_cons_self)]
        rfl
      rw [List.zipIdx_cons, List.map_cons, List.foldlM_cons, List.foldlM_cons, hrow]
      congr 1
      funext i'
      exact ih (fun p' hp' => hpairs p' (List.mem_cons_of_mem _ hp')) (n + 1) i'

theorem Sound.ofRows_toRows (h : i.Sound)
    (hsigned : ∀ p ∈ i.pairs, RowIdIndex.isSigned p.2 = true)
    (hcount : i.pairs.length + 1 < 0x10000000000000000) :
    ∃ i', ofRows i.name i.toRows = .ok i' ∧ i.SameEntries i' := by
  have hfilter : (i.pairs.zipIdx.map rowOfPair).filter (fun row => row.id != reservedRowId) =
      i.pairs.zipIdx.map rowOfPair := by
    apply List.filter_eq_self.mpr
    intro row hrow
    rcases List.mem_map.mp hrow with ⟨p, hp, rfl⟩
    have hbound := List.snd_lt_of_mem_zipIdx hp
    have hid := id_rowOfPair (p := p) (by omega)
    have hne : (rowOfPair p).id ≠ reservedRowId := by
      intro heq
      rw [heq] at hid
      simp [reservedRowId] at hid
    simpa using hne
  rcases @foldlM_pairsOf i.emptied i.entries.entries h.ascending h.nonempty h.nodup h.single with
    ⟨i', hfold, hemptied, hentries⟩
  refine ⟨i', ?_, hemptied, congrArg SortedMap.mk hentries⟩
  unfold ofRows
  rw [toRows_eq, List.find?_cons_of_pos (by simp), List.filter_cons_of_neg (by simp), hfilter]
  dsimp only
  rw [ofHeader?_header]
  exact (foldlM_addRow i.name hsigned 0 i.emptied).trans hfold

/-!
## Indices that list the same rows
-/

/-- The same index but for the order of the ids under a key and for the counters. -/
structure Alike (i i' : KeyIndex) : Prop where
  emptied : i'.emptied = i.emptied
  sound : i.Sound → i'.Sound
  mem_get : ∀ key id, key.type? = some i.keyType → (id ∈ i'.get key ↔ id ∈ i.get key)

theorem Alike.refl (i : KeyIndex) : i.Alike i where
  emptied := rfl
  sound := id
  mem_get := fun _ _ _ => Iff.rfl

theorem SameEntries.alike (h : i.SameEntries i') : i.Alike i' where
  emptied := h.emptied
  sound := by
    intro hi
    constructor
    · rw [h.entries, keyType_eq_of_emptied h.emptied]
      exact hi.ascending
    · rw [h.entries]
      exact hi.nonempty
    · rw [h.entries]
      exact hi.nodup
    · rw [h.entries, unique_eq_of_emptied h.emptied]
      exact hi.single
  mem_get := by
    intro key id _
    unfold get
    rw [h.entries]

theorem Alike.perm_get (h : i.Alike i') (hi : i.Sound) {key : Value}
    (hkey : key.type? = some i.keyType) : (i'.get key).Perm (i.get key) := by
  rw [List.perm_ext_iff_of_nodup ((h.sound hi).nodup_get key) (hi.nodup_get key)]
  exact fun id => h.mem_get key id hkey

theorem Alike.entries_eq_empty (h : i.Alike i') (hi : i.Sound) (hempty : i.entries = {}) :
    i'.entries = {} := by
  apply (h.sound hi).entries_eq_empty
  intro p hp
  rcases mem_pairs_iff.mp hp with ⟨ids, hmem, _⟩
  have hkey := (h.sound hi).ascending.kind _ hmem
  rw [keyType_eq_of_emptied h.emptied] at hkey
  have hget := (h.mem_get p.1 p.2 hkey).mp ((h.sound hi).mem_get_of_mem_pairs hp)
  unfold get at hget
  rw [hempty] at hget
  cases hget

theorem SameEntries.toRows_eq (h : i.SameEntries i') : i'.toRows = i.toRows := by
  have hheader : i'.header = i.header :=
    (congrArg KeyIndex.header h.emptied : i'.emptied.header = i.emptied.header)
  have hpairs : i'.pairs = i.pairs := by
    unfold pairs
    rw [h.entries]
  unfold toRows
  rw [hheader, hpairs]

end KeyIndex

end RelationalDb
