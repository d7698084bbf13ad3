import Mathlib
import RelationalDb.Proofs.Index.KeyMaps
import RelationalDb.Proofs.Index.StoredForms

/-!
# Which rows an index can be read from

Rows are the stored form of an index if they describe it and if its entries can be added one
by one.  The five ways in which they can fail to be one are all there are.
-/

namespace RelationalDb

namespace KeyIndex

variable {i i' : KeyIndex} {key : Value} {id : RowId} {pairs : List (Value × RowId)}
  {rows : List Row} {type : ColumnType} {unique : Bool} {direction : Direction}

/-!
## Adding pairs
-/

theorem exists_add_ok_iff (h : i.Sound) :
    (∃ i', i.add key id = .ok i') ↔
      key.isNull = true ∨ (key.type? = some i.keyType ∧ i.conflicts key id = false) := by
  by_cases hnull : key.isNull = true
  · simp [KeyIndex.add, hnull]
  have hnotNull := Bool.eq_false_iff.mpr hnull
  by_cases hkey : key.type? = some i.keyType
  · by_cases hconf : i.conflicts key id = true
    · simp [add_of_conflicts hkey hconf, hnull, hconf]
    · rcases h.add_ok hkey (Bool.eq_false_iff.mpr hconf) with ⟨i', hadd, _⟩
      simp [hadd, hkey, hconf]
  · simp [add_of_type_ne hnotNull hkey, hnull, hkey]

theorem Sound.of_add (h : i.Sound) (hadd : i.add key id = .ok i') :
    i'.Sound ∧ i'.emptied = i.emptied ∧ ∀ k x, k.type? = some i.keyType →
      (x ∈ i'.get k ↔ x ∈ i.get k ∨ (compare k key = .eq ∧ x = id)) := by
  rcases (exists_add_ok_iff h).mp ⟨i', hadd⟩ with hnull | ⟨hkey, hconf⟩
  · rw [KeyIndex.add, if_pos hnull] at hadd
    cases hadd
    refine ⟨h, rfl, fun k x hk => ?_⟩
    rw [Value.eq_null_of_type (Value.isNull_iff.mp hnull),
      Value.compare_null_right (Value.isNull_eq_false_of_type hk)]
    simp
  · rcases h.add_ok hkey hconf with ⟨i₁, hadd₁, hsound, hemptied, hget⟩
    cases hadd.symm.trans hadd₁
    refine ⟨hsound, hemptied, fun k x hk => ?_⟩
    rw [hget k hk]
    by_cases heq : compare k key = .eq
    · rw [if_pos heq, h.get_congr hk hkey heq]
      by_cases hid : id ∈ i.get key
      · rw [if_pos hid]
        constructor
        · exact Or.inl
        · rintro (hx | ⟨_, rfl⟩)
          · exact hx
          · exact hid
      · rw [if_neg hid, List.mem_append, List.mem_singleton]
        simp [heq]
    · rw [if_neg heq]
      simp [heq]

/-- No two of the pairs have one key and different rows. -/
def Unambiguous (pairs : List (Value × RowId)) : Prop :=
  ∀ p ∈ pairs, ∀ q ∈ pairs, p.1.isNull = false → q.1.isNull = false →
    compare p.1 q.1 = .eq → p.2 = q.2

/-- Pairs that can be added one after the other. -/
structure Addable (i : KeyIndex) (pairs : List (Value × RowId)) : Prop where
  keys : ∀ p ∈ pairs, p.1.isNull = true ∨ p.1.type? = some i.keyType
  free : i.unique = true → ∀ p ∈ pairs, p.1.type? = some i.keyType → ∀ x ∈ i.get p.1, x = p.2
  unambiguous : i.unique = true → Unambiguous pairs

theorem Addable.add_head (h : i.Sound) {p : Value × RowId} (hpairs : i.Addable (p :: pairs)) :
    ∃ i', i.add p.1 p.2 = .ok i' ∧ i'.Addable pairs := by
  have hp : p ∈ p :: pairs := List.mem_cons_self
  have hok : p.1.isNull = true ∨
      (p.1.type? = some i.keyType ∧ i.conflicts p.1 p.2 = false) := by
    apply (hpairs.keys p hp).imp_right
    intro hkey
    refine ⟨hkey, (conflicts_eq_false_iff (Value.isNull_eq_false_of_type hkey)).mpr ?_⟩
    exact fun hunique => hpairs.free hunique p hp hkey
  rcases (exists_add_ok_iff h).mpr hok with ⟨i', hadd⟩
  rcases h.of_add hadd with ⟨_, hemptied, hget⟩
  refine ⟨i', hadd, ?_, ?_, ?_⟩
  · rw [keyType_eq_of_emptied hemptied]
    exact fun q hq => hpairs.keys q (List.mem_cons_of_mem _ hq)
  · rw [keyType_eq_of_emptied hemptied, unique_eq_of_emptied hemptied]
    intro hunique q hq hkey x hx
    rcases (hget q.1 x hkey).mp hx with hx | ⟨heq, rfl⟩
    · exact hpairs.free hunique q (List.mem_cons_of_mem _ hq) hkey x hx
    · have hnull := Value.isNull_eq_false_of_type hkey
      have hnull' : p.1.isNull = false := by
        rw [← Bool.not_eq_true]
        intro hp
        rw [Value.eq_null_of_type (Value.isNull_iff.mp hp), Value.compare_null_right hnull] at heq
        cases heq
      exact (hpairs.unambiguous hunique q (List.mem_cons_of_mem _ hq) p hp hnull hnull' heq).symm
  · rw [unique_eq_of_emptied hemptied]
    exact fun hunique q hq q' hq' => hpairs.unambiguous hunique q (List.mem_cons_of_mem _ hq) q'
      (List.mem_cons_of_mem _ hq')

theorem Addable.of_add (h : i.Sound) {p : Value × RowId} (hadd : i.add p.1 p.2 = .ok i')
    (hpairs : i'.Addable pairs) : i.Addable (p :: pairs) := by
  have hok := (exists_add_ok_iff h).mp ⟨i', hadd⟩
  rcases h.of_add hadd with ⟨_, hemptied, hget⟩
  have hkeys : ∀ q ∈ p :: pairs, q.1.isNull = true ∨ q.1.type? = some i.keyType := by
    rw [List.forall_mem_cons, ← keyType_eq_of_emptied hemptied]
    refine ⟨?_, hpairs.keys⟩
    rw [keyType_eq_of_emptied hemptied]
    exact hok.imp_right And.left
  -- What is still to be added meets the rows that were there and the one that was added now.
  have hclash : i.unique = true → ∀ q ∈ pairs, q.1.type? = some i.keyType →
      ∀ x, x ∈ i.get q.1 ∨ (compare q.1 p.1 = .eq ∧ x = p.2) → x = q.2 := by
    intro hunique q hq hkey x hx
    rw [← unique_eq_of_emptied hemptied] at hunique
    apply hpairs.free hunique q hq _ x ((hget q.1 x hkey).mpr hx)
    rw [keyType_eq_of_emptied hemptied, hkey]
  refine ⟨hkeys, ?_, ?_⟩
  · intro hunique q hq hkey x hx
    rcases List.mem_cons.mp hq with rfl | hq
    · rcases hok with hnull | ⟨_, hconf⟩
      · rw [Value.isNull_eq_false_of_type hkey] at hnull
        cases hnull
      · exact (conflicts_eq_false_iff (Value.isNull_eq_false_of_type hkey)).mp hconf hunique x hx
    · exact hclash hunique q hq hkey x (Or.inl hx)
  · intro hunique q hq q' hq' hnull hnull' heq
    have hkey := (hkeys q hq).resolve_left (by simp [hnull])
    have hkey' := (hkeys q' hq').resolve_left (by simp [hnull'])
    rcases List.mem_cons.mp hq with rfl | hrest
    · rcases List.mem_cons.mp hq' with rfl | hrest'
      · rfl
      · have heq' := (Value.orderedOn_type i.keyType).eq_symm hkey hkey' heq
        exact hclash hunique q' hrest' hkey' q.2 (Or.inr ⟨heq', rfl⟩)
    · rcases List.mem_cons.mp hq' with rfl | hrest'
      · exact (hclash hunique q hrest hkey q'.2 (Or.inr ⟨heq, rfl⟩)).symm
      · rw [← unique_eq_of_emptied hemptied] at hunique
        exact hpairs.unambiguous hunique q hrest q' hrest' hnull hnull' heq

theorem addable_cons_iff (h : i.Sound) {p : Value × RowId} :
    i.Addable (p :: pairs) ↔ ∃ i', i.add p.1 p.2 = .ok i' ∧ i'.Addable pairs := by
  constructor
  · exact Addable.add_head h
  · rintro ⟨i', hadd, hpairs⟩
    exact Addable.of_add h hadd hpairs

theorem exists_foldlM_addPair_iff (h : i.Sound) :
    (∃ i', pairs.foldlM addPair i = .ok i') ↔ i.Addable pairs := by
  induction pairs generalizing i with
  | nil => exact ⟨fun _ => ⟨by simp, by simp, by simp [Unambiguous]⟩, fun _ => ⟨i, rfl⟩⟩
  | cons p rest ih =>
      rw [addable_cons_iff h, List.foldlM_cons]
      constructor
      · rintro ⟨i', hfold⟩
        rcases Outcome.bind_eq_ok_iff.mp hfold with ⟨i₁, hadd, hrest⟩
        exact ⟨i₁, hadd, (ih (h.of_add hadd).1).mp ⟨i', hrest⟩⟩
      · rintro ⟨i₁, hadd, haddable⟩
        rcases (ih (h.of_add hadd).1).mpr haddable with ⟨i', hrest⟩
        refine ⟨i', ?_⟩
        rw [addPair, hadd, Outcome.ok_bind, hrest]

theorem Sound.of_foldlM_addPair (h : i.Sound) (hc : i.Counted)
    (hfold : pairs.foldlM addPair i = .ok i') : i'.Sound ∧ i'.Counted := by
  induction pairs generalizing i with
  | nil =>
      cases hfold
      exact ⟨h, hc⟩
  | cons p rest ih =>
      rw [List.foldlM_cons] at hfold
      rcases Outcome.bind_eq_ok_iff.mp hfold with ⟨i₁, hadd, hrest⟩
      exact ih (h.of_add hadd).1 (hc.add h hadd) hrest

/-!
## Reading rows
-/

/-- The first row under the reserved id tells the type of the keys, whether the index is unique
and its direction. -/
def Describes (rows : List Row) (type : ColumnType) (unique : Bool) (direction : Direction) :
    Prop :=
  ∃ row rest, rows.find? (fun row => row.id = reservedRowId) = some row ∧
    row.values = .string type.name :: .boolean unique :: .string direction.name :: rest

def Enters (row : Row) (p : Value × RowId) : Prop :=
  ∃ n : Int64, row.values = [p.1, .int64 n] ∧ 0 ≤ n.toInt ∧ p.2 = n.toUInt64

def HasEntry (rows : List Row) (p : Value × RowId) : Prop :=
  ∃ row ∈ rows, row.id ≠ reservedRowId ∧ Enters row p

/-- What can be wrong with the stored form of an index. -/
inductive Unreadable (rows : List Row) : Prop
  | descriptionMissing (h : ∀ row ∈ rows, row.id ≠ reservedRowId)
  | descriptionMalformed (row : Row) (hrow : row ∈ rows) (hid : row.id = reservedRowId)
      (h : ∀ type unique direction, ¬ Describes rows type unique direction)
  | entryMalformed (row : Row) (hrow : row ∈ rows) (hid : row.id ≠ reservedRowId)
      (h : ∀ p, ¬ Enters row p)
  | keyMistyped (type : ColumnType) (unique : Bool) (direction : Direction)
      (hrows : Describes rows type unique direction) (p : Value × RowId) (hp : HasEntry rows p)
      (hnull : p.1.isNull = false) (h : p.1.type? ≠ some type)
  | keyRepeated (type : ColumnType) (direction : Direction)
      (hrows : Describes rows type true direction) (p q : Value × RowId) (hp : HasEntry rows p)
      (hq : HasEntry rows q) (hnull : p.1.isNull = false) (hnull' : q.1.isNull = false)
      (heq : compare p.1 q.1 = .eq) (h : p.2 ≠ q.2)

theorem entryOfRow?_eq_some_iff {row : Row} {p : Value × RowId} :
    entryOfRow? row.values = some p ↔ Enters row p := by
  constructor
  · intro h
    unfold entryOfRow? at h
    split at h
    · next key n heq =>
        split at h
        · cases h
        · next hn =>
            cases h
            exact ⟨n, heq, not_lt.mp hn, rfl⟩
    · cases h
  · rintro ⟨n, heq, hn, hid⟩
    rw [heq]
    change (if n.toInt < 0 then none else some (p.1, n.toUInt64)) = some p
    rw [if_neg (not_lt.mpr hn), ← hid]

theorem ofName?_eq_some_iff {s : String} :
    ColumnType.ofName? s = some type ↔ s = type.name := by
  constructor
  · intro h
    have hname := List.find?_some h
    exact (eq_of_beq hname).symm
  · rintro rfl
    cases type <;> rfl

theorem direction_ofName?_eq_some_iff {s : String} :
    Direction.ofName? s = some direction ↔ s = direction.name := by
  constructor
  · intro h
    have hname := List.find?_some h
    exact (eq_of_beq hname).symm
  · rintro rfl
    cases direction <;> rfl

theorem ofHeader?_eq_some_iff {name : String} {values : List Value} :
    ofHeader? name values = some i ↔
      ∃ type unique direction rest,
        values = .string type.name :: .boolean unique :: .string direction.name :: rest ∧
          i = { name := name, keyType := type, unique := unique, direction := direction } := by
  constructor
  · intro h
    unfold ofHeader? at h
    split at h
    · split at h
      · next htype hdirection =>
          cases h
          rw [ofName?_eq_some_iff.mp htype, direction_ofName?_eq_some_iff.mp hdirection]
          exact ⟨_, _, _, _, rfl, rfl⟩
      · cases h
    · cases h
  · rintro ⟨type, unique, direction, rest, rfl, rfl⟩
    unfold ofHeader?
    simp only [ofName?_eq_some_iff.mpr rfl, direction_ofName?_eq_some_iff.mpr rfl]

theorem foldlM_addRow_eq_ok_iff {name : String} :
    rows.foldlM (addRow name) i = .ok i' ↔
      ∃ pairs, List.Forall₂ Enters rows pairs ∧ pairs.foldlM addPair i = .ok i' := by
  induction rows generalizing i with
  | nil =>
      constructor
      · exact fun h => ⟨[], List.Forall₂.nil, h⟩
      · rintro ⟨_, hnil, h⟩
        cases hnil
        exact h
  | cons row rest ih =>
      rw [List.foldlM_cons, Outcome.bind_eq_ok_iff]
      constructor
      · rintro ⟨i₁, hrow, hrest⟩
        rcases ih.mp hrest with ⟨pairs, hpairs, hfold⟩
        unfold addRow at hrow
        split at hrow
        · cases hrow
        · next key id hentry =>
            refine ⟨(key, id) :: pairs, .cons (entryOfRow?_eq_some_iff.mp hentry) hpairs, ?_⟩
            rw [List.foldlM_cons, addPair, hrow, Outcome.ok_bind, hfold]
      · rintro ⟨_, hall, hfold⟩
        cases hall with
        | @cons _ p _ pairs hp hpairs =>
            rw [List.foldlM_cons] at hfold
            rcases Outcome.bind_eq_ok_iff.mp hfold with ⟨i₁, hadd, hfold⟩
            refine ⟨i₁, ?_, ih.mpr ⟨pairs, hpairs, hfold⟩⟩
            unfold addRow
            rw [entryOfRow?_eq_some_iff.mpr hp]
            exact hadd

theorem ofRows_eq_ok_iff {name : String} :
    ofRows name rows = .ok i' ↔
      ∃ type unique direction pairs, Describes rows type unique direction ∧
        List.Forall₂ Enters (rows.filter fun row => row.id != reservedRowId) pairs ∧
        pairs.foldlM addPair
          { name := name, keyType := type, unique := unique, direction := direction } = .ok i' := by
  constructor
  · intro h
    unfold ofRows at h
    split at h
    · cases h
    · next row hrow =>
        split at h
        · cases h
        · next i hi =>
            rcases ofHeader?_eq_some_iff.mp hi with ⟨type, unique, direction, rest, hvalues, rfl⟩
            rcases foldlM_addRow_eq_ok_iff.mp h with ⟨pairs, hpairs, hfold⟩
            exact ⟨type, unique, direction, pairs, ⟨row, rest, hrow, hvalues⟩, hpairs, hfold⟩
  · rintro ⟨type, unique, direction, pairs, ⟨row, rest, hrow, hvalues⟩, hpairs, hfold⟩
    unfold ofRows
    rw [hrow]
    dsimp only
    rw [ofHeader?_eq_some_iff.mpr ⟨type, unique, direction, rest, hvalues, rfl⟩]
    exact foldlM_addRow_eq_ok_iff.mpr ⟨pairs, hpairs, hfold⟩

theorem sound_of_ofRows {name : String} (h : ofRows name rows = .ok i) : i.Sound ∧ i.Counted := by
  rcases ofRows_eq_ok_iff.mp h with ⟨type, unique, direction, pairs, _, _, hfold⟩
  let base : KeyIndex := { name := name, keyType := type, unique := unique, direction := direction }
  have hbase : base.Sound := Sound.of_emptied base
  exact hbase.of_foldlM_addPair rfl hfold

theorem mem_entries_iff {row : Row} :
    row ∈ rows.filter (fun row => row.id != reservedRowId) ↔
      row ∈ rows ∧ row.id ≠ reservedRowId := by
  simp

theorem Describes.unique_eq {type' : ColumnType} {unique' : Bool} {direction' : Direction}
    (h : Describes rows type unique direction) (h' : Describes rows type' unique' direction') :
    type' = type ∧ unique' = unique := by
  rcases h with ⟨row, rest, hrow, hvalues⟩
  rcases h' with ⟨row', rest', hrow', hvalues'⟩
  cases hrow.symm.trans hrow'
  rw [hvalues'] at hvalues
  simp only [List.cons.injEq, Value.string.injEq, Value.boolean.injEq] at hvalues
  have htype := ofName?_eq_some_iff.mpr hvalues.1
  rw [ofName?_eq_some_iff.mpr rfl] at htype
  exact ⟨Option.some.inj htype, hvalues.2.1⟩

theorem hasEntry_of_mem
    (hpairs : List.Forall₂ Enters (rows.filter fun row => row.id != reservedRowId) pairs)
    {p : Value × RowId} (hp : p ∈ pairs) : HasEntry rows p := by
  rcases exists_of_mem_right hpairs hp with ⟨row, hrow, henters⟩
  rcases mem_entries_iff.mp hrow with ⟨hmem, hid⟩
  exact ⟨row, hmem, hid, henters⟩

theorem mem_of_hasEntry
    (hpairs : List.Forall₂ Enters (rows.filter fun row => row.id != reservedRowId) pairs)
    {p : Value × RowId} (hp : HasEntry rows p) : p ∈ pairs := by
  rcases hp with ⟨row, hmem, hid, henters⟩
  rcases exists_of_mem_left hpairs (mem_entries_iff.mpr ⟨hmem, hid⟩) with ⟨q, hq, henters'⟩
  have hsome := entryOfRow?_eq_some_iff.mpr henters
  rw [entryOfRow?_eq_some_iff.mpr henters'] at hsome
  exact Option.some.inj hsome ▸ hq

theorem exists_ofRows_of_readable (name : String) (hreadable : ¬ Unreadable rows) :
    ∃ i, ofRows name rows = .ok i := by
  have hdescribed : ∃ type unique direction, Describes rows type unique direction := by
    by_contra hnone
    push Not at hnone
    apply hreadable
    by_cases hrow : ∃ row ∈ rows, row.id = reservedRowId
    · rcases hrow with ⟨row, hmem, hid⟩
      exact .descriptionMalformed row hmem hid hnone
    · push Not at hrow
      exact .descriptionMissing hrow
  rcases hdescribed with ⟨type, unique, direction, hrows⟩
  have hentries : ∀ row ∈ rows.filter (fun row => row.id != reservedRowId),
      ∃ p, Enters row p := by
    intro row hrow
    rcases mem_entries_iff.mp hrow with ⟨hmem, hid⟩
    by_contra hnone
    push Not at hnone
    exact hreadable (.entryMalformed row hmem hid hnone)
  rcases exists_forall₂ hentries with ⟨pairs, hpairs⟩
  let base : KeyIndex := { name := name, keyType := type, unique := unique, direction := direction }
  have haddable : base.Addable pairs := by
    refine ⟨?_, by simp [base, get_eq, SortedMap.lookup], ?_⟩
    · intro p hp
      by_contra hkey
      rw [not_or] at hkey
      exact hreadable (.keyMistyped type unique direction hrows p (hasEntry_of_mem hpairs hp)
        (Bool.eq_false_iff.mpr hkey.1) hkey.2)
    · intro hunique p hp q hq hnull hnull' heq
      by_contra hne
      have hunique' : unique = true := hunique
      subst hunique'
      exact hreadable (.keyRepeated type direction hrows p q (hasEntry_of_mem hpairs hp)
        (hasEntry_of_mem hpairs hq) hnull hnull' heq hne)
  have hbase : base.Sound := Sound.of_emptied base
  rcases (exists_foldlM_addPair_iff hbase).mpr haddable with ⟨i, hfold⟩
  exact ⟨i, ofRows_eq_ok_iff.mpr ⟨type, unique, direction, pairs, hrows, hpairs, hfold⟩⟩

theorem readable_of_ofRows {name : String} (hread : ofRows name rows = .ok i) :
    ¬ Unreadable rows := by
  intro hunreadable
  rcases ofRows_eq_ok_iff.mp hread with ⟨type, unique, direction, pairs, hrows, hpairs, hfold⟩
  let base : KeyIndex := { name := name, keyType := type, unique := unique, direction := direction }
  have hbase : base.Sound := Sound.of_emptied base
  have haddable := (exists_foldlM_addPair_iff hbase).mp ⟨i, hfold⟩
  cases hunreadable with
  | descriptionMissing h =>
      rcases hrows with ⟨row, _, hrow, _⟩
      exact h row (List.mem_of_find?_eq_some hrow) (by simpa using List.find?_some hrow)
  | descriptionMalformed row hrow hid h => exact h _ _ _ hrows
  | entryMalformed row hrow hid h =>
      rcases exists_of_mem_left hpairs (mem_entries_iff.mpr ⟨hrow, hid⟩) with ⟨p, _, hp⟩
      exact h p hp
  | keyMistyped type' unique' direction' hrows' p hp hnull h =>
      have hkey := (haddable.keys p (mem_of_hasEntry hpairs hp)).resolve_left (by simp [hnull])
      rw [(hrows.unique_eq hrows').1] at h
      exact h hkey
  | keyRepeated type' direction' hrows' p q hp hq hnull hnull' heq h =>
      have hunique : unique = true := (hrows.unique_eq hrows').2.symm
      exact h (haddable.unambiguous hunique p (mem_of_hasEntry hpairs hp) q
        (mem_of_hasEntry hpairs hq) hnull hnull' heq)

/-- Rows that cannot be read have one of the five faults, and none of these can be read. -/
theorem ofRows_fails_iff (name : String) (rows : List Row) :
    (∃ f, ofRows name rows = .error f) ↔ Unreadable rows := by
  constructor
  · rintro ⟨f, hf⟩
    by_contra hreadable
    rcases exists_ofRows_of_readable name hreadable with ⟨i, hok⟩
    cases hok.symm.trans hf
  · intro hunreadable
    cases hread : ofRows name rows with
    | error f => exact ⟨f, rfl⟩
    | ok i => exact absurd hunreadable (readable_of_ofRows hread)

end KeyIndex

end RelationalDb
