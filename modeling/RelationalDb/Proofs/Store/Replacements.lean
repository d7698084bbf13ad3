import Mathlib
import RelationalDb.Proofs.Store.Batches
import RelationalDb.Proofs.Store.PrimaryKeys

/-!
# Payloads that replace each other

A payload takes the place of the row with its primary key, or becomes a fresh row.  Of several
payloads with one key the last one stays, in the place of the first.
-/

namespace RelationalDb

namespace Table

def lastWithKeyOf? (t : Table) (payloads : List (List Value)) (values : List Value) :
    Option (List Value) :=
  payloads.reverse.find? (t.sameKey values)

def withoutKey (t : Table) (payloads : List (List Value)) : List (List Value) :=
  payloads.filter fun values => (t.keyOf values).isNull

theorem lastWithKeyOf?_cons (t : Table) (first values : List Value) (rest : List (List Value)) :
    t.lastWithKeyOf? (first :: rest) values =
      (t.lastWithKeyOf? rest values).or
        (if t.sameKey values first = true then some first else none) := by
  unfold lastWithKeyOf?
  rw [List.reverse_cons, List.find?_append, List.find?_singleton]

theorem withoutKey_cons (t : Table) (first : List Value) (rest : List (List Value)) :
    t.withoutKey (first :: rest) =
      if (t.keyOf first).isNull = true then first :: t.withoutKey rest else t.withoutKey rest :=
  List.filter_cons

end Table

namespace TableStore

def hasNewKey (s : TableStore) (values : List Value) : Bool :=
  !(s.table.keyOf values).isNull && (s.withKeyOf values).isEmpty

/-- The different primary keys of the payloads that no row has. -/
def newKeys (s : TableStore) (payloads : List (List Value)) : List Value :=
  ((payloads.filter s.hasNewKey).map s.table.keyOf).eraseDups

/-- The id is that of the row with the primary key of the given values, or a fresh one if no row has
this key. -/
def IdFor (s : TableStore) (values : List Value) (id : RowId) : Prop :=
  (∀ old ∈ s.withKeyOf values, id = old.id) ∧ (s.withKeyOf values = [] → s.row? id = none)

variable {s s₁ s' : TableStore} {row old : Row} {values values' : List Value} {id : RowId}

theorem hasNewKey_congr (h : s.table.sameKey values values' = true) :
    s.hasNewKey values = s.hasNewKey values' := by
  unfold hasNewKey
  rw [withKeyOf_congr h, (Table.sameKey_iff.mp h).1,
    (Table.sameKey_iff.mp (Table.sameKey_symm h)).1]

/-!
## One payload
-/

/-- The row has been put in the place of the one with its key, or there was none and it is a
fresh one. -/
structure Placed (s s' : TableStore) (row : Row) : Prop where
  sound : s'.Sound
  table : s'.table = s.table
  rows : ∀ id, s'.row? id = if id = row.id then some row else s.row? id
  place : s.IdFor row.values row.id

theorem Sound.placed_update (h : s.Sound) (ht : s.table.Built) (hold : old ∈ s.withKeyOf values)
    {replaced : Row}
    (hok : (update { old with values := values }).perform s = (.ok replaced, s')) :
    s.Placed s' { old with values := values } where
  sound := h.update_ok hok
  table := table_of_update hok
  rows := h.row?_update hok
  place := by
    constructor
    · intro old' hold'
      rw [h.withKeyOf_eq ht hold] at hold'
      rw [List.mem_singleton.mp hold']
    · intro hnone
      rw [hnone] at hold
      cases hold

theorem Sound.placed_insert (h : s.Sound) (hnone : s.withKeyOf row.values = [])
    (hok : (insert row).perform s = (.ok (), s')) : s.Placed s' row where
  sound := h.insert_ok hok
  table := table_of_insert hok
  rows := h.row?_insert hok
  place := by
    refine ⟨fun old hold => ?_, fun _ => (insert_eq_ok hok).1⟩
    rw [hnone] at hold
    cases hold

namespace Placed

theorem mem (hp : s.Placed s₁ row) : row ∈ s₁.toList := by
  rw [hp.sound.mem_toList_iff]
  exact (hp.rows row.id).trans (if_pos rfl)

theorem row?_eq_none (hp : s.Placed s₁ row) (hnone : s₁.row? id = none) : s.row? id = none := by
  rw [hp.rows] at hnone
  split at hnone
  · cases hnone
  · exact hnone

theorem id_ne (hp : s.Placed s₁ row) (h : s.Sound) (hold : old ∈ s.toList)
    (hother : s.table.sameKey row.values old.values = false) : old.id ≠ row.id := by
  intro hid
  have hget : s.row? row.id = some old := hid ▸ h.mem_toList_iff.mp hold
  cases hrows : s.withKeyOf row.values with
  | nil => cases hget.symm.trans (hp.place.2 hrows)
  | cons old' rest =>
      have hold' : old' ∈ s.withKeyOf row.values := hrows ▸ List.mem_cons_self
      have hid' : row.id = old'.id := hp.place.1 old' hold'
      rw [mem_withKeyOf, h.mem_toList_iff, ← hid'] at hold'
      cases hget.symm.trans hold'.1
      rw [hother] at hold'
      cases hold'.2

theorem mem_of_other (hp : s.Placed s₁ row) (h : s.Sound) (hold : old ∈ s.toList)
    (hother : s.table.sameKey row.values old.values = false) : old ∈ s₁.toList := by
  have hid := hp.id_ne h hold hother
  rw [h.mem_toList_iff] at hold
  rw [hp.sound.mem_toList_iff]
  exact (hp.rows old.id).trans ((if_neg hid).trans hold)

theorem mem_withKeyOf_iff (hp : s.Placed s₁ row) (h : s.Sound)
    (hother : s.table.sameKey values row.values = false) :
    old ∈ s₁.withKeyOf values ↔ old ∈ s.withKeyOf values := by
  rw [mem_withKeyOf, mem_withKeyOf, hp.table]
  apply and_congr_left
  intro hsame
  constructor
  · intro hold
    have hget : s₁.row? old.id = some old := hp.sound.mem_toList_iff.mp hold
    rw [hp.rows] at hget
    split at hget
    · cases hget
      rw [hother] at hsame
      cases hsame
    · exact h.mem_toList_iff.mpr hget
  · intro hold
    apply hp.mem_of_other h hold
    rw [Bool.eq_false_iff] at hother ⊢
    exact fun hrow => hother (Table.sameKey_trans hsame (Table.sameKey_symm hrow))

theorem withKeyOf_eq_nil_iff (hp : s.Placed s₁ row) (h : s.Sound)
    (hother : s.table.sameKey values row.values = false) :
    s₁.withKeyOf values = [] ↔ s.withKeyOf values = [] := by
  simp only [List.eq_nil_iff_forall_not_mem, hp.mem_withKeyOf_iff h hother]

theorem mem_withKeyOf_of_same (hp : s.Placed s₁ row)
    (hsame : s.table.sameKey values row.values = true) : row ∈ s₁.withKeyOf values :=
  mem_withKeyOf.mpr ⟨hp.mem, hp.table ▸ hsame⟩

theorem idFor (hp : s.Placed s₁ row) (h : s.Sound) (hid : s₁.IdFor values id) :
    s.IdFor values id := by
  cases hsame : s.table.sameKey values row.values with
  | true =>
      have hrow : id = row.id := hid.1 row (hp.mem_withKeyOf_of_same hsame)
      have hplace := hp.place
      unfold IdFor at hplace ⊢
      rwa [withKeyOf_congr hsame, hrow]
  | false =>
      constructor
      · intro old hold
        exact hid.1 old ((hp.mem_withKeyOf_iff h hsame).mpr hold)
      · intro hnone
        exact hp.row?_eq_none (hid.2 ((hp.withKeyOf_eq_nil_iff h hsame).mpr hnone))

theorem hasNewKey (hp : s.Placed s₁ row) (h : s.Sound) (values : List Value) :
    s₁.hasNewKey values = (s.hasNewKey values && !s.table.sameKey values row.values) := by
  unfold TableStore.hasNewKey
  rw [hp.table]
  cases hsame : s.table.sameKey values row.values with
  | true =>
      have hrow := hp.mem_withKeyOf_of_same hsame
      simp [List.ne_nil_of_mem hrow]
  | false =>
      rw [Bool.not_false, Bool.and_true, Bool.eq_iff_iff]
      simp only [Bool.and_eq_true, List.isEmpty_iff, hp.withKeyOf_eq_nil_iff h hsame]

theorem size (hp : s.Placed s₁ row) (h : s.Sound) :
    s₁.size = s.size + if (s.withKeyOf row.values).isEmpty then 1 else 0 := by
  have hrows : s₁.rows = s.rows.insert row.id row := by
    apply SortedMap.ext_get? hp.sound.ordered (h.ordered.insert _ _)
    intro id
    rw [SortedMap.get?_insert h.ordered]
    exact hp.rows id
  unfold TableStore.size
  rw [hrows, SortedMap.size_insert h.ordered]
  cases hold : s.withKeyOf row.values with
  | nil =>
      have hnone : s.rows.get? row.id = none := hp.place.2 hold
      simp [hnone]
  | cons old rest =>
      have hmem : old ∈ s.withKeyOf row.values := hold ▸ List.mem_cons_self
      have hid : row.id = old.id := hp.place.1 old hmem
      rw [mem_withKeyOf, h.mem_toList_iff, ← hid] at hmem
      simp [hmem.1]

theorem newKeys_of_new (hp : s.Placed s₁ row) (h : s.Sound)
    (hnew : s.hasNewKey row.values = true) (rest : List (List Value)) :
    s.newKeys (row.values :: rest) = s.table.keyOf row.values :: s₁.newKeys rest := by
  unfold newKeys
  rw [List.filter_cons_of_pos hnew, List.map_cons, List.eraseDups_cons, List.filter_map,
    List.filter_filter, hp.table]
  congr 4
  funext values
  rw [hp.hasNewKey h]
  unfold TableStore.hasNewKey Table.sameKey
  cases (s.table.keyOf values).isNull <;> simp [Bool.and_comm]

theorem newKeys_of_old (hp : s.Placed s₁ row) (h : s.Sound)
    (hold : s.hasNewKey row.values = false) (rest : List (List Value)) :
    s.newKeys (row.values :: rest) = s₁.newKeys rest := by
  unfold newKeys
  rw [List.filter_cons_of_neg (by simp [hold]), hp.table]
  congr 3
  funext values
  rw [hp.hasNewKey h]
  cases hsame : s.table.sameKey values row.values with
  | true => rw [hasNewKey_congr hsame, hold, Bool.false_and]
  | false => rw [Bool.not_false, Bool.and_true]

end Placed

/-!
## Many payloads
-/

/-- What has become of a store in which the payloads replaced the rows with their primary keys. -/
structure Replaced (s s' : TableStore) (payloads : List (List Value)) : Prop where
  sound : s'.Sound
  table : s'.table = s.table
  keyed : ∀ values ∈ payloads, (s.table.keyOf values).isNull = false →
    ∃ row, s'.withKeyOf values = [row] ∧
      s.table.lastWithKeyOf? payloads values = some row.values ∧ s.IdFor values row.id
  unkeyed : ∃ fresh : List Row, fresh.map (·.values) = s.table.withoutKey payloads ∧
    (fresh.map (·.id)).Nodup ∧ ∀ row ∈ fresh, row ∈ s'.toList ∧ s.row? row.id = none
  kept : ∀ row ∈ s.toList,
    (∀ values ∈ payloads, s.table.sameKey values row.values = false) → row ∈ s'.toList
  size : s'.size = s.size + (s.newKeys payloads).length + (s.table.withoutKey payloads).length

theorem Sound.replaced_nil (h : s.Sound) : s.Replaced s [] where
  sound := h
  table := rfl
  keyed := nofun
  unkeyed := ⟨[], rfl, List.nodup_nil, nofun⟩
  kept := fun _ hrow _ => hrow
  size := rfl

namespace Placed

variable {rest : List (List Value)}

theorem stays (hp : s.Placed s₁ row) (hr : s₁.Replaced s' rest)
    (hother : ∀ values ∈ rest, s.table.sameKey row.values values = false) : row ∈ s'.toList := by
  apply hr.kept row hp.mem
  intro values hvalues
  rw [hp.table, Bool.eq_false_iff]
  intro hsame
  have hrow := hother values hvalues
  rw [Table.sameKey_symm hsame] at hrow
  cases hrow

theorem replaced_keyed (hp : s.Placed s₁ row) (h : s.Sound) (ht : s.table.Built)
    (hr : s₁.Replaced s' rest) (hvalues : values ∈ row.values :: rest)
    (hkey : (s.table.keyOf values).isNull = false) :
    ∃ new, s'.withKeyOf values = [new] ∧
      s.table.lastWithKeyOf? (row.values :: rest) values = some new.values ∧
      s.IdFor values new.id := by
  have htable : s'.table = s.table := hr.table.trans hp.table
  rw [Table.lastWithKeyOf?_cons]
  -- The row that has the key in the end is that of the last payload with it, which may come later
  -- or be the first one itself.
  by_cases hlater : ∃ values' ∈ rest, s.table.sameKey values values' = true
  · rcases hlater with ⟨values', hvalues', hsame⟩
    have hkey' := (Table.sameKey_iff.mp (Table.sameKey_symm hsame)).1
    rcases hr.keyed values' hvalues' (hp.table ▸ hkey') with ⟨new, hrows, hnew, hid⟩
    refine ⟨new, ?_, ?_, ?_⟩
    · rw [withKeyOf_congr (htable ▸ hsame), hrows]
    · rw [hp.table] at hnew
      unfold Table.lastWithKeyOf? at hnew ⊢
      rw [Table.sameKey_congr hsame, hnew, Option.some_or]
    · apply hp.idFor h
      unfold IdFor at hid ⊢
      rwa [withKeyOf_congr (hp.table ▸ hsame)]
  · simp only [not_exists, not_and, Bool.not_eq_true] at hlater
    rcases List.mem_cons.mp hvalues with rfl | hvalues
    · have hself := Table.sameKey_self hkey
      have hmem : row ∈ s'.withKeyOf row.values :=
        mem_withKeyOf.mpr ⟨hp.stays hr hlater, htable ▸ hself⟩
      refine ⟨row, hr.sound.withKeyOf_eq (htable ▸ ht) hmem, ?_, hp.place⟩
      have hnone : s.table.lastWithKeyOf? rest row.values = none := by
        apply List.find?_eq_none.mpr
        intro values hvalues
        rw [hlater values (List.mem_reverse.mp hvalues)]
        exact Bool.false_ne_true
      rw [hnone, Option.none_or, if_pos hself]
    · have hself := hlater values hvalues
      rw [Table.sameKey_self hkey] at hself
      cases hself

theorem replaced_unkeyed (hp : s.Placed s₁ row) (hr : s₁.Replaced s' rest) :
    ∃ fresh : List Row, fresh.map (·.values) = s.table.withoutKey (row.values :: rest) ∧
      (fresh.map (·.id)).Nodup ∧ ∀ row ∈ fresh, row ∈ s'.toList ∧ s.row? row.id = none := by
  rcases hr.unkeyed with ⟨fresh, hfresh, hnodup, hrows⟩
  rw [hp.table] at hfresh
  have hstill : ∀ row ∈ fresh, row ∈ s'.toList ∧ s.row? row.id = none := fun row hrow =>
    ⟨(hrows row hrow).1, hp.row?_eq_none (hrows row hrow).2⟩
  cases hkey : (s.table.keyOf row.values).isNull with
  | false =>
      refine ⟨fresh, ?_, hnodup, hstill⟩
      rw [hfresh, Table.withoutKey_cons, hkey, if_neg Bool.false_ne_true]
  | true =>
      refine ⟨row :: fresh, ?_, ?_, ?_⟩
      · rw [List.map_cons, hfresh, Table.withoutKey_cons, if_pos hkey]
      · rw [List.map_cons, List.nodup_cons]
        refine ⟨?_, hnodup⟩
        intro hid
        rcases List.mem_map.mp hid with ⟨row', hrow', hid⟩
        have hnone := (hrows row' hrow').2
        rw [hid, hp.rows, if_pos rfl] at hnone
        cases hnone
      · intro row' hrow'
        rcases List.mem_cons.mp hrow' with rfl | hrow'
        · refine ⟨hp.stays hr fun values _ => ?_, hp.place.2 (withKeyOf_eq_nil hkey)⟩
          simp [Table.sameKey, hkey]
        · exact hstill row' hrow'

theorem replaced_size (hp : s.Placed s₁ row) (h : s.Sound) (hr : s₁.Replaced s' rest) :
    s'.size = s.size + (s.newKeys (row.values :: rest)).length +
      (s.table.withoutKey (row.values :: rest)).length := by
  rw [hr.size, hp.size h, hp.table, Table.withoutKey_cons]
  cases hkey : (s.table.keyOf row.values).isNull with
  | true =>
      have hold : s.hasNewKey row.values = false := by simp [TableStore.hasNewKey, hkey]
      rw [hp.newKeys_of_old h hold, withKeyOf_eq_nil hkey, if_pos rfl, List.length_cons,
        List.isEmpty_nil, if_pos rfl]
      omega
  | false =>
      rw [if_neg Bool.false_ne_true]
      cases hempty : (s.withKeyOf row.values).isEmpty with
      | true =>
          have hnew : s.hasNewKey row.values = true := by
            simp [TableStore.hasNewKey, hkey, hempty]
          rw [hp.newKeys_of_new h hnew, List.length_cons, if_pos rfl]
          omega
      | false =>
          have hold : s.hasNewKey row.values = false := by
            simp [TableStore.hasNewKey, hkey, hempty]
          rw [hp.newKeys_of_old h hold]
          rfl

theorem replaced (hp : s.Placed s₁ row) (h : s.Sound) (ht : s.table.Built)
    (hr : s₁.Replaced s' rest) : s.Replaced s' (row.values :: rest) where
  sound := hr.sound
  table := hr.table.trans hp.table
  keyed := fun _ => hp.replaced_keyed h ht hr
  unkeyed := hp.replaced_unkeyed hr
  kept := by
    intro old hold hother
    rw [List.forall_mem_cons] at hother
    apply hr.kept old (hp.mem_of_other h hold hother.1)
    rw [hp.table]
    exact hother.2
  size := hp.replaced_size h hr

end Placed

end TableStore

end RelationalDb
