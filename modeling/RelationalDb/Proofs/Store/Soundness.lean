import Mathlib
import RelationalDb.Proofs.Index.Removals
import RelationalDb.Proofs.Schema.Columns
import RelationalDb.Proofs.Store.Writes

/-!
# Stores whose indices are in step with their rows

A sound store has checked rows under their own ids, an index over exactly these ids, and
indices over columns that list every row under its key and nothing else.  A write to a
sound store either succeeds and leaves a sound store, or fails and leaves the same store.
-/

namespace RelationalDb

namespace ColumnIndex

/-- Under every key of its type the index lists the rows whose key compares equal. -/
def Lists (c : ColumnIndex) (rows : SortedMap RowId Row) : Prop :=
  ∀ key id, key.type? = some c.index.keyType →
    (id ∈ c.index.get key ↔
      ∃ row, rows.get? id = some row ∧ compare key (c.keyOf row) = .eq)

variable {c c' : ColumnIndex} {row old new : Row} {key : Value} {id : RowId}

theorem position_eq_of_emptied (h : c'.emptied = c.emptied) : c'.position = c.position :=
  (congrArg ColumnIndex.position h : c'.emptied.position = c.emptied.position)

theorem index_emptied_eq (h : c'.emptied = c.emptied) : c'.index.emptied = c.index.emptied :=
  (congrArg ColumnIndex.index h : c'.emptied.index = c.emptied.index)

theorem keyOf_eq_of_emptied (h : c'.emptied = c.emptied) (row : Row) :
    c'.keyOf row = c.keyOf row := by
  unfold keyOf
  rw [position_eq_of_emptied h]

theorem keyType_eq_of_emptied (h : c'.emptied = c.emptied) :
    c'.index.keyType = c.index.keyType :=
  KeyIndex.keyType_eq_of_emptied (index_emptied_eq h)

theorem MatchesColumn.of_emptied {t : Table} (h : c.MatchesColumn t)
    (hc : c'.emptied = c.emptied) : c'.MatchesColumn t := by
  rcases h with ⟨column, hcolumn, htype⟩
  refine ⟨column, ?_, ?_⟩
  · rwa [position_eq_of_emptied hc]
  · rwa [keyType_eq_of_emptied hc]

theorem compare_ne_eq_of_null {t : ColumnType} {v : Value} (hkey : key.type? = some t)
    (hv : v.type? = none) : compare key v ≠ .eq := by
  rw [Value.eq_null_of_type hv, Value.compare_null_right (Value.isNull_eq_false_of_type hkey)]
  simp

/-!
## Single steps
-/

theorem perform_enter (row : Row) (c : ColumnIndex) :
    (enter row).perform c =
      match c.index.add (c.keyOf row) row.id with
      | .error e => (.error e, c)
      | .ok index => (.ok (), { c with index := index }) := by
  unfold enter
  rw [Action.perform_bind_ok (Action.perform_get c)]
  simp only [Action.perform_bind, Action.perform_ofOutcome]
  cases c.index.add (c.keyOf row) row.id <;> rfl

theorem perform_strike (row : Row) (c : ColumnIndex) :
    (strike row).perform c =
      (.ok (), { c with index := c.index.remove (c.keyOf row) row.id }) := rfl

theorem perform_move (old new : Row) (c : ColumnIndex) :
    (move old new).perform c =
      if c.keyOf old == c.keyOf new then (.ok (), c)
      else (enter new).perform { c with index := c.index.remove (c.keyOf old) old.id } := by
  unfold move
  rw [Action.perform_bind_ok (Action.perform_get c)]
  by_cases h : (c.keyOf old == c.keyOf new) = true
  · simp only [h, if_true]
    rfl
  · simp only [h]
    rfl

theorem enter_ok (h : c.index.Sound)
    (hkey : (c.keyOf row).type? = none ∨ (c.keyOf row).type? = some c.index.keyType)
    (hconf : c.index.conflicts (c.keyOf row) row.id = false) :
    ∃ c', (enter row).perform c = (.ok (), c') ∧ c'.emptied = c.emptied ∧ c'.index.Sound ∧
      ∀ key id, key.type? = some c.index.keyType →
        (id ∈ c'.index.get key ↔
          id ∈ c.index.get key ∨ (id = row.id ∧ compare key (c.keyOf row) = .eq)) := by
  rcases hkey with hkey | hkey
  · refine ⟨c, ?_, rfl, h, ?_⟩
    · have hnull : (c.keyOf row).isNull = true := Value.isNull_iff.mpr hkey
      simp [perform_enter, KeyIndex.add, hnull]
    · intro key id htype
      simp [compare_ne_eq_of_null htype hkey]
  · rcases h.add_ok hkey hconf with ⟨index, hadd, hsound, hemptied, hget⟩
    refine ⟨{ c with index := index }, ?_, ?_, hsound, ?_⟩
    · rw [perform_enter, hadd]
    · simp only [emptied, hemptied]
    · intro key id htype
      rw [hget key htype]
      by_cases heq : compare key (c.keyOf row) = .eq
      · rw [h.get_congr htype hkey heq]
        by_cases hmem : row.id ∈ c.index.get (c.keyOf row)
        · simp only [heq, if_true, hmem, and_true]
          constructor
          · exact Or.inl
          · rintro (hid | rfl)
            · exact hid
            · exact hmem
        · simp [heq, hmem]
      · simp [heq]

theorem strike_ok (h : c.index.Sound)
    (hkey : (c.keyOf row).type? = none ∨ (c.keyOf row).type? = some c.index.keyType) :
    ∃ c', (strike row).perform c = (.ok (), c') ∧ c'.emptied = c.emptied ∧ c'.index.Sound ∧
      ∀ key id, key.type? = some c.index.keyType →
        (id ∈ c'.index.get key ↔
          id ∈ c.index.get key ∧ ¬(id = row.id ∧ compare key (c.keyOf row) = .eq)) := by
  rcases hkey with hkey | hkey
  · refine ⟨c, ?_, rfl, h, ?_⟩
    · rw [perform_strike, Value.eq_null_of_type hkey, h.remove_null]
    · intro key id htype
      simp [compare_ne_eq_of_null htype hkey]
  · rcases h.remove_spec hkey row.id with ⟨hsound, hemptied, hget⟩
    refine ⟨_, perform_strike row c, ?_, hsound, ?_⟩
    · simp only [emptied, hemptied]
    · intro key id htype
      rw [hget key htype]
      by_cases heq : compare key (c.keyOf row) = .eq
      · rw [h.get_congr htype hkey heq]
        simp [heq]
      · simp [heq]

theorem compare_eq_iff_of_beq {t : ColumnType} {v w : Value} (hvw : (v == w) = true)
    (hv : v.type? = none ∨ v.type? = some t) (hkey : key.type? = some t) :
    compare key v = .eq ↔ compare key w = .eq := by
  have htypes := Value.type?_eq_of_beq hvw
  rcases hv with hnull | hv
  · exact iff_of_false (compare_ne_eq_of_null hkey hnull)
      (compare_ne_eq_of_null hkey (htypes ▸ hnull))
  · have hw : w.type? = some t := htypes ▸ hv
    rw [(Value.orderedOn_type t).congr_right hkey hv hw (Value.compare_eq_of_beq hvw)]

theorem move_ok (h : c.index.Sound) (hid : old.id = new.id)
    (hold : (c.keyOf old).type? = none ∨ (c.keyOf old).type? = some c.index.keyType)
    (hnew : (c.keyOf new).type? = none ∨ (c.keyOf new).type? = some c.index.keyType)
    (hconf : c.index.conflicts (c.keyOf new) new.id = false)
    (hlisted : ∀ key, key.type? = some c.index.keyType →
      (new.id ∈ c.index.get key ↔ compare key (c.keyOf old) = .eq)) :
    ∃ c', (move old new).perform c = (.ok (), c') ∧ c'.emptied = c.emptied ∧ c'.index.Sound ∧
      ∀ key id, key.type? = some c.index.keyType →
        (id ∈ c'.index.get key ↔
          if id = new.id then compare key (c.keyOf new) = .eq else id ∈ c.index.get key) := by
  by_cases hsame : (c.keyOf old == c.keyOf new) = true
  · refine ⟨c, by rw [perform_move, if_pos hsame], rfl, h, ?_⟩
    intro key id htype
    by_cases heq : id = new.id
    · rw [heq, hlisted key htype, compare_eq_iff_of_beq hsame hold htype, if_pos rfl]
    · rw [if_neg heq]
  · rcases strike_ok h hold with ⟨c₁, hstrike, hemptied, hsound, hget⟩
    have hkeyType := keyType_eq_of_emptied hemptied
    have hkeyOf : ∀ row, c₁.keyOf row = c.keyOf row := keyOf_eq_of_emptied hemptied
    have hconf₁ : c₁.index.conflicts (c₁.keyOf new) new.id = false := by
      rw [hkeyOf]
      apply KeyIndex.conflicts_of_subset (index_emptied_eq hemptied) _ hconf
      intro hnotNull x hx
      have hnew := hnew.resolve_left (by simp [← Value.isNull_iff, hnotNull])
      exact ((hget _ x hnew).mp hx).1
    rcases enter_ok hsound (by rwa [hkeyOf, hkeyType]) hconf₁ with
      ⟨c₂, henter, hemptied₂, hsound₂, hget₂⟩
    refine ⟨c₂, ?_, hemptied₂.trans hemptied, hsound₂, ?_⟩
    · rw [perform_move, if_neg hsame, ← henter]
      rw [perform_strike] at hstrike
      rw [(Prod.mk.inj hstrike).2]
    · intro key id htype
      rw [hget₂ key id (by rwa [hkeyType]), hget key id htype, hkeyOf]
      by_cases heq : id = new.id
      · rw [heq, hlisted key htype, hid]
        simp
      · have hne : id ≠ old.id := by rwa [hid]
        simp [heq, hne]

end ColumnIndex

namespace TableStore

/-- Rows stand under their own ids, in ascending order. -/
structure Keyed (s : TableStore) : Prop where
  ordered : s.rows.Ordered
  id_eq : ∀ {id : RowId} {row : Row}, s.rows.get? id = some row → row.id = id

/-- The indices are those that the table declares, whatever keys they hold. -/
structure Indexed (s : TableStore) : Prop where
  idsName : s.rowIds.name = s.table.rowIdIndexName
  shaped : s.indices.map ColumnIndex.emptied = emptyIndices s.table

/-- Checked rows, an index over exactly their ids, and for every index of the table one that
lists them by their keys. -/
structure Sound (s : TableStore) : Prop extends Keyed s where
  checked : ∀ {id : RowId} {row : Row}, s.rows.get? id = some row →
    s.table.checkRow row.values = .ok ()
  signed : ∀ {id : RowId} {row : Row}, s.rows.get? id = some row →
    RowIdIndex.isSigned id = true
  idsName : s.rowIds.name = s.table.rowIdIndexName
  idsOrdered : s.rowIds.ids.Ordered
  idsHeld : ∀ id, s.rowIds.ids.get? id = (s.rows.get? id).map fun _ => ()
  shaped : s.indices.map ColumnIndex.emptied = emptyIndices s.table
  indexSound : ∀ {c : ColumnIndex}, c ∈ s.indices → c.index.Sound
  listed : ∀ {c : ColumnIndex}, c ∈ s.indices → c.Lists s.rows

variable {s s' : TableStore} {row old : Row} {id : RowId} {e : Failure}

theorem Sound.indexed (h : s.Sound) : s.Indexed where
  idsName := h.idsName
  shaped := h.shaped

theorem Indexed.matchesColumn (h : s.Indexed) {c : ColumnIndex} (hc : c ∈ s.indices) :
    c.MatchesColumn s.table := by
  have hmem : c.emptied ∈ emptyIndices s.table := by
    rw [← h.shaped]
    exact List.mem_map_of_mem hc
  exact (matchesColumn_of_mem_emptyIndices hmem).of_emptied rfl

theorem Sound.matchesColumn (h : s.Sound) {c : ColumnIndex} (hc : c ∈ s.indices) :
    c.MatchesColumn s.table :=
  h.indexed.matchesColumn hc

theorem Sound.type?_keyOf (h : s.Sound) {c : ColumnIndex} (hc : c ∈ s.indices)
    (hrow : s.table.checkRow row.values = .ok ()) :
    (c.keyOf row).type? = none ∨ (c.keyOf row).type? = some c.index.keyType :=
  (h.matchesColumn hc).type?_keyOf hrow

theorem sound_empty (t : Table) : (empty t).Sound where
  ordered := SortedMap.ordered_empty
  id_eq := by
    intro id row h
    cases h
  checked := by
    intro id row h
    cases h
  signed := by
    intro id row h
    cases h
  idsName := rfl
  idsOrdered := SortedMap.ordered_empty
  idsHeld := fun id => rfl
  shaped := emptied_emptyIndices t
  indexSound := by
    intro c hc
    rcases mem_emptyIndices_iff.mp hc with ⟨d, _, position, column, _, _, rfl⟩
    exact KeyIndex.Sound.of_emptied (KeyIndex.ofDecl d column.type)
  listed := by
    intro c hc
    rcases mem_emptyIndices_iff.mp hc with ⟨d, _, position, column, _, _, rfl⟩
    intro key id _
    constructor
    · intro hid
      cases hid
    · rintro ⟨row, hrow, _⟩
      cases hrow

theorem checkUnique_eq_ok_iff :
    s.checkUnique row = .ok () ↔
      ∀ c ∈ s.indices, c.index.conflicts (c.keyOf row) row.id = false := by
  unfold checkUnique
  rw [Outcome.forM_eq_ok_iff]
  constructor
  · intro h c hc
    have hck := h c hc
    by_cases hconf : c.index.conflicts (c.keyOf row) row.id = true
    · simp [hconf] at hck
    · simpa using hconf
  · intro h c hc
    simp [h c hc]

theorem map_emptied_eq {l l' : List ColumnIndex} {Q : ColumnIndex → ColumnIndex → Prop}
    (h : List.Forall₂ (fun c c' => c'.emptied = c.emptied ∧ Q c c') l l') :
    l'.map ColumnIndex.emptied = l.map ColumnIndex.emptied := by
  induction h with
  | nil => rfl
  | cons hc _ ih => simp [hc.1, ih]

/-- Steps after which every index lists the rows that there are now. -/
theorem lists_of_steps {l l' : List ColumnIndex} {rows : SortedMap RowId Row}
    {R : ColumnIndex → Value → RowId → Prop}
    (hall : List.Forall₂ (fun c c' => c'.emptied = c.emptied ∧ c'.index.Sound ∧
      ∀ key id, key.type? = some c.index.keyType → (id ∈ c'.index.get key ↔ R c key id)) l l')
    (hR : ∀ c ∈ l, ∀ key id, key.type? = some c.index.keyType →
      (R c key id ↔ ∃ row, rows.get? id = some row ∧ compare key (c.keyOf row) = .eq))
    {c' : ColumnIndex} (hc' : c' ∈ l') : c'.index.Sound ∧ c'.Lists rows := by
  rcases exists_of_mem_right hall hc' with ⟨c, hc, hemptied, hsound, hmem⟩
  refine ⟨hsound, ?_⟩
  intro key id htype
  rw [ColumnIndex.keyType_eq_of_emptied hemptied] at htype
  rw [hmem key id htype, hR c hc key id htype]
  simp only [ColumnIndex.keyOf_eq_of_emptied hemptied]

theorem Keyed.put (h : s.Keyed) (hrows : s'.rows = s.rows.insert row.id row) : s'.Keyed where
  ordered := by
    rw [hrows]
    exact h.ordered.insert _ _
  id_eq := by
    rw [hrows]
    exact SortedMap.forall_insert h.ordered (Q := fun id r => r.id = id) rfl h.id_eq

theorem Keyed.takeAway (h : s.Keyed) (hrows : s'.rows = s.rows.erase id) : s'.Keyed where
  ordered := by
    rw [hrows]
    exact h.ordered.erase _
  id_eq := by
    rw [hrows]
    exact SortedMap.forall_erase h.ordered (Q := fun id r => r.id = id) h.id_eq

/-- A checked row is put among the rows, and the indices list it under its key alone. -/
theorem Sound.put (h : s.Sound) (htable : s'.table = s.table)
    (hrows : s'.rows = s.rows.insert row.id row) (hrow : s.table.checkRow row.values = .ok ())
    (hsigned : RowIdIndex.isSigned row.id = true) (hidsName : s'.rowIds.name = s.rowIds.name)
    (hidsOrdered : s'.rowIds.ids.Ordered)
    (hidsHeld : ∀ id, s'.rowIds.ids.get? id =
      if id = row.id then some () else s.rowIds.ids.get? id)
    (hall : List.Forall₂
      (fun c c' => c'.emptied = c.emptied ∧ c'.index.Sound ∧
        ∀ key id, key.type? = some c.index.keyType →
          (id ∈ c'.index.get key ↔
            if id = row.id then compare key (c.keyOf row) = .eq else id ∈ c.index.get key))
      s.indices s'.indices) : s'.Sound := by
  have hget : ∀ id, s'.rows.get? id = if id = row.id then some row else s.rows.get? id := by
    intro id
    rw [hrows]
    exact SortedMap.get?_insert h.ordered row.id id row
  have hlists : ∀ {c'}, c' ∈ s'.indices → c'.index.Sound ∧ c'.Lists s'.rows := by
    apply lists_of_steps hall
    intro c hc key id htype
    rw [hget]
    by_cases heq : id = row.id
    · simp [heq]
    · simp [heq, h.listed hc key id htype]
  exact
    { toKeyed := h.toKeyed.put hrows
      checked := by
        rw [htable, hrows]
        exact SortedMap.forall_insert h.ordered
          (Q := fun _ r => s.table.checkRow r.values = .ok ()) hrow h.checked
      signed := by
        rw [hrows]
        exact SortedMap.forall_insert h.ordered
          (Q := fun id _ => RowIdIndex.isSigned id = true) hsigned h.signed
      idsName := by rw [hidsName, htable, h.idsName]
      idsOrdered := hidsOrdered
      idsHeld := by
        intro id
        rw [hidsHeld, hget, h.idsHeld]
        split
        · rfl
        · rfl
      shaped := by
        rw [htable]
        exact (map_emptied_eq hall).trans h.shaped
      indexSound := fun hc => (hlists hc).1
      listed := fun hc => (hlists hc).2 }

/-!
## Insertion
-/

theorem Sound.perform_enter (h : s.Sound) (hrow : s.table.checkRow row.values = .ok ())
    (hunique : s.checkUnique row = .ok ()) :
    ∃ indices, (Action.onEach (ColumnIndex.enter row)).perform s.indices = (.ok (), indices) ∧
      List.Forall₂
        (fun c c' => c'.emptied = c.emptied ∧ c'.index.Sound ∧
          ∀ key id, key.type? = some c.index.keyType →
            (id ∈ c'.index.get key ↔
              id ∈ c.index.get key ∨ (id = row.id ∧ compare key (c.keyOf row) = .eq)))
        s.indices indices := by
  apply Action.perform_onEach_ok
  intro c hc
  exact ColumnIndex.enter_ok (h.indexSound hc) (h.type?_keyOf hc hrow)
    (checkUnique_eq_ok_iff.mp hunique c hc)

theorem Sound.insert_error (h : s.Sound) (hf : (insert row).perform s = (.error e, s')) :
    s' = s := by
  rw [perform_insert] at hf
  split at hf
  · exact (Prod.mk.inj hf).2.symm
  · split at hf
    · exact (Prod.mk.inj hf).2.symm
    · exact (Prod.mk.inj hf).2.symm
    · exact (Prod.mk.inj hf).2.symm
    · next hrow hunique _ henter =>
        -- The checks have passed, so no index can refuse the row.
        rcases h.perform_enter hrow hunique with ⟨indices, hok, _⟩
        rw [hok] at henter
        cases henter
    · cases hf

theorem Sound.insert_ok (h : s.Sound) (hok : (insert row).perform s = (.ok (), s')) :
    s'.Sound := by
  rcases insert_eq_ok hok with ⟨hnone, hrow, hunique, rowIds, indices, hadd, henter, rfl⟩
  rcases h.perform_enter hrow hunique with ⟨indices', henter', hall⟩
  rw [henter] at henter'
  cases henter'
  have hsigned : RowIdIndex.isSigned row.id = true := by
    cases hs : RowIdIndex.isSigned row.id with
    | true => rfl
    | false =>
        rw [RowIdIndex.add_keyOfId_error _ hs] at hadd
        cases hadd
  rcases RowIdIndex.add_keyOfId h.idsOrdered hsigned with ⟨rowIds', hadd', hname, hids⟩
  rw [hadd] at hadd'
  cases hadd'
  refine h.put rfl rfl hrow hsigned hname ?_ ?_ ?_
  · rw [hids]
    exact h.idsOrdered.insert _ _
  · intro id
    rw [hids]
    exact SortedMap.get?_insert h.idsOrdered row.id id ()
  · apply (forall₂_mem hall).imp
    rintro c c' ⟨hc, _, hemptied, hsound, hmem⟩
    refine ⟨hemptied, hsound, ?_⟩
    intro key id htype
    rw [hmem key id htype]
    by_cases heq : id = row.id
    · -- The row was not there before, so no index has listed it.
      simp [heq, h.listed hc key row.id htype, hnone]
    · simp [heq]

/-!
## Replacement
-/

theorem Sound.perform_move (h : s.Sound) (hold : s.rows.get? row.id = some old)
    (hrow : s.table.checkRow row.values = .ok ()) (hunique : s.checkUnique row = .ok ()) :
    ∃ indices, (Action.onEach (ColumnIndex.move old row)).perform s.indices = (.ok (), indices) ∧
      List.Forall₂
        (fun c c' => c'.emptied = c.emptied ∧ c'.index.Sound ∧
          ∀ key id, key.type? = some c.index.keyType →
            (id ∈ c'.index.get key ↔
              if id = row.id then compare key (c.keyOf row) = .eq else id ∈ c.index.get key))
        s.indices indices := by
  apply Action.perform_onEach_ok
  intro c hc
  apply ColumnIndex.move_ok (h.indexSound hc) (h.id_eq hold)
    (h.type?_keyOf hc (h.checked hold)) (h.type?_keyOf hc hrow)
    (checkUnique_eq_ok_iff.mp hunique c hc)
  intro key htype
  simp [h.listed hc key row.id htype, hold]

theorem Sound.update_error (h : s.Sound) (hf : (update row).perform s = (.error e, s')) :
    s' = s := by
  rw [perform_update] at hf
  split at hf
  · exact (Prod.mk.inj hf).2.symm
  · next hold =>
      split at hf
      · exact (Prod.mk.inj hf).2.symm
      · exact (Prod.mk.inj hf).2.symm
      · next hrow hunique hmove =>
          rcases h.perform_move hold hrow hunique with ⟨indices, hok, _⟩
          rw [hok] at hmove
          cases hmove
      · cases hf

theorem Sound.update_ok (h : s.Sound) (hok : (update row).perform s = (.ok old, s')) :
    s'.Sound := by
  rcases update_eq_ok hok with ⟨hold, hrow, hunique, indices, hmove, rfl⟩
  rcases h.perform_move hold hrow hunique with ⟨indices', hmove', hall⟩
  rw [hmove] at hmove'
  cases hmove'
  refine h.put rfl rfl hrow (h.signed hold) rfl h.idsOrdered ?_ hall
  intro id
  split
  · next heq => rw [heq, h.idsHeld, hold, Option.map_some]
  · rfl

/-!
## Deletion
-/

theorem Sound.perform_strike (h : s.Sound) (hold : s.rows.get? id = some old) :
    ∃ indices, (Action.onEach (ColumnIndex.strike old)).perform s.indices = (.ok (), indices) ∧
      List.Forall₂
        (fun c c' => c'.emptied = c.emptied ∧ c'.index.Sound ∧
          ∀ key id, key.type? = some c.index.keyType →
            (id ∈ c'.index.get key ↔
              id ∈ c.index.get key ∧ ¬(id = old.id ∧ compare key (c.keyOf old) = .eq)))
        s.indices indices := by
  apply Action.perform_onEach_ok
  intro c hc
  exact ColumnIndex.strike_ok (h.indexSound hc) (h.type?_keyOf hc (h.checked hold))

theorem Sound.delete_error (h : s.Sound) (hf : (delete id).perform s = (.error e, s')) :
    s' = s := by
  rw [perform_delete] at hf
  split at hf
  · exact (Prod.mk.inj hf).2.symm
  · next hold =>
      rcases h.perform_strike hold with ⟨indices, hstrike, _⟩
      simp only [hstrike, Except.map] at hf
      cases hf

theorem Sound.delete_ok (h : s.Sound) (hok : (delete id).perform s = (.ok old, s')) :
    s'.Sound := by
  rcases delete_eq_ok hok with ⟨hold, rfl⟩
  rcases h.perform_strike hold with ⟨indices, hstrike, hall⟩
  simp only [hstrike]
  have hget : ∀ id', (s.rows.erase id).get? id' =
      if id' = id then none else s.rows.get? id' :=
    fun id' => SortedMap.get?_erase h.ordered id id'
  have hids : (s.rowIds.remove (RowIdIndex.keyOfId id)).ids = s.rowIds.ids.erase id :=
    RowIdIndex.ids_remove_keyOfId h.idsOrdered (h.signed hold)
  have hlists : ∀ {c'}, c' ∈ indices → c'.index.Sound ∧ c'.Lists (s.rows.erase id) := by
    apply lists_of_steps hall
    intro c hc key id' htype
    rw [h.listed hc key id' htype, hget, h.id_eq hold]
    by_cases heq : id' = id
    · simp [heq, hold]
    · simp [heq]
  exact
    { toKeyed := h.toKeyed.takeAway rfl
      checked := SortedMap.forall_erase h.ordered
        (Q := fun _ r => s.table.checkRow r.values = .ok ()) h.checked
      signed := SortedMap.forall_erase h.ordered
        (Q := fun id _ => RowIdIndex.isSigned id = true) h.signed
      idsName := by rw [RowIdIndex.name_remove, h.idsName]
      idsOrdered := by
        rw [hids]
        exact h.idsOrdered.erase _
      idsHeld := by
        intro id'
        rw [hids, SortedMap.get?_erase h.idsOrdered, hget]
        split
        · rfl
        · exact h.idsHeld id'
      shaped := (map_emptied_eq hall).trans h.shaped
      indexSound := fun hc => (hlists hc).1
      listed := fun hc => (hlists hc).2 }

end TableStore

end RelationalDb
