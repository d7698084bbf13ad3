import Mathlib
import RelationalDb.Proofs.Index.StoredForms
import RelationalDb.Proofs.Store.Contents
import RelationalDb.Proofs.Store.StagedWrites

/-!
# Stores made again

A store is made again from its rows alone, or from its rows and some of its indices.  Both
give a sound store with the same rows.  The second one keeps the entries of the indices that
were there, down to the order of the ids under a key, and makes the others anew.
-/

namespace RelationalDb

namespace TableStore

variable {s s' s₁ : TableStore} {row : Row} {c c' : ColumnIndex}

/-!
## From the rows alone
-/

/-- Rows that can stand together in a table: each of them passes the checks of the table, and no
two of them have a key of a unique index in common. -/
structure Fits (t : Table) (rows : RowMap) : Prop where
  ordered : rows.Ordered
  id_eq : ∀ {id : RowId} {row : Row}, rows.get? id = some row → row.id = id
  checked : ∀ {id : RowId} {row : Row}, rows.get? id = some row → t.checkRow row.values = .ok ()
  signed : ∀ {id : RowId} {row : Row}, rows.get? id = some row → RowIdIndex.isSigned id = true
  unique : ∀ c ∈ emptyIndices t, c.index.unique = true → ∀ {id id' : RowId} {row row' : Row},
    rows.get? id = some row → rows.get? id' = some row' →
      (c.keyOf row).type? = some c.index.keyType →
        compare (c.keyOf row) (c.keyOf row') = .eq → id = id'

theorem Sound.emptied_mem (h : s.Sound) (hc : c ∈ s.indices) : c.emptied ∈ emptyIndices s.table := by
  rw [← h.shaped]
  exact List.mem_map_of_mem hc

theorem Sound.exists_emptied_eq (h : s.Sound) (hc : c ∈ emptyIndices s.table) :
    ∃ c' ∈ s.indices, c'.emptied = c := by
  rw [← h.shaped] at hc
  exact List.mem_map.mp hc

theorem Sound.fits (h : s.Sound) : Fits s.table s.rows where
  ordered := h.ordered
  id_eq := h.id_eq
  checked := h.checked
  signed := h.signed
  unique := by
    intro c hc hunique id id' row row' hrow hrow' htype heq
    rcases h.exists_emptied_eq hc with ⟨c₀, hc₀, rfl⟩
    have hid : id ∈ c₀.index.get (c₀.keyOf row) :=
      (h.listed hc₀ (c₀.keyOf row) id htype).mpr ⟨row, hrow, Value.compare_self _⟩
    have hid' : id' ∈ c₀.index.get (c₀.keyOf row) :=
      (h.listed hc₀ (c₀.keyOf row) id' htype).mpr ⟨row', hrow', heq⟩
    have hlength := (h.indexSound hc₀).length_get_le_one hunique (c₀.keyOf row)
    rcases hids : c₀.index.get (c₀.keyOf row) with _ | ⟨x, _ | ⟨y, rest⟩⟩
    · rw [hids] at hid
      cases hid
    · rw [hids, List.mem_singleton] at hid hid'
      rw [hid, hid']
    · rw [hids] at hlength
      simp at hlength

variable {t : Table} {rows : RowMap}

theorem Fits.checkUnique (h : Fits t rows) (hs : s.Sound) (htable : s.table = t)
    (hsubset : ∀ {id row}, s.rows.get? id = some row → rows.get? id = some row)
    (hrow : rows.get? row.id = some row) : s.checkUnique row = .ok () := by
  rw [checkUnique_eq_ok_iff]
  intro c hc
  have hcheck : s.table.checkRow row.values = .ok () := htable ▸ h.checked hrow
  rcases hs.type?_keyOf hc hcheck with hnull | htype
  · simp [KeyIndex.conflicts, Value.isNull_iff.mpr hnull]
  · apply (KeyIndex.conflicts_eq_false_iff (Value.isNull_eq_false_of_type htype)).mpr
    intro hunique x hx
    rcases (hs.listed hc _ x htype).mp hx with ⟨row', hrow', heq⟩
    have hmem : c.emptied ∈ emptyIndices t := htable ▸ hs.emptied_mem hc
    exact (h.unique c.emptied hmem hunique hrow (hsubset hrow') htype heq).symm

theorem Sound.insert_succeeds (h : s.Sound) (hfree : s.rows.get? row.id = none)
    (hrow : s.table.checkRow row.values = .ok ()) (hunique : s.checkUnique row = .ok ())
    (hid : RowIdIndex.isSigned row.id = true) :
    ∃ s', (insert row).perform s = (.ok (), s') ∧ s'.Sound ∧ s'.table = s.table ∧
      s'.rows = s.rows.insert row.id row := by
  rcases RowIdIndex.add_keyOfId h.idsOrdered hid with ⟨rowIds, hadd, _, _⟩
  rcases h.perform_enter hrow hunique with ⟨indices, henter, _⟩
  have hok : (insert row).perform s = (.ok (), { s with
      rowIds := rowIds, indices := indices, rows := s.rows.insert row.id row }) := by
    rw [perform_insert, if_neg, hrow, hunique, hadd, henter]
    simp [SortedMap.contains, hfree]
  exact ⟨_, hok, h.insert_ok hok, rfl, rfl⟩

theorem Fits.forM_insert (h : Fits t rows) {l : List Row}
    (hl : ∀ row ∈ l, rows.get? row.id = some row) (hnodup : (l.map (·.id)).Nodup)
    (hs : s.Sound) (htable : s.table = t)
    (hsubset : ∀ {id row}, s.rows.get? id = some row → rows.get? id = some row)
    (hfree : ∀ row ∈ l, s.rows.get? row.id = none) :
    ∃ s', (l.forM insert).perform s = (.ok (), s') ∧ s'.Sound ∧ s'.table = t ∧
      s'.rows = RowMap.putAll s.rows l := by
  induction l generalizing s with
  | nil => exact ⟨s, rfl, hs, htable, rfl⟩
  | cons row rest ih =>
      have hrow := hl row List.mem_cons_self
      have hcheck : s.table.checkRow row.values = .ok () := htable ▸ h.checked hrow
      rcases hs.insert_succeeds (hfree row List.mem_cons_self) hcheck
        (h.checkUnique hs htable hsubset hrow) (h.signed hrow) with
        ⟨s₁, hinsert, hs₁, htable₁, hrows₁⟩
      rcases List.nodup_cons.mp hnodup with ⟨hnew, hrest⟩
      have hsubset₁ : ∀ {id row'}, s₁.rows.get? id = some row' → rows.get? id = some row' := by
        intro id row' hget
        rw [hrows₁] at hget
        exact SortedMap.forall_insert hs.ordered (Q := fun id r => rows.get? id = some r) hrow
          hsubset hget
      have hfree₁ : ∀ row' ∈ rest, s₁.rows.get? row'.id = none := by
        intro row' hmem
        rw [hrows₁, SortedMap.get?_insert hs.ordered, if_neg]
        · exact hfree row' (List.mem_cons_of_mem _ hmem)
        · intro heq
          exact hnew (List.mem_map.mpr ⟨row', hmem, heq⟩)
      rcases ih (fun row' hmem => hl row' (List.mem_cons_of_mem _ hmem)) hrest hs₁
        (htable₁.trans htable) hsubset₁ hfree₁ with ⟨s₂, hforM, hs₂, htable₂, hrows₂⟩
      refine ⟨s₂, ?_, hs₂, htable₂, ?_⟩
      · change (insert row >>= fun _ => rest.forM insert).perform s = _
        rw [Action.perform_bind_ok hinsert, hforM]
      · rw [hrows₂, hrows₁]
        rfl

theorem Fits.entries_eq (h : Fits t rows) :
    rows.entries = rows.values.map fun row => (row.id, row) := by
  unfold SortedMap.values
  rw [List.map_map]
  symm
  have hself : ∀ e ∈ rows.entries, (e.2.id, e.2) = id e := by
    intro e he
    have hid : e.2.id = e.1 := h.id_eq ((SortedMap.mem_entries_iff h.ordered).mp he)
    rw [hid]
    rfl
  exact (List.map_congr_left hself).trans (List.map_id _)

theorem Fits.get?_of_mem_values (h : Fits t rows) (hrow : row ∈ rows.values) :
    rows.get? row.id = some row := by
  rcases (SortedMap.mem_values_iff h.ordered).mp hrow with ⟨id, hid⟩
  rwa [h.id_eq hid]

theorem Fits.ofList_of_perm (h : Fits t rows) {l : List Row} (hl : l.Perm rows.values) :
    SortedMap.ofList (l.map fun row => (row.id, row)) = rows := by
  have hmem : ∀ {id row}, (id, row) ∈ l.map (fun row => (row.id, row)) ↔
      rows.get? id = some row := by
    intro id row
    rw [← SortedMap.mem_entries_iff h.ordered, h.entries_eq]
    exact (hl.map _).mem_iff
  apply SortedMap.ext_get? (SortedMap.ordered_ofList _) h.ordered
  intro id
  unfold SortedMap.ofList
  cases hget : rows.get? id with
  | none =>
      apply SortedMap.get?_insertAll_of_not_mem SortedMap.ordered_empty
      intro row hrow
      rw [hmem, hget] at hrow
      cases hrow
  | some row =>
      apply SortedMap.get?_insertAll_of_mem SortedMap.ordered_empty (hmem.mpr hget)
      intro row' hrow'
      rw [hmem, hget] at hrow'
      exact (Option.some.inj hrow').symm

theorem Fits.ofRows_perm (h : Fits t rows) {l : List Row} (hl : l.Perm rows.values) :
    ∃ s, ofRows t l = .ok s ∧ s.Sound ∧ s.table = t ∧ s.rows = rows := by
  have hnodup : (l.map (·.id)).Nodup := by
    have hkeys := h.ordered.nodup_keys
    unfold SortedMap.keys at hkeys
    rw [h.entries_eq, List.map_map] at hkeys
    exact (hl.map (·.id)).nodup_iff.mpr hkeys
  rcases h.forM_insert (fun row hrow => h.get?_of_mem_values (hl.mem_iff.mp hrow)) hnodup
    (sound_empty t) rfl (fun hget => by cases hget) (fun row _ => rfl) with
    ⟨s, hforM, hsound, htable, hrows⟩
  refine ⟨s, Action.finalState_eq_ok_iff.mpr ⟨(), hforM⟩, hsound, htable, ?_⟩
  rw [hrows]
  exact h.ofList_of_perm hl

theorem Fits.ofRows_values (h : Fits t rows) :
    ∃ s, ofRows t rows.values = .ok s ∧ s.Sound ∧ s.table = t ∧ s.rows = rows :=
  h.ofRows_perm (List.Perm.refl _)

theorem Sound.ofRows_toList (h : s.Sound) :
    ∃ s', ofRows s.table s.toList = .ok s' ∧ s'.Sound ∧ s'.table = s.table ∧ s'.rows = s.rows :=
  h.fits.ofRows_values

/-!
## Stores of the same rows
-/

/-- Corresponding indices of two stores. -/
structure AlikeIndices (c c' : ColumnIndex) : Prop where
  position : c'.position = c.position
  index : c.index.Alike c'.index

theorem AlikeIndices.emptied (h : AlikeIndices c c') : c'.emptied = c.emptied := by
  unfold ColumnIndex.emptied
  rw [h.position, h.index.emptied]

theorem Sound.alikeIndices (h : s.Sound) (h' : s'.Sound) (hrows : s'.rows = s.rows)
    (hc : c ∈ s.indices) (hc' : c' ∈ s'.indices) (hsame : c'.emptied = c.emptied) :
    AlikeIndices c c' where
  position := ColumnIndex.position_eq_of_emptied hsame
  index := by
    constructor
    · exact ColumnIndex.index_emptied_eq hsame
    · exact fun _ => h'.indexSound hc'
    · intro key id htype
      rw [h.listed hc key id htype,
        h'.listed hc' key id (by rwa [ColumnIndex.keyType_eq_of_emptied hsame]), hrows]
      simp only [ColumnIndex.keyOf_eq_of_emptied hsame]

theorem Sound.alike (h : s.Sound) (h' : s'.Sound) (htable : s'.table = s.table)
    (hrows : s'.rows = s.rows) : List.Forall₂ AlikeIndices s.indices s'.indices := by
  have hemptied : s.indices.map ColumnIndex.emptied = s'.indices.map ColumnIndex.emptied := by
    rw [h.shaped, h'.shaped, htable]
  rw [← List.forall₂_eq_eq_eq, List.forall₂_map_left_iff, List.forall₂_map_right_iff] at hemptied
  apply (forall₂_mem hemptied).imp
  intro c c' hc
  exact h.alikeIndices h' hrows hc.1 hc.2.1 hc.2.2.symm

theorem Sound.ids_eq (h : s.Sound) (h' : s'.Sound) (hrows : s'.rows = s.rows) :
    s'.rowIds.ids = s.rowIds.ids := by
  apply SortedMap.ext_get? h'.idsOrdered h.idsOrdered
  intro id
  rw [h'.idsHeld, h.idsHeld, hrows]

theorem Sound.of_alike (hs : s.Sound) (htable : s'.table = s.table) (hrows : s'.rows = s.rows)
    (hname : s'.rowIds.name = s.rowIds.name) (hids : s'.rowIds.ids = s.rowIds.ids)
    (hindices : List.Forall₂ AlikeIndices s.indices s'.indices) : s'.Sound where
  ordered := by
    rw [hrows]
    exact hs.ordered
  id_eq := by
    rw [hrows]
    exact hs.id_eq
  checked := by
    rw [hrows, htable]
    exact hs.checked
  signed := by
    rw [hrows]
    exact hs.signed
  idsName := by rw [hname, htable, hs.idsName]
  idsOrdered := by
    rw [hids]
    exact hs.idsOrdered
  idsHeld := by
    rw [hids, hrows]
    exact hs.idsHeld
  shaped := by
    rw [htable, ← hs.shaped]
    apply map_emptied_eq (Q := fun _ _ => True)
    exact hindices.imp fun c c' hc => ⟨hc.emptied, trivial⟩
  indexSound := by
    intro c' hc'
    rcases exists_of_mem_right hindices hc' with ⟨c, hc, halike⟩
    exact halike.index.sound (hs.indexSound hc)
  listed := by
    intro c' hc' key id htype
    rcases exists_of_mem_right hindices hc' with ⟨c, hc, halike⟩
    rw [ColumnIndex.keyType_eq_of_emptied halike.emptied] at htype
    rw [halike.index.mem_get key id htype, hrows, hs.listed hc key id htype]
    simp only [ColumnIndex.keyOf_eq_of_emptied halike.emptied]

/-!
## From the rows and the indices
-/

theorem Sound.signed_of_mem_pairs (h : s.Sound) {c : ColumnIndex} (hc : c ∈ s.indices)
    {p : Value × RowId} (hp : p ∈ c.index.pairs) : RowIdIndex.isSigned p.2 = true := by
  rcases h.row_of_mem_pairs hc hp with ⟨row, hrow, _⟩
  exact h.signed hrow

theorem Sound.length_pairs_lt (h : s.Sound) {c : ColumnIndex} (hc : c ∈ s.indices) :
    c.index.pairs.length + 1 < 0x10000000000000000 := by
  have hnodup : (c.index.pairs.map (·.2.toNat)).Nodup := by
    have hinjective : Function.Injective UInt64.toNat := fun a b => UInt64.toNat_inj.mp
    have hids := (h.nodup_ids hc).map hinjective
    rwa [List.map_map] at hids
  have hsubset : (c.index.pairs.map (·.2.toNat)) ⊆ List.range 0x8000000000000000 := by
    intro n hn
    rcases List.mem_map.mp hn with ⟨p, hp, rfl⟩
    exact List.mem_range.mpr (RowIdIndex.isSigned_iff.mp (h.signed_of_mem_pairs hc hp))
  have hlength := (List.subperm_of_subset hnodup hsubset).length_le
  rw [List.length_map, List.length_range] at hlength
  omega

theorem Sound.signed_of_mem_rowIds (h : s.Sound) {id : RowId} (hid : id ∈ s.rowIds.toList) :
    RowIdIndex.isSigned id = true := by
  rw [h.toList_rowIds] at hid
  rcases (SortedMap.mem_keys_iff h.ordered).mp hid with ⟨row, hrow⟩
  exact h.signed hrow

theorem Sound.ofRows_index (h : s.Sound) {c : ColumnIndex} (hc : c ∈ s.indices) :
    ∃ i, KeyIndex.ofRows c.index.name c.index.toRows = .ok i ∧ c.index.SameEntries i :=
  (h.indexSound hc).ofRows_toRows (fun _ hp => h.signed_of_mem_pairs hc hp) (h.length_pairs_lt hc)

section TakeOut

variable {α : Type} {p : α → Bool} {items rest : List α} {x : α}

theorem takeOut_at (p : α → Bool) (before after : List α) (hx : p x = true)
    (hbefore : ∀ y ∈ before, p y = false) :
    ∃ rest, takeOut p (before ++ x :: after) = some (x, rest) ∧ rest.Perm (before ++ after) := by
  have hfind : (before ++ x :: after).findIdx? p = some before.length := by
    rw [List.findIdx?_append, List.findIdx?_eq_none_iff.mpr hbefore, List.findIdx?_cons, hx]
    simp
  have hfound : (before ++ x :: after)[before.length]? = some x := by simp
  rcases List.eq_nil_or_concat after with rfl | ⟨after, last, rfl⟩
  · refine ⟨before, ?_, by simp⟩
    unfold takeOut
    rw [hfind]
    simp
  · rw [List.concat_eq_append] at hfind hfound ⊢
    have hlast : (before ++ x :: (after ++ [last])).getLast? = some last := by
      rw [← List.cons_append, ← List.append_assoc, List.getLast?_concat]
    have hset : (before ++ x :: (after ++ [last])).set before.length last =
        (before ++ last :: after) ++ [last] := by simp
    refine ⟨before ++ last :: after, ?_, ?_⟩
    · unfold takeOut
      rw [hfind]
      dsimp only
      rw [hfound, hlast]
      dsimp only
      rw [hset, List.dropLast_concat]
    · apply List.Perm.append_left
      exact (List.perm_append_singleton last after).symm

theorem takeOut_of_unique (hmem : x ∈ items) (hx : p x = true)
    (hunique : ∀ y ∈ items, p y = true → y = x) :
    ∃ rest, takeOut p items = some (x, rest) ∧ items.Perm (x :: rest) := by
  rcases List.find?_eq_some_iff_append.mp (find?_of_unique hmem hx hunique) with ⟨_, before, after, rfl, hbefore⟩
  rcases takeOut_at p before after hx (by simpa using hbefore) with ⟨rest, htake, hrest⟩
  refine ⟨rest, htake, ?_⟩
  exact List.perm_middle.trans (hrest.symm.cons x)

theorem takeOut_of_none (h : ∀ y ∈ items, p y = false) : takeOut p items = none := by
  unfold takeOut
  rw [List.findIdx?_eq_none_iff.mpr h]

end TakeOut

/-- What becomes of an empty index: one that was found under its name takes its place, and
otherwise it is marked. -/
def adopted (found : String → Option KeyIndex) (c : ColumnIndex) : ColumnIndex × Bool :=
  match found c.index.name with
  | some index => ({ c with index := index }, false)
  | none => (c, true)

variable {found : String → Option KeyIndex}

/-- If the supplied indices are those that were found and some of other names, every index is
given its own. -/
theorem adopt_eq {cs : List ColumnIndex} {supplied : List KeyIndex} (others : List KeyIndex)
    (hname : ∀ c ∈ cs, ∀ i, found c.index.name = some i → i.name = c.index.name)
    (hdistinct : (cs.map (·.index.name)).Nodup)
    (hothers : ∀ i ∈ others, ∀ c ∈ cs, i.name ≠ c.index.name)
    (hsupplied : supplied.Perm ((cs.map (·.index.name)).filterMap found ++ others)) :
    adopt cs supplied = cs.map (adopted found) := by
  induction cs generalizing supplied with
  | nil => rfl
  | cons c rest ih =>
      rcases List.nodup_cons.mp hdistinct with ⟨hnew, hrest⟩
      have hother : ∀ i ∈ (rest.map (·.index.name)).filterMap found ++ others,
          i.name ≠ c.index.name := by
        intro i hi heq
        rcases List.mem_append.mp hi with hi | hi
        · rcases List.mem_filterMap.mp hi with ⟨name, hmem, hi'⟩
          rcases List.mem_map.mp hmem with ⟨c', hc', rfl⟩
          rw [hname c' (List.mem_cons_of_mem _ hc') i hi'] at heq
          rw [heq] at hmem
          exact hnew hmem
        · exact hothers i hi c List.mem_cons_self heq
      have hnames := fun c' hc' => hname c' (List.mem_cons_of_mem c hc')
      have hothers' := fun i hi c' hc' => hothers i hi c' (List.mem_cons_of_mem c hc')
      rw [List.map_cons] at hsupplied ⊢
      cases hfound : found c.index.name with
      | none =>
          rw [List.filterMap_cons_none hfound] at hsupplied
          have htake : takeOut (fun i => i.name == c.index.name) supplied = none := by
            apply takeOut_of_none
            intro i hi
            simpa using hother i (hsupplied.mem_iff.mp hi)
          unfold adopt adopted
          rw [htake, hfound]
          dsimp only
          rw [ih hnames hrest hothers' hsupplied]
          rfl
      | some i =>
          rw [List.filterMap_cons_some hfound, List.cons_append] at hsupplied
          have hi : i ∈ supplied := hsupplied.mem_iff.mpr List.mem_cons_self
          have hunique : ∀ y ∈ supplied, (y.name == c.index.name) = true → y = i := by
            intro y hy heq
            rcases List.mem_cons.mp (hsupplied.mem_iff.mp hy) with rfl | hmem
            · rfl
            · exact absurd (by simpa using heq) (hother y hmem)
          rcases @takeOut_of_unique _ (fun i => i.name == c.index.name) supplied i hi
            (by simpa using hname c List.mem_cons_self i hfound) hunique with ⟨remaining, htake, hperm⟩
          unfold adopt adopted
          rw [htake, hfound]
          dsimp only
          rw [ih hnames hrest hothers' (hperm.symm.trans hsupplied).cons_inv]
          rfl

theorem enterAnew_of_enter {cs cs' : List ColumnIndex}
    (h : (Action.onEach (ColumnIndex.enter row)).perform cs = (.ok (), cs')) :
    enterAnew row (cs.map (adopted found)) = .ok (cs'.map (adopted found)) := by
  unfold enterAnew
  rw [Outcome.mapM_eq_ok_iff, List.forall₂_map_left_iff, List.forall₂_map_right_iff]
  apply (Action.forall₂_of_perform_onEach h).imp
  intro c c' henter
  have hsame : c'.position = c.position ∧ c'.index.name = c.index.name := by
    rw [ColumnIndex.perform_enter] at henter
    split at henter
    · cases henter
    · next i hadd =>
        cases henter
        exact ⟨rfl, ColumnIndex.name_of_add hadd⟩
  unfold adopted
  rw [hsame.2]
  cases hfound : found c.index.name with
  | some i =>
      dsimp only
      rw [if_neg (by simp), hsame.1]
  | none =>
      dsimp only
      rw [if_pos rfl, Action.finalState_eq_ok_iff.mpr ⟨(), henter⟩]
      rfl

theorem foldlM_enterAnew {rows : List Row} (h : (rows.forM insert).perform s = (.ok (), s')) :
    rows.foldlM (fun marked row => enterAnew row marked) (s.indices.map (adopted found)) =
      .ok (s'.indices.map (adopted found)) := by
  induction rows generalizing s with
  | nil =>
      cases h
      rfl
  | cons row rest ih =>
      rcases Action.perform_bind_eq_ok h with ⟨u, s₁, hinsert, hrest⟩
      rcases insert_eq_ok hinsert with ⟨_, _, _, rowIds, indices, _, henter, hs₁⟩
      have hindices : s₁.indices = indices := by rw [hs₁]
      rw [List.foldlM_cons, enterAnew_of_enter henter, Outcome.ok_bind, ← hindices]
      exact ih hrest

theorem Sound.adopt_emptyIndices (h : s.Sound) (hdistinct : (s.indices.map (·.index.name)).Nodup)
    (hfound : ∀ c ∈ s.indices, ∀ i, found c.index.name = some i → c.index.SameEntries i)
    {supplied others : List KeyIndex}
    (hothers : ∀ i ∈ others, ∀ c ∈ s.indices, i.name ≠ c.index.name)
    (hsupplied : supplied.Perm ((s.indices.map (·.index.name)).filterMap found ++ others)) :
    adopt (emptyIndices s.table) supplied = (emptyIndices s.table).map (adopted found) := by
  have hnames : (emptyIndices s.table).map (·.index.name) = s.indices.map (·.index.name) := by
    rw [← h.shaped, List.map_map]
    rfl
  apply adopt_eq others
  · intro c hc i hi
    rcases h.exists_emptied_eq hc with ⟨c', hc', rfl⟩
    exact KeyIndex.name_eq_of_emptied (hfound c' hc' i hi).emptied
  · rwa [hnames]
  · intro i hi c hc
    rcases h.exists_emptied_eq hc with ⟨c', hc', rfl⟩
    exact hothers i hi c' hc'
  · rwa [hnames]

theorem Sound.size_eq_length (h : s.Sound) {l : List Row} (hl : l.Perm s.toList)
    {rowIds : RowIdIndex} (hids : rowIds.ids = s.rowIds.ids) : rowIds.size = l.length := by
  have hlength := congrArg List.length (h.toList_rowIds.trans h.map_id_toList.symm)
  unfold RowIdIndex.toList SortedMap.keys at hlength
  rw [List.length_map, List.length_map, ← hl.length_eq] at hlength
  unfold RowIdIndex.size SortedMap.size
  rw [hids, hlength]

/-- The indices of a sound store and those of another one with its rows are alike also after
the found ones have been taken. -/
theorem Sound.alike_adopted (h : s.Sound) (h₁ : s₁.Sound) (htable : s₁.table = s.table)
    (hrows : s₁.rows = s.rows)
    (hfound : ∀ c ∈ s.indices, ∀ i, found c.index.name = some i → c.index.SameEntries i) :
    List.Forall₂ (fun c c' => AlikeIndices c c' ∧
      ∀ i, found c.index.name = some i → c'.index = i) s.indices
      ((s₁.indices.map (adopted found)).map (·.1)) := by
  rw [List.map_map, List.forall₂_map_right_iff]
  apply (forall₂_mem (h.alike h₁ htable hrows)).imp
  intro c c₁ hc
  rcases hc with ⟨hc, _, hsame⟩
  have hsameName : c₁.index.name = c.index.name := KeyIndex.name_eq_of_emptied hsame.index.emptied
  unfold Function.comp adopted
  rw [hsameName]
  cases hi : found c.index.name with
  | none => exact ⟨hsame, nofun⟩
  | some i =>
      refine ⟨⟨hsame.position, (hfound c hc i hi).alike⟩, ?_⟩
      intro i' hi'
      exact Option.some.inj hi'

/-- A sound store is made again from its rows in any order and from any of its indices, whatever
others there are. -/
theorem Sound.ofParts_perm (h : s.Sound) {l : List Row} (hl : l.Perm s.toList)
    {rowIds : RowIdIndex} (hidsName : rowIds.name = s.rowIds.name)
    (hids : rowIds.ids = s.rowIds.ids) (hdistinct : (s.indices.map (·.index.name)).Nodup)
    (hfound : ∀ c ∈ s.indices, ∀ i, found c.index.name = some i → c.index.SameEntries i)
    {supplied others : List KeyIndex}
    (hothers : ∀ i ∈ others, ∀ c ∈ s.indices, i.name ≠ c.index.name)
    (hsupplied : supplied.Perm ((s.indices.map (·.index.name)).filterMap found ++ others)) :
    ∃ s', ofParts s.table l rowIds supplied = .ok s' ∧ s'.Sound ∧ s'.table = s.table ∧
      s'.rows = s.rows ∧ s'.rowIds = rowIds ∧
      List.Forall₂ (fun c c' => AlikeIndices c c' ∧
        ∀ i, found c.index.name = some i → c'.index = i) s.indices s'.indices := by
  -- The indices that are not found come out as in the store `s₁` that is made of the rows alone.
  rcases h.fits.ofRows_perm hl with ⟨s₁, hofRows, h₁, htable, hrows⟩
  rcases Action.finalState_eq_ok_iff.mp hofRows with ⟨u, hforM⟩
  have hentered : l.foldlM (fun marked row => enterAnew row marked)
      ((emptyIndices s.table).map (adopted found)) = .ok (s₁.indices.map (adopted found)) :=
    foldlM_enterAnew hforM
  have hadopt := h.adopt_emptyIndices hdistinct hfound hothers hsupplied
  have halike := h.alike_adopted h₁ htable hrows hfound
  have hofList : SortedMap.ofList (l.map fun row => (row.id, row)) = s.rows :=
    h.fits.ofList_of_perm hl
  refine ⟨{
    table := s.table
    rows := .ofList (l.map fun row => (row.id, row))
    rowIds := rowIds
    indices := (s₁.indices.map (adopted found)).map (·.1) }, ?_, ?_, rfl, hofList, rfl, halike⟩
  · unfold ofParts
    rw [if_neg (not_not.mpr (h.size_eq_length hl hids)), hadopt, hentered]
    rfl
  · exact h.of_alike rfl hofList hidsName hids (halike.imp fun c c' hc => hc.1)

theorem Sound.ofParts_toList (h : s.Sound) {rowIds : RowIdIndex}
    (hidsName : rowIds.name = s.rowIds.name) (hids : rowIds.ids = s.rowIds.ids)
    (hdistinct : (s.indices.map (·.index.name)).Nodup)
    (hfound : ∀ c ∈ s.indices, ∀ i, found c.index.name = some i → c.index.SameEntries i) :
    ∃ s', ofParts s.table s.toList rowIds ((s.indices.map (·.index.name)).filterMap found) =
        .ok s' ∧ s'.Sound ∧ s'.table = s.table ∧ s'.rows = s.rows ∧
      List.Forall₂ (fun c c' => ∀ i, found c.index.name = some i → c'.index = i) s.indices
        s'.indices := by
  have hsupplied : ((s.indices.map (·.index.name)).filterMap found).Perm
      ((s.indices.map (·.index.name)).filterMap found ++ []) := by rw [List.append_nil]
  rcases h.ofParts_perm (List.Perm.refl _) hidsName hids hdistinct hfound (by simp) hsupplied with
    ⟨s', hofParts, hsound, htable, hrows, _, hindices⟩
  exact ⟨s', hofParts, hsound, htable, hrows, hindices.imp fun c c' hc => hc.2⟩

end TableStore

end RelationalDb
