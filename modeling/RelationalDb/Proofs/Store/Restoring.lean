import Mathlib
import RelationalDb.Proofs.Index.Lookups
import RelationalDb.Proofs.Store.Counters
import RelationalDb.Proofs.Store.Loading
import RelationalDb.Proofs.Store.Scans

/-!
# Stores restored from their stored indices

A store that writes have led to is made again from its rows and the stored forms of some of its
indices.  Each of these comes back as it was but for the greatest row id that it was ever given,
the others list the same rows under every key, and no later write tells the two stores apart.
-/

namespace RelationalDb

namespace TableStore

variable {s s' : TableStore} {row : Row} {c : ColumnIndex} {kept : List ColumnIndex}
  {others : List KeyIndex}

/-!
## Writes to stores of the same rows
-/

/-- Sound stores of one table with the same rows. -/
structure SameRows (s s' : TableStore) : Prop where
  left : s.Sound
  right : s'.Sound
  table : s'.table = s.table
  rows : s'.rows = s.rows

theorem SameRows.checkUnique_eq (h : SameRows s s') (row : Row) :
    s'.checkUnique row = s.checkUnique row := by
  symm
  unfold checkUnique
  apply Outcome.forM_congr
  apply (forall₂_mem (h.left.alike h.right h.table h.rows)).imp
  intro c c' hc
  rcases hc with ⟨hc, _, halike⟩
  rw [ColumnIndex.keyOf_eq_of_emptied halike.emptied,
    halike.index.conflicts_eq (h.left.indexSound hc),
    KeyIndex.name_eq_of_emptied halike.index.emptied]

theorem SameRows.rowMissing_eq (h : SameRows s s') (id : RowId) :
    s'.rowMissing id = s.rowMissing id := by
  rw [rowMissing, h.table, rowMissing]

theorem SameRows.insert (h : SameRows s s') (row : Row) :
    ((insert row).perform s').1 = ((insert row).perform s).1 ∧
      ((insert row).perform s').2.rows = ((insert row).perform s).2.rows := by
  have hname : s'.rowIds.name = s.rowIds.name := by rw [h.left.idsName, h.right.idsName, h.table]
  rw [perform_insert, perform_insert, h.rows, h.table, h.checkUnique_eq row]
  split
  · exact ⟨rfl, h.rows⟩
  cases hrow : s.table.checkRow row.values with
  | error e => exact ⟨rfl, h.rows⟩
  | ok u =>
  cases hunique : s.checkUnique row with
  | error e => exact ⟨rfl, h.rows⟩
  | ok u =>
  have hrow' : s'.table.checkRow row.values = .ok () := h.table ▸ hrow
  have hunique' : s'.checkUnique row = .ok () := (h.checkUnique_eq row).trans hunique
  -- After the checks only an id from `2 ^ 63` on can be refused, and both stores refuse it.
  rcases h.left.perform_enter hrow hunique with ⟨indices, henter, _⟩
  rcases h.right.perform_enter hrow' hunique' with ⟨indices', henter', _⟩
  cases hid : RowIdIndex.isSigned row.id with
  | false =>
      rw [RowIdIndex.add_keyOfId_error _ hid, RowIdIndex.add_keyOfId_error _ hid, hname]
      exact ⟨rfl, h.rows⟩
  | true =>
      rcases RowIdIndex.add_keyOfId h.left.idsOrdered hid with ⟨rowIds, hadd, _⟩
      rcases RowIdIndex.add_keyOfId h.right.idsOrdered hid with ⟨rowIds', hadd', _⟩
      rw [henter, henter', hadd, hadd']
      exact ⟨rfl, rfl⟩

theorem SameRows.update (h : SameRows s s') (row : Row) :
    ((update row).perform s').1 = ((update row).perform s).1 ∧
      ((update row).perform s').2.rows = ((update row).perform s).2.rows := by
  rw [perform_update, perform_update, h.rows, h.table, h.rowMissing_eq, h.checkUnique_eq row]
  cases hold : s.rows.get? row.id with
  | none => exact ⟨rfl, h.rows⟩
  | some old =>
  cases hrow : s.table.checkRow row.values with
  | error e => exact ⟨rfl, h.rows⟩
  | ok u =>
  cases hunique : s.checkUnique row with
  | error e => exact ⟨rfl, h.rows⟩
  | ok u =>
  have hrow' : s'.table.checkRow row.values = .ok () := h.table ▸ hrow
  have hunique' : s'.checkUnique row = .ok () := (h.checkUnique_eq row).trans hunique
  have hold' : s'.rows.get? row.id = some old := h.rows ▸ hold
  rcases h.left.perform_move hold hrow hunique with ⟨indices, hmove, _⟩
  rcases h.right.perform_move hold' hrow' hunique' with ⟨indices', hmove', _⟩
  dsimp only
  rw [hmove, hmove']
  exact ⟨rfl, rfl⟩

theorem SameRows.delete (h : SameRows s s') (id : RowId) :
    ((delete id).perform s').1 = ((delete id).perform s).1 ∧
      ((delete id).perform s').2.rows = ((delete id).perform s).2.rows := by
  rw [perform_delete, perform_delete, h.rows, h.rowMissing_eq]
  cases hold : s.rows.get? id with
  | none => exact ⟨rfl, h.rows⟩
  | some old =>
      have hold' : s'.rows.get? id = some old := h.rows ▸ hold
      rcases h.left.perform_strike hold with ⟨indices, hstrike, _⟩
      rcases h.right.perform_strike hold' with ⟨indices', hstrike', _⟩
      dsimp only
      rw [hstrike, hstrike']
      exact ⟨rfl, rfl⟩

theorem matches_action (call : StoreCall) :
    Action.Matches SameRows call.action call.action := by
  intro s s' h
  have hends : (call.action.perform s').1 = (call.action.perform s).1 ∧
      (call.action.perform s').2.rows = (call.action.perform s).2.rows := by
    cases call with
    | insert row =>
        unfold StoreCall.action
        rw [Action.perform_bind_pure, Action.perform_bind_pure, (h.insert row).1]
        exact ⟨rfl, (h.insert row).2⟩
    | update row =>
        unfold StoreCall.action
        rw [Action.perform_bind_pure, Action.perform_bind_pure, (h.update row).1]
        exact ⟨rfl, (h.update row).2⟩
    | delete id =>
        unfold StoreCall.action
        rw [Action.perform_bind_pure, Action.perform_bind_pure, (h.delete id).1]
        exact ⟨rfl, (h.delete id).2⟩
  rcases h.left.step call with ⟨hleft, htable⟩
  rcases h.right.step call with ⟨hright, htable'⟩
  refine ⟨hends.1.symm, hleft, hright, ?_, hends.2⟩
  rw [htable, htable', h.table]

/-!
## Restoring
-/

/-- What an index of a store has become in a store that was made from the indices that were
kept. -/
structure RestoredIndex (kept : List ColumnIndex) (c c' : ColumnIndex) : Prop where
  position : c'.position = c.position
  emptied : c'.index.emptied = c.index.emptied
  read : c ∈ kept → KeyIndex.ofRows c.index.name c.index.toRows = .ok c'.index ∧
    c.index.SameButGreatest c'.index
  get : ∀ key, (c'.index.get key).Perm (c.index.get key)

/-- The same rows, the index over the row ids that was given, and every index restored. -/
structure RestoredFrom (kept : List ColumnIndex) (rowIds : RowIdIndex) (s s' : TableStore) :
    Prop where
  table : s'.table = s.table
  rows : s'.rows = s.rows
  rowIds : s'.rowIds = rowIds
  indices : List.Forall₂ (RestoredIndex kept) s.indices s'.indices

/-- The index that is read from the stored form of one in the list, by its name. -/
def readKept (kept : List ColumnIndex) (name : String) : Option KeyIndex :=
  (kept.find? fun c => c.index.name == name).bind fun c =>
    (KeyIndex.ofRows c.index.name c.index.toRows).toOption

theorem readKept_of_mem (hdistinct : (kept.map (·.index.name)).Nodup) (hc : c ∈ kept) :
    readKept kept c.index.name = (KeyIndex.ofRows c.index.name c.index.toRows).toOption := by
  have hfind : (kept.find? fun c' => c'.index.name == c.index.name) = some c := by
    refine find?_of_unique hc (beq_self_eq_true c.index.name) ?_
    intro c' hc' hname
    exact List.inj_on_of_nodup_map hdistinct hc' hc (by simpa using hname)
  unfold readKept
  rw [hfind]
  rfl

theorem readKept_of_not_mem (hname : c.index.name ∉ kept.map (·.index.name)) :
    readKept kept c.index.name = none := by
  have hfind : (kept.find? fun c' => c'.index.name == c.index.name) = none := by
    rw [List.find?_eq_none]
    intro c' hc' heq
    exact hname (List.mem_map.mpr ⟨c', hc', by simpa using heq⟩)
  unfold readKept
  rw [hfind]
  rfl

theorem Written.ofRows_toRows (h : s.Written) (hc : c ∈ s.indices) :
    ∃ i, KeyIndex.ofRows c.index.name c.index.toRows = .ok i ∧ c.index.SameEntries i ∧
      c.index.SameButGreatest i := by
  rcases h.sound.ofRows_index hc with ⟨i, hread, hsame⟩
  exact ⟨i, hread, hsame, hsame.sameButGreatest (h.counted.indices c hc)
    (KeyIndex.sound_of_ofRows hread).2⟩

theorem Written.readKept_eq (h : s.Written) (hkept : kept.Subperm s.indices) (hc : c ∈ kept) :
    ∃ i, readKept kept c.index.name = some i ∧
      KeyIndex.ofRows c.index.name c.index.toRows = .ok i ∧ c.index.SameEntries i ∧
      c.index.SameButGreatest i := by
  rcases h.ofRows_toRows (hkept.subset hc) with ⟨i, hread, hsame⟩
  refine ⟨i, ?_, hread, hsame⟩
  rcases hkept with ⟨l, hl, hsub⟩
  have hdistinct := h.sound.indexed.named.nodup_names h.definable.indicesNamed
  have hdistinct' : (kept.map (·.index.name)).Nodup :=
    (hl.map _).nodup_iff.mp (hdistinct.sublist (hsub.map _))
  rw [readKept_of_mem hdistinct' hc, hread]
  rfl

theorem Written.mem_of_readKept (h : s.Written) (hkept : kept.Subperm s.indices)
    (hc : c ∈ s.indices) {i : KeyIndex} (hi : readKept kept c.index.name = some i) : c ∈ kept := by
  by_contra hnot
  have hname : c.index.name ∉ kept.map (·.index.name) := by
    intro hmem
    rcases List.mem_map.mp hmem with ⟨c', hc', hsame⟩
    have hdistinct := h.sound.indexed.named.nodup_names h.definable.indicesNamed
    exact hnot (List.inj_on_of_nodup_map hdistinct (hkept.subset hc') hc hsame ▸ hc')
  rw [readKept_of_not_mem hname] at hi
  cases hi

theorem Written.perm_filterMap_readKept (h : s.Written) (hkept : kept.Subperm s.indices)
    {restored : List KeyIndex}
    (hrestored : List.Forall₂ (fun c i => readKept kept c.index.name = some i) kept restored) :
    ((s.indices.map (·.index.name)).filterMap (readKept kept)).Perm restored := by
  rcases id hkept with ⟨l, hl, hsub⟩
  rcases hsub.exists_perm_append with ⟨rest, hrest⟩
  have hperm : s.indices.Perm (kept ++ rest) := hrest.trans (hl.append_right rest)
  have hdistinct := (h.sound.indexed.named.nodup_names h.definable.indicesNamed).of_map
  have hdisjoint := List.disjoint_of_nodup_append (hperm.nodup_iff.mp hdistinct)
  have hkept' : kept.filterMap (fun c => readKept kept c.index.name) = restored :=
    filterMap_eq_of_forall₂ hrestored
  -- Names tell indices apart, so nothing is found under those of the other ones.
  have hnone : rest.filterMap (fun c => readKept kept c.index.name) = [] := by
    rw [List.filterMap_eq_nil_iff]
    intro c hc
    by_contra hsome
    rcases Option.ne_none_iff_exists'.mp hsome with ⟨i, hi⟩
    have hmem : c ∈ s.indices := hperm.mem_iff.mpr (List.mem_append_right _ hc)
    exact hdisjoint (h.mem_of_readKept hkept hmem hi) hc
  rw [List.filterMap_map]
  have hall := hperm.filterMap fun c => readKept kept c.index.name
  rwa [List.filterMap_append, hkept', hnone, List.append_nil] at hall

/-- A store that writes have led to is restored from its rows in any order and the stored forms of
its index over the row ids and of any of its other indices, and later writes end alike on both
stores and leave the same rows in them. -/
theorem Written.ofParts_restores (h : s.Written) {rows : List Row} (hrows : rows.Perm s.toList)
    (hkept : kept.Subperm s.indices)
    (hothers : ∀ i ∈ others, ∀ c ∈ s.indices, i.name ≠ c.index.name) :
    ∃ rowIds restored,
      RowIdIndex.ofRows s.rowIds.name s.rowIds.toRows = .ok rowIds ∧
      s.rowIds.SameButGreatest rowIds ∧
      kept.mapM (fun c => KeyIndex.ofRows c.index.name c.index.toRows) = .ok restored ∧
      ∀ supplied : List KeyIndex, supplied.Perm (restored ++ others) →
        ∃ s', ofParts s.table rows rowIds supplied = .ok s' ∧ RestoredFrom kept rowIds s s' ∧
          ∀ calls : List StoreCall,
            (Action.performAll (calls.map StoreCall.action) s').1 =
                (Action.performAll (calls.map StoreCall.action) s).1 ∧
              (Action.performAll (calls.map StoreCall.action) s').2.rows =
                (Action.performAll (calls.map StoreCall.action) s).2.rows := by
  have hs := h.sound
  rcases h.counted.rowIds.ofRows_toRows hs.idsOrdered fun _ hid => hs.signed_of_mem_rowIds hid with
    ⟨rowIds, hrowIds, hgreatest, hidsName, hids⟩
  have hread : ∀ c ∈ kept, ∃ i, KeyIndex.ofRows c.index.name c.index.toRows = .ok i ∧
      readKept kept c.index.name = some i := by
    intro c hc
    rcases h.readKept_eq hkept hc with ⟨i, hi, hread, _⟩
    exact ⟨i, hread, hi⟩
  rcases Outcome.mapM_ok hread with ⟨restored, hmapM, hrestored⟩
  refine ⟨rowIds, restored, hrowIds, hgreatest, hmapM, ?_⟩
  intro supplied hsupplied
  have hfound : ∀ c ∈ s.indices, ∀ i, readKept kept c.index.name = some i →
      c.index.SameEntries i := by
    intro c hc i hi
    rcases h.readKept_eq hkept (h.mem_of_readKept hkept hc hi) with ⟨i', hi', _, hsame, _⟩
    cases hi.symm.trans hi'
    exact hsame
  have hperm := (h.perm_filterMap_readKept hkept hrestored).append_right others
  rcases hs.ofParts_perm hrows hidsName hids
    (hs.indexed.named.nodup_names h.definable.indicesNamed) hfound hothers
    (hsupplied.trans hperm.symm) with ⟨s', hofParts, hs', htable, hrows', hrowIds', hindices⟩
  refine ⟨s', hofParts, ⟨htable, hrows', hrowIds', ?_⟩, ?_⟩
  · apply (forall₂_mem hindices).imp
    intro c c' hc
    rcases hc with ⟨hc, _, halike, hfound'⟩
    refine ⟨halike.position, halike.index.emptied, ?_,
      halike.index.perm_get_any (hs.indexSound hc)⟩
    intro hmem
    rcases h.readKept_eq hkept hmem with ⟨i, hi, hread, _, hsame⟩
    rw [hfound' i hi]
    exact ⟨hread, hsame⟩
  · intro calls
    rcases Action.performAll_of_matches (fun call _ => matches_action call)
      (⟨hs, hs', htable, hrows'⟩ : SameRows s s') with ⟨hends, hsame⟩
    exact ⟨hends.symm, hsame.rows⟩

theorem four_items_are_restored :
    let unrelated : KeyIndex :=
      { name := "item.byNumber", keyType := .int64, unique := false, direction := .ascending }
    fourItems.Written ∧ fourItems.toList.reverse.Perm fourItems.toList ∧
      (fourItems.indices.take 1).Subperm fourItems.indices ∧
      ∃ rowIds restored s',
        RowIdIndex.ofRows fourItems.rowIds.name fourItems.rowIds.toRows = .ok rowIds ∧
        (fourItems.indices.take 1).mapM (fun c => KeyIndex.ofRows c.index.name c.index.toRows) =
          .ok restored ∧
        ofParts fourItems.table fourItems.toList.reverse rowIds (unrelated :: restored) = .ok s' ∧
        RestoredFrom (fourItems.indices.take 1) rowIds fourItems s' := by
  intro unrelated
  have hwritten : fourItems.Written := ⟨.items, _, .built Table.built_items, rfl⟩
  have hrows := List.reverse_perm fourItems.toList
  have hkept := (List.take_sublist 1 fourItems.indices).subperm
  have hothers : ∀ i ∈ [unrelated], ∀ c ∈ fourItems.indices, i.name ≠ c.index.name := by
    intro i hi c hc
    rw [List.mem_singleton.mp hi]
    have hnames : fourItems.indices.map (·.index.name) = ["item.bySize", "item.pkItem"] := rfl
    have hname : c.index.name ∈ ["item.bySize", "item.pkItem"] :=
      hnames ▸ List.mem_map_of_mem hc
    intro heq
    rw [← heq] at hname
    revert hname
    decide
  rcases hwritten.ofParts_restores hrows hkept hothers with
    ⟨rowIds, restored, hrowIds, _, hrestored, hall⟩
  rcases hall (unrelated :: restored) (List.perm_append_singleton unrelated restored).symm with
    ⟨s', hofParts, hs', _⟩
  exact ⟨hwritten, hrows, hkept, rowIds, restored, s', hrowIds, hrestored, hofParts, hs'⟩

/-- After an item was inserted and deleted, the index that was kept does not know its id any more. -/
theorem greatest_id_is_not_restored :
    let s := (empty .items).after
      [.insert { id := 5, values := [.int64 7, .float64 ⟨0⟩] }, .delete 5]
    s.Written ∧ ∃ rowIds restored s',
      RowIdIndex.ofRows s.rowIds.name s.rowIds.toRows = .ok rowIds ∧
      (s.indices.take 1).mapM (fun c => KeyIndex.ofRows c.index.name c.index.toRows) =
        .ok restored ∧
      ofParts s.table s.toList rowIds restored = .ok s' ∧
      (s'.indices.take 1).map (·.index) ≠ (s.indices.take 1).map (·.index) ∧
      (s.indices.take 1).map (·.index.tally) = [{ total := 0, greatest := 5 }] ∧
      (s'.indices.take 1).map (·.index.tally) = [{ total := 0, greatest := 0 }] := by
  intro s
  refine ⟨⟨.items, _, .built Table.built_items, rfl⟩, _, _, _, rfl, rfl, rfl, ?_, rfl, rfl⟩
  intro heq
  have htally := congrArg (List.map KeyIndex.tally) heq
  revert htally
  decide

end TableStore

end RelationalDb
