import Mathlib
import RelationalDb.Plan.Evaluate
import RelationalDb.Proofs.Query.Ranges
import RelationalDb.Proofs.Store.Histories

/-!
# Scans of indices

The scan of an index by its full name finds the index, and reads the rows whose key the
range admits.  The ranges that stand for a test therefore read the rows of which the test
holds, each of them once.
-/

namespace RelationalDb

namespace TableStore

variable {s : TableStore} {c : ColumnIndex} {r : KeyRange Value} {ranges : List (KeyRange Value)}

/-!
## Indices by name
-/

/-- The index over the row ids has the name that the table gives it, and the other indices have
full names of declared ones, in the order of the declaration. -/
structure Named (s : TableStore) : Prop where
  idsName : s.rowIds.name = s.table.rowIdIndexName
  names : (s.indices.map (·.index.name)).Sublist (s.table.indices.map (·.fullName))

theorem names_emptyIndices_sublist (t : Table) :
    ((emptyIndices t).map (·.index.name)).Sublist (t.indices.map (·.fullName)) := by
  unfold emptyIndices
  induction t.indices with
  | nil => exact List.Sublist.refl _
  | cons d rest ih =>
      cases hp : t.columnPosition? d.column with
      | none => simpa [hp] using ih.trans (List.sublist_cons_self _ _)
      | some position =>
          cases hc : t.column? d.column with
          | none => simpa [hp, hc] using ih.trans (List.sublist_cons_self _ _)
          | some column => simpa [hp, hc, KeyIndex.ofDecl] using ih

theorem Indexed.named (h : s.Indexed) : s.Named where
  idsName := h.idsName
  names := by
    have hmap : s.indices.map (·.index.name) = (emptyIndices s.table).map (·.index.name) := by
      rw [← h.shaped, List.map_map]
      rfl
    rw [hmap]
    exact names_emptyIndices_sublist s.table

theorem Named.name_of_mem (h : s.Named) (hc : c ∈ s.indices) :
    ∃ d ∈ s.table.indices, c.index.name = d.fullName := by
  rcases List.mem_map.mp (h.names.subset (List.mem_map_of_mem hc)) with ⟨d, hd, hname⟩
  exact ⟨d, hd, hname.symm⟩

theorem Named.nodup_names (h : s.Named) (hn : s.table.IndicesNamed) :
    (s.indices.map (·.index.name)).Nodup :=
  hn.nodup_fullName.sublist h.names

theorem Named.index?_eq (h : s.Named) (hn : s.table.IndicesNamed) (hc : c ∈ s.indices)
    {name : String} (hrow : name ≠ s.rowIds.name)
    (hfits : c.index.name = name ∨ c.index.name = s.table.name ++ "." ++ name)
    (honly : ∀ c' ∈ s.indices, c'.index.name = name ∨ c'.index.name = s.table.name ++ "." ++ name →
      c'.index.name = c.index.name) :
    s.index? name = some (.ofKeys c.index) := by
  have hfind : (s.indices.find? fun c' =>
      c'.index.name == name || c'.index.name == s.table.name ++ "." ++ name) = some c := by
    apply find?_of_unique hc (by simpa using hfits)
    intro c' hc' hp
    have heq := honly c' hc' (by simpa using hp)
    exact List.inj_on_of_nodup_map (h.nodup_names hn) hc' hc heq
  unfold index?
  rw [if_neg (by simpa using hrow), hfind]
  rfl

theorem Named.index?_name (h : s.Named) (hn : s.table.IndicesNamed) (hc : c ∈ s.indices) :
    s.index? c.index.name = some (.ofKeys c.index) := by
  rcases h.name_of_mem hc with ⟨d, hd, hname⟩
  have hdot : ∀ c' ∈ s.indices, c'.index.name ≠ s.table.name ++ "." ++ c.index.name := by
    intro c' hc' heq
    rcases h.name_of_mem hc' with ⟨d', hd', hname'⟩
    rw [hname', IndexDecl.fullName, hn.own d' hd', String.append_right_inj] at heq
    apply (hn.named d' hd').dot_not_mem
    rw [heq, hname]
    simp [IndexDecl.fullName]
  have hrow : c.index.name ≠ s.rowIds.name := by
    intro heq
    have hhash : s.table.rowIdIndexName = s.table.name ++ "." ++ "#" := by
      rw [String.append_assoc]
      rfl
    rw [h.idsName, hname, IndexDecl.fullName, hn.own d hd, hhash, String.append_right_inj] at heq
    apply (hn.named d hd).hash_not_mem
    simp [heq]
  apply h.index?_eq hn hc hrow (Or.inl rfl)
  rintro c' hc' (heq | heq)
  · exact heq
  · exact absurd heq (hdot c' hc')

theorem Named.index?_short (h : s.Named) (hn : s.table.IndicesNamed) (hc : c ∈ s.indices)
    {d : IndexDecl} (hd : d ∈ s.table.indices) (hname : c.index.name = d.fullName) :
    s.index? d.name = some (.ofKeys c.index) := by
  have hdot := (hn.named d hd).dot_not_mem
  have hfull : d.fullName = s.table.name ++ "." ++ d.name := by
    rw [IndexDecl.fullName, hn.own d hd]
  apply h.index?_eq hn hc
  · intro heq
    apply hdot
    rw [heq, h.idsName]
    simp [Table.rowIdIndexName]
  · exact Or.inr (hname.trans hfull)
  · rintro c' hc' (heq | heq)
    · rcases h.name_of_mem hc' with ⟨d', _, hname'⟩
      apply absurd _ hdot
      rw [← heq, hname']
      simp [IndexDecl.fullName]
    · rw [heq, hname, hfull]

/-!
## Rows in ranges
-/

/-- The rows that a scan of one range reads. -/
structure Reads (s : TableStore) (c : ColumnIndex) (r : KeyRange Value) (rows : List Row) :
    Prop where
  nodup : rows.Nodup
  mem_iff : ∀ row, row ∈ rows ↔
    s.rows.get? row.id = some row ∧ (c.keyOf row).type? = some c.index.keyType ∧
      r.Admits (c.keyOf row)

theorem mem_entriesIn_iff {i : KeyIndex} {e : Value × List RowId} :
    e ∈ i.entriesIn r ↔ e ∈ i.entries.entries ∧ r.Admits e.1 := by
  unfold KeyIndex.entriesIn KeyIndex.scan KeyRange.Admits
  cases hempty : r.isEmpty with
  | true => simp
  | false => simp

theorem entriesIn_sublist {i : KeyIndex} : (i.entriesIn r).Sublist i.entries.entries := by
  unfold KeyIndex.entriesIn KeyIndex.scan
  split
  · exact List.nil_sublist _
  · exact List.filter_sublist

theorem Sound.map_id_rowsOf (h : s.Sound) {ids : List RowId}
    (hids : ∀ id ∈ ids, ∃ row, s.rows.get? id = some row) :
    (s.rowsOf ids).map (·.id) = ids := by
  unfold rowsOf
  induction ids with
  | nil => rfl
  | cons id rest ih =>
      rcases hids id List.mem_cons_self with ⟨row, hrow⟩
      have hrow' : s.row? id = some row := hrow
      rw [List.filterMap_cons_some hrow', List.map_cons, h.id_eq hrow,
        ih fun id' hid' => hids id' (List.mem_cons_of_mem _ hid')]

theorem Sound.scanIndex_ok (h : s.Sound) (hn : s.table.IndicesNamed) (hc : c ∈ s.indices)
    (hr : ∀ e ∈ r.endpoints, e.type? = some c.index.keyType) :
    ∃ rows, s.scanIndex c.index.name (some r) .ascending none 0 = .ok rows ∧ s.Reads c r rows := by
  have hcheck : c.index.checkRange r = .ok () := by
    rw [KeyIndex.checkRange, Outcome.forM_eq_ok_iff]
    intro e he
    simp [KeyIndex.checkKey, hr e he]
  have hpairs : ∀ e ∈ c.index.entriesIn r, ∀ id ∈ e.2, (e.1, id) ∈ c.index.pairs :=
    fun e he id hid => KeyIndex.mem_pairs_iff.mpr ⟨e.2, (mem_entriesIn_iff.mp he).1, hid⟩
  let ids := (c.index.entriesIn r).flatMap (·.2)
  have hids : ∀ id ∈ ids, ∃ row, s.rows.get? id = some row := by
    intro id hid
    rcases List.mem_flatMap.mp hid with ⟨e, he, hid⟩
    rcases h.row_of_mem_pairs hc (hpairs e he id hid) with ⟨row, hrow, _⟩
    exact ⟨row, hrow⟩
  refine ⟨s.rowsOf ids, ?_, ?_, ?_⟩
  · simp [scanIndex, h.indexed.named.index?_name hn hc, TableIndex.range, KeyIndex.range, hcheck, slice, ids]
  · apply List.Nodup.of_map (·.id)
    rw [h.map_id_rowsOf hids]
    have hnodup := h.nodup_ids hc
    rw [KeyIndex.ids_pairs] at hnodup
    exact hnodup.sublist (entriesIn_sublist.flatMap _)
  · intro row
    simp only [rowsOf, List.mem_filterMap, row?]
    constructor
    · rintro ⟨id, hid, hrow⟩
      have hidEq := h.id_eq hrow
      rcases List.mem_flatMap.mp hid with ⟨e, he, hid⟩
      rcases h.row_of_mem_pairs hc (hpairs e he id hid) with ⟨row', hrow', htype, heq⟩
      rw [hrow] at hrow'
      cases hrow'
      refine ⟨hidEq ▸ hrow, htype, ?_⟩
      rw [← KeyRange.admits_congr (h.type?_of_mem_pairs hc (hpairs e he id hid)) htype hr heq]
      exact (mem_entriesIn_iff.mp he).2
    · rintro ⟨hrow, htype, hadmits⟩
      rcases h.mem_pairs_of_row hc hrow (Value.isNull_eq_false_of_type htype) with ⟨k, hk⟩
      rcases KeyIndex.mem_pairs_iff.mp hk with ⟨rowIds, hmem, hid⟩
      rcases h.row_of_mem_pairs hc hk with ⟨row', hrow', _, heq⟩
      rw [hrow] at hrow'
      cases hrow'
      refine ⟨row.id, List.mem_flatMap.mpr ⟨(k, rowIds), mem_entriesIn_iff.mpr ⟨hmem, ?_⟩, hid⟩,
        hrow⟩
      rwa [KeyRange.admits_congr (h.type?_of_mem_pairs hc hk) htype hr heq]

theorem mem_flatten_of_reads {parts : List (List Row)} {row : Row}
    (h : List.Forall₂ (s.Reads c) ranges parts) :
    row ∈ parts.flatten ↔ ∃ r ∈ ranges,
      s.rows.get? row.id = some row ∧ (c.keyOf row).type? = some c.index.keyType ∧
        r.Admits (c.keyOf row) := by
  induction h with
  | nil => simp
  | cons hr _ ih => rw [List.flatten_cons, List.mem_append, hr.mem_iff, ih, List.exists_mem_cons_iff]

theorem pairwise_disjoint_of_reads {parts : List (List Row)}
    (h : List.Forall₂ (s.Reads c) ranges parts)
    (hdisjoint : ranges.Pairwise fun r r' =>
      ∀ v, v.type? = some c.index.keyType → r.Admits v → ¬r'.Admits v) :
    parts.Pairwise List.Disjoint := by
  induction h with
  | nil => exact List.Pairwise.nil
  | cons hr hrest ih =>
      rcases List.pairwise_cons.mp hdisjoint with ⟨hfirst, hrestDisjoint⟩
      refine List.pairwise_cons.mpr ⟨?_, ih hrestDisjoint⟩
      intro part hpart row hrow hrow'
      rcases exists_of_mem_right hrest hpart with ⟨r', hr', hreads'⟩
      have hread := (hr.mem_iff row).mp hrow
      have hread' := (hreads'.mem_iff row).mp hrow'
      exact hfirst r' hr' _ hread.2.1 hread.2.2 hread'.2.2

theorem Sound.scanRanges_perm (h : s.Sound) (hn : s.table.IndicesNamed) (hc : c ∈ s.indices)
    {t : ColumnTest} (ht : t.ReadAs ranges) (htype : t.column.type = c.index.keyType) :
    ∃ rows, s.scanRanges c.index.name ranges = .ok rows ∧
      rows.Perm (s.toList.filter fun row => t.holdsOf (c.keyOf row)) := by
  have hparts : ∃ parts, ranges.mapM
      (fun r => s.scanIndex c.index.name (some r) .ascending none 0) = .ok parts ∧
        List.Forall₂ (s.Reads c) ranges parts := by
    apply Outcome.mapM_ok
    intro r hr
    apply h.scanIndex_ok hn hc
    rw [← htype]
    exact ht.endpoints r hr
  rcases hparts with ⟨parts, hmap, hreads⟩
  refine ⟨parts.flatten, by simp [scanRanges, hmap], ?_⟩
  have hnodup : parts.flatten.Nodup := by
    rw [List.nodup_flatten]
    constructor
    · intro part hpart
      rcases exists_of_mem_right hreads hpart with ⟨r, _, hr⟩
      exact hr.nodup
    · apply pairwise_disjoint_of_reads hreads
      rw [← htype]
      exact ht.disjoint
  have hnodup' : (s.toList.filter fun row => t.holdsOf (c.keyOf row)).Nodup := by
    apply List.Nodup.filter
    exact List.Nodup.of_map (·.id) h.nodup_toList
  rw [List.perm_ext_iff_of_nodup hnodup hnodup']
  intro row
  rw [mem_flatten_of_reads hreads, List.mem_filter, h.mem_toList_iff]
  constructor
  · rintro ⟨r, hr, hrow, hkey, hadmits⟩
    exact ⟨hrow, (ht.holds _ (htype ▸ hkey)).mpr ⟨r, hr, hadmits⟩⟩
  · rintro ⟨hrow, hholds⟩
    rcases h.type?_keyOf hc (h.checked hrow) with hnull | hkey
    · rw [Value.eq_null_of_type hnull, ht.null] at hholds
      cases hholds
    · rcases (ht.holds _ (htype ▸ hkey)).mp hholds with ⟨r, hr, hadmits⟩
      exact ⟨r, hr, hrow, hkey, hadmits⟩

theorem Sound.type?_of_scanRanges (h : s.Sound) (hn : s.table.IndicesNamed) (hc : c ∈ s.indices)
    {rows : List Row} (hscan : s.scanRanges c.index.name ranges = .ok rows) {r : KeyRange Value}
    (hr : r ∈ ranges) {e : Value} (he : e ∈ r.endpoints) : e.type? = some c.index.keyType := by
  rcases Outcome.bind_eq_ok_iff.mp hscan with ⟨parts, hparts, _⟩
  rcases exists_of_mem_left (Outcome.mapM_eq_ok_iff.mp hparts) hr with ⟨part, _, hpart⟩
  simp only [scanIndex, h.indexed.named.index?_name hn hc] at hpart
  rcases Outcome.bind_eq_ok_iff.mp hpart with ⟨ids, hids, _⟩
  rcases Outcome.bind_eq_ok_iff.mp hids with ⟨_, hcheck, _⟩
  have hkey := Outcome.forM_eq_ok_iff.mp hcheck e he
  unfold KeyIndex.checkKey at hkey
  split at hkey
  · assumption
  · cases hkey

/-!
## Tests of the columns of declared indices
-/

theorem Sound.exists_index (h : s.Sound) {d : IndexDecl} {position : Nat} {column : Column}
    (hd : d ∈ s.table.indices) (hp : s.table.columnPosition? d.column = some position)
    (hc : s.table.column? d.column = some column) :
    ∃ c ∈ s.indices, c.index.name = d.fullName ∧ c.position = position ∧
      c.index.keyType = column.type := by
  have hmem := mem_emptyIndices_iff.mpr ⟨d, hd, position, column, hp, hc, rfl⟩
  rw [← h.shaped] at hmem
  rcases List.mem_map.mp hmem with ⟨c, hcIn, heq⟩
  refine ⟨c, hcIn, ?_, ?_, ?_⟩
  · exact congrArg (fun c : ColumnIndex => c.index.name) heq
  · exact congrArg (fun c : ColumnIndex => c.position) heq
  · exact congrArg (fun c : ColumnIndex => c.index.keyType) heq

theorem Sound.any_value (h : s.Sound) (hc : c ∈ s.indices) {p : Value → Bool} {row : Row}
    (hrow : row ∈ s.toList) : row.values[c.position]?.any p = p (c.keyOf row) := by
  rcases h.matchesColumn hc with ⟨column, hcolumn, _⟩
  rcases Table.getElem?_of_checkRow (h.checked (h.mem_toList_iff.mp hrow)) hcolumn with ⟨v, hv⟩
  simp [ColumnIndex.keyOf, hv]

/-- The ranges that stand for a checked test whose placeholders were bound read, from every
index declared over its column, each row of which the test holds once and no other row. -/
theorem Written.scanRanges_answer (h : s.Written) {d : IndexDecl} {t : ColumnTest}
    (hd : d ∈ s.table.indices)
    (hposition : s.table.columnPosition? d.column = some t.column.position)
    (htype : s.table.columns[t.column.position]?.map (·.type) = some t.column.type)
    (hcheck : (Predicate.condition (.test t)).check = .ok ())
    (hbound : (Predicate.condition (.test t)).slots = 0 ∨
      ∃ p values, Predicate.bind p values = .ok (.condition (.test t)))
    (hranges : t.keyRanges? = some ranges) :
    ∃ rows, s.scanRanges d.fullName ranges = .ok rows ∧ (rows.map (·.id)).Nodup ∧
      rows.Perm (s.toList.filter fun row => row.values[t.column.position]?.any t.holdsOf) := by
  have hs := h.sound
  rcases Option.map_eq_some_iff.mp htype with ⟨column, hcolumn, hcolumnType⟩
  have hfound := (Table.column?_eq_getElem? hposition).trans hcolumn
  rcases hs.exists_index hd hposition hfound with ⟨c, hc, hname, hplace, hkeyType⟩
  have hsettled : (Predicate.condition (.test t)).Settled := by
    rcases hbound with hslots | ⟨p, values, hbind⟩
    · exact Predicate.settled_of_slots hslots
    · exact Predicate.settled_of_bind hbind
  have hsuited : t.Suited := Predicate.suited_of_check hcheck hsettled List.mem_cons_self
  rcases hs.scanRanges_perm h.definable.indicesNamed hc (hsuited.readAs hranges)
      (hcolumnType.symm.trans hkeyType.symm) with ⟨rows, hrows, hperm⟩
  have hfilter : (s.toList.filter fun row => row.values[t.column.position]?.any t.holdsOf) =
      s.toList.filter fun row => t.holdsOf (c.keyOf row) := by
    apply List.filter_congr
    intro row hrow
    rw [← hplace, hs.any_value hc hrow]
  refine ⟨rows, hname ▸ hrows, ?_, hfilter ▸ hperm⟩
  have hids : (s.toList.map (·.id)).Nodup := by
    rw [hs.map_id_toList]
    exact hs.ordered.nodup_keys
  exact (hperm.map _).nodup_iff.mpr (hids.sublist (List.filter_sublist.map _))

def sizeAmong (given : Option Value) : ColumnTest where
  column := { table := "item", column := "size", position := 1, type := .float64 }
  comparison := .isIn
  operands := [.placeholder 0 given, .literal .null, .literal (.float64 ⟨0x8000000000000000⟩),
    .literal (.float64 ⟨0⟩)]

def fourItems : TableStore :=
  (empty .items).after
    [.insert { id := 1, values := [.int64 7, .float64 ⟨0⟩] },
      .insert { id := 2, values := [.int64 8, .float64 ⟨0x8000000000000000⟩] },
      .insert { id := 3, values := [.int64 9, .float64 ⟨0x3ff0000000000000⟩] },
      .insert { id := 4, values := [.int64 10, .null] }]

theorem keyRanges?_sizeAmong :
    (sizeAmong (some (.float64 ⟨0⟩))).keyRanges? = some [.only (.float64 ⟨0⟩)] := by
  cbv

theorem items_of_size_zero_are_read_once :
    ∃ rows, fourItems.scanRanges "item.bySize" [.only (.float64 ⟨0⟩)] = .ok rows ∧
      (rows.map (·.id)).Perm [1, 2] := by
  have hwritten : fourItems.Written := ⟨.items, _, .built Table.built_items, rfl⟩
  have hbind : Predicate.bind (.condition (.test (sizeAmong none))) [.float64 ⟨0⟩] =
      .ok (.condition (.test (sizeAmong (some (.float64 ⟨0⟩))))) := rfl
  rcases hwritten.scanRanges_answer (d := { name := "bySize", table := "item", column := "size" })
    List.mem_cons_self rfl rfl rfl (Or.inr ⟨_, _, hbind⟩) keyRanges?_sizeAmong with
    ⟨rows, hrows, _, hperm⟩
  exact ⟨rows, hrows, hperm.map (·.id)⟩

end TableStore

end RelationalDb
