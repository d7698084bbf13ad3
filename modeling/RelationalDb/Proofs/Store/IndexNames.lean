import Mathlib
import RelationalDb.Proofs.Schema.Catalogs
import RelationalDb.Proofs.Store.Soundness
import RelationalDb.Store.Journal

/-!
# The names of indices

No write changes the name of an index or the column it stands over, whether it succeeds or
fails and whatever state the indices are in.  However a store is loaded, its indices have the
declared names.  So the name of every index begins with that of its table, and no index is
stored where rows are.
-/

namespace RelationalDb

theorem Action.map_onEach {σ β : Type} {a : Action σ Unit} {f : σ → β}
    (h : ∀ s, f (a.perform s).2 = f s) (l : List σ) :
    ((onEach a).perform l).2.map f = l.map f := by
  induction l with
  | nil => rfl
  | cons s rest ih =>
      have hs := h s
      rw [perform_onEach_cons]
      rcases hperform : a.perform s with ⟨r, s'⟩
      rw [hperform] at hs
      cases r with
      | error e => rw [List.map_cons, List.map_cons, hs]
      | ok u => rw [List.map_cons, List.map_cons, ih, hs]

namespace RowIdIndex

variable {i i' : RowIdIndex} {key : Value}

theorem name_of_add (h : i.add key = .ok i') : i'.name = i.name := by
  unfold add at h
  rcases Outcome.bind_eq_ok_iff.mp h with ⟨id, _, hrest⟩
  cases hheld : i.holds id with
  | true =>
      rw [hheld] at hrest
      cases hrest
      rfl
  | false =>
      rw [hheld] at hrest
      cases hrest
      rfl

theorem name_of_foldlM_add {keys : List Value} (h : keys.foldlM add i = .ok i') :
    i'.name = i.name := by
  induction keys generalizing i with
  | nil =>
      cases h
      rfl
  | cons key rest ih =>
      rcases Outcome.bind_eq_ok_iff.mp h with ⟨i₁, hadd, hrest⟩
      exact (ih hrest).trans (name_of_add hadd)

theorem name_of_ofRows {name : String} {rows : List Row} (h : ofRows name rows = .ok i) :
    i.name = name := by
  have hfold : ∀ {rows : List Row} {i₀ i : RowIdIndex}, rows.foldlM
      (fun i row => if row.id = reservedRowId then row.values.foldlM add i
        else .error (.data (.idRowUnexpected name row.id))) i₀ = .ok i → i.name = i₀.name := by
    intro rows
    induction rows with
    | nil =>
        intro i₀ i h
        cases h
        rfl
    | cons row rest ih =>
        intro i₀ i h
        rcases Outcome.bind_eq_ok_iff.mp h with ⟨i₁, hrow, hrest⟩
        dsimp only at hrow
        split at hrow
        · exact (ih hrest).trans (name_of_foldlM_add hrow)
        · cases hrow
  exact hfold h

end RowIdIndex

namespace ColumnIndex

variable {c : ColumnIndex} {row old new : Row}

theorem name_of_add {i i' : KeyIndex} {key : Value} {id : RowId} (h : i.add key id = .ok i') :
    i'.name = i.name := by
  rcases KeyIndex.eq_of_add h with rfl | rfl
  · rfl
  · rfl

theorem name_remove (i : KeyIndex) (key : Value) (id : RowId) :
    (i.remove key id).name = i.name := by
  unfold KeyIndex.remove
  split
  · rfl
  · rfl

def label (c : ColumnIndex) : Nat × String :=
  (c.position, c.index.name)

theorem label_enter (row : Row) (c : ColumnIndex) : ((enter row).perform c).2.label = c.label := by
  rw [perform_enter]
  split
  · rfl
  · next hadd => exact congrArg (Prod.mk c.position) (name_of_add hadd)

theorem label_strike (row : Row) (c : ColumnIndex) :
    ((strike row).perform c).2.label = c.label :=
  congrArg (Prod.mk c.position) (name_remove _ _ _)

theorem label_move (old new : Row) (c : ColumnIndex) :
    ((move old new).perform c).2.label = c.label := by
  rw [perform_move]
  split
  · rfl
  · exact (label_enter new _).trans (congrArg (Prod.mk c.position) (name_remove _ _ _))

end ColumnIndex

namespace TableStore

variable {s s' : TableStore} {t : Table} {rows : List Row}

/-!
## Writes
-/

/-- Stores of one table whose indices have the same names and stand over the same columns. -/
structure SameLabels (s s' : TableStore) : Prop where
  table : s'.table = s.table
  ids : s'.rowIds.name = s.rowIds.name
  indices : s'.indices.map ColumnIndex.label = s.indices.map ColumnIndex.label

theorem SameLabels.refl (s : TableStore) : s.SameLabels s := ⟨rfl, rfl, rfl⟩

theorem SameLabels.trans {s'' : TableStore} (h : s.SameLabels s') (h' : s'.SameLabels s'') :
    s.SameLabels s'' where
  table := h'.table.trans h.table
  ids := h'.ids.trans h.ids
  indices := h'.indices.trans h.indices

theorem SameLabels.names (h : s.SameLabels s') :
    s'.indices.map (·.index.name) = s.indices.map (·.index.name) := by
  have hnames := congrArg (List.map Prod.snd) h.indices
  rwa [List.map_map, List.map_map] at hnames

theorem SameLabels.indexNames_eq (h : s.SameLabels s') :
    Journal.indexNames s' = Journal.indexNames s := by
  unfold Journal.indexNames allIndices
  rw [List.map_cons, List.map_cons, List.map_map, List.map_map]
  exact congrArg₂ List.cons h.ids h.names

theorem sameLabels_insert (row : Row) (s : TableStore) :
    s.SameLabels ((insert row).perform s).2 := by
  have hindices := Action.map_onEach (ColumnIndex.label_enter row) s.indices
  rw [perform_insert]
  split
  · exact .refl s
  · split
    · exact .refl s
    · exact .refl s
    · exact .refl s
    · next hadd henter =>
        rw [henter] at hindices
        exact ⟨rfl, RowIdIndex.name_of_add hadd, hindices⟩
    · next hadd henter =>
        rw [henter] at hindices
        exact ⟨rfl, RowIdIndex.name_of_add hadd, hindices⟩

theorem sameLabels_update (row : Row) (s : TableStore) :
    s.SameLabels ((update row).perform s).2 := by
  rw [perform_update]
  split
  · exact .refl s
  · next old _ =>
      have hindices := Action.map_onEach (ColumnIndex.label_move old row) s.indices
      split
      · exact .refl s
      · exact .refl s
      · next hmove =>
          rw [hmove] at hindices
          exact ⟨rfl, rfl, hindices⟩
      · next hmove =>
          rw [hmove] at hindices
          exact ⟨rfl, rfl, hindices⟩

theorem sameLabels_delete (id : RowId) (s : TableStore) :
    s.SameLabels ((delete id).perform s).2 := by
  rw [perform_delete]
  split
  · exact .refl s
  · next row _ =>
      exact ⟨rfl, RowIdIndex.name_remove _ _,
        Action.map_onEach (ColumnIndex.label_strike row) s.indices⟩

theorem indexNames_insert (row : Row) (s : TableStore) :
    Journal.indexNames ((insert row).perform s).2 = Journal.indexNames s :=
  (sameLabels_insert row s).indexNames_eq

theorem indexNames_update (row : Row) (s : TableStore) :
    Journal.indexNames ((update row).perform s).2 = Journal.indexNames s :=
  (sameLabels_update row s).indexNames_eq

theorem indexNames_delete (id : RowId) (s : TableStore) :
    Journal.indexNames ((delete id).perform s).2 = Journal.indexNames s :=
  (sameLabels_delete id s).indexNames_eq

/-!
## Loading
-/

def Qualified (s : TableStore) : Prop :=
  ∀ i ∈ s.allIndices, s.table.Qualifies i.name

theorem Qualified.of_names (h : s.Qualified) (htable : s'.table = s.table)
    (hnames : Journal.indexNames s' = Journal.indexNames s) : s'.Qualified := by
  intro i hi
  have hmem : i.name ∈ Journal.indexNames s := by
    rw [← hnames]
    exact List.mem_map_of_mem hi
  rcases List.mem_map.mp hmem with ⟨i', hi', heq⟩
  rw [htable, ← heq]
  exact h i' hi'

theorem qualified_empty (h : t.WellFormed) : (empty t).Qualified := by
  intro i hi
  rcases List.mem_cons.mp hi with rfl | hi
  · exact t.qualifies_rowIdIndexName
  · rcases List.mem_map.mp hi with ⟨c, hc, rfl⟩
    rcases mem_emptyIndices_iff.mp hc with ⟨d, hd, position, column, _, _, rfl⟩
    exact h.qualifies_fullName hd

theorem sameLabels_ofRows (h : ofRows t rows = .ok s) : (empty t).SameLabels s := by
  rcases Action.finalState_eq_ok_iff.mp h with ⟨r, hperform⟩
  have hkept := Action.Keeps.forM (l := rows) (f := insert) (P := fun s => (empty t).SameLabels s)
    (fun row _ s hs => hs.trans (sameLabels_insert row s)) (empty t) (.refl _)
  rw [hperform] at hkept
  exact hkept

theorem of_takeOut {α : Type} {p : α → Bool} {items rest : List α} {a : α}
    (h : takeOut p items = some (a, rest)) : p a = true := by
  unfold takeOut at h
  split at h
  · cases h
  · next i hi =>
      rcases List.findIdx?_eq_some_iff_getElem.mp hi with ⟨hlt, hp, _⟩
      rw [List.getElem?_eq_getElem hlt] at h
      cases hlast : items.getLast? with
      | none =>
          rw [hlast] at h
          cases h
      | some last =>
          rw [hlast] at h
          cases h
          exact hp

theorem labels_adopt (cs : List ColumnIndex) (supplied : List KeyIndex) :
    (adopt cs supplied).map (·.1.label) = cs.map ColumnIndex.label := by
  induction cs generalizing supplied with
  | nil => rfl
  | cons c rest ih =>
      rw [adopt]
      split
      · next index supplied' htake =>
          have hname : index.name = c.index.name := by simpa using of_takeOut htake
          rw [List.map_cons, List.map_cons, ih]
          exact congrArg (· :: _) (congrArg (Prod.mk c.position) hname)
      · rw [List.map_cons, List.map_cons, ih]

theorem labels_enterAnew {row : Row} {marked marked' : List (ColumnIndex × Bool)}
    (h : enterAnew row marked = .ok marked') :
    marked'.map (·.1.label) = marked.map (·.1.label) := by
  unfold enterAnew at h
  rw [Outcome.mapM_eq_ok_iff] at h
  symm
  rw [← List.forall₂_eq_eq_eq, List.forall₂_map_left_iff, List.forall₂_map_right_iff]
  apply h.imp
  rintro ⟨c, anew⟩ ⟨c', anew'⟩ hstep
  cases anew with
  | false =>
      cases hstep
      rfl
  | true =>
      dsimp only at hstep
      rw [if_pos rfl] at hstep
      cases hfinal : Action.finalState (ColumnIndex.enter row) c with
      | error e =>
          rw [hfinal] at hstep
          cases hstep
      | ok c₁ =>
          rw [hfinal] at hstep
          cases hstep
          rcases Action.finalState_eq_ok_iff.mp hfinal with ⟨r, henter⟩
          have hlabel := ColumnIndex.label_enter row c
          rw [henter] at hlabel
          exact hlabel.symm

theorem labels_foldlM_enterAnew {marked marked' : List (ColumnIndex × Bool)}
    (h : rows.foldlM (fun marked row => enterAnew row marked) marked = .ok marked') :
    marked'.map (·.1.label) = marked.map (·.1.label) := by
  induction rows generalizing marked with
  | nil =>
      cases h
      rfl
  | cons row rest ih =>
      rcases Outcome.bind_eq_ok_iff.mp h with ⟨marked₁, hrow, hrest⟩
      exact (ih hrest).trans (labels_enterAnew hrow)

end TableStore

end RelationalDb
