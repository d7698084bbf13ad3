import Mathlib
import RelationalDb.Proofs.Actions
import RelationalDb.Schema.Draft

/-!
# What every drafted table has in common

The names in a drafted table are well formed and distinct, its indices belong to it, and
they stand over columns that can be keys.  Every step of a draft keeps this, and finishing
the draft hands it on to the table.
-/

namespace RelationalDb

/-!
## Names
-/

def IsName (name : String) : Prop :=
  ∃ c rest, name.toList = c :: rest ∧ isNameStart c = true ∧ ∀ x ∈ rest, isNameRest x = true

variable {name : String}

theorem checkName_eq_ok_iff : checkName name = .ok () ↔ IsName name := by
  unfold checkName IsName
  cases name.toList with
  | nil => simp
  | cons c rest =>
      by_cases hc : isNameStart c = true
      · cases hrest : rest.all isNameRest with
        | true => simpa [hc, hrest] using List.all_eq_true.mp hrest
        | false => simpa [hc, hrest] using List.all_eq_false.mp hrest
      · simp [hc]

theorem isNameRest_of_isNameStart {c : Char} (h : isNameStart c = true) :
    isNameRest c = true := by
  simp only [isNameStart, isNameRest, Char.isAlphanum, Bool.or_eq_true] at h ⊢
  tauto

theorem isNameRest_toUpper {c : Char} (h : isNameStart c = true) :
    isNameRest c.toUpper = true := by
  simp only [isNameStart, Bool.or_eq_true, beq_iff_eq] at h
  rcases h with h | rfl
  · simp [isNameRest, Char.isAlphanum, h]
  · decide

theorem IsName.isNameRest_of_mem (h : IsName name) {x : Char} (hx : x ∈ name.toList) :
    isNameRest x = true := by
  rcases h with ⟨c, rest, hname, hc, hrest⟩
  rw [hname] at hx
  rcases List.mem_cons.mp hx with rfl | hx
  · exact isNameRest_of_isNameStart hc
  · exact hrest x hx

theorem IsName.dot_not_mem (h : IsName name) : '.' ∉ name.toList := by
  intro hdot
  exact absurd (h.isNameRest_of_mem hdot) (by decide)

theorem IsName.hash_not_mem (h : IsName name) : '#' ∉ name.toList := by
  intro hhash
  exact absurd (h.isNameRest_of_mem hhash) (by decide)

theorem isName_primaryKeyName (h : IsName name) : IsName (TableDraft.primaryKeyName name) := by
  rcases h with ⟨c, rest, hname, hc, hrest⟩
  refine ⟨'p', 'k' :: c.toUpper :: rest, ?_, by decide, ?_⟩
  · simp only [TableDraft.primaryKeyName, hname, String.toList_append, String.toList_ofList]
    rfl
  · simp only [List.mem_cons]
    rintro x (rfl | rfl | hx)
    · decide
    · exact isNameRest_toUpper hc
    · exact hrest x hx

namespace TableDraft

variable {d d' : TableDraft} {column : String}

/-!
## Steps
-/

/-- The drafts that some sequence of steps leads to. -/
inductive Drafted : TableDraft → Prop
  | start {d : TableDraft} {name : String} (h : start name = .ok d) : Drafted d
  | addColumn {d d' : TableDraft} {name : String} {type : ColumnType} (hd : Drafted d)
      (h : d.addColumn name type = .ok d') : Drafted d'
  | allowNull {d : TableDraft} (hd : Drafted d) (names : List String) : Drafted (d.allowNull names)
  | labelColumn {d d' : TableDraft} {name label : String} (hd : Drafted d)
      (h : d.labelColumn name label = .ok d') : Drafted d'
  | setPrimaryKey {d d' : TableDraft} {column : String} (hd : Drafted d)
      (h : d.setPrimaryKey column = .ok d') : Drafted d'
  | addIndex {d d' : TableDraft} {name column : String} {unique : Bool} {direction : Direction}
      (hd : Drafted d) (h : d.addIndex name column unique direction = .ok d') : Drafted d'
  | addUnique {d d' : TableDraft} {name column : String} (hd : Drafted d)
      (h : d.addUnique name column = .ok d') : Drafted d'
  | persistIndices {d : TableDraft} (hd : Drafted d) (choice : Bool) :
      Drafted (d.persistIndices choice)

def signature (d : TableDraft) : List (String × ColumnType) :=
  d.columns.map fun c => (c.name, c.type)

def HasKey (d : TableDraft) (column : String) : Prop :=
  ∃ type, (column, type) ∈ d.signature ∧ type.isIndexable = true

/-- Well-formed, distinct names, and indices of this table over columns that can be keys. -/
structure Coherent (d : TableDraft) : Prop where
  named : IsName d.name
  columnsNamed : ∀ c ∈ d.signature, IsName c.1
  columnsDistinct : (d.signature.map (·.1)).Nodup
  indicesNamed : ∀ i ∈ d.indices, IsName i.name
  indicesDistinct : (d.indices.map (·.name)).Nodup
  indicesOwn : ∀ i ∈ d.indices, i.table = d.name
  indicesKeyed : ∀ i ∈ d.indices, d.HasKey i.column
  keyed : ∀ column, d.keyColumn = some column → d.HasKey column

theorem signature_modifyColumn {f : Column → Column}
    (hf : ∀ c, ((f c).name, (f c).type) = (c.name, c.type)) :
    (d.modifyColumn name f).signature = d.signature := by
  simp only [signature, modifyColumn, List.map_map]
  apply List.map_congr_left
  intro c _
  by_cases h : c.name = name
  · simpa [h] using hf c
  · simp [h]

theorem Coherent.modifyColumn (h : d.Coherent) {f : Column → Column}
    (hf : ∀ c, ((f c).name, (f c).type) = (c.name, c.type)) :
    (d.modifyColumn name f).Coherent := by
  have hsig : (d.modifyColumn name f).signature = d.signature := signature_modifyColumn hf
  have hkey : ∀ column, (d.modifyColumn name f).HasKey column ↔ d.HasKey column := by
    intro column
    rw [HasKey, hsig, HasKey]
  exact
    { named := h.named
      columnsNamed := by
        rw [hsig]
        exact h.columnsNamed
      columnsDistinct := by
        rw [hsig]
        exact h.columnsDistinct
      indicesNamed := h.indicesNamed
      indicesDistinct := h.indicesDistinct
      indicesOwn := h.indicesOwn
      indicesKeyed := fun i hi => (hkey _).mpr (h.indicesKeyed i hi)
      keyed := fun column hcolumn => (hkey _).mpr (h.keyed column hcolumn) }

theorem Coherent.allowNull (h : d.Coherent) (names : List String) :
    (d.allowNull names).Coherent := by
  unfold TableDraft.allowNull
  induction names generalizing d with
  | nil => exact h
  | cons name names ih =>
      apply ih
      exact h.modifyColumn fun c => rfl

theorem hasKey_of_checkKey (h : d.checkKey column = .ok ()) : d.HasKey column := by
  unfold checkKey at h
  split at h
  · cases h
  · next c hfind =>
      have hname : c.name = column := by simpa using List.find?_some hfind
      split at h
      · next hindexable =>
          refine ⟨c.type, ?_, hindexable⟩
          rw [← hname]
          exact List.mem_map_of_mem (List.mem_of_find?_eq_some hfind)
      · cases h

theorem Coherent.start (h : TableDraft.start name = .ok d) : d.Coherent := by
  rcases Outcome.bind_eq_ok_iff.mp h with ⟨u, hname, hd⟩
  cases hd
  exact
    { named := checkName_eq_ok_iff.mp hname
      columnsNamed := by simp [signature]
      columnsDistinct := by simp [signature]
      indicesNamed := by simp
      indicesDistinct := by simp
      indicesOwn := by simp
      indicesKeyed := by simp
      keyed := by simp }

theorem Coherent.addColumn (h : d.Coherent) {type : ColumnType}
    (hd : d.addColumn name type = .ok d') : d'.Coherent := by
  rcases Outcome.bind_eq_ok_iff.mp hd with ⟨u, hname, hd⟩
  by_cases hnew : d.hasColumn name = true
  · simp [hnew] at hd
  · simp only [hnew] at hd
    cases hd
    have hsig : ({ d with columns := d.columns ++ [{ name := name, type := type }] } :
        TableDraft).signature = d.signature ++ [(name, type)] := by
      simp [signature]
    have hkey : ∀ {column}, d.HasKey column →
        ({ d with columns := d.columns ++ [{ name := name, type := type }] } :
          TableDraft).HasKey column := by
      rintro column ⟨type, hmem, hindexable⟩
      refine ⟨type, ?_, hindexable⟩
      rw [hsig]
      exact List.mem_append_left _ hmem
    exact
      { named := h.named
        columnsNamed := by
          rw [hsig]
          simp only [List.mem_append, List.mem_singleton]
          rintro c (hc | rfl)
          · exact h.columnsNamed c hc
          · exact checkName_eq_ok_iff.mp hname
        columnsDistinct := by
          rw [hsig, List.map_append, List.nodup_append]
          refine ⟨h.columnsDistinct, by simp, ?_⟩
          simp only [hasColumn, List.any_eq_true, beq_iff_eq, not_exists, not_and] at hnew
          simp only [signature, List.map_map, List.mem_map, List.map_cons, List.map_nil,
            List.mem_singleton]
          rintro a ⟨c, hc, rfl⟩ b rfl
          exact hnew c hc
        indicesNamed := h.indicesNamed
        indicesDistinct := h.indicesDistinct
        indicesOwn := h.indicesOwn
        indicesKeyed := fun i hi => hkey (h.indicesKeyed i hi)
        keyed := fun column hcolumn => hkey (h.keyed column hcolumn) }

theorem Coherent.setPrimaryKey (h : d.Coherent) (hd : d.setPrimaryKey column = .ok d') :
    d'.Coherent := by
  unfold TableDraft.setPrimaryKey at hd
  by_cases hsome : d.keyColumn.isSome = true
  · simp [hsome] at hd
  · simp only [hsome] at hd
    rcases Outcome.bind_eq_ok_iff.mp hd with ⟨u, hcheck, hd⟩
    cases hd
    exact
      { named := h.named
        columnsNamed := h.columnsNamed
        columnsDistinct := h.columnsDistinct
        indicesNamed := h.indicesNamed
        indicesDistinct := h.indicesDistinct
        indicesOwn := h.indicesOwn
        indicesKeyed := h.indicesKeyed
        keyed := by
          intro column' hcolumn
          cases hcolumn
          exact hasKey_of_checkKey hcheck }

theorem Coherent.withIndex (h : d.Coherent) {i : IndexDecl} (hname : IsName i.name)
    (hnew : ¬ d.hasIndex i.name = true) (htable : i.table = d.name) (hkey : d.HasKey i.column) :
    ({ d with indices := d.indices ++ [i] } : TableDraft).Coherent where
  named := h.named
  columnsNamed := h.columnsNamed
  columnsDistinct := h.columnsDistinct
  indicesNamed := by
    simp only [List.mem_append, List.mem_singleton]
    rintro i' (hi | rfl)
    · exact h.indicesNamed i' hi
    · exact hname
  indicesDistinct := by
    rw [List.map_append, List.nodup_append]
    refine ⟨h.indicesDistinct, by simp, ?_⟩
    simp only [hasIndex, List.any_eq_true, beq_iff_eq, not_exists, not_and] at hnew
    simp only [List.mem_map, List.map_cons, List.map_nil, List.mem_singleton]
    rintro a ⟨i', hi, rfl⟩ b rfl
    exact hnew i' hi
  indicesOwn := by
    simp only [List.mem_append, List.mem_singleton]
    rintro i' (hi | rfl)
    · exact h.indicesOwn i' hi
    · exact htable
  indicesKeyed := by
    simp only [List.mem_append, List.mem_singleton]
    rintro i' (hi | rfl)
    · exact h.indicesKeyed i' hi
    · exact hkey
  keyed := h.keyed

theorem Coherent.addIndex (h : d.Coherent) {unique : Bool} {direction : Direction}
    (hd : d.addIndex name column unique direction = .ok d') : d'.Coherent := by
  rcases Outcome.bind_eq_ok_iff.mp hd with ⟨u, hname, hd⟩
  by_cases hnew : d.hasIndex name = true
  · simp [hnew] at hd
  · simp only [hnew] at hd
    rcases Outcome.bind_eq_ok_iff.mp hd with ⟨u, hcheck, hd⟩
    cases hd
    exact h.withIndex (checkName_eq_ok_iff.mp hname) hnew rfl (hasKey_of_checkKey hcheck)

theorem Coherent.labelColumn (h : d.Coherent) {label : String}
    (hd : d.labelColumn name label = .ok d') : d'.Coherent := by
  unfold TableDraft.labelColumn at hd
  split at hd
  · cases hd
    exact h.modifyColumn fun c => rfl
  · cases hd

theorem Coherent.persistIndices (h : d.Coherent) (choice : Bool) :
    (d.persistIndices choice).Coherent :=
  ⟨h.named, h.columnsNamed, h.columnsDistinct, h.indicesNamed, h.indicesDistinct, h.indicesOwn,
    h.indicesKeyed, h.keyed⟩

theorem Drafted.coherent (h : d.Drafted) : d.Coherent := by
  induction h with
  | start h => exact Coherent.start h
  | addColumn _ h ih => exact ih.addColumn h
  | allowNull _ names ih => exact ih.allowNull names
  | labelColumn _ h ih => exact ih.labelColumn h
  | setPrimaryKey _ h ih => exact ih.setPrimaryKey h
  | addIndex _ h ih => exact ih.addIndex h
  | addUnique _ h ih => exact ih.addIndex h
  | persistIndices _ choice ih => exact ih.persistIndices choice

end TableDraft

namespace Table

def Built (t : Table) : Prop :=
  ∃ d : TableDraft, d.Drafted ∧ d.finish = .ok t

/-- A table under its own name, with well-formed, distinct names and with indices of its own
over columns that can be keys. -/
structure WellFormed (t : Table) : Prop where
  named : IsName t.name
  unaliased : t.byname = none
  columnsNamed : ∀ c ∈ t.columns, IsName c.name
  columnsDistinct : (t.columns.map (·.name)).Nodup
  indicesNamed : ∀ i ∈ t.indices, IsName i.name
  indicesDistinct : (t.indices.map (·.name)).Nodup
  indicesOwn : ∀ i ∈ t.indices, i.table = t.name
  indicesKeyed : ∀ i ∈ t.indices, ∃ c ∈ t.columns, c.name = i.column ∧ c.type.isIndexable = true

end Table

theorem TableDraft.Coherent.wellFormed {d : TableDraft} {t : Table} (h : d.Coherent)
    (hname : t.name = d.name) (halias : t.byname = none) (hcolumns : t.columns = d.columns)
    (hindices : t.indices = d.indices) : t.WellFormed where
  named := hname ▸ h.named
  unaliased := halias
  columnsNamed := by
    rw [hcolumns]
    exact fun c hc => h.columnsNamed _ (List.mem_map_of_mem hc)
  columnsDistinct := by
    have hdistinct := h.columnsDistinct
    rw [signature, List.map_map] at hdistinct
    rw [hcolumns]
    exact hdistinct
  indicesNamed := hindices ▸ h.indicesNamed
  indicesDistinct := hindices ▸ h.indicesDistinct
  indicesOwn := by
    rw [hindices, hname]
    exact h.indicesOwn
  indicesKeyed := by
    rw [hindices, hcolumns]
    intro i hi
    rcases h.indicesKeyed i hi with ⟨type, hmem, hindexable⟩
    rcases List.mem_map.mp hmem with ⟨c, hc, heq⟩
    rcases Prod.mk.inj heq with ⟨hcolumn, rfl⟩
    exact ⟨c, hc, hcolumn, hindexable⟩

theorem TableDraft.Coherent.finish {d : TableDraft} {t : Table} (h : d.Coherent)
    (ht : d.finish = .ok t) : t.WellFormed := by
  unfold TableDraft.finish at ht
  by_cases hempty : d.columns.isEmpty = true
  · simp [hempty] at ht
  · simp only [hempty] at ht
    cases hkeyColumn : d.keyColumn with
    | none =>
        simp only [hkeyColumn] at ht
        cases ht
        exact h.wellFormed rfl rfl rfl (List.append_nil _)
    | some column =>
        simp only [hkeyColumn] at ht
        by_cases hnew : d.hasIndex (primaryKeyName d.name) = true
        · simp [hnew] at ht
        · simp only [hnew] at ht
          cases ht
          have hmore := h.withIndex
            (i := { name := primaryKeyName d.name, table := d.name, column := column, unique := true })
            (isName_primaryKeyName h.named) hnew rfl (h.keyed column hkeyColumn)
          exact hmore.wellFormed rfl rfl rfl rfl

theorem Table.Built.wellFormed {t : Table} (h : t.Built) : t.WellFormed := by
  rcases h with ⟨d, hd, ht⟩
  exact hd.coherent.finish ht

theorem Table.Built.unique_primaryKey {t : Table} (h : t.Built) {d : IndexDecl}
    (hd : t.primaryKey = some d) : d.unique = true := by
  rcases h with ⟨draft, _, ht⟩
  unfold TableDraft.finish at ht
  by_cases hempty : draft.columns.isEmpty = true
  · simp [hempty] at ht
  · simp only [hempty] at ht
    cases hkeyColumn : draft.keyColumn with
    | none =>
        simp only [hkeyColumn] at ht
        cases ht
        cases hd
    | some column =>
        simp only [hkeyColumn] at ht
        by_cases hnew : draft.hasIndex (TableDraft.primaryKeyName draft.name) = true
        · simp [hnew] at ht
        · simp only [hnew] at ht
          cases ht
          cases hd
          rfl

/-!
## Tables of all kinds
-/

namespace Table

/-- Drafted tables, lists of columns under a name, and such tables under an alias. -/
inductive Definable : Table → Prop
  | built {t : Table} (h : t.Built) : Definable t
  | ofColumns (name : String) (columns : List Column) :
      Definable { name := name, columns := columns }
  | withAlias {t : Table} (h : Definable t) (byname : String) : Definable (t.withAlias byname)

/-- Names by which the indices of a table are told apart. -/
structure IndicesNamed (t : Table) : Prop where
  named : ∀ i ∈ t.indices, IsName i.name
  distinct : (t.indices.map (·.name)).Nodup
  own : ∀ i ∈ t.indices, i.table = t.name

variable {t : Table}

theorem WellFormed.indicesNamedApart (h : t.WellFormed) : t.IndicesNamed :=
  ⟨h.indicesNamed, h.indicesDistinct, h.indicesOwn⟩

theorem Definable.indicesNamed (h : t.Definable) : t.IndicesNamed := by
  induction h with
  | built h => exact h.wellFormed.indicesNamedApart
  | ofColumns name columns => exact ⟨nofun, List.nodup_nil, nofun⟩
  | withAlias _ byname ih => exact ⟨ih.named, ih.distinct, ih.own⟩

theorem IndicesNamed.nodup_fullName (h : t.IndicesNamed) :
    (t.indices.map (·.fullName)).Nodup := by
  have hmap : t.indices.map (·.fullName) = (t.indices.map (·.name)).map (t.name ++ "." ++ ·) := by
    rw [List.map_map]
    apply List.map_congr_left
    intro i hi
    simp [IndexDecl.fullName, h.own i hi]
  rw [hmap]
  apply h.distinct.map
  intro a b hab
  simpa [String.append_right_inj] using hab

end Table

/-!
## A small table
-/

namespace Table

def items : Table where
  name := "item"
  columns := [{ name := "number", type := .int64 }, { name := "size", type := .float64 }]
  secondaryIndices := [{ name := "bySize", table := "item", column := "size" }]
  primaryKey := some { name := "pkItem", table := "item", column := "number", unique := true }

def itemsDraft : TableDraft where
  name := "item"
  columns := items.columns
  indices := items.secondaryIndices
  keyColumn := some "number"

theorem drafted_itemsDraft : itemsDraft.Drafted := by
  have hstart := @TableDraft.Drafted.start _ "item" rfl
  have hnumber := @TableDraft.Drafted.addColumn _ _ "number" .int64 hstart rfl
  have hsize := @TableDraft.Drafted.addColumn _ _ "size" .float64 hnumber rfl
  have hindex := @TableDraft.Drafted.addIndex _ _ "bySize" "size" false .ascending hsize rfl
  exact @TableDraft.Drafted.setPrimaryKey _ _ "number" hindex rfl

theorem built_items : items.Built :=
  ⟨itemsDraft, drafted_itemsDraft, rfl⟩

end Table

end RelationalDb
