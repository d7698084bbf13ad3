import Mathlib
import RelationalDb.Database.Opening
import RelationalDb.Proofs.Database.Backstores
import RelationalDb.Proofs.Database.Transactions

/-!
# Opening a database

Whatever the backstore holds, a database that opens has a store for every table under its
name, with the rows under their ids, and no transaction is going on.
-/

namespace RelationalDb

namespace TableStore

variable {t : Table} {s : TableStore} {rows : List Row}

theorem keeps_keyed (row : Row) :
    Action.Keeps (fun s : TableStore => s.Keyed ∧ s.table = t) (insert row) := by
  intro s h
  rcases hperform : (insert row).perform s with ⟨r, s'⟩
  cases r with
  | error e =>
      rcases insert_error hperform with ⟨hrows, htable⟩
      refine ⟨⟨?_, ?_⟩, htable.trans h.2⟩
      · rw [hrows]
        exact h.1.ordered
      · rw [hrows]
        exact h.1.id_eq
  | ok u =>
      rcases insert_eq_ok hperform with ⟨_, _, _, rowIds, indices, _, _, rfl⟩
      exact ⟨h.1.put rfl, h.2⟩

theorem keyed_ofRows (h : ofRows t rows = .ok s) : s.Keyed ∧ s.table = t := by
  rcases Action.finalState_eq_ok_iff.mp h with ⟨r, hperform⟩
  have hkept := Action.Keeps.forM (l := rows) (fun row _ => keeps_keyed (t := t) row) (empty t)
    ⟨(sound_empty t).toKeyed, rfl⟩
  rw [hperform] at hkept
  exact hkept

theorem ofParts_eq_ok {rowIds : RowIdIndex} {supplied : List KeyIndex}
    (h : ofParts t rows rowIds supplied = .ok s) :
    rowIds.size = rows.length ∧
      ∃ marked, rows.foldlM (fun marked row => enterAnew row marked)
          (adopt (emptyIndices t) supplied) = .ok marked ∧
        s = { table := t, rows := .ofList (rows.map fun row => (row.id, row)), rowIds := rowIds
              indices := marked.map (·.1) } := by
  unfold ofParts at h
  by_cases hsize : rowIds.size ≠ rows.length
  · rw [if_pos hsize] at h
    cases h
  · rw [if_neg hsize] at h
    rcases Outcome.bind_eq_ok_iff.mp h with ⟨marked, hmarked, hs⟩
    cases hs
    exact ⟨not_not.mp hsize, marked, hmarked, rfl⟩

theorem sameLabels_ofParts {rowIds : RowIdIndex} {supplied : List KeyIndex}
    (hids : rowIds.name = t.rowIdIndexName) (h : ofParts t rows rowIds supplied = .ok s) :
    (empty t).SameLabels s := by
  rcases ofParts_eq_ok h with ⟨_, marked, hmarked, rfl⟩
  refine ⟨rfl, hids, ?_⟩
  rw [List.map_map]
  exact (labels_foldlM_enterAnew hmarked).trans (labels_adopt _ _)

theorem keyed_ofParts {rowIds : RowIdIndex} {supplied : List KeyIndex}
    (h : ofParts t rows rowIds supplied = .ok s) : s.Keyed ∧ s.table = t := by
  rcases ofParts_eq_ok h with ⟨_, marked, _, rfl⟩
  refine ⟨⟨SortedMap.ordered_ofList _, ?_⟩, rfl⟩
  apply RowMap.keyed_putAll SortedMap.ordered_empty
  intro id row hrow
  cases hrow

end TableStore

namespace Backstore

variable {t : Table} {s : TableStore} {b b' : Backstore} {name : String} {rows : List Row}

theorem keeps_read (b : Backstore) (name : String) : Action.Keeps (Alike b) (read name) := by
  refine (keeps_call b .read).bind fun _ => ?_
  refine Action.keeps_get.bind fun _ => ?_
  exact Action.keeps_ofOutcome _

theorem keeps_readIndex (b : Backstore) (name : String) :
    Action.Keeps (Alike b) (readIndex name) := by
  refine (keeps_read b name).attempt.bind fun r => ?_
  split
  · exact Action.keeps_pure _
  · exact Action.keeps_pure _
  · split
    · exact Action.keeps_pure _
    · exact Action.keeps_throw _

theorem keeps_readIndices (b : Backstore) (l : List IndexDecl) :
    Action.Keeps (Alike b) (readIndices l) := by
  induction l with
  | nil => exact Action.keeps_pure _
  | cons i rest ih =>
      refine (keeps_readIndex b i.fullName).bind fun rows? => ?_
      cases rows? with
      | none => exact ih
      | some rows =>
          refine (Action.keeps_ofOutcome _).bind fun index => ?_
          exact ih.bind fun _ => Action.keeps_pure _

theorem keeps_loadTable (b : Backstore) (t : Table) (persistent : Bool) :
    Action.Keeps (Alike b) (loadTable t persistent) := by
  refine (keeps_read b t.name).bind fun rows => ?_
  split
  · exact Action.keeps_ofOutcome _
  · refine (keeps_readIndex b t.rowIdIndexName).bind fun rows? => ?_
    cases rows? with
    | none => exact Action.keeps_ofOutcome _
    | some idRows =>
        refine (Action.keeps_ofOutcome _).bind fun rowIds => ?_
        refine (keeps_readIndices b t.indices).bind fun indices => ?_
        exact Action.keeps_ofOutcome _

theorem rows_of_read (h : (read name).perform b = (.ok rows, b')) : b.rows name = .ok rows := by
  rcases Action.perform_bind_eq_ok h with ⟨_, b₁, hcall, hrest⟩
  have hsame := keeps_call b .read b ⟨rfl, rfl⟩
  rw [hcall] at hsame
  have hrows : b₁.rows name = .ok rows := congrArg Prod.fst hrest
  unfold Backstore.rows at hrows ⊢
  rwa [hsame.1] at hrows

theorem loadTable_eq_ok {persistent : Bool}
    (h : (loadTable t persistent).perform b = (.ok s, b')) :
    ∃ rows, b.rows t.name = .ok rows ∧ (TableStore.ofRows t rows = .ok s ∨
      ∃ rowIds indices, rowIds.name = t.rowIdIndexName ∧
        TableStore.ofParts t rows rowIds indices = .ok s) := by
  unfold loadTable at h
  rcases Action.perform_bind_eq_ok h with ⟨rows, b₁, hread, h₁⟩
  refine ⟨rows, rows_of_read hread, ?_⟩
  by_cases hpersistent : (!persistent) = true
  · rw [if_pos hpersistent] at h₁
    exact Or.inl (congrArg Prod.fst h₁)
  · rw [if_neg hpersistent] at h₁
    rcases Action.perform_bind_eq_ok h₁ with ⟨idRows?, b₂, _, h₂⟩
    cases idRows? with
    | none => exact Or.inl (congrArg Prod.fst h₂)
    | some idRows =>
        rcases Action.perform_bind_eq_ok h₂ with ⟨rowIds, b₃, hids, h₃⟩
        rcases Action.perform_bind_eq_ok h₃ with ⟨indices, b₄, _, h₄⟩
        have hname := RowIdIndex.name_of_ofRows (congrArg Prod.fst hids)
        exact Or.inr ⟨rowIds, indices, hname, congrArg Prod.fst h₄⟩

theorem keyed_of_loadTable {persistent : Bool}
    (h : (loadTable t persistent).perform b = (.ok s, b')) : s.Keyed ∧ s.table = t := by
  rcases loadTable_eq_ok h with ⟨rows, _, hrows | ⟨rowIds, indices, _, hparts⟩⟩
  · exact TableStore.keyed_ofRows hrows
  · exact TableStore.keyed_ofParts hparts

theorem qualified_of_loadTable (ht : t.WellFormed) {persistent : Bool}
    (h : (loadTable t persistent).perform b = (.ok s, b')) : s.Qualified := by
  apply (TableStore.qualified_empty ht).of_names (keyed_of_loadTable h).2
  rcases loadTable_eq_ok h with ⟨rows, _, hrows | ⟨rowIds, indices, hids, hparts⟩⟩
  · exact (TableStore.sameLabels_ofRows hrows).indexNames_eq
  · exact (TableStore.sameLabels_ofParts hids hparts).indexNames_eq

end Backstore

namespace Committed

variable {c c' : Committed} {s : TableStore}

theorem wellKept_empty : ({} : Committed).WellKept where
  ordered := SortedMap.ordered_empty
  named := by
    intro table s h
    cases h
  keyed := by
    intro table s h
    cases h

theorem addStore_eq_ok (h : c.addStore s = .ok c') :
    c.store? s.table.name = none ∧ c' = { stores := c.stores.insert s.table.name s } := by
  unfold addStore at h
  split at h
  · cases h
  · next hcontains =>
      cases h
      exact ⟨SortedMap.contains_eq_false_iff.mp (by simpa using hcontains), rfl⟩

theorem WellKept.addStore (h : c.WellKept) (hs : s.Keyed) (hok : c.addStore s = .ok c') :
    c'.WellKept := by
  rcases addStore_eq_ok hok with ⟨_, rfl⟩
  constructor
  · exact h.ordered.insert _ _
  · intro table s' hs'
    exact SortedMap.forall_insert h.ordered (Q := fun table s => s.table.name = table) rfl h.named hs'
  · intro table s' hs'
    exact SortedMap.forall_insert h.ordered (Q := fun _ s => s.Keyed) hs h.keyed hs'

/-- Every store is that of one of the tables, and its indices are named after it. -/
structure Declared (tables : List Table) (c : Committed) : Prop where
  known : ∀ {name : String} {s : TableStore}, c.store? name = some s → s.table ∈ tables
  qualified : ∀ {name : String} {s : TableStore}, c.store? name = some s → s.Qualified

theorem Declared.addStore {tables : List Table} (h : c.Declared tables) (hc : c.stores.Ordered)
    (hknown : s.table ∈ tables) (hs : s.Qualified) (hok : c.addStore s = .ok c') :
    c'.Declared tables := by
  rcases addStore_eq_ok hok with ⟨_, rfl⟩
  constructor
  · intro name s' hs'
    exact SortedMap.forall_insert hc (Q := fun _ s => s.table ∈ tables) hknown h.known hs'
  · intro name s' hs'
    exact SortedMap.forall_insert hc (Q := fun _ s => s.Qualified) hs h.qualified hs'

end Committed

namespace Database

variable {d d' : Database} {b b' : Backstore} {c : Catalog} {options : DatabaseOptions}

/-- A database without transactions. -/
structure Fresh (d : Database) : Prop where
  wellKept : d.committed.WellKept
  locks : d.locks = {}
  transactions : d.transactions = {}

theorem adoptStore_eq_ok {s : TableStore} (h : d.adoptStore s = .ok d') :
    ∃ committed, d.committed.addStore s = .ok committed ∧
      d' = { d with
        committed := committed
        rowIds := (s.greatestId?.map d.rowIds.observe).getD d.rowIds } := by
  rcases Outcome.bind_eq_ok_iff.mp h with ⟨committed, hadd, heq⟩
  cases heq
  exact ⟨committed, hadd, rfl⟩

theorem loadTables_cons_eq_ok {t : Table} {rest : List Table}
    (hok : (loadTables d (t :: rest)).perform b = (.ok d', b')) :
    ∃ s b₁ committed,
      (Backstore.loadTable t (d.options.persistsIndicesOf t)).perform b = (.ok s, b₁) ∧
      d.committed.addStore s = .ok committed ∧
      (loadTables
        { d with
          committed := committed
          rowIds := (s.greatestId?.map d.rowIds.observe).getD d.rowIds } rest).perform b₁ =
        (.ok d', b') := by
  rcases Action.perform_bind_eq_ok hok with ⟨s, b₁, hload, hrest⟩
  rcases Action.perform_bind_eq_ok hrest with ⟨d₁, b₂, hadopt, hrest₁⟩
  cases congrArg Prod.snd hadopt
  rcases adoptStore_eq_ok (congrArg Prod.fst hadopt) with ⟨committed, hadd, rfl⟩
  exact ⟨s, b₁, committed, hload, hadd, hrest₁⟩

theorem Fresh.loadTables (h : d.Fresh) {tables : List Table}
    (hok : (loadTables d tables).perform b = (.ok d', b')) : d'.Fresh := by
  induction tables generalizing d b with
  | nil =>
      cases hok
      exact h
  | cons t rest ih =>
      rcases loadTables_cons_eq_ok hok with ⟨s, b₁, committed, hload, hadd, hrest⟩
      refine ih ?_ hrest
      exact
        { wellKept := h.wellKept.addStore (Backstore.keyed_of_loadTable hload).1 hadd
          locks := h.locks
          transactions := h.transactions }

theorem declared_loadTables {known tables : List Table} (h : d.committed.Declared known)
    (hd : d.committed.WellKept) (htables : ∀ t ∈ tables, t ∈ known ∧ t.WellFormed)
    (hok : (loadTables d tables).perform b = (.ok d', b')) : d'.committed.Declared known := by
  induction tables generalizing d b with
  | nil =>
      cases hok
      exact h
  | cons t rest ih =>
      rcases loadTables_cons_eq_ok hok with ⟨s, b₁, committed, hload, hadd, hrest⟩
      rcases htables t List.mem_cons_self with ⟨hknown, ht⟩
      have hkeyed := Backstore.keyed_of_loadTable hload
      refine ih ?_ (hd.addStore hkeyed.1 hadd) (fun t' ht' => htables t' (List.mem_cons_of_mem _ ht'))
        hrest
      exact h.addStore hd.ordered (hkeyed.2 ▸ hknown) (Backstore.qualified_of_loadTable ht hload) hadd

theorem keeps_loadTables (b : Backstore) (d : Database) (tables : List Table) :
    Action.Keeps (Backstore.Alike b) (loadTables d tables) := by
  induction tables generalizing d with
  | nil => exact Action.keeps_pure _
  | cons t rest ih =>
      refine (Backstore.keeps_loadTable b t _).bind fun s => ?_
      refine (Action.keeps_ofOutcome _).bind fun d => ?_
      exact ih d

theorem load_eq_ok (hok : (load c options).perform b = (.ok d, b')) :
    ∃ b₁ b₂, (Backstore.init c).perform b = (.ok (), b₁) ∧
      (loadTables
        { catalog := c
          committed := {}
          rowIds := .startingAt options.firstRowId
          options := options } c.tables).perform { b₁ with calls := .begin :: b₁.calls } =
        (.ok d, b₂) ∧
      b'.stores = b₂.stores := by
  unfold load at hok
  rcases Action.perform_bind_eq_ok hok with ⟨_, b₁, hcheck, h₁⟩
  cases congrArg Prod.snd hcheck
  rcases Action.perform_bind_eq_ok h₁ with ⟨_, b₂, hinit, h₂⟩
  rcases Action.perform_bind_eq_ok h₂ with ⟨_, b₃, hbegin, h₃⟩
  cases congrArg Prod.snd hbegin
  rcases Action.perform_bind_eq_ok h₃ with ⟨d₁, b₄, hload, h₄⟩
  rcases Action.perform_bind_eq_ok h₄ with ⟨_, b₅, hcommit, h₅⟩
  cases h₅
  have hkept := Backstore.keeps_call b₄ .commit b₄ ⟨rfl, rfl⟩
  rw [hcommit] at hkept
  exact ⟨b₂, b₄, hinit, hload, hkept.1⟩

theorem fresh_load (hok : (load c options).perform b = (.ok d, b')) : d.Fresh := by
  rcases load_eq_ok hok with ⟨b₁, b₂, _, hload, _⟩
  exact Fresh.loadTables ⟨Committed.wellKept_empty, rfl, rfl⟩ hload

theorem declared_load (hc : c.WellFormed) (hok : (load c options).perform b = (.ok d, b')) :
    d.committed.Declared c.tables := by
  rcases load_eq_ok hok with ⟨b₁, b₂, _, hload, _⟩
  apply declared_loadTables _ Committed.wellKept_empty _ hload
  · exact ⟨nofun, nofun⟩
  · exact fun t ht => ⟨ht, hc.tables t ht⟩

theorem Fresh.consistent (h : d.Fresh) : d.Consistent {} where
  wellKept := h.wellKept
  orderedLocks := by
    rw [h.locks]
    exact SortedMap.ordered_empty
  orderedTransactions := by
    rw [h.transactions]
    exact SortedMap.ordered_empty
  numbered := by
    intro id t ht
    rw [h.transactions] at ht
    cases ht
  guarded := by
    intro id t ht
    rw [h.transactions] at ht
    cases ht
  waits := by
    intro id j hj
    cases hj

end Database

end RelationalDb
