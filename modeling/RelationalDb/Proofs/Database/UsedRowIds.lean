import Mathlib
import RelationalDb.Proofs.Database.Atomicity
import RelationalDb.Proofs.Database.FreshInserts

/-!
# Row ids in use

The row ids in use are those of the committed rows, of the staged rows, and of the rows that
the backstore has of the tables.  What statements make of them is told by the inserts of fresh
rows that they come to.
-/

namespace RelationalDb

def Committed.ids (c : Committed) : Set RowId :=
  TableSource.ids c.store?

def Journal.ids (j : Journal) : Set RowId :=
  TableSource.ids j.staged.get?

theorem Journal.ids_empty : ({} : Journal).ids = ∅ := by
  apply Set.eq_empty_of_forall_notMem
  rintro id ⟨table, s, hs, _⟩
  cases hs

namespace Workspace

variable {committed : Committed} {w : Workspace}

theorem ids_subset (committed : Committed) (w : Workspace) :
    w.ids committed ⊆ committed.ids ∪ w.work.journal.ids := by
  rintro id ⟨table, s, hs, hid⟩
  change w.work.journal.sees committed table = some s at hs
  cases hstaged : w.work.journal.staged.get? table with
  | some s' =>
      rw [Journal.sees_of_staged hstaged] at hs
      cases hs
      exact Or.inr ⟨table, s, hstaged, hid⟩
  | none =>
      rw [Journal.sees_of_not_staged hstaged] at hs
      exact Or.inl ⟨table, s, hs, hid⟩

theorem journal_ids_subset (committed : Committed) (w : Workspace) :
    w.work.journal.ids ⊆ w.ids committed := by
  rintro id ⟨table, s, hs, hid⟩
  exact ⟨table, s, Journal.sees_of_staged hs, hid⟩

end Workspace

/-!
## Databases
-/

namespace Database

/-- The row ids of the committed rows and of those that transactions have staged. -/
def ids (d : Database) : Set RowId :=
  d.committed.ids ∪ { id | ∃ i t, d.transactions.get? i = some t ∧ id ∈ t.work.journal.ids }

variable {d d' : Database} {id : Nat} {t : Transaction} {source : RowIdSource}
  {used : Set RowId} {waiting : SortedMap Nat Journal}

theorem journal_ids_subset (ht : d.transactions.get? id = some t) :
    t.work.journal.ids ⊆ d.ids :=
  fun _ hid => Or.inr ⟨id, t, ht, hid⟩

theorem ids_putTransaction (h : d.transactions.Ordered) (t : Transaction) :
    (d.putTransaction t).ids ⊆ t.work.journal.ids ∪ d.ids := by
  rintro id (hcommitted | ⟨i, t', ht', hid⟩)
  · exact Or.inr (Or.inl hcommitted)
  · exact SortedMap.forall_insert h
      (Q := fun _ t' => ∀ id ∈ t'.work.journal.ids, id ∈ t.work.journal.ids ∪ d.ids)
      (fun id hid => Or.inl hid) (fun ht id hid => Or.inr (journal_ids_subset ht hid)) ht' id hid

theorem ids_put_nothing (h : d.transactions.Ordered) (ht : t.work.journal = {}) :
    (d.putTransaction t).ids ⊆ d.ids := by
  have hput := ids_putTransaction h t
  rwa [ht, Journal.ids_empty, Set.empty_union] at hput

/-- The database takes its row ids from the source and uses no others than these. -/
structure Within (source : RowIdSource) (used : Set RowId) (d : Database) : Prop where
  ordered : d.transactions.Ordered
  rowIds : d.rowIds = source
  subset : d.ids ⊆ used

theorem Within.self (h : d.transactions.Ordered) : Within d.rowIds d.ids d where
  ordered := h
  rowIds := rfl
  subset := Set.Subset.refl _

theorem Within.inserted {α : Type} {r : Outcome α} {l : List FreshInsert}
    (hd' : Within d.rowIds d.ids d') (h : Inserted source used l r d.rowIds d.ids) :
    Inserted source used l r d'.rowIds d'.ids where
  inserting := by
    rw [hd'.rowIds]
    exact h.inserting.mono (Set.Subset.refl _) hd'.subset
  succeeded := h.succeeded

theorem Within.put_nothing (h : Within source used d) (ht : t.work.journal = {}) :
    Within source used (d.putTransaction t) where
  ordered := h.ordered.insert _ _
  rowIds := h.rowIds
  subset := (ids_put_nothing h.ordered ht).trans h.subset

theorem keeps_within_begin (mode : AccessMode) : Action.Keeps (Within source used) (begin mode) := by
  intro d h
  have hnext : Within source used { d with nextTransaction := d.nextTransaction + 1 } :=
    ⟨h.ordered, h.rowIds, h.subset⟩
  exact hnext.put_nothing rfl

theorem keeps_within_abortFor (reason : Failure) (id : Nat) :
    Action.Keeps (Within source used) (abortFor reason id) := by
  intro d h
  rw [perform_abortFor]
  split
  · exact h
  · next t ht =>
      split
      · exact h
      · have hput : Within source used (d.putTransaction (Transaction.settle
            { t with work := { t.work with journal := {}, phase := .ended .aborted } }
            (.error reason))) := h.put_nothing rfl
        exact ⟨hput.ordered, hput.rowIds, hput.subset⟩

theorem keeps_within_drop (id : Nat) : Action.Keeps (Within source used) (drop id) := by
  intro d h
  rw [perform_drop]
  split
  · exact h
  · next t ht =>
      refine ⟨h.ordered.erase _, h.rowIds, ?_⟩
      rintro rowId (hcommitted | ⟨i, t', ht', hid⟩)
      · exact h.subset (Or.inl hcommitted)
      · have hthere := SortedMap.forall_erase h.ordered
          (Q := fun _ t => t.work.journal.ids ⊆ d.ids) journal_ids_subset ht'
        exact h.subset (hthere hid)

def inserts (id : Nat) (s : Statement) (d : Database) : List FreshInsert :=
  match d.transactions.get? id with
  | none => []
  | some t =>
      match d.accept t s with
      | .error _ => []
      | .ok _ => s.inserts d.committed { work := t.work, rowIds := d.rowIds }

theorem writable_of_accept (h : d.Consistent waiting) (ht : d.transactions.get? id = some t)
    {s : Statement} {locks : Locks} (hlocks : d.accept t s = .ok locks) (htarget : s.target ≠ none) :
    ({ work := t.work, rowIds := d.rowIds } : Workspace).Writable := by
  rcases accept_eq_ok hlocks with ⟨hactive, _, ⟨hnone, _⟩ | ⟨_, _, hmode, _⟩⟩
  · exact absurd hnone htarget
  · exact ⟨hactive, hmode, (h.guarded ht).toTracks.orderedStaged⟩

theorem inserted_ran (h : d.Consistent waiting) (ht : d.transactions.get? id = some t)
    {s : Statement} {locks : Locks} (hlocks : d.accept t s = .ok locks) {r : Outcome ResultSet}
    {w : Workspace}
    (hrun : (s.run d.planner d.committed).perform { work := t.work, rowIds := d.rowIds } = (r, w)) :
    Inserted d.rowIds d.ids (s.inserts d.committed { work := t.work, rowIds := d.rowIds }) r
      (d.ran t s locks).rowIds (d.ran t s locks).ids := by
  have hinserted := s.inserted_run d.planner (writable_of_accept h ht hlocks) hrun
  have hseen : Workspace.ids d.committed { work := t.work, rowIds := d.rowIds } ∪ d.ids ⊆ d.ids := by
    apply Set.union_subset _ (Set.Subset.refl _)
    apply (Workspace.ids_subset d.committed _).trans
    exact Set.union_subset Set.subset_union_left (journal_ids_subset ht)
  have hran : (d.ran t s locks).ids ⊆ w.ids d.committed ∪ d.ids := by
    unfold ran
    rw [hrun]
    apply (ids_putTransaction h.orderedTransactions _).trans
    exact Set.union_subset_union_left _ (Workspace.journal_ids_subset d.committed w)
  have hrowIds : (d.ran t s locks).rowIds = w.rowIds := by
    unfold ran
    rw [hrun]
    rfl
  rw [hrowIds]
  exact ⟨(hinserted.inserting.beside d.ids).mono hseen hran, hinserted.succeeded⟩

theorem inserted_attach (h : d.Consistent waiting) (id : Nat) (s : Statement)
    {r : Outcome ResultSet} (hperform : (attach id s).perform d = (r, d')) :
    Inserted d.rowIds d.ids (d.inserts id s) r d'.rowIds d'.ids := by
  rw [perform_attach] at hperform
  unfold inserts
  cases ht : d.transactions.get? id with
  | none =>
      rw [ht] at hperform
      cases hperform
      exact Inserted.nothing _ (Set.Subset.refl _)
  | some t =>
      rw [ht] at hperform
      dsimp only at hperform ⊢
      cases hlocks : d.accept t s with
      | error e =>
          rw [hlocks] at hperform
          cases hperform
          exact Inserted.nothing _ (Set.Subset.refl _)
      | ok locks =>
          rw [hlocks] at hperform
          dsimp only at hperform ⊢
          have hordered : (d.ran t s locks).transactions.Ordered := h.orderedTransactions.insert _ _
          rcases hrun : (s.run d.planner d.committed).perform
            { work := t.work, rowIds := d.rowIds } with ⟨r₁, w⟩
          have hran := inserted_ran h ht hlocks hrun
          rw [hrun] at hperform
          cases r₁ with
          | ok rows =>
              cases hperform
              exact hran
          | error f =>
              dsimp only at hperform
              rcases habort : (abortFor f id).perform (d.ran t s locks) with ⟨r₂, d₂⟩
              have haborted := keeps_within_abortFor f id _ (Within.self hordered)
              rw [habort] at haborted
              rw [Action.perform_bind, habort] at hperform
              cases r₂ with
              | ok u =>
                  cases hperform
                  exact haborted.inserted hran
              | error e =>
                  cases hperform
                  exact (haborted.inserted hran).failed e

theorem accept_insert_ne_rowExists (d : Database) (t : Transaction) (i : Insertion) (row : RowId)
    (table : String) : d.accept t (.insert i) ≠ .error (.operation (.rowExists row table)) := by
  intro h
  unfold accept at h
  by_cases hactive : t.work.isActive = true
  · rw [if_neg (by simp [hactive])] at h
    cases hcheck : (Statement.insert i).check with
    | error e =>
        rw [hcheck] at h
        cases h
        unfold Statement.check Statement.checkParts at hcheck
        dsimp only at hcheck
        split at hcheck
        · cases hcheck
        · cases hcheck
    | ok u =>
        rw [hcheck] at h
        cases hmode : t.work.mode with
        | readOnly =>
            rw [hmode] at h
            cases h
        | readWrite =>
            rw [hmode] at h
            change d.locks.acquire i.table.name t.work.id = _ at h
            unfold Locks.acquire at h
            split at h
            · cases h
            · split at h
              · cases h
              · cases h
  · rw [if_pos (by simpa using hactive)] at h
    cases h

/-- After an abort the failure that is told is its reason, unless there was nothing to abort. -/
theorem eq_rowExists_of_abortFor {f : Failure} {row : RowId} {table : String}
    (h : ((abortFor f id >>= fun _ => throw f : Action Database ResultSet).perform d).1 =
      .error (.operation (.rowExists row table))) : f = .operation (.rowExists row table) := by
  rw [Action.perform_bind, perform_abortFor] at h
  cases ht : d.transactions.get? id with
  | none =>
      rw [ht] at h
      cases h
  | some t =>
      rw [ht] at h
      dsimp only at h
      cases hphase : t.work.phase with
      | ended ending =>
          rw [hphase] at h
          cases h
      | active =>
          rw [hphase] at h
          cases h
          rfl

theorem exists_collides (h : d.Consistent waiting) {i : Insertion} {row : RowId} {table : String}
    (hattach : ((attach id (.insert i)).perform d).1 = .error (.operation (.rowExists row table))) :
    ∃ a ∈ d.inserts id (.insert i), a.Collides := by
  rw [perform_attach] at hattach
  unfold inserts
  cases ht : d.transactions.get? id with
  | none =>
      rw [ht] at hattach
      cases hattach
  | some t =>
      rw [ht] at hattach
      dsimp only at hattach ⊢
      cases hlocks : d.accept t (.insert i) with
      | error e =>
          rw [hlocks] at hattach
          exact absurd (hlocks.trans (congrArg Except.error (Except.error.inj hattach)))
            (d.accept_insert_ne_rowExists t i row table)
      | ok locks =>
          rw [hlocks] at hattach
          dsimp only at hattach ⊢
          have hwritable := writable_of_accept h ht hlocks nofun
          rcases hrows : (i.rows.forM (i.writeRow d.committed)).perform
            { work := t.work, rowIds := d.rowIds } with ⟨r, w⟩
          have hrun : (Statement.insert i).run d.planner d.committed =
              (i.rows.forM (i.writeRow d.committed) >>= fun _ =>
                pure (i.table.writtenRows i.rows)) := rfl
          rw [hrun, Action.perform_bind_pure, hrows] at hattach
          cases r with
          | ok u => cases hattach
          | error f =>
              have habort := eq_rowExists_of_abortFor hattach
              rw [habort] at hrows
              exact i.exists_collides hwritable hrows

/-- The inserts of fresh rows that statements in a transaction come to, up to the first failure. -/
def insertsAll (id : Nat) : List Statement → Database → List FreshInsert
  | [], _ => []
  | s :: rest, d =>
      d.inserts id s ++
        match (attach id s).perform d with
        | (.ok _, d') => insertsAll id rest d'
        | (.error _, _) => []

theorem inserted_attachAll (h : d.Consistent waiting) (hwaiting : waiting.get? id = none)
    (statements : List Statement) {r : Outcome (List ResultSet)}
    (hperform : (Session.attachAll id statements).perform d = (r, d')) :
    Inserted d.rowIds d.ids (insertsAll id statements d) r d'.rowIds d'.ids := by
  induction statements generalizing d r with
  | nil =>
      cases hperform
      exact Inserted.nothing _ (Set.Subset.refl _)
  | cons s rest ih =>
      change (attach id s >>= fun x => Session.attachAll id rest >>= fun xs =>
        pure (x :: xs)).perform d = _ at hperform
      unfold insertsAll
      rcases hattach : (attach id s).perform d with ⟨r₁, d₁⟩
      have hfirst := inserted_attach h id s hattach
      have hstays := keeps_attach (x := d.base) hwaiting s d ⟨h, rfl⟩
      rw [hattach] at hstays
      cases r₁ with
      | error e =>
          rw [Action.perform_bind_error hattach] at hperform
          cases hperform
          dsimp only
          rw [List.append_nil]
          exact hfirst.failed e
      | ok x =>
          rw [Action.perform_bind_ok hattach, Action.perform_bind_pure] at hperform
          rcases hrest : (Session.attachAll id rest).perform d₁ with ⟨r₂, d₂⟩
          rw [hrest] at hperform
          cases hperform
          exact hfirst.bind ((ih hstays.consistent hrest).map _)

end Database

/-!
## The backstore
-/

theorem SortedMap.mem_values_insertAll {κ α : Type} [Ord κ] {m : SortedMap κ α}
    {entries : List (κ × α)} {a : α} (h : a ∈ (m.insertAll entries).values) :
    a ∈ m.values ∨ a ∈ entries.map (·.2) := by
  unfold insertAll at h
  induction entries generalizing m with
  | nil => exact Or.inl h
  | cons e rest ih =>
      rcases ih h with hmem | hrest
      · rcases List.mem_map.mp hmem with ⟨e', he', rfl⟩
        have hinsert : ∀ e' ∈ insertEntry e.1 e.2 m.entries,
            e'.2 ∈ m.values ∨ e'.2 ∈ (e :: rest).map (·.2) :=
          forall_insertEntry (Q := fun a => a ∈ m.values ∨ a ∈ (e :: rest).map (·.2))
            (fun e he => Or.inl (List.mem_map_of_mem he)) (Or.inr List.mem_cons_self)
        exact hinsert e' he'
      · exact Or.inr (List.mem_cons_of_mem _ hrest)

theorem SortedMap.mem_values_eraseAll {κ α : Type} [Ord κ] {m : SortedMap κ α} {keys : List κ}
    {a : α} (h : a ∈ (keys.foldl erase m).values) : a ∈ m.values := by
  induction keys generalizing m with
  | nil => exact h
  | cons k rest ih => exact (eraseEntry_sublist.map _).subset (ih h)

theorem ChangeSet.mem_values_applyTo {c : ChangeSet} {m : RowMap} {row : Row}
    (h : row ∈ (c.applyTo m).values) : row ∈ m.values ∨ row ∈ c.puts := by
  rcases SortedMap.mem_values_insertAll (SortedMap.mem_values_eraseAll h) with hold | hput
  · exact Or.inl hold
  · rw [List.map_map] at hput
    exact Or.inr (by simpa using hput)

theorem Journal.Tracks.mem_ids_of_mem_puts {j : Journal} {committed : Committed} {table : String}
    {c : ChangeSet} {row : Row} (h : j.Tracks committed) (hc : j.changes.get? table = some c)
    (hrow : row ∈ c.puts) : row.id ∈ j.ids := by
  rcases h.recorded hc with ⟨s, hs⟩
  rcases h.staged hs with ⟨base, c', _, hc', _, hfrom⟩
  rw [hc] at hc'
  cases hc'
  have hget := hfrom.net.get?_of_mem_puts hfrom.keyed.id_eq hrow
  exact ⟨table, s, hs, SortedMap.mem_keys_of_get? hget⟩

theorem Journal.ids_install {j : Journal} {committed : Committed} (h : j.Tracks committed)
    (hc : committed.WellKept) : (j.install committed).ids ⊆ committed.ids ∪ j.ids := by
  rintro id ⟨table, s, hs, hid⟩
  rw [h.store?_install hc, store?_view] at hs
  split at hs
  · next hstaged =>
      cases hs
      exact Or.inr ⟨table, s, hstaged, hid⟩
  · exact Or.inl ⟨table, s, hs, hid⟩

def storedIds (tables : List Table) (stores : SortedMap String RowMap) : Set RowId :=
  { id | ∃ t ∈ tables, ∃ m, stores.get? t.name = some m ∧ ∃ row ∈ m.values, row.id = id }

/-- Every store of a table is declared, and the stores of the backstore are in order. -/
structure Ground.Declares (tables : List Table) (g : Ground) : Prop where
  ordered : g.stores.Ordered
  wellKept : g.base.committed.WellKept
  declared : g.base.committed.Declared tables

theorem Ground.Moves.declares {g g' : Ground} {journals : List Journal} {tables : List Table}
    (h : g.Moves g' journals) (hg : g.Declares tables) : g'.Declares tables where
  ordered := by
    cases h with
    | quiet => exact hg.ordered
    | empty j hj hempty => exact hg.ordered
    | written j hj => exact Backstore.ordered_storesAfter hg.ordered _
  wellKept := by
    cases h with
    | quiet => exact hg.wellKept
    | empty j hj hempty => exact hg.wellKept
    | written j hj => exact hj.wellKept_install hg.wellKept
  declared := h.declared hg.wellKept hg.declared

theorem storedIds_written {g : Ground} {j : Journal} {known tables : List Table}
    (h : g.Declares known) (htables : ∀ t ∈ tables, IsName t.name)
    (hj : j.Tracks g.base.committed) (options : DatabaseOptions) :
    storedIds tables (Backstore.storesAfter g.stores (j.writes options)) ⊆
      storedIds tables g.stores ∪ j.ids := by
  rintro id ⟨t, ht, m, hm, row, hrow, rfl⟩
  rw [Journal.get?_written h.ordered, hj.filter_indexWrites_table h.declared (htables t ht),
    hj.filter_netChanges] at hm
  change Backstore.storeAfter _ (g.stores.get? t.name) = some m at hm
  have hold : ∀ row ∈ ((g.stores.get? t.name).getD {}).values,
      row.id ∈ storedIds tables g.stores := by
    intro row hrow
    cases hget : g.stores.get? t.name with
    | none =>
        rw [hget] at hrow
        cases hrow
    | some m₀ =>
        rw [hget] at hrow
        exact ⟨t, ht, m₀, hget, row, hrow, rfl⟩
  cases hc : j.changes.get? t.name with
  | none =>
      rw [hc] at hm
      change g.stores.get? t.name = some m at hm
      rw [hm] at hold
      exact Or.inl (hold row hrow)
  | some c =>
      rw [hc, Option.toList_some, List.flatMap_singleton] at hm
      have happly := c.storeAfter_writes (g.stores.get? t.name)
      rw [hm] at happly
      rw [Option.getD_some] at happly
      rw [happly] at hrow
      rcases ChangeSet.mem_values_applyTo hrow with hthere | hput
      · exact Or.inl (hold row hthere)
      · exact Or.inr (hj.mem_ids_of_mem_puts hc hput)

end RelationalDb
