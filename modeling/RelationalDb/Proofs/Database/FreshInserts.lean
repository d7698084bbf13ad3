import Mathlib
import RelationalDb.Proofs.Database.Workspaces
import RelationalDb.Proofs.Store.FreshRows

/-!
# Inserts of fresh rows

A row that takes no other one's place is inserted under an id that has just been taken from
the source of row ids, and after an insert that fails nothing else is inserted.  The inserts
that are made one after the other tell what becomes of the source and of the ids in use.
-/

namespace RelationalDb

/-- An insert of a fresh row: the id of the row, and how the insert ended. -/
structure FreshInsert where
  id : RowId
  outcome : Outcome Unit

def FreshInsert.Collides (a : FreshInsert) : Prop :=
  ∃ id table, a.outcome = .error (.operation (.rowExists id table))

/-- Inserts up to the first one that fails, between two sources of row ids and the sets of row ids
that are in use.  Ids may get out of use at any time. -/
inductive Inserting :
    RowIdSource → Set RowId → List FreshInsert → RowIdSource → Set RowId → Prop
  | nothing {source : RowIdSource} {used used' : Set RowId} (h : used' ⊆ used) :
      Inserting source used [] source used'
  | stored {source source' : RowIdSource} {used used' : Set RowId} {l : List FreshInsert}
      (hsigned : RowIdIndex.isSigned source.next = true)
      (hrest : Inserting source.take.2 ({source.next} ∪ used) l source' used') :
      Inserting source used ({ id := source.next, outcome := .ok () } :: l) source' used'
  | failed {source : RowIdSource} {used used' : Set RowId} {e : Failure}
      (htaken : ∀ id table, e = .operation (.rowExists id table) → source.next ∈ used)
      (h : used' ⊆ used) :
      Inserting source used [{ id := source.next, outcome := .error e }] source.take.2 used'

namespace Inserting

variable {source source' source'' : RowIdSource} {used used' used'' more less : Set RowId}
  {l l' : List FreshInsert}

theorem mono (h : Inserting source used l source' used') (hmore : used ⊆ more)
    (hless : less ⊆ used') : Inserting source more l source' less := by
  induction h generalizing more with
  | nothing hsub => exact nothing (hless.trans (hsub.trans hmore))
  | stored hsigned _ ih =>
      exact stored hsigned (ih (Set.union_subset_union_right _ hmore) hless)
  | failed htaken hsub =>
      exact failed (fun id table he => hmore (htaken id table he))
        (hless.trans (hsub.trans hmore))

theorem beside (h : Inserting source used l source' used') (others : Set RowId) :
    Inserting source (used ∪ others) l source' (used' ∪ others) := by
  induction h with
  | nothing hsub => exact nothing (Set.union_subset_union_left _ hsub)
  | stored hsigned _ ih =>
      rw [Set.union_assoc] at ih
      exact stored hsigned ih
  | failed htaken hsub =>
      exact failed (fun id table he => Or.inl (htaken id table he))
        (Set.union_subset_union_left _ hsub)

theorem append (h : Inserting source used l source' used')
    (hok : ∀ a ∈ l, a.outcome = .ok ()) (h' : Inserting source' used' l' source'' used'') :
    Inserting source used (l ++ l') source'' used'' := by
  induction h with
  | nothing hsub => exact h'.mono hsub (Set.Subset.refl _)
  | stored hsigned _ ih =>
      exact stored hsigned (ih (fun a ha => hok a (List.mem_cons_of_mem _ ha)) h')
  | failed htaken hsub => cases hok _ List.mem_cons_self

/-!
## What the inserts tell
-/

theorem signed (h : Inserting source used l source' used')
    (hused : ∀ id ∈ used, RowIdIndex.isSigned id = true) :
    ∀ id ∈ used', RowIdIndex.isSigned id = true := by
  induction h with
  | nothing hsub => exact fun id hid => hused id (hsub hid)
  | stored hsigned _ ih =>
      apply ih
      rintro id (rfl | hid)
      · exact hsigned
      · exact hused id hid
  | failed htaken hsub => exact fun id hid => hused id (hsub hid)

theorem toNat_take (h : source.next.toNat ≤ 0x8000000000000000) :
    source.take.2.next.toNat = source.next.toNat + 1 := by
  change (source.next + 1).toNat = source.next.toNat + 1
  rw [UInt64.toNat_add, UInt64.toNat_one]
  omega

theorem toNat_take_le (h : source.next.toNat ≤ 0x8000000000000000)
    (hsigned : RowIdIndex.isSigned source.next = true) :
    source.take.2.next.toNat ≤ 0x8000000000000000 := by
  rw [toNat_take h]
  exact RowIdIndex.isSigned_iff.mp hsigned

theorem ids_eq (h : Inserting source used l source' used')
    (hsource : source.next.toNat ≤ 0x8000000000000000) :
    l.map (·.id.toNat) = List.range' source.next.toNat l.length ∧
      source'.next.toNat = source.next.toNat + l.length := by
  induction h with
  | nothing hsub => exact ⟨rfl, rfl⟩
  | @stored source source' used used' l hsigned _ ih =>
      have htake := toNat_take hsource
      have hnext := toNat_take_le hsource hsigned
      rcases ih hnext with ⟨hids, hlast⟩
      rw [htake] at hids hlast
      constructor
      · rw [List.map_cons, hids, List.length_cons, List.range'_succ]
      · rw [hlast, List.length_cons]
        omega
  | failed htaken hsub => exact ⟨rfl, toNat_take hsource⟩

/-- If the source is past all ids in use, then it stays so, and no insert finds its id taken. -/
theorem past (h : Inserting source used l source' used')
    (hsource : source.next.toNat ≤ 0x8000000000000000)
    (hused : ∀ id ∈ used, id.toNat < source.next.toNat) :
    (∀ id ∈ used', id.toNat < source'.next.toNat) ∧ ∀ a ∈ l, ¬ a.Collides := by
  induction h with
  | nothing hsub => exact ⟨fun id hid => hused id (hsub hid), nofun⟩
  | @stored source source' used used' l hsigned _ ih =>
      have htake := toNat_take hsource
      have hnext := toNat_take_le hsource hsigned
      have hpast : ∀ id ∈ ({source.next} ∪ used : Set RowId),
          id.toNat < source.take.2.next.toNat := by
        rw [htake]
        rintro id (rfl | hid)
        · exact Nat.lt_succ_self _
        · exact Nat.lt_succ_of_lt (hused id hid)
      rcases ih hnext hpast with ⟨hlast, hrest⟩
      refine ⟨hlast, ?_⟩
      intro a ha
      rcases List.mem_cons.mp ha with rfl | ha
      · rintro ⟨id, table, herror⟩
        cases herror
      · exact hrest a ha
  | @failed source used used' e htaken hsub =>
      constructor
      · intro id hid
        rw [toNat_take hsource]
        exact Nat.lt_succ_of_lt (hused id (hsub hid))
      · intro a ha
        rw [List.mem_singleton.mp ha]
        rintro ⟨id, table, herror⟩
        exact Nat.lt_irrefl _ (hused _ (htaken id table (Except.error.inj herror)))

end Inserting

/-- The inserts of an action that ended in this way.  If it succeeded, then they all did. -/
structure Inserted {α : Type} (source : RowIdSource) (used : Set RowId) (l : List FreshInsert)
    (r : Outcome α) (source' : RowIdSource) (used' : Set RowId) : Prop where
  inserting : Inserting source used l source' used'
  succeeded : ∀ x, r = .ok x → ∀ a ∈ l, a.outcome = .ok ()

namespace Inserted

variable {α β : Type} {source source' source'' : RowIdSource} {used used' used'' : Set RowId}
  {l l' : List FreshInsert} {r : Outcome α}

theorem nothing (r : Outcome α) (h : used' ⊆ used) : Inserted source used [] r source used' where
  inserting := Inserting.nothing h
  succeeded := nofun

theorem bind {a : α} (h : Inserted source used l (.ok a : Outcome α) source' used')
    {r' : Outcome β} (h' : Inserted source' used' l' r' source'' used'') :
    Inserted source used (l ++ l') r' source'' used'' where
  inserting := h.inserting.append (h.succeeded a rfl) h'.inserting
  succeeded := by
    intro x hr b hb
    rcases List.mem_append.mp hb with hfirst | hlater
    · exact h.succeeded a rfl b hfirst
    · exact h'.succeeded x hr b hlater

theorem map (h : Inserted source used l r source' used') (f : α → β) :
    Inserted source used l (r.map f) source' used' where
  inserting := h.inserting
  succeeded := by
    intro y hr
    rcases Outcome.map_eq_ok_iff.mp hr with ⟨x, hx, _⟩
    exact h.succeeded x hx

theorem failed (h : Inserted source used l r source' used') (e : Failure) :
    Inserted source used l (.error e : Outcome β) source' used' where
  inserting := h.inserting
  succeeded := nofun

end Inserted

/-!
## Workspaces
-/

def TableSource.ids (source : TableSource) : Set RowId :=
  { id | ∃ table s, source table = some s ∧ id ∈ s.ids }

namespace Workspace

variable {committed : Committed} {w w' : Workspace} {table : String} {s : TableStore}
  {source : RowIdSource} {used : Set RowId}

def ids (committed : Committed) (w : Workspace) : Set RowId :=
  TableSource.ids (w.sees committed)

theorem subset_ids (h : w.sees committed table = some s) : s.ids ⊆ w.ids committed :=
  fun _ hid => ⟨table, s, h, hid⟩

theorem Wrote.ids_subset (h : w.Wrote committed table s w') :
    w'.ids committed ⊆ s.ids ∪ w.ids committed := by
  rintro id ⟨table', s', hs', hid⟩
  rw [h.sees] at hs'
  by_cases heq : table' = table
  · rw [heq, Function.update_self] at hs'
    cases hs'
    exact Or.inl hid
  · rw [Function.update_of_ne heq] at hs'
    exact Or.inr ⟨table', s', hs', hid⟩

/-- The workspace may write, takes its ids from the source and sees no other row ids than these. -/
structure Within (committed : Committed) (source : RowIdSource) (used : Set RowId)
    (w : Workspace) : Prop where
  writable : w.Writable
  rowIds : w.rowIds = source
  subset : w.ids committed ⊆ used

theorem Within.wrote (h : Within committed source used w) (hwrote : w.Wrote committed table s w')
    (hs : s.ids ⊆ w.ids committed) : Within committed source used w' where
  writable := hwrote.writable
  rowIds := hwrote.rowIds.trans h.rowIds
  subset := by
    apply hwrote.ids_subset.trans
    exact Set.union_subset (hs.trans h.subset) h.subset

theorem keeps_within_update (row : Row) :
    Action.Keeps (Within committed source used)
      (onWork (UnitOfWork.update committed table row)) := by
  intro w h
  cases hs : w.sees committed table with
  | none =>
      rw [perform_update_none h.writable hs]
      exact h
  | some s =>
      rcases perform_update h.writable hs row with ⟨w', hperform, hwrote⟩
      rw [hperform]
      exact h.wrote hwrote ((s.ids_update row).trans (subset_ids hs))

theorem keeps_within_delete (id : RowId) :
    Action.Keeps (Within committed source used)
      (onWork (UnitOfWork.delete committed table id)) := by
  intro w h
  cases hs : w.sees committed table with
  | none =>
      rw [perform_delete_none h.writable hs]
      exact h
  | some s =>
      rcases perform_delete h.writable hs id with ⟨w', hperform, hwrote⟩
      rw [hperform]
      exact h.wrote hwrote ((s.ids_delete id).trans (subset_ids hs))

theorem Within.self (committed : Committed) (h : w.Writable) :
    Within committed w.rowIds (w.ids committed) w where
  writable := h
  rowIds := rfl
  subset := Set.Subset.refl _

theorem Within.inserted {α : Type} (r : Outcome α)
    (h : Within committed w.rowIds (w.ids committed) w') :
    Inserted w.rowIds (w.ids committed) [] r w'.rowIds (w'.ids committed) := by
  rw [h.rowIds]
  exact Inserted.nothing r h.subset

end Workspace

/-!
## Statements
-/

open Workspace (Within)

variable {committed : Committed} {w w' : Workspace} {source : RowIdSource} {used : Set RowId}

namespace Insertion

variable {values : List Value} {r : Outcome Unit}

theorem keeps_within_place (i : Insertion) (values : List Value) (old : Row) :
    Action.Keeps (Within committed source used) (i.place committed values (some old)) :=
  (Workspace.keeps_within_update _).bind fun _ => Action.keeps_pure _

theorem inserting_place (h : w.Writable) (i : Insertion) (values : List Value)
    (hperform : (i.place committed values none).perform w = (r, w')) :
    w'.Writable ∧ Inserting w.rowIds (w.ids committed)
      [{ id := w.rowIds.next, outcome := r }] w'.rowIds (w'.ids committed) := by
  -- The id is taken before the insert is tried, so an insert that fails uses it up too.
  have hfresh := Workspace.perform_freshId w
  have hw : ({ w with rowIds := w.rowIds.take.2 } : Workspace).Writable :=
    ⟨h.active, h.mode, h.ordered⟩
  unfold place at hperform
  rw [Option.elim_none, Action.perform_bind_ok hfresh] at hperform
  cases hs : w.sees committed i.table.name with
  | none =>
      have hnone := Workspace.perform_insert_none hw hs { id := w.rowIds.next, values := values }
      change ((Workspace.onWork (UnitOfWork.insert committed i.table.name
        { id := w.rowIds.next, values := values })) >>= fun _ => _).perform _ = _ at hperform
      rw [Action.perform_bind_error hnone] at hperform
      cases hperform
      exact ⟨hw, Inserting.failed nofun (Set.Subset.refl _)⟩
  | some s =>
      rcases Workspace.perform_insert hw hs { id := w.rowIds.next, values := values } with
        ⟨w₁, hinsert, hwrote⟩
      rcases hstore : (TableStore.insert { id := w.rowIds.next, values := values }).perform s with
        ⟨r₁, s₁⟩
      rw [hstore] at hinsert hwrote
      have hids : w₁.ids committed ⊆ s₁.ids ∪ w.ids committed := hwrote.ids_subset
      have hseen : s.ids ⊆ w.ids committed := Workspace.subset_ids hs
      change ((Workspace.onWork (UnitOfWork.insert committed i.table.name
        { id := w.rowIds.next, values := values })) >>= fun _ => _).perform _ = _ at hperform
      cases r₁ with
      | ok u =>
          rw [Action.perform_bind_ok hinsert] at hperform
          cases hperform
          refine ⟨hwrote.writable, ?_⟩
          rw [hwrote.rowIds]
          apply Inserting.stored (TableStore.signed_of_insert hstore)
          apply Inserting.nothing
          apply hids.trans
          apply Set.union_subset
          · rw [TableStore.ids_insert hstore]
            exact Set.union_subset_union_right _ hseen
          · exact Set.subset_union_right
      | error e =>
          rw [Action.perform_bind_error hinsert] at hperform
          cases hperform
          refine ⟨hwrote.writable, ?_⟩
          rw [hwrote.rowIds]
          apply Inserting.failed
          · rintro id table rfl
            exact hseen (TableStore.mem_ids_of_rowExists hstore)
          · rw [TableStore.ids_insert_error hstore] at hids
            exact hids.trans (Set.union_subset hseen (Set.Subset.refl _))

/-- The insert of a fresh row that writing the values comes to, unless they take the place of an
old row. -/
def rowInserts (i : Insertion) (committed : Committed) (values : List Value) (w : Workspace) :
    List FreshInsert :=
  match i.old? (w.sees committed) values with
  | some _ => []
  | none =>
      [{ id := w.rowIds.next, outcome := ((i.writeRow committed values).perform w).1 }]

def inserts (i : Insertion) (committed : Committed) :
    List (List Value) → Workspace → List FreshInsert
  | [], _ => []
  | values :: rest, w =>
      i.rowInserts committed values w ++
        match (i.writeRow committed values).perform w with
        | (.ok (), w') => i.inserts committed rest w'
        | (.error _, _) => []

theorem inserted_writeRow (h : w.Writable) (i : Insertion) (values : List Value)
    (hperform : (i.writeRow committed values).perform w = (r, w')) :
    w'.Writable ∧ Inserted w.rowIds (w.ids committed)
      (i.rowInserts committed values w) r w'.rowIds (w'.ids committed) := by
  unfold rowInserts
  rw [hperform]
  rw [perform_writeRow h] at hperform
  cases hold : i.old? (w.sees committed) values with
  | some old =>
      rw [hold] at hperform
      have hkept := i.keeps_within_place values old w (Within.self committed h)
      rw [hperform] at hkept
      exact ⟨hkept.writable, hkept.inserted r⟩
  | none =>
      rw [hold] at hperform
      rcases i.inserting_place h values hperform with ⟨hwritable, hinserting⟩
      refine ⟨hwritable, hinserting, ?_⟩
      intro u hr a ha
      rw [List.mem_singleton.mp ha, hr]

theorem inserted_rows (h : w.Writable) (i : Insertion) (rows : List (List Value))
    (hperform : (rows.forM (i.writeRow committed)).perform w = (r, w')) :
    Inserted w.rowIds (w.ids committed) (i.inserts committed rows w) r w'.rowIds
      (w'.ids committed) := by
  induction rows generalizing w with
  | nil =>
      cases hperform
      exact (Within.self committed h).inserted _
  | cons values rest ih =>
      change ((i.writeRow committed values) >>= fun _ =>
        rest.forM (i.writeRow committed)).perform w = _ at hperform
      unfold inserts
      rcases hrow : (i.writeRow committed values).perform w with ⟨r₁, w₁⟩
      rcases i.inserted_writeRow h values hrow with ⟨hwritable, hinserted⟩
      cases r₁ with
      | error e =>
          rw [Action.perform_bind_error hrow] at hperform
          cases hperform
          dsimp only
          rw [List.append_nil]
          exact hinserted
      | ok u =>
          rw [Action.perform_bind_ok hrow] at hperform
          exact hinserted.bind (ih hwritable hperform)

theorem place_ne_rowExists (h : w.Writable) (i : Insertion) (values : List Value) (old : Row)
    (id : RowId) (table : String) :
    ((i.place committed values (some old)).perform w).1 ≠
      .error (.operation (.rowExists id table)) := by
  intro hplace
  have hupdate : ∀ row, ((Workspace.onWork
      (UnitOfWork.update committed i.table.name row)).perform w).1 ≠
        .error (.operation (.rowExists id table)) := by
    intro row
    cases hs : w.sees committed i.table.name with
    | none =>
        rw [Workspace.perform_update_none h hs]
        nofun
    | some s =>
        rcases Workspace.perform_update h hs row with ⟨w', hperform, _⟩
        rw [hperform]
        exact s.update_ne_rowExists row table
  unfold place at hplace
  rw [Option.elim_some] at hplace
  rcases Action.perform_bind_eq_error (Prod.ext hplace rfl) with hfirst | ⟨_, _, _, hrest⟩
  · exact hupdate _ (congrArg Prod.fst hfirst)
  · cases hrest

theorem exists_collides (h : w.Writable) (i : Insertion) {rows : List (List Value)} {id : RowId}
    {table : String} (hperform : (rows.forM (i.writeRow committed)).perform w =
      (.error (.operation (.rowExists id table)), w')) :
    ∃ a ∈ i.inserts committed rows w, a.Collides := by
  induction rows generalizing w with
  | nil => cases hperform
  | cons values rest ih =>
      change ((i.writeRow committed values) >>= fun _ =>
        rest.forM (i.writeRow committed)).perform w = _ at hperform
      unfold inserts
      rcases Action.perform_bind_eq_error hperform with hrow | ⟨u, w₁, hrow, hrest⟩
      · rw [hrow, List.append_nil]
        unfold rowInserts
        cases hold : i.old? (w.sees committed) values with
        | none => exact ⟨_, List.mem_singleton_self _, id, table, congrArg Prod.fst hrow⟩
        | some old =>
            rw [perform_writeRow h, hold] at hrow
            exact absurd (congrArg Prod.fst hrow) (i.place_ne_rowExists h values old id table)
      · rcases ih (i.inserted_writeRow h values hrow).1 hrest with ⟨a, ha, hcollides⟩
        rw [hrow]
        exact ⟨a, List.mem_append_right _ ha, hcollides⟩

end Insertion

def Statement.inserts (committed : Committed) (w : Workspace) : Statement → List FreshInsert
  | insert i => i.inserts committed i.rows w
  | _ => []

theorem Update.keeps_within_run (u : Update) (planner : Planner) :
    Action.Keeps (Within committed source used) (u.run planner committed) := by
  apply Workspace.keeps_matching
  intro rows
  refine Action.Keeps.bind ?_ fun _ => Action.keeps_pure _
  apply Action.Keeps.forM
  intro row _
  exact (Workspace.keeps_within_update row).bind fun _ => Action.keeps_pure _

theorem Deletion.keeps_within_run (d : Deletion) (planner : Planner) :
    Action.Keeps (Within committed source used) (d.run planner committed) := by
  apply Workspace.keeps_matching
  intro rows
  refine Action.Keeps.bind ?_ fun _ => Action.keeps_pure _
  apply Action.Keeps.forM
  intro row _
  exact (Workspace.keeps_within_delete row.id).bind fun _ => Action.keeps_pure _

theorem Statement.inserted_run (s : Statement) (planner : Planner) {r : Outcome ResultSet}
    (h : s.target ≠ none → w.Writable)
    (hperform : (s.run planner committed).perform w = (r, w')) :
    Inserted w.rowIds (w.ids committed) (s.inserts committed w) r w'.rowIds
      (w'.ids committed) := by
  cases s with
  | select q =>
      have hkept : Action.Keeps (fun w' => w' = w) ((select q).run planner committed) := by
        refine Action.keeps_get.bind fun w => ?_
        refine (Action.keeps_ofOutcome _).bind fun view => ?_
        exact Action.keeps_ofOutcome _
      have hsame := hkept w rfl
      rw [hperform] at hsame
      dsimp only at hsame
      rw [hsame]
      exact Inserted.nothing r (Set.Subset.refl _)
  | insert i =>
      change (i.rows.forM (i.writeRow committed) >>= fun _ =>
        pure (i.table.writtenRows i.rows)).perform w = _ at hperform
      rcases hrows : (i.rows.forM (i.writeRow committed)).perform w with ⟨r₁, w₁⟩
      have hinserted := i.inserted_rows (h nofun) i.rows hrows
      rw [Action.perform_bind_pure, hrows] at hperform
      cases hperform
      exact hinserted.map _
  | update u =>
      have hkept := u.keeps_within_run planner w (Within.self committed (h nofun))
      change (u.run planner committed).perform w = _ at hperform
      rw [hperform] at hkept
      exact hkept.inserted r
  | delete d =>
      have hkept := d.keeps_within_run planner w (Within.self committed (h nofun))
      change (d.run planner committed).perform w = _ at hperform
      rw [hperform] at hkept
      exact hkept.inserted r

end RelationalDb
