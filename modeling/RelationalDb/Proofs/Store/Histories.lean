import Mathlib
import RelationalDb.Proofs.Schema.Drafts
import RelationalDb.Proofs.Store.Contents

/-!
# Stores after any writes

A history is a list of calls that insert, update and delete rows of a store, each of which
succeeds or fails.  Every store that a history leads to from the empty store of a drafted
table has its indices in step with its rows.
-/

namespace RelationalDb

/-- A call that writes to a store. -/
inductive StoreCall
  | insert (row : Row)
  | update (row : Row)
  | delete (id : RowId)

namespace StoreCall

def action : StoreCall → Action TableStore (Option Row)
  | insert row => do
      TableStore.insert row
      return none
  | update row => do
      let old ← TableStore.update row
      return some old
  | delete id => do
      let old ← TableStore.delete id
      return some old

variable {s s' : TableStore} {call : StoreCall} {r : Option Row} {e : Failure}

theorem perform_eq_ok (h : call.action.perform s = (.ok r, s')) :
    (∃ row, call = insert row ∧ (TableStore.insert row).perform s = (.ok (), s')) ∨
      (∃ row old, call = update row ∧ (TableStore.update row).perform s = (.ok old, s')) ∨
      (∃ id old, call = delete id ∧ (TableStore.delete id).perform s = (.ok old, s')) := by
  cases call with
  | insert row =>
      rcases Action.perform_bind_eq_ok h with ⟨u, s₁, hinsert, hr⟩
      cases hr
      exact Or.inl ⟨row, rfl, hinsert⟩
  | update row =>
      rcases Action.perform_bind_eq_ok h with ⟨old, s₁, hupdate, hr⟩
      cases hr
      exact Or.inr (Or.inl ⟨row, old, rfl, hupdate⟩)
  | delete id =>
      rcases Action.perform_bind_eq_ok h with ⟨old, s₁, hdelete, hr⟩
      cases hr
      exact Or.inr (Or.inr ⟨id, old, rfl, hdelete⟩)

/-!
## One call
-/

theorem table_eq_of_ok (h : call.action.perform s = (.ok r, s')) : s'.table = s.table := by
  rcases perform_eq_ok h with ⟨row, _, hok⟩ | ⟨row, old, _, hok⟩ | ⟨id, old, _, hok⟩
  · exact TableStore.table_of_insert hok
  · exact TableStore.table_of_update hok
  · exact TableStore.table_of_delete hok

theorem sound_of_ok (hs : s.Sound) (h : call.action.perform s = (.ok r, s')) : s'.Sound := by
  rcases perform_eq_ok h with ⟨row, _, hok⟩ | ⟨row, old, _, hok⟩ | ⟨id, old, _, hok⟩
  · exact hs.insert_ok hok
  · exact hs.update_ok hok
  · exact hs.delete_ok hok

theorem eq_of_error (hs : s.Sound) (h : call.action.perform s = (.error e, s')) : s' = s := by
  cases call with
  | insert row =>
      rcases Action.perform_bind_eq_error h with hinsert | ⟨u, s₁, _, hr⟩
      · exact hs.insert_error hinsert
      · cases hr
  | update row =>
      rcases Action.perform_bind_eq_error h with hupdate | ⟨old, s₁, _, hr⟩
      · exact hs.update_error hupdate
      · cases hr
  | delete id =>
      rcases Action.perform_bind_eq_error h with hdelete | ⟨old, s₁, _, hr⟩
      · exact hs.delete_error hdelete
      · cases hr

end StoreCall

namespace TableStore

/-- The store after some calls; those that fail are part of the history too. -/
def after (s : TableStore) (calls : List StoreCall) : TableStore :=
  calls.foldl (fun s call => (call.action.perform s).2) s

variable {s : TableStore} {t : Table}

theorem Sound.step (h : s.Sound) (call : StoreCall) :
    (call.action.perform s).2.Sound ∧ (call.action.perform s).2.table = s.table := by
  rcases hcall : call.action.perform s with ⟨r, s'⟩
  cases r with
  | ok r => exact ⟨StoreCall.sound_of_ok h hcall, StoreCall.table_eq_of_ok hcall⟩
  | error e =>
      rw [StoreCall.eq_of_error h hcall]
      exact ⟨h, rfl⟩

theorem Sound.after (h : s.Sound) (calls : List StoreCall) :
    (s.after calls).Sound ∧ (s.after calls).table = s.table := by
  induction calls generalizing s with
  | nil => exact ⟨h, rfl⟩
  | cons call calls ih =>
      rcases h.step call with ⟨hsound, htable⟩
      rcases ih hsound with ⟨hsound', htable'⟩
      exact ⟨hsound', htable'.trans htable⟩

theorem sound_after_empty (t : Table) (calls : List StoreCall) :
    ((empty t).after calls).Sound :=
  ((sound_empty t).after calls).1

theorem table_after_empty (t : Table) (calls : List StoreCall) :
    ((empty t).after calls).table = t :=
  ((sound_empty t).after calls).2

/-- A store that writes lead to from the empty store of a table. -/
def Written (s : TableStore) : Prop :=
  ∃ (t : Table) (calls : List StoreCall), t.Definable ∧ s = (empty t).after calls

theorem Written.sound (h : s.Written) : s.Sound := by
  rcases h with ⟨t, calls, _, rfl⟩
  exact sound_after_empty t calls

theorem Written.definable (h : s.Written) : s.table.Definable := by
  rcases h with ⟨t, calls, ht, rfl⟩
  rwa [table_after_empty]

/-!
## What the indices hold
-/

/-- The index that a table declares, over the column it declares it for. -/
structure Declares (t : Table) (d : IndexDecl) (c : ColumnIndex) : Prop where
  name : c.index.name = d.fullName
  unique : c.index.unique = d.unique
  direction : c.index.direction = d.direction
  column : ∃ column, t.columns[c.position]? = some column ∧ column.name = d.column ∧
    column.type = c.index.keyType

/-- Indices that hold what the rows of the store say, and no more. -/
structure InStep (s : TableStore) : Prop where
  ids : s.rowIds.toList = s.toList.map (·.id)
  declared : List.Forall₂ (Declares s.table) s.table.indices s.indices
  keys : ∀ c ∈ s.indices, ∀ p ∈ c.index.pairs,
    ∃ row ∈ s.toList, row.id = p.2 ∧ (p.1 == c.keyOf row) = true
  pairs : ∀ c ∈ s.indices, (c.index.pairs.map (·.2)).Perm
    ((s.toList.filter fun row => !(c.keyOf row).isNull).map (·.id))
  unique : ∀ c ∈ s.indices, c.index.unique = true → ∀ key, (c.index.get key).length ≤ 1
  checked : ∀ row ∈ s.toList, s.table.checkRow row.values = .ok ()

def indicesMatch (s : TableStore) : Bool :=
  s.indices.all fun c =>
    c.index.pairs.length == (s.toList.filter fun row => !(c.keyOf row).isNull).length &&
      c.index.pairs.all fun p => s.toList.any fun row => row.id == p.2 && p.1 == c.keyOf row

theorem InStep.indicesMatch (h : s.InStep) : s.indicesMatch = true := by
  apply List.all_eq_true.mpr
  intro c hc
  have hlength := (h.pairs c hc).length_eq
  rw [List.length_map, List.length_map] at hlength
  rw [Bool.and_eq_true]
  constructor
  · exact beq_iff_eq.mpr hlength
  · apply List.all_eq_true.mpr
    intro p hp
    rcases h.keys c hc p hp with ⟨row, hrow, hid, hkey⟩
    apply List.any_eq_true.mpr
    exact ⟨row, hrow, by rw [hid, hkey]; simp⟩

theorem forall₂_filterMap {α β : Type} {R : α → β → Prop} {f : α → Option β} {l : List α}
    (h : ∀ a ∈ l, ∃ b, f a = some b ∧ R a b) : List.Forall₂ R l (l.filterMap f) := by
  induction l with
  | nil => exact List.Forall₂.nil
  | cons a rest ih =>
      rcases h a List.mem_cons_self with ⟨b, hb, hR⟩
      rw [List.filterMap_cons_some hb]
      exact List.Forall₂.cons hR (ih fun a' ha' => h a' (List.mem_cons_of_mem _ ha'))

theorem declares_emptyIndices (ht : t.WellFormed) :
    List.Forall₂ (Declares t) t.indices (emptyIndices t) := by
  apply forall₂_filterMap
  intro d hd
  rcases ht.indicesKeyed d hd with ⟨column, hcolumn, hname, _⟩
  rcases Table.exists_position ⟨column, hcolumn, hname⟩ with ⟨position, found, hp, hc⟩
  refine ⟨_, by rw [hp, hc], rfl, rfl, rfl, found, Table.columns_getElem?_position hp hc, ?_, rfl⟩
  simpa using List.find?_some hc

theorem Sound.declared (h : s.Sound) (ht : s.table.WellFormed) :
    List.Forall₂ (Declares s.table) s.table.indices s.indices := by
  have hall := declares_emptyIndices ht
  rw [← h.shaped, List.forall₂_map_right_iff] at hall
  exact hall.imp fun d c hc => ⟨hc.name, hc.unique, hc.direction, hc.column⟩

theorem Sound.inStep (h : s.Sound) (ht : s.table.WellFormed) : s.InStep where
  ids := h.toList_rowIds.trans h.map_id_toList.symm
  declared := h.declared ht
  keys := by
    intro c hc p hp
    rcases h.row_of_mem_pairs hc hp with ⟨row, hrow, htype, heq⟩
    have hid : row.id = p.2 := h.id_eq hrow
    refine ⟨row, h.mem_toList_iff.mpr (by rwa [hid]), hid, ?_⟩
    exact (Value.beq_iff_of_type (h.type?_of_mem_pairs hc hp) htype).mpr heq
  pairs := fun c hc => h.perm_pairs hc
  unique := fun c hc hunique key => (h.indexSound hc).length_get_le_one hunique key
  checked := fun row hrow => h.checked (h.mem_toList_iff.mp hrow)

/-- After any calls on the store of a drafted table its indices are in step with its rows, and
a further call that fails changes nothing. -/
theorem writes_keep_indices_in_step (ht : t.Built) (calls : List StoreCall) :
    ((empty t).after calls).InStep ∧ ((empty t).after calls).table = t ∧
      ∀ (call : StoreCall) (e : Failure) (s' : TableStore),
        call.action.perform ((empty t).after calls) = (.error e, s') →
          s' = (empty t).after calls := by
  have hsound := sound_after_empty t calls
  have htable := table_after_empty t calls
  refine ⟨?_, htable, ?_⟩
  · apply hsound.inStep
    rw [htable]
    exact ht.wellFormed
  · intro call e s' h
    exact StoreCall.eq_of_error hsound h

theorem second_item_under_a_number_is_refused :
    ((empty .items).after [.insert { id := 1, values := [.int64 7, .float64 ⟨0⟩] }]).InStep ∧
      ∃ e, (StoreCall.insert { id := 2, values := [.int64 7, .float64 ⟨0⟩] }).action.perform
          ((empty .items).after [.insert { id := 1, values := [.int64 7, .float64 ⟨0⟩] }]) =
        (.error e, (empty .items).after [.insert { id := 1, values := [.int64 7, .float64 ⟨0⟩] }]) := by
  have h := writes_keep_indices_in_step Table.built_items
    [.insert { id := 1, values := [.int64 7, .float64 ⟨0⟩] }]
  refine ⟨h.1, .keyNotUnique "item.pkItem" (.int64 7), ?_⟩
  rcases hcall : (StoreCall.insert { id := 2, values := [.int64 7, .float64 ⟨0⟩] }).action.perform
    ((empty .items).after [.insert { id := 1, values := [.int64 7, .float64 ⟨0⟩] }]) with ⟨r, s'⟩
  have hr : r = .error (.keyNotUnique "item.pkItem" (.int64 7)) :=
    (congrArg Prod.fst hcall).symm
  rw [hr] at hcall ⊢
  rw [h.2.2 _ _ _ hcall]

end TableStore

end RelationalDb
