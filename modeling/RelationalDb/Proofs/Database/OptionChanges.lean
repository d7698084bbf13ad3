import Mathlib
import RelationalDb.Proofs.Database.Sittings

/-!
# Sittings with different options

The options of a sitting decide whether its indices are written.  An index that was written in
one sitting and not in the next is stale in the backstore, unless its table keeps its indices by
its own definition: then it is emptied.  So indices may be kept, and then be kept no more, but
not be kept once again.
-/

namespace RelationalDb

/-!
## What the store of an index has after sittings with some options
-/

/-- What the store of an index has after sittings in which the indices of its table were kept or
not kept. -/
structure WrittenWhile (kept : List Bool) (t : Table) (i : TableIndex) (m : Option RowMap) :
    Prop where
  there : t.persistsIndices = true → m ≠ none
  readable : t.persistsIndices = true ∨ ¬ [true, false].Sublist kept →
    Vacant m ∨ m = some i.stored
  unkept : t.persistsIndices = false → (∀ k ∈ kept, k = false) → Vacant m

def AlikeWrittenWhile (kept : List Bool) (t : Table) (i : TableIndex) (m : Option RowMap) : Prop :=
  ∃ i₀ : TableIndex, i.Alike i₀ ∧ WrittenWhile kept t i₀ m

theorem forall_eq_false_of_not_sublist {kept : List Bool}
    (h : ¬ [true, false].Sublist (kept ++ [false])) : ∀ k ∈ kept, k = false := by
  intro k hk
  cases k with
  | false => rfl
  | true =>
      have hsub := (List.singleton_sublist.mpr hk).append (List.Sublist.refl [false])
      exact absurd hsub h

namespace WrittenWhile

variable {kept : List Bool} {k : Bool} {t : Table} {i i' : TableIndex} {m : Option RowMap}

theorem more (h : WrittenWhile kept t i m) (k : Bool) : WrittenWhile (kept ++ [k]) t i m where
  there := h.there
  readable := by
    rintro (hflag | hnot)
    · exact h.readable (Or.inl hflag)
    · apply h.readable
      exact Or.inr fun hsub => hnot (hsub.trans (List.sublist_append_left _ _))
  unkept := fun hflag hall => h.unkept hflag fun k' hk' => hall k' (List.mem_append_left _ hk')

theorem of_kept (hlast : true ∈ kept) (t : Table) (i : TableIndex) :
    WrittenWhile kept t i (some i.stored) where
  there := fun _ => nofun
  readable := fun _ => Or.inr rfl
  unkept := by
    intro _ hall
    cases hall true hlast

theorem of_emptied (kept : List Bool) (t : Table) (i : TableIndex) :
    WrittenWhile kept t i (some {}) where
  there := fun _ => nofun
  readable := fun _ => Or.inl rfl
  unkept := fun _ _ => rfl

theorem of_ignored (h : WrittenWhile (kept ++ [false]) t i m) (hflag : t.persistsIndices = false)
    (i' : TableIndex) : WrittenWhile (kept ++ [false]) t i' m where
  there := h.there
  readable := by
    rintro (hflag' | hnot)
    · rw [hflag] at hflag'
      cases hflag'
    · left
      apply h.unkept hflag
      intro k hk
      rcases List.mem_append.mp hk with hbefore | hlast
      · exact forall_eq_false_of_not_sublist hnot k hbefore
      · exact List.mem_singleton.mp hlast
  unkept := h.unkept

end WrittenWhile

def keptUnder (past : List DatabaseOptions) (t : Table) : List Bool :=
  past.map fun options => options.persistsIndicesOf t

theorem keptUnder_append (past : List DatabaseOptions) (options : DatabaseOptions) (t : Table) :
    keptUnder (past ++ [options]) t = keptUnder past t ++ [options.persistsIndicesOf t] := by
  unfold keptUnder
  rw [List.map_append]
  rfl

theorem not_kept_again_append {past : List DatabaseOptions} {options : DatabaseOptions} {t : Table}
    (h : ¬ [true, false, true].Sublist (keptUnder (past ++ [options]) t)) :
    ¬ [true, false, true].Sublist (keptUnder past t) := by
  rw [keptUnder_append] at h
  exact fun hsub => h (hsub.trans (List.sublist_append_left _ _))

theorem lasting_alikeWrittenWhile (tables : List Table) (past : List DatabaseOptions)
    (options : DatabaseOptions) :
    Lasting tables options fun t => AlikeWrittenWhile (keptUnder (past ++ [options]) t) t where
  kept := by
    intro t _ hkept i
    refine ⟨i, .refl i, WrittenWhile.of_kept ?_ t i⟩
    rw [keptUnder_append, hkept]
    exact List.mem_append_right _ List.mem_cons_self
  cleared := fun t _ _ _ i => ⟨i, .refl i, .of_emptied _ t i⟩
  ignored := by
    rintro t _ hkept hflag i i' m ⟨i₀, _, hi₀⟩
    rw [keptUnder_append, hkept] at hi₀ ⊢
    exact ⟨i', .refl i', hi₀.of_ignored hflag i'⟩

/-!
## Stores with the indices that were written
-/

namespace Backstore

variable {stores : SortedMap String RowMap} {tables : List Table} {c : Catalog} {b : Backstore}
  {ref : Table → TableStore} {K : Table → TableIndex → Option RowMap → Prop}
  {options : DatabaseOptions} {past : List DatabaseOptions}

/-- Stores with indices that are alike to those that were written can be exchanged for stores with
the latter. -/
theorem Backs.exists_written
    (h : Backs stores tables (fun t i m => ∃ i₀ : TableIndex, i.Alike i₀ ∧ K t i₀ m) ref) :
    ∃ ref', Backs stores tables K ref' := by
  have hexists : ∀ t ∈ tables, ∃ s : TableStore, s.Sound ∧ s.table = t ∧ s.rows = (ref t).rows ∧
      ∀ i ∈ s.allIndices, K t i (stores.get? i.name) := by
    intro t ht
    have hall : ∀ i ∈ (ref t).allIndices, ∃ i₀ : TableIndex, i.Alike i₀ ∧
        K t i₀ (stores.get? i₀.name) := by
      intro i hi
      rcases h.indices t ht i hi with ⟨i₀, halike, hi₀⟩
      rw [← halike.name_eq] at hi₀
      exact ⟨i₀, halike, hi₀⟩
    rcases (h.sound t ht).exists_alike hall with ⟨s, hs, htable, hrows, hindices⟩
    exact ⟨s, hs, htable.trans (h.table t ht), hrows, hindices⟩
  have hnonempty : Nonempty TableStore := ⟨.empty .items⟩
  choose! ref' hsound htable hrows hindices using hexists
  refine ⟨ref', hsound, htable, ?_, hindices⟩
  intro t ht
  rw [hrows t ht]
  exact h.rows t ht

theorem backs_empty_writtenWhile (hc : c.WellFormed) :
    Backs (sow {} c.seeds) c.tables (fun t => WrittenWhile (keptUnder [] t) t) TableStore.empty := by
  apply backs_empty hc
  intro t _ i _
  constructor
  · intro hflag
    rw [if_pos hflag]
    nofun
  · intro _
    split
    · exact Or.inr rfl
    · exact Or.inl rfl
  · intro hflag _
    rw [hflag]
    rfl

theorem WrittenWhile.vacant_or_stored {t : Table} {i : TableIndex} {m : Option RowMap}
    (h : WrittenWhile (keptUnder past t) t i m) (hkept : options.persistsIndicesOf t = true)
    (hsteady : t.persistsIndices = false →
      ¬ [true, false, true].Sublist (keptUnder (past ++ [options]) t)) :
    Vacant m ∨ m = some i.stored := by
  apply h.readable
  cases hflag : t.persistsIndices with
  | true => exact Or.inl rfl
  | false =>
      right
      intro hsub
      apply hsteady hflag
      rw [keptUnder_append, hkept]
      exact hsub.append (List.Sublist.refl [true])

theorem Backs.opens_while
    (h : Backs (sow b.stores c.seeds) c.tables (fun t => WrittenWhile (keptUnder past t) t) ref)
    (hb : b.stores.Ordered) (hc : c.WellFormed) (hcheck : options.check = .ok ())
    (hsteady : ∀ t ∈ c.tables, t.persistsIndices = false →
      ¬ [true, false, true].Sublist (keptUnder (past ++ [options]) t)) :
    ∃ d b₁, (Database.load c options).perform b.repair = (.ok d, b₁) ∧
      (∀ t ∈ c.tables, ∃ s', Database.Loaded (sow b.stores c.seeds) d (ref t) s') ∧
      d.options = options ∧
      ∀ events, ((Service.opened b₁ d).after events).session.ground.Mirrors c.tables
        (fun t => AlikeWrittenWhile (keptUnder (past ++ [options]) t) t) := by
  apply h.opens hb hc hcheck
  · intro t ht hkept i m hm
    exact WrittenWhile.vacant_or_stored hm hkept (hsteady t ht)
  · intro t ht s' hreloads i hi
    have hall := hreloads.sound.alike_allIndices (h.sound t ht) hreloads.table.symm
      hreloads.rows.symm
    rcases exists_of_mem_left hall hi with ⟨i₀, hi₀, hsame⟩
    refine ⟨i₀, hsame, ?_⟩
    rw [keptUnder_append, ← hsame.name_eq]
    exact WrittenWhile.more (h.indices t ht i₀ hi₀) _
  · exact lasting_alikeWrittenWhile c.tables past options

theorem backs_afterSittings (hc : c.WellFormed) {sittings : List Sitting}
    (hchecked : ∀ s ∈ sittings, s.options.check = .ok ())
    (hsteady : ∀ t ∈ c.tables, t.persistsIndices = false →
      ¬ [true, false, true].Sublist (keptUnder (sittings.map (·.options)) t)) :
    (afterSittings c {} sittings).stores.Ordered ∧
      ∃ ref, Backs (sow (afterSittings c {} sittings).stores c.seeds) c.tables
        (fun t => WrittenWhile (keptUnder (sittings.map (·.options)) t) t) ref := by
  -- Each sitting is opened on what those before it left, so the last one is taken off first.
  induction sittings using List.reverseRecOn with
  | nil => exact ⟨SortedMap.ordered_empty, _, backs_empty_writtenWhile hc⟩
  | append_singleton before sitting ih =>
      rw [List.map_append, List.map_singleton] at hsteady ⊢
      rw [afterSittings_concat]
      rcases ih (fun s hs => hchecked s (List.mem_append_left _ hs))
        (fun t ht hflag => not_kept_again_append (hsteady t ht hflag)) with ⟨hb, ref, h⟩
      have hcheck := hchecked sitting (List.mem_append_right _ List.mem_cons_self)
      rcases h.opens_while hb hc hcheck hsteady with ⟨d, b₁, hload, _, _, hmirrors⟩
      have hm := hmirrors sitting.events
      rcases hm.backs hc with ⟨_, hbacks, _⟩
      rcases hbacks.exists_written with ⟨ref', hwritten⟩
      rw [afterSitting_of_load hload]
      exact ⟨hm.ordered, ref',
        hwritten.sown hm.ordered hc fun t _ hflag i m hi => hi.there hflag⟩

end Backstore

namespace Service

/-- A sitting in which an item is entered and the indices are kept, and one in which the item is
replaced by one of another size and the indices are not kept. -/
def replacedItem : List Sitting :=
  [{ options := { persistIndices := some true }
     events := [.request (.executeAlone
      (.insert { table := .items, rows := [[.int64 7, .float64 ⟨0⟩]] }))] },
   { options := {}
     events := [.request (.executeAlone
      (.insert { table := .items, rows := [[.int64 7, .float64 ⟨1⟩]], replace := true }))] }]

/-- Sittings with all kinds of options: a database opens on what they leave, and its indices are
in step with the rows, unless a table that does not keep its indices by its own definition had
them kept, then not kept, and then kept once again. -/
theorem indices_in_step_unless_kept_again {c : Catalog} (hc : c.Built) (sittings : List Sitting)
    (hchecked : ∀ s ∈ sittings, s.options.check = .ok ()) {options : DatabaseOptions}
    (hcheck : options.check = .ok ())
    (hsteady : ∀ t ∈ c.tables, t.persistsIndices = false →
      ¬ [true, false, true].Sublist (keptUnder (sittings.map (·.options) ++ [options]) t)) :
    ∃ d b, (Database.load c options).perform (Backstore.afterSittings c {} sittings).repair =
        (.ok d, b) ∧
      ∀ t ∈ c.tables, ∃ s, d.committed.store? t.name = some s ∧ s.table = t ∧ s.InStep ∧
        b.stores.get? t.name = some s.rows := by
  have hwf := hc.wellFormed
  have hsteady' : ∀ t ∈ c.tables, t.persistsIndices = false →
      ¬ [true, false, true].Sublist (keptUnder (sittings.map (·.options)) t) :=
    fun t ht hflag => not_kept_again_append (hsteady t ht hflag)
  rcases Backstore.backs_afterSittings hwf hchecked hsteady' with ⟨hordered, ref, hbacks⟩
  rcases hbacks.opens_while hordered hwf hcheck hsteady with
    ⟨d, b, hload, hloaded, hoptions, hmirrors⟩
  refine ⟨d, b, hload, ?_⟩
  intro t ht
  rcases hloaded t ht with ⟨s, hs⟩
  rcases hbacks.loaded hwf ht hs with ⟨hstore, htable, hstep⟩
  exact ⟨s, hstore, htable, hstep, (hmirrors []).rows hstore⟩

set_option maxRecDepth 10000 in
theorem replaced_item_is_in_step :
    ∃ (d : Database) (b : Backstore) (s : TableStore),
      (Database.load .shop {}).perform (Backstore.afterSittings .shop {} replacedItem).repair =
        (.ok d, b) ∧
      d.committed.store? "item" = some s ∧ s.InStep := by
  have hchecked : ∀ s ∈ replacedItem, s.options.check = .ok () := by
    intro s hs
    rcases List.mem_pair.mp hs with rfl | rfl
    · rfl
    · rfl
  rcases @indices_in_step_unless_kept_again .shop Catalog.built_shop replacedItem hchecked {} rfl
    (fun t ht _ => by rw [List.mem_singleton.mp ht]; decide) with ⟨d, b, hload, hall⟩
  rcases hall .items List.mem_cons_self with ⟨s, hs, _, hstep, _⟩
  exact ⟨d, b, s, hload, hs, hstep⟩

/-- When the index over the sizes is kept again, then it has the old size of the item. -/
theorem replaced_item_is_under_its_old_size :
    ∃ (d : Database) (b : Backstore) (s : TableStore),
      (Database.load .shop { persistIndices := some true }).perform
        (Backstore.afterSittings .shop {} replacedItem).repair = (.ok d, b) ∧
      d.committed.store? "item" = some s ∧ ¬ s.InStep :=
  Database.exists_not_inStep (by decide +kernel)

end Service

end RelationalDb
