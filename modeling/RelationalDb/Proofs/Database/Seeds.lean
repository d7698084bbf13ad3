import Mathlib
import RelationalDb.Proofs.Database.Mirrors

/-!
# Stores that are made when a database is opened

Every table gets a store.  If it keeps its indices by its own definition, then every index gets a
store as well, with the stored form of the empty index.  A store that is there is left as it is.
-/

namespace RelationalDb

def Table.seeds (t : Table) : List (String × List Row) :=
  (t.name, []) ::
    if t.persistsIndices then (TableStore.empty t).allIndices.map fun i => (i.name, i.toRows)
    else []

def Catalog.seeds (c : Catalog) : List (String × List Row) :=
  c.tables.flatMap Table.seeds

theorem lookup_of_mem {α β : Type} [BEq α] [LawfulBEq α] {l : List (α × β)} {a : α} {b : β}
    (hmem : (a, b) ∈ l) (hunique : ∀ b', (a, b') ∈ l → b' = b) : l.lookup a = some b := by
  induction l with
  | nil => cases hmem
  | cons e rest ih =>
      rcases e with ⟨a', b'⟩
      by_cases heq : a = a'
      · rw [List.lookup_cons, beq_iff_eq.mpr heq, ← hunique b' (heq ▸ List.mem_cons_self)]
      · rw [List.lookup_cons, beq_eq_false_iff_ne.mpr heq]
        have hrest : (a, b) ∈ rest := by
          rcases List.mem_cons.mp hmem with hhead | hrest
          · cases hhead
            exact absurd rfl heq
          · exact hrest
        exact ih hrest fun b' hb' => hunique b' (List.mem_cons_of_mem _ hb')

namespace Backstore

variable {stores : SortedMap String RowMap} {c : Catalog} {t : Table} {name : String}
  {seeds : List (String × List Row)}

def sow (stores : SortedMap String RowMap) (seeds : List (String × List Row)) :
    SortedMap String RowMap :=
  seeds.foldl
    (fun m seed => if m.contains seed.1 then m else m.insert seed.1 (RowMap.putAll {} seed.2))
    stores

theorem ensure_eq_sow (b : Backstore) (name : String) (rows : List Row) :
    b.ensure name rows = { b with stores := sow b.stores [(name, rows)] } := by
  unfold ensure sow
  rw [List.foldl_cons, List.foldl_nil]
  split
  · rfl
  · rfl

theorem sow_append (stores : SortedMap String RowMap) (seeds more : List (String × List Row)) :
    sow stores (seeds ++ more) = sow (sow stores seeds) more :=
  List.foldl_append

theorem ensureTable_eq_sow (b : Backstore) (t : Table) :
    b.ensureTable t = { b with stores := sow b.stores t.seeds } := by
  have hindices : ∀ (is : List TableIndex) (b : Backstore),
      is.foldl (fun b i => b.ensure i.name i.toRows) b =
        { b with stores := sow b.stores (is.map fun i => (i.name, i.toRows)) } := by
    intro is
    induction is with
    | nil => exact fun b => rfl
    | cons i rest ih =>
        intro b
        rw [List.foldl_cons, ih, ensure_eq_sow]
        rfl
  unfold ensureTable Table.seeds
  rw [ensure_eq_sow]
  dsimp only
  rw [← List.singleton_append, sow_append]
  split
  · exact hindices _ _
  · rfl

theorem ensureTables_eq_sow (b : Backstore) (c : Catalog) :
    b.ensureTables c = { b with stores := sow b.stores c.seeds } := by
  unfold ensureTables Catalog.seeds
  induction c.tables generalizing b with
  | nil => rfl
  | cons t rest ih => rw [List.foldl_cons, ih, ensureTable_eq_sow, List.flatMap_cons, sow_append]

theorem ordered_sow (h : stores.Ordered) (seeds : List (String × List Row)) :
    (sow stores seeds).Ordered := by
  unfold sow
  induction seeds generalizing stores with
  | nil => exact h
  | cons seed rest ih =>
      rw [List.foldl_cons]
      apply ih
      split
      · exact h
      · exact h.insert _ _

theorem get?_sow (h : stores.Ordered) (seeds : List (String × List Row)) (name : String) :
    (sow stores seeds).get? name =
      (stores.get? name).or ((seeds.lookup name).map (RowMap.putAll {})) := by
  unfold sow
  induction seeds generalizing stores with
  | nil => simp
  | cons seed rest ih =>
      rcases seed with ⟨name', rows⟩
      rw [List.foldl_cons]
      by_cases hthere : stores.contains name' = true
      · rw [if_pos hthere, ih h]
        rcases SortedMap.contains_iff.mp hthere with ⟨m, hm⟩
        by_cases heq : name = name'
        · rw [heq, hm]
          rfl
        · rw [List.lookup_cons, beq_eq_false_iff_ne.mpr heq]
      · rw [if_neg hthere, ih (h.insert _ _), SortedMap.get?_insert h]
        by_cases heq : name = name'
        · have hnone : stores.get? name = none := by
            rw [heq]
            exact SortedMap.contains_eq_false_iff.mp (by simpa using hthere)
          rw [if_pos heq, hnone, List.lookup_cons, beq_iff_eq.mpr heq]
          rfl
        · rw [if_neg heq, List.lookup_cons, beq_eq_false_iff_ne.mpr heq]

theorem mem_seeds {rows : List Row} (h : (name, rows) ∈ t.seeds) :
    (name = t.name ∧ rows = []) ∨
      t.persistsIndices = true ∧
        ∃ i ∈ (TableStore.empty t).allIndices, i.name = name ∧ i.toRows = rows := by
  unfold Table.seeds at h
  rcases List.mem_cons.mp h with hhead | hindex
  · cases hhead
    exact Or.inl ⟨rfl, rfl⟩
  · split at hindex
    · next hflag =>
        rcases List.mem_map.mp hindex with ⟨i, hi, heq⟩
        cases heq
        exact Or.inr ⟨hflag, i, hi, rfl, rfl⟩
    · cases hindex

theorem qualifies_of_mem_empty (ht : t.WellFormed) {i : TableIndex}
    (hi : i ∈ (TableStore.empty t).allIndices) : t.Qualifies i.name :=
  (TableStore.sound_empty t).qualifies ht hi

theorem get?_sow_table (h : stores.Ordered) (hc : c.WellFormed) (ht : t ∈ c.tables) :
    (sow stores c.seeds).get? t.name = some ((stores.get? t.name).getD {}) := by
  have hseed : c.seeds.lookup t.name = some [] := by
    apply lookup_of_mem
    · exact List.mem_flatMap.mpr ⟨t, ht, List.mem_cons_self⟩
    · intro rows hrows
      rcases List.mem_flatMap.mp hrows with ⟨t', ht', hmem⟩
      rcases mem_seeds hmem with ⟨_, hempty⟩ | ⟨_, i, hi, hname, _⟩
      · exact hempty
      · have hqualifies := qualifies_of_mem_empty (hc.tables t' ht') hi
        exact absurd hname (hqualifies.ne_name (hc.tables t ht).named)
  rw [get?_sow h, hseed]
  cases stores.get? t.name with
  | none => rfl
  | some m => rfl

theorem get?_sow_index (h : stores.Ordered) (hc : c.WellFormed) (ht : t ∈ c.tables)
    (hflag : t.persistsIndices = true) {i : TableIndex}
    (hi : i ∈ (TableStore.empty t).allIndices) :
    (sow stores c.seeds).get? i.name = some ((stores.get? i.name).getD i.stored) := by
  have hsound := TableStore.sound_empty t
  have hqualifies := qualifies_of_mem_empty (hc.tables t ht) hi
  have hseed : c.seeds.lookup i.name = some i.toRows := by
    apply lookup_of_mem
    · apply List.mem_flatMap.mpr
      refine ⟨t, ht, ?_⟩
      unfold Table.seeds
      rw [if_pos hflag]
      exact List.mem_cons_of_mem _ (List.mem_map.mpr ⟨i, hi, rfl⟩)
    · intro rows hrows
      rcases List.mem_flatMap.mp hrows with ⟨t', ht', hmem⟩
      have hwf' := hc.tables t' ht'
      rcases mem_seeds hmem with ⟨hname, _⟩ | ⟨_, i', hi', hname, htoRows⟩
      · exact absurd hname (hqualifies.ne_name hwf'.named)
      · have hqualifies' : t'.Qualifies i.name := hname ▸ qualifies_of_mem_empty hwf' hi'
        have hsame : t' = t := hc.eq_of_name ht' ht
          (hqualifies'.name_eq hqualifies hwf'.named (hc.tables t ht).named)
        rw [hsame] at hi'
        have heq : i' = i := List.inj_on_of_nodup_map
          (hsound.nodup_indexNames (hc.tables t ht)) hi' hi hname
        rw [← htoRows, heq]
  rw [get?_sow h, hseed]
  cases stores.get? i.name with
  | none => rfl
  | some m => rfl

theorem get?_sow_unkept (h : stores.Ordered) (hc : c.WellFormed) (ht : t ∈ c.tables)
    (hflag : t.persistsIndices = false) (hqualifies : t.Qualifies name) :
    (sow stores c.seeds).get? name = stores.get? name := by
  have hnone : c.seeds.lookup name = none := by
    rw [List.lookup_eq_none_iff]
    rintro ⟨name', rows⟩ hmem
    rcases List.mem_flatMap.mp hmem with ⟨t', ht', hseed⟩
    have hwf' := hc.tables t' ht'
    apply bne_iff_ne.mpr
    rintro rfl
    rcases mem_seeds hseed with ⟨hname, _⟩ | ⟨hflag', i, hi, hname, _⟩
    · exact hqualifies.ne_name hwf'.named hname
    · have hqualifies' : t'.Qualifies name := hname ▸ qualifies_of_mem_empty hwf' hi
      have hsame : t' = t := hc.eq_of_name ht' ht
        (hqualifies'.name_eq hqualifies hwf'.named (hc.tables t ht).named)
      rw [hsame, hflag] at hflag'
      cases hflag'
  rw [get?_sow h, hnone]
  simp

end Backstore

end RelationalDb
