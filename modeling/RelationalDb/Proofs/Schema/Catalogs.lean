import Mathlib
import RelationalDb.Proofs.Schema.Drafts
import RelationalDb.Schema.Catalog

/-!
# Catalogs and the names in them

The tables of a catalog have distinct names.  The full name of an index begins with the name
of its table, which has no dot in it, so the table can be told from the full name.
-/

namespace RelationalDb

/-!
## Full names
-/

theorem append_dot_injective {l l' m m' : List Char} (hl : '.' ∉ l) (hl' : '.' ∉ l')
    (h : l ++ '.' :: m = l' ++ '.' :: m') : l = l' := by
  induction l generalizing l' with
  | nil =>
      cases l' with
      | nil => rfl
      | cons a rest' =>
          cases h
          exact absurd List.mem_cons_self hl'
  | cons a rest ih =>
      cases l' with
      | nil =>
          cases h
          exact absurd List.mem_cons_self hl
      | cons b rest' =>
          rcases List.cons.inj h with ⟨rfl, htail⟩
          have hrest := ih (fun hmem => hl (List.mem_cons_of_mem _ hmem))
            (fun hmem => hl' (List.mem_cons_of_mem _ hmem)) htail
          rw [hrest]

namespace Table

def Qualifies (t : Table) (name : String) : Prop :=
  ∃ rest, name = t.name ++ "." ++ rest

variable {t t' : Table} {name : String}

theorem Qualifies.toList_eq (h : t.Qualifies name) :
    ∃ rest, name.toList = t.name.toList ++ '.' :: rest := by
  rcases h with ⟨rest, rfl⟩
  exact ⟨rest.toList, by simp⟩

/-- A name is qualified by one table at most. -/
theorem Qualifies.name_eq (h : t.Qualifies name) (h' : t'.Qualifies name) (ht : IsName t.name)
    (ht' : IsName t'.name) : t.name = t'.name := by
  rcases h.toList_eq with ⟨rest, hrest⟩
  rcases h'.toList_eq with ⟨rest', hrest'⟩
  apply String.toList_injective
  exact append_dot_injective ht.dot_not_mem ht'.dot_not_mem (hrest.symm.trans hrest')

theorem Qualifies.ne_name (h : t.Qualifies name) (ht' : IsName t'.name) : name ≠ t'.name := by
  intro heq
  rcases h.toList_eq with ⟨rest, hrest⟩
  apply ht'.dot_not_mem
  rw [← heq, hrest]
  simp

theorem qualifies_rowIdIndexName (t : Table) : t.Qualifies t.rowIdIndexName := by
  refine ⟨"#", ?_⟩
  unfold rowIdIndexName
  rw [String.append_assoc]
  rfl

theorem WellFormed.qualifies_fullName (h : t.WellFormed) {i : IndexDecl} (hi : i ∈ t.indices) :
    t.Qualifies i.fullName := by
  refine ⟨i.name, ?_⟩
  unfold IndexDecl.fullName
  rw [h.indicesOwn i hi]

theorem WellFormed.fullName_ne_rowIdIndexName (h : t.WellFormed) {i : IndexDecl}
    (hi : i ∈ t.indices) : i.fullName ≠ t.rowIdIndexName := by
  intro heq
  unfold IndexDecl.fullName rowIdIndexName at heq
  rw [h.indicesOwn i hi, String.append_assoc] at heq
  have hrest : "." ++ i.name = ".#" := String.append_right_inj _ |>.mp heq
  have hname : i.name = "#" := by
    apply String.toList_injective
    have hlist := congrArg String.toList hrest
    simpa using hlist
  apply (h.indicesNamed i hi).hash_not_mem
  rw [hname]
  simp

end Table

/-!
## Catalogs
-/

namespace Catalog

/-- The catalogs that are built table by table. -/
inductive Built : Catalog → Prop
  | start {name : String} {version : Nat} {c : Catalog}
      (h : Catalog.start name version = .ok c) : Built c
  | addTable {c c' : Catalog} {t : Table} (h : Built c) (ht : t.Built)
      (hadd : c.addTable t = .ok c') : Built c'

/-- Well-formed tables under distinct names. -/
structure WellFormed (c : Catalog) : Prop where
  tables : ∀ t ∈ c.tables, t.WellFormed
  distinct : (c.tables.map (·.name)).Nodup

variable {c c' : Catalog} {t t' : Table}

theorem addTable_eq_ok (h : c.addTable t = .ok c') :
    t.name ∉ c.tables.map (·.name) ∧ c' = { c with tables := c.tables ++ [t] } := by
  unfold addTable at h
  split at h
  · cases h
  · next htaken =>
      cases h
      refine ⟨?_, rfl⟩
      intro hmem
      rcases List.mem_map.mp hmem with ⟨t', ht', heq⟩
      apply htaken
      exact List.any_eq_true.mpr ⟨t', ht', by simpa using heq⟩

theorem Built.built_of_mem (h : c.Built) (ht : t ∈ c.tables) : t.Built := by
  induction h with
  | start h =>
      rcases Outcome.bind_eq_ok_iff.mp h with ⟨_, _, heq⟩
      cases heq
      cases ht
  | addTable h hbuilt hadd ih =>
      rcases addTable_eq_ok hadd with ⟨_, rfl⟩
      rcases List.mem_append.mp ht with ht | ht
      · exact ih ht
      · rw [List.mem_singleton.mp ht]
        exact hbuilt

theorem Built.wellFormed (h : c.Built) : c.WellFormed := by
  induction h with
  | @start name version c h =>
      rcases Outcome.bind_eq_ok_iff.mp h with ⟨_, _, heq⟩
      cases heq
      constructor
      · intro t ht
        cases ht
      · exact List.nodup_nil
  | @addTable c c' t h ht hadd ih =>
      rcases addTable_eq_ok hadd with ⟨hnew, rfl⟩
      constructor
      · intro t' ht'
        rcases List.mem_append.mp ht' with hmem | hmem
        · exact ih.tables t' hmem
        · rw [List.mem_singleton.mp hmem]
          exact ht.wellFormed
      · rw [List.map_append, List.nodup_append]
        refine ⟨ih.distinct, by simp, ?_⟩
        intro a ha b hb heq
        rw [List.map_singleton, List.mem_singleton] at hb
        rw [heq, hb] at ha
        exact hnew ha

theorem WellFormed.eq_of_name (h : c.WellFormed) (ht : t ∈ c.tables) (ht' : t' ∈ c.tables)
    (heq : t.name = t'.name) : t = t' :=
  List.inj_on_of_nodup_map h.distinct ht ht' heq

end Catalog

end RelationalDb
