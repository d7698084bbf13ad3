import Mathlib
import RelationalDb.Proofs.Query.Predicates

/-!
# What a logical plan stands for

Below its projection a plan is known by the tables at its leaves and by the predicates of
its selections and joins: it asks for the combinations of rows of which all of these hold.
A plan is formed if every predicate reads tables below it only.  One plan can stand for
another one if it is formed, has the same tables and holds of the same rows.
-/

namespace RelationalDb

def Predicate.Within (p : Predicate) (names : List String) : Prop :=
  ∀ c ∈ p.conditions, ∀ col ∈ c.columns, col.table ∈ names

def LogicalOp.guard? : LogicalOp → Option Predicate
  | select p => some p
  | join j => some (.condition (.join j))
  | _ => none

namespace LogicalPlan

def guards (t : LogicalPlan) : List Predicate :=
  t.operators.filterMap (·.guard?)

def Holds (t : LogicalPlan) (a : Assignment) : Prop :=
  ∀ p ∈ t.guards, p.eval a = true

/-- Plans as they stand below a projection. -/
inductive Formed : LogicalPlan → Prop
  | table (t : Table) : Formed (.node (.table t) [])
  | select {p : Predicate} {t : LogicalPlan} (ht : Formed t) (hp : p.Within t.tableNames) :
      Formed (.node (.select p) [t])
  | product {ts : List LogicalPlan} (hne : ts ≠ []) (hts : ∀ t ∈ ts, Formed t) :
      Formed (.node .product ts)
  | join {j : ColumnJoin} {l r : LogicalPlan} (hl : Formed l) (hr : Formed r)
      (hleft : j.left.table ∈ l.tableNames) (hright : j.right.table ∈ r.tableNames) :
      Formed (.node (.join j) [l, r])
  | orderBy {order : SortOrder} {t : LogicalPlan} (ht : Formed t) :
      Formed (.node (.orderBy order) [t])

/-- One plan stands for another one. -/
structure StandsFor (t' t : LogicalPlan) : Prop where
  formed : t'.Formed
  tables : t'.tables = t.tables
  holds : ∀ a, t'.Holds a ↔ t.Holds a
  tests : ∀ p' ∈ t'.guards, ∀ test, Condition.test test ∈ p'.conditions →
    ∃ p ∈ t.guards, Condition.test test ∈ p.conditions

variable {t t' u l l' r r' : LogicalPlan} {ts ts' : List LogicalPlan} {p : Predicate}
  {op : LogicalOp} {a : Assignment} {order : SortOrder} {j : ColumnJoin}

/-!
## Tables and predicates of a node
-/

theorem leavesOf_eq (ts : List LogicalPlan) :
    PlanTree.leavesOf ts = ts.flatMap PlanTree.leaves := by
  induction ts with
  | nil => rfl
  | cons t ts ih => rw [PlanTree.leavesOf, ih, List.flatMap_cons]

theorem operatorsOf_eq (ts : List LogicalPlan) :
    PlanTree.operatorsOf ts = ts.flatMap PlanTree.operators := by
  induction ts with
  | nil => rfl
  | cons t ts ih => rw [PlanTree.operatorsOf, ih, List.flatMap_cons]

theorem tables_node (hne : ts ≠ []) : tables (.node op ts) = ts.flatMap tables := by
  cases ts with
  | nil => exact absurd rfl hne
  | cons t ts =>
      unfold tables
      rw [PlanTree.leaves, leavesOf_eq, ← List.flatMap_cons, List.filterMap_flatMap]

@[simp] theorem tables_table (t : Table) : tables (.node (.table t) []) = [t] := rfl

@[simp] theorem tables_single : tables (.node op [t]) = t.tables := by
  rw [tables_node (List.cons_ne_nil _ _)]
  simp

@[simp] theorem tables_pair : tables (.node op [l, r]) = l.tables ++ r.tables := by
  rw [tables_node (List.cons_ne_nil _ _)]
  simp

@[simp] theorem guards_node : guards (.node op ts) = op.guard?.toList ++ ts.flatMap guards := by
  unfold guards
  rw [PlanTree.operators, operatorsOf_eq, List.filterMap_cons, List.filterMap_flatMap]
  cases op.guard? <;> rfl

theorem mem_tables_of_input {u : Table} (ht : t ∈ ts) (hu : u ∈ t.tables) :
    u ∈ tables (.node op ts) := by
  rw [tables_node (List.ne_nil_of_mem ht)]
  exact List.mem_flatMap.mpr ⟨t, ht, hu⟩

theorem mem_guards_of_input {p : Predicate} (ht : t ∈ ts) (hp : p ∈ t.guards) :
    p ∈ guards (.node op ts) := by
  rw [guards_node, List.mem_append]
  exact Or.inr (List.mem_flatMap.mpr ⟨t, ht, hp⟩)

theorem tableNames_congr (h : t'.tables = t.tables) : t'.tableNames = t.tableNames := by
  rw [tableNames, h, tableNames]

theorem holds_node :
    Holds (.node op ts) a ↔
      (∀ p, op.guard? = some p → p.eval a = true) ∧ ∀ t ∈ ts, t.Holds a := by
  simp only [Holds, guards_node, List.mem_append, Option.mem_toList,
    List.mem_flatMap]
  constructor
  · intro h
    exact ⟨fun p hp => h p (Or.inl hp), fun t ht p hp => h p (Or.inr ⟨t, ht, hp⟩)⟩
  · rintro ⟨hop, hts⟩ p (hp | ⟨t, ht, hp⟩)
    · exact hop p hp
    · exact hts t ht p hp

/-!
## Standing for a plan
-/

theorem Formed.standsFor (h : t.Formed) : t.StandsFor t where
  formed := h
  tables := rfl
  holds := fun _ => Iff.rfl
  tests := fun p hp _ htest => ⟨p, hp, htest⟩

theorem StandsFor.trans (h' : u.StandsFor t') (h : t'.StandsFor t) : u.StandsFor t where
  formed := h'.formed
  tables := h'.tables.trans h.tables
  holds := fun a => (h'.holds a).trans (h.holds a)
  tests := by
    intro p' hp' test htest
    rcases h'.tests p' hp' test htest with ⟨q, hq, htest⟩
    exact h.tests q hq test htest

theorem StandsFor.tableNames (h : t'.StandsFor t) : t'.tableNames = t.tableNames :=
  tableNames_congr h.tables

theorem standsFor_node (hformed : Formed (.node op ts')) (hne : ts ≠ [])
    (h : List.Forall₂ (fun t t' => t'.StandsFor t) ts ts') :
    StandsFor (.node op ts') (.node op ts) := by
  have hne' : ts' ≠ [] := by
    rintro rfl
    cases h
    exact hne rfl
  refine ⟨hformed, ?_, ?_, ?_⟩
  · rw [tables_node hne, tables_node hne']
    clear hformed hne hne'
    induction h with
    | nil => rfl
    | cons ht _ ih => rw [List.flatMap_cons, List.flatMap_cons, ht.tables, ih]
  · intro a
    rw [holds_node, holds_node]
    apply and_congr Iff.rfl
    clear hformed hne hne'
    induction h with
    | nil => simp
    | cons ht _ ih => rw [List.forall_mem_cons, List.forall_mem_cons, ht.holds a, ih]
  · intro p' hp' test htest
    simp only [guards_node, List.mem_append, List.mem_flatMap] at hp' ⊢
    rcases hp' with hp' | ⟨t', ht', hp'⟩
    · exact ⟨p', Or.inl hp', htest⟩
    · rcases exists_of_mem_right h ht' with ⟨t, ht, hstands⟩
      rcases hstands.tests p' hp' test htest with ⟨q, hq, htest⟩
      exact ⟨q, Or.inr ⟨t, ht, hq⟩, htest⟩

theorem StandsFor.select {p' : Predicate} (h : t'.StandsFor t) (hp : p'.Within t.tableNames)
    (heval : ∀ a, p'.eval a = p.eval a) (hconditions : ∀ c ∈ p'.conditions, c ∈ p.conditions) :
    StandsFor (.node (.select p') [t']) (.node (.select p) [t]) where
  formed := .select h.formed (h.tableNames.symm ▸ hp)
  tables := by rw [tables_single, tables_single, h.tables]
  holds := by
    intro a
    simp [holds_node, LogicalOp.guard?, heval a, h.holds a]
  tests := by
    intro q' hq' test htest
    simp only [guards_node, LogicalOp.guard?, Option.toList_some, List.mem_append,
      List.mem_singleton, List.flatMap_singleton] at hq' ⊢
    rcases hq' with rfl | hq'
    · exact ⟨p, Or.inl rfl, hconditions _ htest⟩
    · rcases h.tests q' hq' test htest with ⟨q, hq, htest⟩
      exact ⟨q, Or.inr hq, htest⟩

theorem StandsFor.orderBy (h : t'.StandsFor t) :
    StandsFor (.node (.orderBy order) [t']) (.node (.orderBy order) [t]) :=
  standsFor_node (.orderBy h.formed) (List.cons_ne_nil _ _)
    (List.Forall₂.cons h List.Forall₂.nil)

theorem StandsFor.join (hl : l'.StandsFor l) (hr : r'.StandsFor r)
    (hleft : j.left.table ∈ l.tableNames) (hright : j.right.table ∈ r.tableNames) :
    StandsFor (.node (.join j) [l', r']) (.node (.join j) [l, r]) :=
  standsFor_node
    (.join hl.formed hr.formed (hl.tableNames.symm ▸ hleft) (hr.tableNames.symm ▸ hright))
    (List.cons_ne_nil _ _) (List.Forall₂.cons hl (List.Forall₂.cons hr List.Forall₂.nil))

theorem standsFor_product (hne : ts ≠ [])
    (h : List.Forall₂ (fun t t' => t'.StandsFor t) ts ts') :
    StandsFor (.node .product ts') (.node .product ts) := by
  refine standsFor_node (.product ?_ ?_) hne h
  · rintro rfl
    cases h
    exact hne rfl
  · intro t' ht'
    rcases exists_of_mem_right h ht' with ⟨t, _, hstands⟩
    exact hstands.formed

theorem forall₂_map {f : LogicalPlan → LogicalPlan} (h : ∀ t ∈ ts, (f t).StandsFor t) :
    List.Forall₂ (fun t t' => t'.StandsFor t) ts (ts.map f) := by
  rw [List.forall₂_map_right_iff, List.forall₂_same]
  exact h

end LogicalPlan

end RelationalDb
