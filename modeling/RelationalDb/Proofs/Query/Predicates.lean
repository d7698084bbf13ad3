import Mathlib
import RelationalDb.Plan.Transformation.Conjunctions
import RelationalDb.Proofs.Actions
import RelationalDb.Proofs.Ordering
import RelationalDb.Proofs.SortedMaps

/-!
# What predicates depend on

A predicate is looked at through its conditions: its value depends on the columns that
they mention, and taking conjunctions apart or flattening them changes neither its value
nor its conditions.
-/

namespace RelationalDb

theorem Condition.eval_congr {a b : Assignment} {c : Condition}
    (h : ∀ col ∈ c.columns, a col = b col) : c.eval a = c.eval b := by
  cases c with
  | test t => simp only [Condition.eval, h t.column List.mem_cons_self]
  | join j =>
      have hleft := h j.left List.mem_cons_self
      have hright := h j.right (List.mem_cons_of_mem _ List.mem_cons_self)
      simp only [Condition.eval, hleft, hright]

/-!
## Conditions read from the other side
-/

theorem Comparison.holds_reverse (c : Comparison) (o : Ordering) :
    c.reverse.holds o.swap = c.holds o := by
  cases c <;> cases o <;> rfl

theorem ColumnJoin.holdsOf_reverse (j : ColumnJoin) (v w : Value) :
    j.reverse.holdsOf w v = j.holdsOf v w := by
  unfold holdsOf reverse ColumnTest.compares Value.compare?
  rw [Bool.or_comm, Value.compare_swap w v]
  cases v.isNull || w.isNull with
  | true => rfl
  | false => exact Comparison.holds_reverse _ _

theorem Condition.eval_reverse (j : ColumnJoin) (a : Assignment) :
    (Condition.join j.reverse).eval a = (Condition.join j).eval a := by
  simp only [Condition.eval, ColumnJoin.reverse]
  cases hl : a j.left with
  | none => cases a j.right <;> rfl
  | some v =>
      cases hr : a j.right with
      | none => rfl
      | some w => exact j.holdsOf_reverse v w

namespace Predicate

variable {a b : Assignment} {p q : Predicate} {ps : List Predicate} {c : Condition}

mutual

/-- Induction on predicates, with the hypothesis for every part of a combination. -/
theorem partsInduction {motive : Predicate → Prop}
    (hcondition : ∀ c, motive (.condition c))
    (hcombine : ∀ k ps, (∀ p ∈ ps, motive p) → motive (.combine k ps)) :
    ∀ p, motive p
  | .condition c => hcondition c
  | .combine k ps => hcombine k ps (partsInductionList hcondition hcombine ps)

theorem partsInductionList {motive : Predicate → Prop}
    (hcondition : ∀ c, motive (.condition c))
    (hcombine : ∀ k ps, (∀ p ∈ ps, motive p) → motive (.combine k ps)) :
    ∀ ps : List Predicate, ∀ p ∈ ps, motive p
  | [], _, h => nomatch h
  | q :: qs, p, h => by
      rcases List.mem_cons.mp h with heq | h
      · rw [heq]
        exact partsInduction hcondition hcombine q
      · exact partsInductionList hcondition hcombine qs p h

end

/-!
## Lists of predicates
-/

theorem all_eq_of_mem {α : Type} {l : List α} {f g : α → Bool} (h : ∀ a ∈ l, f a = g a) :
    l.all f = l.all g := by
  induction l with
  | nil => rfl
  | cons a rest ih =>
      rw [List.all_cons, List.all_cons, h a List.mem_cons_self,
        ih fun b hb => h b (List.mem_cons_of_mem _ hb)]

theorem any_eq_of_mem {α : Type} {l : List α} {f g : α → Bool} (h : ∀ a ∈ l, f a = g a) :
    l.any f = l.any g := by
  induction l with
  | nil => rfl
  | cons a rest ih =>
      rw [List.any_cons, List.any_cons, h a List.mem_cons_self,
        ih fun b hb => h b (List.mem_cons_of_mem _ hb)]

theorem evalAll_eq (a : Assignment) (ps : List Predicate) :
    evalAll a ps = ps.all (eval a) := by
  induction ps with
  | nil => rfl
  | cons p ps ih => simp [evalAll, ih]

theorem evalAny_eq (a : Assignment) (ps : List Predicate) :
    evalAny a ps = ps.any (eval a) := by
  induction ps with
  | nil => rfl
  | cons p ps ih => simp [evalAny, ih]

theorem conditionsOf_eq (ps : List Predicate) :
    conditionsOf ps = ps.flatMap conditions := by
  induction ps with
  | nil => rfl
  | cons p ps ih => simp [conditionsOf, ih]

theorem conjunctsOf_eq (ps : List Predicate) : conjunctsOf ps = ps.flatMap conjuncts := by
  induction ps with
  | nil => rfl
  | cons p ps ih => simp [conjunctsOf, ih]

theorem flattenAll_eq (ps : List Predicate) : flattenAll ps = ps.map flatten := by
  induction ps with
  | nil => rfl
  | cons p ps ih => simp [flattenAll, ih]

@[simp] theorem eval_conjunction (a : Assignment) (ps : List Predicate) :
    (combine .conjunction ps).eval a = ps.all (eval a) := by
  rw [eval, evalAll_eq]

@[simp] theorem eval_disjunction (a : Assignment) (ps : List Predicate) :
    (combine .disjunction ps).eval a = ps.any (eval a) := by
  rw [eval, evalAny_eq]

@[simp] theorem conditions_combine (k : Connective) (ps : List Predicate) :
    (combine k ps).conditions = ps.flatMap conditions := by
  rw [conditions, conditionsOf_eq]

/-!
## Dependence on columns
-/

theorem eval_congr (h : ∀ c ∈ p.conditions, ∀ col ∈ c.columns, a col = b col) :
    p.eval a = p.eval b := by
  induction p using partsInduction with
  | hcondition c =>
      exact Condition.eval_congr (h c List.mem_cons_self)
  | hcombine k ps ih =>
      have hparts : ∀ p ∈ ps, p.eval a = p.eval b := by
        intro p hp
        apply ih p hp
        intro c hc
        apply h c
        rw [conditions_combine]
        exact List.mem_flatMap.mpr ⟨p, hp, hc⟩
      cases k with
      | conjunction =>
          rw [eval_conjunction, eval_conjunction, all_eq_of_mem hparts]
      | disjunction =>
          rw [eval_disjunction, eval_disjunction, any_eq_of_mem hparts]

theorem mem_columns_iff {col : ColumnRef} :
    col ∈ p.columns ↔ ∃ c ∈ p.conditions, col ∈ c.columns := by
  simp [columns]

theorem mem_tables_iff {name : String} :
    name ∈ p.tables ↔ ∃ c ∈ p.conditions, ∃ col ∈ c.columns, col.table = name := by
  unfold tables
  rw [SortedMap.mem_keys_ofList_iff]
  simp only [List.map_map, List.mem_map, Function.comp_apply, mem_columns_iff]
  constructor
  · rintro ⟨col, ⟨c, hc, hcol⟩, rfl⟩
    exact ⟨c, hc, col, hcol, rfl⟩
  · rintro ⟨c, hc, col, hcol, rfl⟩
    exact ⟨col, ⟨c, hc, hcol⟩, rfl⟩

/-!
## Conjuncts
-/

theorem all_eval_conjuncts (a : Assignment) (p : Predicate) :
    p.conjuncts.all (eval a) = p.eval a := by
  induction p using partsInduction with
  | hcondition c => simp [conjuncts]
  | hcombine k ps ih =>
      cases k with
      | conjunction =>
          rw [conjuncts, conjunctsOf_eq, eval_conjunction, List.all_flatMap]
          exact all_eq_of_mem ih
      | disjunction => simp [conjuncts]

theorem mem_conditions_of_mem_conjuncts (hq : q ∈ p.conjuncts) (hc : c ∈ q.conditions) :
    c ∈ p.conditions := by
  induction p using partsInduction with
  | hcondition d =>
      rw [conjuncts, List.mem_singleton] at hq
      · rwa [hq] at hc
      · intro ps h
        cases h
  | hcombine k ps ih =>
      cases k with
      | conjunction =>
          rw [conjuncts, conjunctsOf_eq] at hq
          rcases List.mem_flatMap.mp hq with ⟨p, hp, hqp⟩
          rw [conditions_combine]
          exact List.mem_flatMap.mpr ⟨p, hp, ih p hp hqp⟩
      | disjunction =>
          simp only [conjuncts, List.mem_singleton] at hq
          rwa [hq] at hc

/-!
## Flat conjunctions
-/

theorem eval_allOf (a : Assignment) (ps : List Predicate) :
    (allOf ps).eval a = ps.all (eval a) := by
  unfold allOf join
  split
  · simp
  · simp

theorem conditions_allOf (ps : List Predicate) :
    (allOf ps).conditions = ps.flatMap conditions := by
  unfold allOf join
  split
  · simp
  · simp

theorem eval_flatten (a : Assignment) (p : Predicate) : p.flatten.eval a = p.eval a := by
  induction p using partsInduction with
  | hcondition c => rfl
  | hcombine k ps ih =>
      cases k with
      | conjunction =>
          rw [flatten, eval_allOf, conjunctsOf_eq, flattenAll_eq, List.all_flatMap,
            List.all_map, eval_conjunction]
          apply all_eq_of_mem
          intro p hp
          rw [Function.comp_apply, all_eval_conjuncts, ih p hp]
      | disjunction =>
          rw [flatten, eval_disjunction, flattenAll_eq, List.any_map, eval_disjunction]
          apply any_eq_of_mem
          intro p hp
          rw [Function.comp_apply, ih p hp]

theorem mem_conditions_of_mem_flatten (hc : c ∈ p.flatten.conditions) : c ∈ p.conditions := by
  induction p using partsInduction with
  | hcondition d => exact hc
  | hcombine k ps ih =>
      rw [conditions_combine, List.mem_flatMap]
      cases k with
      | conjunction =>
          rw [flatten, conditions_allOf, conjunctsOf_eq, flattenAll_eq] at hc
          simp only [List.mem_flatMap, List.mem_map] at hc
          rcases hc with ⟨q, ⟨_, ⟨p, hp, rfl⟩, hq⟩, hc⟩
          exact ⟨p, hp, ih p hp (mem_conditions_of_mem_conjuncts hq hc)⟩
      | disjunction =>
          rw [flatten, conditions_combine, flattenAll_eq] at hc
          simp only [List.mem_flatMap, List.mem_map] at hc
          rcases hc with ⟨_, ⟨p, hp, rfl⟩, hc⟩
          exact ⟨p, hp, ih p hp hc⟩

end Predicate

end RelationalDb
