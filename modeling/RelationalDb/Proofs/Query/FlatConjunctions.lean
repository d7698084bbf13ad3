import Mathlib
import RelationalDb.Proofs.Query.Predicates

/-!
# Flat conjunctions

A predicate is flat if no conjunction in it has a conjunction among its parts or has a single
part.  Flattening leads to a flat predicate with the same value and with the conjuncts of the
original in their order, each of them flattened, and it leaves flat predicates as they are.
-/

namespace RelationalDb

namespace Predicate

variable {p q : Predicate} {ps : List Predicate} {k : Connective}

/-!
## Flat predicates
-/

/-- A predicate occurs in itself and in every combination of which it occurs in a part. -/
inductive OccursIn (q : Predicate) : Predicate → Prop
  | self : OccursIn q q
  | part {k : Connective} {ps : List Predicate} {p : Predicate} (hp : p ∈ ps)
      (h : OccursIn q p) : OccursIn q (combine k ps)

/-- At no depth has a conjunction a conjunction among its parts, or a single part. -/
structure Flat (p : Predicate) : Prop where
  apart : ∀ ps, (combine .conjunction ps).OccursIn p → ∀ q ∈ ps, q.isConjunction = false
  several : ∀ ps, (combine .conjunction ps).OccursIn p → ps.length ≠ 1

theorem OccursIn.trans {r : Predicate} (hrq : r.OccursIn q) (hqp : q.OccursIn p) :
    r.OccursIn p := by
  induction hqp with
  | self => exact hrq
  | part hp _ ih => exact ih.part hp

theorem Flat.of_occursIn (h : p.Flat) (hq : q.OccursIn p) : q.Flat where
  apart := fun ps hps => h.apart ps (hps.trans hq)
  several := fun ps hps => h.several ps (hps.trans hq)

theorem flat_condition (c : Condition) : (condition c).Flat where
  apart := nofun
  several := nofun

theorem flat_combine (hparts : ∀ p ∈ ps, p.Flat)
    (hapart : k = .conjunction → ∀ p ∈ ps, p.isConjunction = false)
    (hseveral : k = .conjunction → ps.length ≠ 1) : (combine k ps).Flat where
  apart := by
    intro qs hqs
    cases hqs with
    | self => exact hapart rfl
    | part hp h => exact (hparts _ hp).apart qs h
  several := by
    intro qs hqs
    cases hqs with
    | self => exact hseveral rfl
    | part hp h => exact (hparts _ hp).several qs h

/-!
## Conjuncts
-/

theorem conjuncts_of_not_conjunction (h : p.isConjunction = false) : p.conjuncts = [p] := by
  cases p with
  | condition c => rfl
  | combine k ps =>
      cases k with
      | conjunction => cases h
      | disjunction => rfl

theorem eq_of_mem_conjuncts (h : p.isConjunction = false) (hq : q ∈ p.conjuncts) : q = p := by
  rwa [conjuncts_of_not_conjunction h, List.mem_singleton] at hq

theorem of_mem_conjuncts (hq : q ∈ p.conjuncts) : q.OccursIn p ∧ q.isConjunction = false := by
  induction p using partsInduction with
  | hcondition c =>
      rw [eq_of_mem_conjuncts rfl hq]
      exact ⟨.self, rfl⟩
  | hcombine k ps ih =>
      cases k with
      | conjunction =>
          rw [conjuncts, conjunctsOf_eq] at hq
          rcases List.mem_flatMap.mp hq with ⟨p, hp, hqp⟩
          rcases ih p hp hqp with ⟨hoccurs, hnot⟩
          exact ⟨hoccurs.part hp, hnot⟩
      | disjunction =>
          rw [eq_of_mem_conjuncts rfl hq]
          exact ⟨.self, rfl⟩

theorem flatMap_conjuncts (h : ∀ p ∈ ps, p.isConjunction = false) : ps.flatMap conjuncts = ps := by
  induction ps with
  | nil => rfl
  | cons p rest ih =>
      rw [List.flatMap_cons, conjuncts_of_not_conjunction (h p List.mem_cons_self),
        ih fun q hq => h q (List.mem_cons_of_mem _ hq), List.singleton_append]

theorem allOf_of_length_ne_one (h : ps.length ≠ 1) : allOf ps = combine .conjunction ps := by
  unfold allOf join
  split
  · exact absurd rfl h
  · rfl

theorem conjuncts_allOf (h : ∀ p ∈ ps, p.isConjunction = false) : (allOf ps).conjuncts = ps := by
  by_cases hlength : ps.length = 1
  · rcases List.length_eq_one_iff.mp hlength with ⟨p, rfl⟩
    exact conjuncts_of_not_conjunction (h p List.mem_cons_self)
  · rw [allOf_of_length_ne_one hlength, conjuncts, conjunctsOf_eq, flatMap_conjuncts h]

/-!
## Flattening
-/

theorem flatten_disjunction (ps : List Predicate) :
    (combine .disjunction ps).flatten = combine .disjunction (ps.map flatten) := by
  rw [flatten, flattenAll_eq]

theorem flatten_conjunction (ps : List Predicate) :
    (combine .conjunction ps).flatten = allOf (ps.flatMap fun p => p.flatten.conjuncts) := by
  rw [flatten, conjunctsOf_eq, flattenAll_eq, List.flatMap_map]

theorem isConjunction_of_mem_flatMap
    (hq : q ∈ ps.flatMap fun p => p.flatten.conjuncts) : q.isConjunction = false := by
  rcases List.mem_flatMap.mp hq with ⟨p, _, hqp⟩
  exact (of_mem_conjuncts hqp).2

theorem conjuncts_flatten (p : Predicate) : p.flatten.conjuncts = p.conjuncts.map flatten := by
  induction p using partsInduction with
  | hcondition c => rfl
  | hcombine k ps ih =>
      cases k with
      | conjunction =>
          rw [flatten_conjunction, conjuncts_allOf fun q hq => isConjunction_of_mem_flatMap hq,
            conjuncts, conjunctsOf_eq, List.map_flatMap]
          exact List.flatMap_congr ih
      | disjunction =>
          rw [flatten_disjunction, conjuncts_of_not_conjunction rfl,
            conjuncts_of_not_conjunction rfl, List.map_singleton, flatten_disjunction]

theorem flat_allOf (hparts : ∀ p ∈ ps, p.Flat) (hapart : ∀ p ∈ ps, p.isConjunction = false) :
    (allOf ps).Flat := by
  by_cases hlength : ps.length = 1
  · rcases List.length_eq_one_iff.mp hlength with ⟨p, rfl⟩
    exact hparts p List.mem_cons_self
  · rw [allOf_of_length_ne_one hlength]
    exact flat_combine hparts (fun _ => hapart) fun _ => hlength

theorem flat_flatten (p : Predicate) : p.flatten.Flat := by
  induction p using partsInduction with
  | hcondition c => exact flat_condition c
  | hcombine k ps ih =>
      cases k with
      | conjunction =>
          rw [flatten_conjunction]
          apply flat_allOf
          · intro q hq
            rcases List.mem_flatMap.mp hq with ⟨p, hp, hqp⟩
            exact (ih p hp).of_occursIn (of_mem_conjuncts hqp).1
          · exact fun q hq => isConjunction_of_mem_flatMap hq
      | disjunction =>
          rw [flatten_disjunction]
          apply flat_combine
          · intro q hq
            rcases List.mem_map.mp hq with ⟨p, hp, rfl⟩
            exact ih p hp
          · nofun
          · nofun

theorem Flat.flatten_eq (h : p.Flat) : p.flatten = p := by
  induction p using partsInduction with
  | hcondition c => rfl
  | hcombine k ps ih =>
      have hparts : ∀ p ∈ ps, p.flatten = p := fun p hp =>
        ih p hp (h.of_occursIn (OccursIn.self.part hp))
      cases k with
      | conjunction =>
          have hconjuncts : (ps.flatMap fun p => p.flatten.conjuncts) = ps.flatMap conjuncts :=
            List.flatMap_congr fun p hp => congrArg conjuncts (hparts p hp)
          rw [flatten_conjunction, hconjuncts, flatMap_conjuncts (h.apart ps .self),
            allOf_of_length_ne_one (h.several ps .self)]
      | disjunction => rw [flatten_disjunction, List.map_congr_left hparts, List.map_id']

/-- Flattening keeps the value of a predicate and the order of its conjuncts, and leads to a flat
predicate, which it leaves alone. -/
theorem flattening_dissolves_nested_conjunctions (p : Predicate) :
    (∀ a : Assignment, p.flatten.eval a = p.eval a) ∧
      p.flatten.Flat ∧
      p.flatten.conjuncts = p.conjuncts.map flatten ∧
      p.flatten.flatten = p.flatten :=
  ⟨fun a => eval_flatten a p, flat_flatten p, conjuncts_flatten p, (flat_flatten p).flatten_eq⟩

/-- A conjunction of one conjunction is dissolved under a disjunction too, and one that is left
with a single part is that part. -/
example (c d e : Condition) :
    (combine .disjunction [combine .conjunction [combine .conjunction [condition c, condition d],
        combine .conjunction []], combine .conjunction [condition e]]).flatten =
      combine .disjunction [combine .conjunction [condition c, condition d], condition e] :=
  rfl

end Predicate

end RelationalDb
