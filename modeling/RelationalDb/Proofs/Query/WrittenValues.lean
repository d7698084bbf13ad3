import Mathlib
import RelationalDb.Proofs.Query.WrittenTests

/-!
# Bound values as literals

To bind a predicate to values is to write the values in the places of its placeholders: the
predicate that is made with them is the same to every row and every index.
-/

namespace RelationalDb

variable {values : List Value} {o : Operand} {column : ColumnRef} {t t' : ColumnTest}
  {p p' q : Predicate}

namespace Condition

def writeOut (values : List Value) : Condition → Condition
  | test t => test (t.writeOut values)
  | join j => join j

def placeholders : Condition → List (ColumnRef × Nat)
  | test t => t.operands.filterMap fun o => o.index?.map fun index => (t.column, index)
  | join _ => []

def keyRanges? : Condition → Option (List (KeyRange Value))
  | test t => t.keyRanges?
  | join _ => none

end Condition

namespace Predicate

mutual

def mapLeaves (f : Condition → Condition) : Predicate → Predicate
  | condition c => condition (f c)
  | combine k ps => combine k (mapLeavesOf f ps)

def mapLeavesOf (f : Condition → Condition) : List Predicate → List Predicate
  | [] => []
  | p :: ps => mapLeaves f p :: mapLeavesOf f ps

end

/-- The predicate made anew with values from a list written as literals. -/
def writeOut (values : List Value) (p : Predicate) : Predicate :=
  p.mapLeaves (Condition.writeOut values)

def placeholders (p : Predicate) : List (ColumnRef × Nat) :=
  p.conditions.flatMap (·.placeholders)

end Predicate

/-- All tests of the predicate were made. -/
def Predicate.Built (p : Predicate) : Prop :=
  ∀ t, Condition.test t ∈ p.conditions → t.Built

theorem Condition.eval_test_congr (hcolumn : t'.column = t.column)
    (hholds : ∀ v, t'.holdsOf v = t.holdsOf v) (a : Assignment) :
    (test t').eval a = (test t).eval a := by
  simp only [eval, hcolumn]
  cases a t.column with
  | none => rfl
  | some v => exact hholds v

/-!
## Changing all conditions
-/

namespace Predicate

variable {f : Condition → Outcome Condition} {a : Assignment}

theorem mapLeavesOf_eq (g : Condition → Condition) (ps : List Predicate) :
    mapLeavesOf g ps = ps.map (mapLeaves g) := by
  induction ps with
  | nil => rfl
  | cons p ps ih => rw [mapLeavesOf, List.map_cons, ih]

theorem conditions_mapLeaves (g : Condition → Condition) (p : Predicate) :
    (p.mapLeaves g).conditions = p.conditions.map g := by
  induction p using partsInduction with
  | hcondition c => rfl
  | hcombine k ps ih =>
      rw [mapLeaves, mapLeavesOf_eq, conditions_combine, conditions_combine, List.flatMap_map,
        List.map_flatMap]
      exact List.flatMap_congr ih

theorem mapLeaves_id (p : Predicate) : p.mapLeaves id = p := by
  induction p using partsInduction with
  | hcondition c => rfl
  | hcombine k ps ih =>
      rw [mapLeaves, mapLeavesOf_eq, List.map_congr_left ih, List.map_id']

theorem mapConditions_combine_eq_ok_iff {k : Connective} {ps : List Predicate} :
    (combine k ps).mapConditions f = .ok q ↔
      ∃ qs, q = combine k qs ∧ List.Forall₂ (fun p q => p.mapConditions f = .ok q) ps qs := by
  rw [mapConditions, mapConditionsOf_eq, Outcome.bind_eq_ok_iff]
  constructor
  · rintro ⟨qs, hqs, heq⟩
    exact ⟨qs, (Except.ok.inj heq).symm, Outcome.mapM_eq_ok_iff.mp hqs⟩
  · rintro ⟨qs, rfl, hqs⟩
    exact ⟨qs, Outcome.mapM_eq_ok_iff.mpr hqs, rfl⟩

theorem exists_mapConditions_ok_iff :
    (∃ q, p.mapConditions f = .ok q) ↔ ∀ c ∈ p.conditions, ∃ d, f c = .ok d := by
  induction p using partsInduction with
  | hcondition c =>
      simp only [mapConditions, conditions, List.mem_singleton, forall_eq, Outcome.bind_eq_ok_iff]
      constructor
      · rintro ⟨q, d, hd, _⟩
        exact ⟨d, hd⟩
      · rintro ⟨d, hd⟩
        exact ⟨condition d, d, hd, rfl⟩
  | hcombine k ps ih =>
      simp only [mapConditions_combine_eq_ok_iff, conditions_combine, List.mem_flatMap]
      constructor
      · rintro ⟨_, qs, _, hqs⟩ c ⟨p, hp, hc⟩
        rcases exists_of_mem_left hqs hp with ⟨q, _, hq⟩
        exact (ih p hp).mp ⟨q, hq⟩ c hc
      · intro h
        rcases exists_forall₂ fun p hp => (ih p hp).mpr fun c hc => h c ⟨p, hp, hc⟩ with ⟨qs, hqs⟩
        exact ⟨combine k qs, qs, rfl, hqs⟩

theorem forall₂_conditions (h : p.mapConditions f = .ok q) :
    List.Forall₂ (fun c d => f c = .ok d) p.conditions q.conditions := by
  induction p using partsInduction generalizing q with
  | hcondition c =>
      rcases Outcome.bind_eq_ok_iff.mp h with ⟨d, hd, heq⟩
      cases heq
      exact List.Forall₂.cons hd .nil
  | hcombine k ps ih =>
      rcases mapConditions_combine_eq_ok_iff.mp h with ⟨qs, rfl, hqs⟩
      rw [conditions_combine, conditions_combine]
      exact List.rel_flatMap (forall₂_mem hqs) fun p q h => ih p h.1 h.2.2

theorem eval_of_mapConditions (h : p.mapConditions f = .ok q) (g g' : Condition → Condition)
    (hleaf : ∀ c ∈ p.conditions, ∀ d, f c = .ok d → (g d).eval a = (g' c).eval a) :
    (q.mapLeaves g).eval a = (p.mapLeaves g').eval a := by
  induction p using partsInduction generalizing q with
  | hcondition c =>
      rcases Outcome.bind_eq_ok_iff.mp h with ⟨d, hd, heq⟩
      cases heq
      exact hleaf c List.mem_cons_self d hd
  | hcombine k ps ih =>
      rcases mapConditions_combine_eq_ok_iff.mp h with ⟨qs, rfl, hqs⟩
      have hparts : ps.map (fun p => (p.mapLeaves g').eval a) =
          qs.map fun q => (q.mapLeaves g).eval a := by
        apply map_eq_of_forall₂
        apply (forall₂_mem hqs).imp
        rintro p q ⟨hp, _, hmap⟩
        refine (ih p hp hmap ?_).symm
        intro c hc
        apply hleaf c
        rw [conditions_combine]
        exact List.mem_flatMap.mpr ⟨p, hp, hc⟩
      rw [mapLeaves, mapLeaves, mapLeavesOf_eq, mapLeavesOf_eq]
      cases k with
      | conjunction =>
          rw [eval_conjunction, eval_conjunction]
          simpa [Function.comp_def] using congrArg (fun l => l.all id) hparts.symm
      | disjunction =>
          rw [eval_disjunction, eval_disjunction]
          simpa [Function.comp_def] using congrArg (fun l => l.any id) hparts.symm

end Predicate

/-!
## When binding succeeds
-/

theorem Operand.Settled.isBound (h : o.Settled column) : o.isBound = true := by
  cases o with
  | literal v => rfl
  | placeholder index given =>
      rcases h with ⟨values, earlier, hlt, hbind⟩
      have hget : values[index]? = some values[index] := List.getElem?_eq_getElem hlt
      simp only [ColumnTest.bindOperand, hget] at hbind
      split at hbind
      · cases hbind
        rfl
      · cases hbind

theorem ColumnTest.exists_bind_ok_iff :
    (∃ t', t.bind values = .ok t') ↔
      ∀ o ∈ t.operands, ∃ o', bindOperand t.column values o = .ok o' := by
  unfold bind
  simp only [Outcome.bind_eq_ok_iff, Outcome.mapM_eq_ok_iff]
  constructor
  · rintro ⟨_, operands, hoperands, _⟩ o ho
    rcases exists_of_mem_left hoperands ho with ⟨o', _, ho'⟩
    exact ⟨o', ho'⟩
  · intro h
    rcases exists_forall₂ h with ⟨operands, hoperands⟩
    exact ⟨_, operands, hoperands, rfl⟩

theorem ColumnTest.exists_bindOperand_ok_iff (hslots : o.slots ≤ values.length) :
    (∃ o', bindOperand column values o = .ok o') ↔
      ∀ index ∈ o.index?, ∃ v, values[index]? = some v ∧
        (v.widen column.type).conformsTo column.type = true := by
  cases o with
  | literal v => simp [bindOperand, Operand.index?]
  | placeholder index given =>
      have hlt : index < values.length := hslots
      have hget : values[index]? = some values[index] := List.getElem?_eq_getElem hlt
      simp only [bindOperand, hget, Operand.index?, Option.mem_def, Option.some.injEq, forall_eq']
      split
      · next hconforms => simp [hconforms]
      · next hconforms => simp [hconforms]

namespace Predicate

theorem mem_placeholders_iff {column : ColumnRef} {index : Nat} :
    (column, index) ∈ p.placeholders ↔
      ∃ t, Condition.test t ∈ p.conditions ∧ t.column = column ∧
        ∃ o ∈ t.operands, index ∈ o.index? := by
  simp only [placeholders, List.mem_flatMap]
  constructor
  · rintro ⟨c, hc, hmem⟩
    cases c with
    | test t =>
        rcases List.mem_filterMap.mp hmem with ⟨o, ho, hindex⟩
        rcases Option.map_eq_some_iff.mp hindex with ⟨index', hindex', heq⟩
        cases heq
        exact ⟨t, hc, rfl, o, ho, hindex'⟩
    | join j => cases hmem
  · rintro ⟨t, ht, rfl, o, ho, hindex⟩
    refine ⟨.test t, ht, List.mem_filterMap.mpr ⟨o, ho, ?_⟩⟩
    rw [hindex]
    rfl

theorem foldl_max_le {l : List Nat} {n m : Nat} (hm : m ≤ n) (hl : ∀ a ∈ l, a ≤ n) :
    l.foldl max m ≤ n := by
  induction l generalizing m with
  | nil => exact hm
  | cons a rest ih =>
      exact ih (Nat.max_le.mpr ⟨hm, hl a List.mem_cons_self⟩)
        fun b hb => hl b (List.mem_cons_of_mem _ hb)

theorem slots_le_of_placeholders {n : Nat}
    (h : ∀ column index, (column, index) ∈ p.placeholders → index < n) : p.slots ≤ n := by
  apply foldl_max_le (Nat.zero_le n)
  intro slots hslots
  rcases List.mem_map.mp hslots with ⟨o, ho, rfl⟩
  rcases List.mem_flatMap.mp ho with ⟨c, hc, ho⟩
  cases c with
  | test t =>
      cases o with
      | literal v => exact Nat.zero_le n
      | placeholder index given =>
          exact h t.column index (mem_placeholders_iff.mpr ⟨t, hc, rfl, _, ho, rfl⟩)
  | join j => cases ho

theorem lt_slots {column : ColumnRef} {index : Nat} (h : (column, index) ∈ p.placeholders) :
    index < p.slots := by
  rcases mem_placeholders_iff.mp h with ⟨t, ht, _, o, ho, hindex⟩
  have hle := slots_le ht ho
  cases o with
  | literal v => cases hindex
  | placeholder index' given =>
      cases hindex
      exact hle

theorem slots_eq (p : Predicate) :
    p.slots = ((p.placeholders.map (·.2)).max?.map (· + 1)).getD 0 := by
  cases hmax : (p.placeholders.map (·.2)).max? with
  | none =>
      apply Nat.le_zero.mp
      apply slots_le_of_placeholders
      intro column index hmem
      rw [List.max?_eq_none_iff, List.map_eq_nil_iff] at hmax
      simp [hmax] at hmem
  | some m =>
      rcases List.max?_eq_some_iff.mp hmax with ⟨hmem, hle⟩
      rcases List.mem_map.mp hmem with ⟨⟨column, index⟩, hplaceholder, rfl⟩
      apply Nat.le_antisymm
      · apply slots_le_of_placeholders
        intro column' index' hmem'
        exact Nat.lt_succ_of_le (hle index' (List.mem_map_of_mem hmem'))
      · exact lt_slots hplaceholder

theorem exists_bind_ok_iff :
    (∃ q, p.bind values = .ok q) ↔
      values.length = ((p.placeholders.map (·.2)).max?.map (· + 1)).getD 0 ∧
        ∀ column index, (column, index) ∈ p.placeholders → ∃ v, values[index]? = some v ∧
          ((v.widen column.type).isNull = true ∨
            (v.widen column.type).type? = some column.type) := by
  unfold bind
  rw [← slots_eq]
  by_cases hlength : values.length = p.slots
  · rw [if_pos hlength, exists_mapConditions_ok_iff, and_iff_right hlength]
    simp only [← Value.conformsTo_iff]
    constructor
    · intro h column index hmem
      rcases mem_placeholders_iff.mp hmem with ⟨t, ht, rfl, o, ho, hindex⟩
      have hslots : o.slots ≤ values.length := hlength ▸ slots_le ht ho
      rcases h _ ht with ⟨d, hd⟩
      rcases Outcome.bind_eq_ok_iff.mp hd with ⟨t', ht', _⟩
      have hbound := ColumnTest.exists_bind_ok_iff.mp ⟨t', ht'⟩ o ho
      exact (ColumnTest.exists_bindOperand_ok_iff hslots).mp hbound index hindex
    · intro h c hc
      cases c with
      | test t =>
          have hbound : ∃ t', t.bind values = .ok t' := by
            apply ColumnTest.exists_bind_ok_iff.mpr
            intro o ho
            apply (ColumnTest.exists_bindOperand_ok_iff (hlength ▸ slots_le hc ho)).mpr
            exact fun index hindex =>
              h t.column index (mem_placeholders_iff.mpr ⟨t, hc, rfl, o, ho, hindex⟩)
          rcases hbound with ⟨t', ht'⟩
          refine ⟨.test t', ?_⟩
          rw [Condition.bind, ht']
          rfl
      | join j => exact ⟨.join j, rfl⟩
  · rw [if_neg hlength]
    simp [hlength]

/-!
## Bound predicates
-/

theorem mapConditions_of_bind (h : p.bind values = .ok q) :
    values.length = p.slots ∧ p.mapConditions (Condition.bind values) = .ok q := by
  unfold bind at h
  split at h
  · next hlength => exact ⟨hlength, h⟩
  · cases h

theorem isBound_of_bind (h : p.bind values = .ok q) : q.isBound = true := by
  simp only [isBound, operands, List.all_flatMap, List.all_eq_true]
  intro c hc o ho
  cases c with
  | test t => exact (settled_of_bind h t hc o ho).isBound
  | join j => cases ho

theorem Built.leaf_of_bind (h : p.Built) (hlength : values.length = p.slots) {c d : Condition}
    (hc : c ∈ p.conditions) (hd : Condition.bind values c = .ok d) :
    (∀ a, d.eval a = (c.writeOut values).eval a) ∧
      d.keyRanges? = (c.writeOut values).keyRanges? := by
  cases c with
  | test t =>
      rcases Outcome.bind_eq_ok_iff.mp hd with ⟨t', ht', heq⟩
      cases heq
      have hsame := (h t hc).sameValues_of_bind (fun o ho => hlength ▸ slots_le hc ho) ht'
      exact ⟨fun a => (Condition.eval_test_congr hsame.column hsame.holdsOf_eq a).symm,
        hsame.keyRanges?_eq.symm⟩
  | join j =>
      cases hd
      exact ⟨fun _ => rfl, rfl⟩

theorem Built.eval_of_bind (h : p.Built) (hbind : p.bind values = .ok q) (a : Assignment) :
    q.eval a = (p.writeOut values).eval a := by
  rcases mapConditions_of_bind hbind with ⟨hlength, hmap⟩
  have heval := eval_of_mapConditions (a := a) hmap id (Condition.writeOut values)
    fun c hc d hd => (h.leaf_of_bind hlength hc hd).1 a
  rwa [mapLeaves_id] at heval

theorem Built.keyRanges_of_bind (h : p.Built) (hbind : p.bind values = .ok q) :
    q.conditions.map (·.keyRanges?) = (p.writeOut values).conditions.map (·.keyRanges?) := by
  rcases mapConditions_of_bind hbind with ⟨hlength, hmap⟩
  rw [writeOut, conditions_mapLeaves, List.map_map]
  apply (map_eq_of_forall₂ _).symm
  apply (forall₂_mem (forall₂_conditions hmap)).imp
  rintro c d ⟨hc, _, hd⟩
  exact (h.leaf_of_bind hlength hc hd).2.symm

/-!
## Predicates bound again
-/

theorem placeholders_subset_of_bind (h : p.bind values = .ok q) :
    p.placeholders ⊆ q.placeholders := by
  rintro ⟨column, index⟩ hmem
  rcases mem_placeholders_iff.mp hmem with ⟨t, ht, rfl, o, ho, hindex⟩
  have hmap := (mapConditions_of_bind h).2
  rcases exists_of_mem_left (forall₂_conditions hmap) ht with ⟨d, hd, hbound⟩
  rcases Outcome.bind_eq_ok_iff.mp hbound with ⟨t', ht', heq⟩
  cases heq
  rcases Outcome.bind_eq_ok_iff.mp ht' with ⟨operands, hoperands, heq⟩
  cases heq
  rcases exists_of_mem_left (Outcome.mapM_eq_ok_iff.mp hoperands) ho with ⟨o', ho', hbind⟩
  refine mem_placeholders_iff.mpr ⟨_, hd, ColumnTest.column_sortBounds _, o', ?_, ?_⟩
  · exact ColumnTest.mem_operands_sortBounds.mpr ho'
  · rw [ColumnTest.index?_of_bindOperand hbind]
    exact hindex

/-- The operands of a checked test suit its column once values that can be bound are written
out. -/
theorem Built.suits_of_bind {earlier : List Value} (h : p.Built) (hcheck : p.check = .ok ())
    (hbind : p.bind earlier = .ok p') (hagain : p'.bind values = .ok q)
    (ht : Condition.test t ∈ p.conditions) (ho : o ∈ t.operands) :
    o.slots ≤ values.length ∧
      (ColumnTest.widenOperand t.column.type (o.writeOut values)).Suits t.column.type := by
  cases o with
  | literal v =>
      refine ⟨Nat.zero_le _, v, ?_, ?_⟩
      · rw [Operand.writeOut, ColumnTest.widenOperand, (h t ht).widened ho, Operand.value?]
      · have htest := Outcome.forM_eq_ok_iff.mp hcheck _ ht
        have hliteral := Outcome.forM_eq_ok_iff.mp htest _ ho
        by_contra hconforms
        simp [hconforms] at hliteral
  | placeholder index given =>
      have hmem : (t.column, index) ∈ p.placeholders :=
        mem_placeholders_iff.mpr ⟨t, ht, rfl, _, ho, rfl⟩
      rcases (exists_bind_ok_iff.mp ⟨q, hagain⟩).2 _ _ (placeholders_subset_of_bind hbind hmem)
        with ⟨v, hv, hconforms⟩
      refine ⟨(List.getElem?_eq_some_iff.mp hv).1, v.widen t.column.type, ?_, ?_⟩
      · simp only [Operand.writeOut, hv, ColumnTest.widenOperand, Operand.value?]
      · exact Value.conformsTo_iff.mpr hconforms

theorem Built.rebound_leaf {earlier : List Value} (h : p.Built) (hcheck : p.check = .ok ())
    (hbind : p.bind earlier = .ok p') (hagain : p'.bind values = .ok q) {c d : Condition}
    (hc : c ∈ p.conditions) (hd : Condition.bind earlier c = .ok d) :
    (∀ a, (d.writeOut values).eval a = (c.writeOut values).eval a) ∧
      ((d.writeOut values).keyRanges? == (c.writeOut values).keyRanges?) = true := by
  cases c with
  | test t =>
      rcases Outcome.bind_eq_ok_iff.mp hd with ⟨t', ht', heq⟩
      cases heq
      rcases ColumnTest.writeOut_of_bind ht'
        (fun o ho => (h.suits_of_bind hcheck hbind hagain hc ho).1)
        (fun o ho => (h.suits_of_bind hcheck hbind hagain hc ho).2) with hsame | hexchanged
      · refine ⟨Condition.eval_test_congr hsame.column hsame.holdsOf_eq, ?_⟩
        exact beq_of_eq hsame.keyRanges?_eq
      · exact ⟨Condition.eval_test_congr hexchanged.column hexchanged.holdsOf_eq,
          hexchanged.keyRanges?_beq⟩
  | join j =>
      cases hd
      exact ⟨fun _ => rfl, rfl⟩

theorem beq_of_forall₂ {α : Type} [BEq α] {l l' : List α}
    (h : List.Forall₂ (fun x y => (x == y) = true) l l') : (l == l') = true := by
  induction h with
  | nil => rfl
  | cons hxy _ ih =>
      rw [List.cons_beq_cons, hxy, ih]
      rfl

theorem Built.rebound {earlier : List Value} (h : p.Built) (hcheck : p.check = .ok ())
    (hbind : p.bind earlier = .ok p') (hagain : p'.bind values = .ok q) :
    (∀ a, (p'.writeOut values).eval a = (p.writeOut values).eval a) ∧
      ((p'.writeOut values).conditions.map (·.keyRanges?) ==
        (p.writeOut values).conditions.map (·.keyRanges?)) = true := by
  have hmap := (mapConditions_of_bind hbind).2
  constructor
  · intro a
    exact eval_of_mapConditions hmap (Condition.writeOut values) (Condition.writeOut values)
      fun c hc d hd => (h.rebound_leaf hcheck hbind hagain hc hd).1 a
  · rw [writeOut, writeOut, conditions_mapLeaves, conditions_mapLeaves, List.map_map,
      List.map_map]
    apply beq_of_forall₂
    rw [List.forall₂_map_left_iff, List.forall₂_map_right_iff]
    apply (forall₂_mem (forall₂_conditions hmap)).flip.imp
    rintro d c ⟨hc, _, hd⟩
    exact (h.rebound_leaf hcheck hbind hagain hc hd).2

/-- A predicate can be bound to as many values as its placeholders ask for, each of which suits
every column that it is compared with.  It is then the predicate that is made with the values in
the places of the placeholders, also where it was bound to other values before. -/
theorem Built.bind_writes_out (h : p.Built) (values : List Value) :
    ((∃ q, p.bind values = .ok q) ↔
      values.length = ((p.placeholders.map (·.2)).max?.map (· + 1)).getD 0 ∧
        ∀ column index, (column, index) ∈ p.placeholders → ∃ v, values[index]? = some v ∧
          ((v.widen column.type).isNull = true ∨
            (v.widen column.type).type? = some column.type)) ∧
    ∀ q, p.bind values = .ok q →
      q.isBound = true ∧
      (∀ a, q.eval a = (p.writeOut values).eval a) ∧
      q.conditions.map (·.keyRanges?) = (p.writeOut values).conditions.map (·.keyRanges?) ∧
      ∀ (first : Predicate) (earlier : List Value), first.Built → first.check = .ok () →
        first.bind earlier = .ok p →
        (∀ a, q.eval a = (first.writeOut values).eval a) ∧
        (q.conditions.map (·.keyRanges?) ==
          (first.writeOut values).conditions.map (·.keyRanges?)) = true := by
  refine ⟨exists_bind_ok_iff, fun q hbind => ⟨isBound_of_bind hbind, h.eval_of_bind hbind,
    h.keyRanges_of_bind hbind, ?_⟩⟩
  intro first earlier hfirst hcheck hearlier
  rcases hfirst.rebound hcheck hearlier hbind with ⟨heval, hranges⟩
  refine ⟨fun a => (h.eval_of_bind hbind a).trans (heval a), ?_⟩
  rw [h.keyRanges_of_bind hbind]
  exact hranges

theorem bind_writes_out_between :
    let size : ColumnRef := { table := "item", column := "size", position := 1, type := .int64 }
    let p : Predicate :=
      .anyOf [.test size .between [.placeholder 2 none, .placeholder 0 none],
        .test size .eq [.placeholder 2 none]]
    let values : List Value := [.int64 2, .null, .int32 9]
    ∃ q, p.bind values = .ok q ∧ q.isBound = true ∧
      (∀ a, q.eval a = (p.writeOut values).eval a) ∧
      q.conditions.map (·.keyRanges?) =
        [some [.between (.int64 2) (.int64 9) false false], some [.only (.int64 9)]] := by
  intro size p values
  have hbuilt : p.Built := by
    intro t ht
    rcases List.mem_pair.mp ht with heq | heq
    · cases heq
      exact .make size .between _
    · cases heq
      exact .make size .eq _
  have hplaceholders : p.placeholders = [(size, 2), (size, 0), (size, 2)] := rfl
  have hsuits : ∀ column index, (column, index) ∈ p.placeholders → ∃ v, values[index]? = some v ∧
      ((v.widen column.type).isNull = true ∨ (v.widen column.type).type? = some column.type) := by
    intro column index hmem
    rw [hplaceholders] at hmem
    simp only [List.mem_cons, Prod.mk.injEq, List.not_mem_nil, or_false] at hmem
    rcases hmem with ⟨rfl, rfl⟩ | ⟨rfl, rfl⟩ | ⟨rfl, rfl⟩
    · exact ⟨.int32 9, rfl, Or.inr rfl⟩
    · exact ⟨.int64 2, rfl, Or.inr rfl⟩
    · exact ⟨.int32 9, rfl, Or.inr rfl⟩
  rcases hbuilt.bind_writes_out values with ⟨hsucceeds, hwritten⟩
  rcases hsucceeds.mpr ⟨rfl, hsuits⟩ with ⟨q, hq⟩
  rcases hwritten q hq with ⟨hbound, heval, hranges, _⟩
  exact ⟨q, hq, hbound, heval, hranges⟩

end Predicate

end RelationalDb
