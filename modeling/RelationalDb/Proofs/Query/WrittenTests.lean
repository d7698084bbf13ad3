import Mathlib
import RelationalDb.Proofs.Query.Bindings

/-!
# Tests with their values written out

The literals of a test are widened when the test is made, the values of its placeholders when
they are bound, and the bounds of a range are put in order both times.  A test is therefore
looked at through the values of its operands: they are the same in both ways, up to the order of
two bounds that compare equal.
-/

namespace RelationalDb

variable {column : ColumnRef} {values : List Value} {o o' : Operand} {t t' : ColumnTest}
  {p p' q : Predicate} {type : ColumnType} {v w : Value}

/-!
## Values
-/

namespace Value

theorem conformsTo_iff : v.conformsTo type = true ↔ v.isNull = true ∨ v.type? = some type := by
  unfold conformsTo
  cases h : v.type? with
  | none => simp [isNull_iff.mpr h]
  | some type' => simp [isNull_eq_false_of_type h]

theorem type?_eq_of_conformsTo (hv : v.conformsTo type = true) (hw : w.conformsTo type = true)
    (heq : compare v w = .eq) : v.type? = w.type? := by
  rcases conformsTo_iff.mp hv with hnull | htype
  · rcases conformsTo_iff.mp hw with hnull' | htype'
    · rw [isNull_iff.mp hnull, isNull_iff.mp hnull']
    · rw [eq_null_of_type (isNull_iff.mp hnull),
        compare_null_left (isNull_eq_false_of_type htype')] at heq
      cases heq
  · rcases conformsTo_iff.mp hw with hnull' | htype'
    · rw [eq_null_of_type (isNull_iff.mp hnull'),
        compare_null_right (isNull_eq_false_of_type htype)] at heq
      cases heq
    · rw [htype, htype']

@[simp] theorem widen_widen (v : Value) (type : ColumnType) :
    (v.widen type).widen type = v.widen type := by
  cases v <;> cases type <;> rfl

end Value

/-!
## Writing values out
-/

def Operand.index? : Operand → Option Nat
  | literal _ => none
  | placeholder index _ => some index

/-- The operand with its value from a list written as a literal. -/
def Operand.writeOut (values : List Value) : Operand → Operand
  | literal v => literal v
  | placeholder index given =>
      match values[index]? with
      | some v => literal v
      | none => placeholder index given

def ColumnTest.writeOut (values : List Value) (t : ColumnTest) : ColumnTest :=
  .make t.column t.comparison (t.operands.map (Operand.writeOut values))

/-!
## Tests that were made
-/

/-- A test that was made, and perhaps bound to values since. -/
inductive ColumnTest.Built : ColumnTest → Prop
  | make (column : ColumnRef) (comparison : Comparison) (operands : List Operand) :
      Built (.make column comparison operands)
  | bind {t t' : ColumnTest} {values : List Value} (h : Built t) (hbind : t.bind values = .ok t') :
      Built t'

theorem ColumnTest.Built.widened (h : t.Built) (hv : .literal v ∈ t.operands) :
    v.widen t.column.type = v := by
  induction h with
  | make column comparison operands =>
      rw [ColumnTest.make, mem_operands_sortBounds] at hv
      rw [ColumnTest.make, column_sortBounds]
      rcases List.mem_map.mp hv with ⟨o, _, ho⟩
      cases o with
      | literal w =>
          cases ho
          exact Value.widen_widen w column.type
      | placeholder index given => cases ho
  | bind hbuilt hbind ih =>
      rcases Outcome.bind_eq_ok_iff.mp hbind with ⟨operands, hoperands, heq⟩
      cases heq
      rw [mem_operands_sortBounds] at hv
      rw [column_sortBounds]
      rcases Outcome.exists_of_mapM_eq_ok hoperands hv with ⟨o, ho, hbound⟩
      cases o with
      | literal w =>
          cases hbound
          exact ih ho
      | placeholder index given =>
          unfold bindOperand at hbound
          dsimp only at hbound
          split at hbound
          · cases hbound
          · split at hbound
            · cases hbound
            · cases hbound

/-!
## Tests with the same values
-/

namespace ColumnTest

def known (t : ColumnTest) : List (Option Value) :=
  t.operands.map (·.value?)

/-- The same comparison of one column with operands that have the same values. -/
structure SameValues (t t' : ColumnTest) : Prop where
  column : t'.column = t.column
  comparison : t'.comparison = t.comparison
  known : t'.known = t.known

theorem isBound_eq (t : ColumnTest) : t.isBound = t.known.all (·.isSome) := by
  rw [known, List.all_map]
  rfl

theorem operand?_eq (t : ColumnTest) (i : Nat) : t.operand? i = t.known[i]?.join := by
  rw [known, List.getElem?_map, operand?]
  cases t.operands[i]? <;> rfl

theorem filterMap_eq (t : ColumnTest) :
    t.operands.filterMap (·.value?) = t.known.filterMap id := by
  rw [known, List.filterMap_map]
  rfl

instance : ReflBEq (KeyRange Value) where
  rfl := by
    intro r
    cases r with
    | all => rfl
    | only v => exact Value.beq_self v
    | above v exclusive =>
        change (v == v && exclusive == exclusive) = true
        simp
    | below v exclusive =>
        change (v == v && exclusive == exclusive) = true
        simp
    | between l u lowerExclusive upperExclusive =>
        change (l == l && (u == u && (lowerExclusive == lowerExclusive &&
          upperExclusive == upperExclusive))) = true
        simp

theorem SameValues.holdsOf_eq (h : t.SameValues t') (v : Value) : t'.holdsOf v = t.holdsOf v := by
  unfold holdsOf
  simp only [isBound_eq, operand?_eq, filterMap_eq, h.comparison, h.known]

theorem SameValues.keyRanges?_eq (h : t.SameValues t') : t'.keyRanges? = t.keyRanges? := by
  unfold keyRanges?
  simp only [isBound_eq, operand?_eq, filterMap_eq, h.comparison, h.known]

theorem comparison_sortBounds (t : ColumnTest) : t.sortBounds.comparison = t.comparison := by
  unfold sortBounds
  split
  · split
    · split <;> rfl
    · rfl
  · rfl

def sortKnown : Comparison → List (Option Value) → List (Option Value)
  | .between, [some x, some y] =>
      if compare x y = .gt then [some y, some x] else [some x, some y]
  | _, vs => vs

theorem known_sortBounds (t : ColumnTest) :
    t.sortBounds.known = sortKnown t.comparison t.known := by
  unfold sortBounds
  split
  · next a b hcomparison hoperands =>
      unfold known
      rw [hoperands, hcomparison]
      cases ha : a.value? with
      | none => simp [ha, hoperands, sortKnown]
      | some x =>
          cases hb : b.value? with
          | none => simp [ha, hb, hoperands, sortKnown]
          | some y =>
              dsimp only
              by_cases hgt : compare x y = .gt
              · simp [ha, hb, hgt, sortKnown]
              · simp [ha, hb, hgt, hoperands, sortKnown]
  · next hother =>
      unfold sortKnown
      split
      · next x y hcomparison hknown =>
          rcases List.map_eq_cons_iff.mp hknown with ⟨a, l, hoperands, _, hrest⟩
          rcases List.map_eq_singleton_iff.mp hrest with ⟨b, rfl, _⟩
          exact absurd hoperands (hother a b hcomparison)
      · rfl

theorem SameValues.sortBounds (h : t.SameValues t') : t.sortBounds.SameValues t'.sortBounds where
  column := by rw [column_sortBounds, column_sortBounds, h.column]
  comparison := by rw [comparison_sortBounds, comparison_sortBounds, h.comparison]
  known := by rw [known_sortBounds, known_sortBounds, h.comparison, h.known]

theorem value?_of_bindOperand (hslots : o.slots ≤ values.length)
    (hwidened : ∀ v, o = .literal v → v.widen column.type = v)
    (h : bindOperand column values o = .ok o') :
    o'.value? = (widenOperand column.type (o.writeOut values)).value? := by
  cases o with
  | literal v =>
      cases h
      rw [Operand.writeOut, widenOperand, hwidened v rfl]
  | placeholder index given =>
      have hlt : index < values.length := hslots
      have hget : values[index]? = some values[index] := List.getElem?_eq_getElem hlt
      simp only [bindOperand, hget] at h
      split at h
      · cases h
        simp only [Operand.writeOut, hget, widenOperand, Operand.value?]
      · cases h

theorem Built.sameValues_of_bind (h : t.Built)
    (hslots : ∀ o ∈ t.operands, o.slots ≤ values.length) (hbind : t.bind values = .ok t') :
    t'.SameValues (t.writeOut values) := by
  rcases Outcome.bind_eq_ok_iff.mp hbind with ⟨operands, hoperands, heq⟩
  cases heq
  apply SameValues.sortBounds
  refine ⟨rfl, rfl, ?_⟩
  unfold known
  rw [List.map_map, List.map_map]
  apply map_eq_of_forall₂
  apply (forall₂_mem (Outcome.mapM_eq_ok_iff.mp hoperands)).imp
  rintro o o' ⟨ho, _, hbound⟩
  exact (value?_of_bindOperand (hslots o ho) (fun v hv => h.widened (hv ▸ ho)) hbound).symm

/-!
## Bounds that no order tells apart
-/

/-- Two bounds of one type that compare equal, the other way round. -/
structure Exchanged (t t' : ColumnTest) : Prop where
  column : t'.column = t.column
  comparison : t.comparison = .between ∧ t'.comparison = .between
  known : ∃ x y, t.known = [some x, some y] ∧ t'.known = [some y, some x] ∧
    x.type? = y.type? ∧ compare x y = .eq

theorem compares_congr (htype : v.type? = w.type?) (heq : compare v w = .eq)
    (comparison : Comparison) (u : Value) : compares comparison u v = compares comparison u w := by
  have hnull : v.isNull = w.isNull := by
    rw [Bool.eq_iff_iff, Value.isNull_iff, Value.isNull_iff, htype]
  unfold compares Value.compare?
  rw [hnull, Value.compare_congr_right htype heq u]

theorem Exchanged.holdsOf_eq (h : t.Exchanged t') (u : Value) : t'.holdsOf u = t.holdsOf u := by
  rcases h.known with ⟨x, y, hknown, hknown', htype, heq⟩
  unfold holdsOf
  simp only [isBound_eq, operand?_eq, h.comparison, hknown, hknown']
  simp [compares_congr htype heq]

theorem Exchanged.keyRanges?_beq (h : t.Exchanged t') :
    (t'.keyRanges? == t.keyRanges?) = true := by
  rcases h.known with ⟨x, y, hknown, hknown', htype, heq⟩
  unfold keyRanges?
  simp only [isBound_eq, operand?_eq, h.comparison, hknown, hknown']
  have hnull : y.isNull = x.isNull := by
    rw [Bool.eq_iff_iff, Value.isNull_iff, Value.isNull_iff, htype]
  have hbeq : (x == y) = true := by
    rw [Value.beq_eq, Value.rank_eq_rank_iff.mpr htype, heq]
    simp
  cases hx : x.isNull with
  | true => simp [Option.filter, hx, hnull]
  | false =>
      have hrange : (KeyRange.between y x false false == KeyRange.between x y false false) = true := by
        change (y == x && (x == y && (false == false && false == false))) = true
        rw [BEq.symm hbeq, hbeq]
        rfl
      simpa [Option.filter, hx, hnull] using hrange

theorem sortBounds_cases (t : ColumnTest) :
    t.sortBounds = t ∨ ∃ a b, t.comparison = .between ∧ t.operands = [a, b] ∧
      t.sortBounds = { t with operands := [b, a] } := by
  unfold sortBounds
  split
  · next a b hcomparison hoperands =>
      split
      · split
        · exact Or.inr ⟨a, b, hcomparison, hoperands, rfl⟩
        · exact Or.inl rfl
      · exact Or.inl rfl
  · exact Or.inl rfl

theorem index?_of_bindOperand (h : bindOperand column values o = .ok o') :
    o'.index? = o.index? := by
  cases o with
  | literal v =>
      cases h
      rfl
  | placeholder index given =>
      unfold bindOperand at h
      dsimp only at h
      split at h
      · cases h
        rfl
      · split at h
        · cases h
          rfl
        · cases h

theorem writeOut_of_bindOperand {earlier : List Value} (hslots : o.slots ≤ values.length)
    (h : bindOperand column earlier o = .ok o') : o'.writeOut values = o.writeOut values := by
  have hindex := index?_of_bindOperand h
  cases o with
  | literal v =>
      cases h
      rfl
  | placeholder index given =>
      have hlt : index < values.length := hslots
      have hget : values[index]? = some values[index] := List.getElem?_eq_getElem hlt
      cases o' with
      | literal v => cases hindex
      | placeholder index' given' =>
          cases hindex
          simp only [Operand.writeOut, hget]

/-- The order in which the bounds of a range are given matters only where they compare equal. -/
theorem make_exchange {a b : Operand} (ha : (widenOperand column.type a).Suits column.type)
    (hb : (widenOperand column.type b).Suits column.type) :
    (make column .between [a, b]).SameValues (make column .between [b, a]) ∨
      (make column .between [a, b]).Exchanged (make column .between [b, a]) := by
  rcases ha with ⟨x, hx, hconforms⟩
  rcases hb with ⟨y, hy, hconforms'⟩
  have hknown : (make column .between [a, b]).known = sortKnown .between [some x, some y] := by
    rw [make, known_sortBounds]
    simp [known, hx, hy]
  have hknown' : (make column .between [b, a]).known = sortKnown .between [some y, some x] := by
    rw [make, known_sortBounds]
    simp [known, hx, hy]
  have hcolumn : (make column .between [b, a]).column = (make column .between [a, b]).column := by
    rw [make, make, column_sortBounds, column_sortBounds]
  have hcomparison : ∀ operands, (make column .between operands).comparison = .between :=
    fun operands => comparison_sortBounds _
  have hswap := Value.compare_swap y x
  -- The bounds are sorted when the test is made, but two that compare equal stay as they are.
  cases hc : compare x y with
  | eq =>
      right
      refine ⟨hcolumn, ⟨hcomparison _, hcomparison _⟩, x, y, ?_, ?_, ?_, hc⟩
      · rw [hknown, sortKnown, hc, if_neg (by simp)]
      · rw [hknown', sortKnown, hswap, hc, if_neg (by simp [Ordering.swap])]
      · exact Value.type?_eq_of_conformsTo hconforms hconforms' hc
  | lt =>
      left
      refine ⟨hcolumn, (hcomparison _).trans (hcomparison _).symm, ?_⟩
      rw [hknown, hknown', sortKnown, sortKnown, hswap, hc]
      rfl
  | gt =>
      left
      refine ⟨hcolumn, (hcomparison _).trans (hcomparison _).symm, ?_⟩
      rw [hknown, hknown', sortKnown, sortKnown, hswap, hc]
      rfl

/-- Writing out the values of a test that was bound before gives the same test, but perhaps for
the order of two bounds that compare equal. -/
theorem writeOut_of_bind {earlier : List Value} (hbind : t.bind earlier = .ok t')
    (hslots : ∀ o ∈ t.operands, o.slots ≤ values.length)
    (hsuits : ∀ o ∈ t.operands, (widenOperand t.column.type (o.writeOut values)).Suits
      t.column.type) :
    (t.writeOut values).SameValues (t'.writeOut values) ∨
      (t.writeOut values).Exchanged (t'.writeOut values) := by
  rcases Outcome.bind_eq_ok_iff.mp hbind with ⟨operands, hoperands, heq⟩
  cases heq
  have hwritten : t.operands.map (Operand.writeOut values) =
      operands.map (Operand.writeOut values) := by
    apply map_eq_of_forall₂
    apply (forall₂_mem (Outcome.mapM_eq_ok_iff.mp hoperands)).imp
    rintro o o' ⟨ho, _, hbound⟩
    exact (writeOut_of_bindOperand (hslots o ho) hbound).symm
  rcases sortBounds_cases { t with operands := operands } with hsort | ⟨a, b, hc, hops, hsort⟩
  · left
    rw [hsort]
    unfold writeOut
    rw [hwritten]
    exact ⟨rfl, rfl, rfl⟩
  · dsimp only at hc hops
    rw [hops, List.map_cons, List.map_singleton] at hwritten
    have hsuits' : ∀ o ∈ [a.writeOut values, b.writeOut values],
        (widenOperand t.column.type o).Suits t.column.type := by
      rw [← hwritten]
      exact List.forall_mem_map.mpr hsuits
    rw [hsort]
    unfold writeOut
    rw [hwritten, hc]
    exact make_exchange (hsuits' _ List.mem_cons_self)
      (hsuits' _ (List.mem_cons_of_mem _ List.mem_cons_self))

end ColumnTest

end RelationalDb
