import Mathlib
import RelationalDb.Proofs.Query.Predicates
import RelationalDb.Query.Select

/-!
# Operands that suit their columns

A literal of a checked condition is null or of the type of its column, and binding leaves
every placeholder with such a value.
-/

namespace RelationalDb

def Operand.Suits (type : ColumnType) (o : Operand) : Prop :=
  ∃ v, o.value? = some v ∧ v.conformsTo type = true

/-- A literal, or a placeholder as binding it to a value leaves it. -/
def Operand.Settled (column : ColumnRef) : Operand → Prop
  | .literal _ => True
  | .placeholder index given =>
      ∃ values earlier, index < values.length ∧
        ColumnTest.bindOperand column values (.placeholder index earlier) =
          .ok (.placeholder index given)

def ColumnTest.Suited (t : ColumnTest) : Prop :=
  ∀ o ∈ t.operands, o.Suits t.column.type

/-- All placeholders were bound. -/
def Predicate.Settled (p : Predicate) : Prop :=
  ∀ t, Condition.test t ∈ p.conditions → ∀ o ∈ t.operands, o.Settled t.column

variable {column : ColumnRef} {values : List Value} {o o' : Operand} {t t' : ColumnTest}
  {p p' : Predicate} {q q' : Select}

theorem Operand.suits_of_settled (h : o.Settled column)
    (hliteral : ∀ v, o = .literal v → v.conformsTo column.type = true) : o.Suits column.type := by
  cases o with
  | literal v => exact ⟨v, rfl, hliteral v rfl⟩
  | placeholder index given =>
      rcases h with ⟨values, earlier, hlt, hbind⟩
      have hget : values[index]? = some values[index] := List.getElem?_eq_getElem hlt
      simp only [ColumnTest.bindOperand, hget] at hbind
      split at hbind
      · next hconforms =>
          cases hbind
          exact ⟨_, rfl, hconforms⟩
      · cases hbind

theorem ColumnTest.suited_of_check (hcheck : t.check = .ok ())
    (h : ∀ o ∈ t.operands, o.Settled t.column) : t.Suited := by
  intro o ho
  apply Operand.suits_of_settled (h o ho)
  rintro v rfl
  have hliteral := Outcome.forM_eq_ok_iff.mp hcheck _ ho
  by_cases hconforms : v.conformsTo t.column.type = true
  · exact hconforms
  · simp [hconforms] at hliteral

theorem Predicate.suited_of_check (hcheck : p.check = .ok ()) (h : p.Settled)
    (ht : Condition.test t ∈ p.conditions) : t.Suited :=
  ColumnTest.suited_of_check (Outcome.forM_eq_ok_iff.mp hcheck _ ht) (h t ht)

theorem ColumnTest.Suited.isBound (h : t.Suited) : t.isBound = true := by
  rw [ColumnTest.isBound, List.all_eq_true]
  intro o ho
  rcases h o ho with ⟨v, hv, _⟩
  simp [Operand.isBound, hv]

theorem Predicate.isBound_of_suited (h : ∀ t, Condition.test t ∈ p.conditions → t.Suited) :
    p.isBound = true := by
  simp only [isBound, operands, List.all_flatMap, List.all_eq_true]
  intro c hc
  cases c with
  | test t => exact List.all_eq_true.mp (h t hc).isBound
  | join j => simp [Condition.operands]

/-!
## Binding
-/

/-- Sorting the bounds of a test does not change its operands but for their order. -/
theorem ColumnTest.mem_operands_sortBounds : o ∈ t.sortBounds.operands ↔ o ∈ t.operands := by
  unfold sortBounds
  split
  · next a b _ hoperands =>
      split
      · split
        · simp [hoperands, or_comm]
        · rfl
      · rfl
  · rfl

theorem ColumnTest.column_sortBounds (t : ColumnTest) : t.sortBounds.column = t.column := by
  unfold sortBounds
  split
  · split
    · split <;> rfl
    · rfl
  · rfl

theorem Operand.settled_of_bind (hslots : o.slots ≤ values.length)
    (h : ColumnTest.bindOperand column values o = .ok o') : o'.Settled column := by
  cases o with
  | literal v =>
      cases h
      trivial
  | placeholder index earlier =>
      have hlt : index < values.length := hslots
      have hget : values[index]? = some values[index] := List.getElem?_eq_getElem hlt
      have h' := h
      simp only [ColumnTest.bindOperand, hget] at h'
      split at h'
      · cases h'
        exact ⟨values, earlier, hlt, h⟩
      · cases h'

theorem ColumnTest.settled_of_bind (hslots : ∀ o ∈ t.operands, o.slots ≤ values.length)
    (h : t.bind values = .ok t') : ∀ o ∈ t'.operands, o.Settled t'.column := by
  rcases Outcome.bind_eq_ok_iff.mp h with ⟨operands, hoperands, ht'⟩
  cases ht'
  intro o ho
  rw [mem_operands_sortBounds] at ho
  rw [column_sortBounds]
  rcases Outcome.exists_of_mapM_eq_ok hoperands ho with ⟨o₀, ho₀, hbind⟩
  exact Operand.settled_of_bind (hslots o₀ ho₀) hbind

namespace Predicate

theorem mapConditionsOf_eq (f : Condition → Outcome Condition) (ps : List Predicate) :
    mapConditionsOf f ps = ps.mapM (mapConditions f) := by
  induction ps with
  | nil => rfl
  | cons p ps ih => rw [mapConditionsOf, List.mapM_cons, ih]

theorem exists_of_mapConditions {f : Condition → Outcome Condition} {c' : Condition}
    (h : p.mapConditions f = .ok p') (hc' : c' ∈ p'.conditions) :
    ∃ c ∈ p.conditions, f c = .ok c' := by
  induction p using partsInduction generalizing p' with
  | hcondition c =>
      rcases Outcome.bind_eq_ok_iff.mp h with ⟨d, hd, hp'⟩
      cases hp'
      rw [conditions, List.mem_singleton] at hc'
      exact ⟨c, List.mem_cons_self, hc' ▸ hd⟩
  | hcombine k ps ih =>
      rw [mapConditions, mapConditionsOf_eq] at h
      rcases Outcome.bind_eq_ok_iff.mp h with ⟨ps', hps', hp'⟩
      cases hp'
      rw [conditions_combine] at hc'
      rcases List.mem_flatMap.mp hc' with ⟨q', hq', hc'⟩
      rcases Outcome.exists_of_mapM_eq_ok hps' hq' with ⟨q, hq, hmap⟩
      rcases ih q hq hmap hc' with ⟨c, hc, hf⟩
      rw [conditions_combine]
      exact ⟨c, List.mem_flatMap.mpr ⟨q, hq, hc⟩, hf⟩

theorem le_foldl_max {l : List Nat} {n m : Nat} (h : n ≤ m ∨ n ∈ l) : n ≤ l.foldl max m := by
  induction l generalizing m with
  | nil =>
      rcases h with h | h
      · exact h
      · cases h
  | cons a rest ih =>
      apply ih
      rcases h with h | h
      · exact Or.inl (Nat.le_trans h (Nat.le_max_left m a))
      · rcases List.mem_cons.mp h with rfl | h
        · exact Or.inl (Nat.le_max_right m n)
        · exact Or.inr h

theorem slots_le (ht : Condition.test t ∈ p.conditions) (ho : o ∈ t.operands) :
    o.slots ≤ p.slots := by
  apply le_foldl_max
  right
  apply List.mem_map_of_mem
  exact List.mem_flatMap.mpr ⟨_, ht, ho⟩

/-- Binding leaves no placeholder without a value of its column. -/
theorem settled_of_bind (h : p.bind values = .ok p') : p'.Settled := by
  unfold bind at h
  split at h
  · next hlength =>
      intro t' ht'
      rcases exists_of_mapConditions h ht' with ⟨c, hc, hbind⟩
      cases c with
      | test t =>
          rcases Outcome.bind_eq_ok_iff.mp hbind with ⟨t'', htest, heq⟩
          cases heq
          apply ColumnTest.settled_of_bind _ htest
          intro o ho
          rw [hlength]
          exact slots_le hc ho
      | join j => cases hbind
  · cases h

theorem settled_of_slots (h : p.slots = 0) : p.Settled := by
  intro t ht o ho
  have hslots : o.slots ≤ 0 := h ▸ slots_le ht ho
  cases o with
  | literal v => trivial
  | placeholder index given => simp [Operand.slots] at hslots

end Predicate

theorem Select.settled_of_bind (h : q.bind values = .ok q') : ∀ p ∈ q'.predicate, p.Settled := by
  rcases Outcome.bind_eq_ok_iff.mp h with ⟨p, hp, hq'⟩
  cases hq'
  unfold bindPredicate at hp
  split at hp
  · next p₀ _ =>
      cases hbind : p₀.bind values with
      | error e =>
          rw [hbind] at hp
          cases hp
      | ok p₁ =>
          rw [hbind] at hp
          cases hp
          intro p' hp'
          cases hp'
          exact Predicate.settled_of_bind hbind
  · split at hp
    · cases hp
      nofun
    · cases hp

end RelationalDb
