import Mathlib
import RelationalDb.Relation.Aggregate

/-!
# Sums of integers

A sum of integers is taken from left to right in signed words of 64 bits, and it becomes a
double as soon as a running total is none.  Whether it is exact depends on the order of the
values, unless the sum of the positive ones and that of the negative ones are such words.
-/

namespace RelationalDb

def IsSignedWord (n : Int) : Prop :=
  -0x8000000000000000 ≤ n ∧ n < 0x8000000000000000

instance (n : Int) : Decidable (IsSignedWord n) :=
  inferInstanceAs (Decidable (_ ∧ _))

def RunsInWords (ns : List Int) : Prop :=
  ∀ p, p <+: ns → IsSignedWord p.sum

/-!
## Running totals
-/

theorem forall_prefix_cons {α : Type} {P : List α → Prop} {a : α} {l : List α} :
    (∀ p, p <+: a :: l → P p) ↔ P [] ∧ ∀ p, p <+: l → P (a :: p) := by
  constructor
  · intro h
    constructor
    · exact h [] List.nil_prefix
    · intro p hp
      exact h (a :: p) (List.cons_prefix_cons.mpr (And.intro rfl hp))
  · intro h p hp
    rcases List.prefix_cons_iff.mp hp with rfl | ⟨q, rfl, hq⟩
    · exact h.1
    · exact h.2 q hq

theorem sumIntegers?_eq_some_iff {total t : Int} {ns : List Int} (htotal : IsSignedWord total) :
    sumIntegers? total ns = some t ↔
      (∀ p, p <+: ns → IsSignedWord (total + p.sum)) ∧ t = total + ns.sum := by
  induction ns generalizing total with
  | nil =>
      simp [sumIntegers?, htotal, eq_comm]
  | cons n rest ih =>
      rw [forall_prefix_cons, sumIntegers?]
      simp only [List.sum_nil, List.sum_cons, add_zero, ← add_assoc]
      by_cases hnext : IsSignedWord (total + n)
      · have hwithin : -0x8000000000000000 ≤ total + n ∧ total + n < 0x8000000000000000 := hnext
        rw [if_pos hwithin, ih hnext]
        simp [htotal]
      · have hwithin : ¬ (-0x8000000000000000 ≤ total + n ∧ total + n < 0x8000000000000000) := hnext
        rw [if_neg hwithin]
        constructor
        · intro h
          cases h
        · intro h
          have hfirst := h.1.2 [] List.nil_prefix
          rw [List.sum_nil, add_zero] at hfirst
          exact absurd hfirst hnext

/-- An integer counts among the positive or among the negative ones. -/
theorem sum_filter_cons (n : Int) (ns : List Int) :
    ((n :: ns).filter (0 ≤ ·)).sum = max 0 n + (ns.filter (0 ≤ ·)).sum ∧
      ((n :: ns).filter (· < 0)).sum = min 0 n + (ns.filter (· < 0)).sum := by
  by_cases hn : n < 0
  · have hnot : ¬ 0 ≤ n := Int.not_le.mpr hn
    simp [hn, hnot, hn.le]
  · have hle : 0 ≤ n := Int.not_lt.mp hn
    simp [hn, hle]

theorem sum_sublist_bounds {l ns : List Int} (h : l.Sublist ns) :
    (ns.filter (· < 0)).sum ≤ l.sum ∧ l.sum ≤ (ns.filter (0 ≤ ·)).sum := by
  induction h with
  | slnil => decide
  | cons n _ ih =>
      rw [(sum_filter_cons n _).1, (sum_filter_cons n _).2]
      omega
  | cons_cons n _ ih =>
      rw [(sum_filter_cons n _).1, (sum_filter_cons n _).2, List.sum_cons]
      omega

theorem runsInWords_of_bounds {ns : List Int} (hpositive : IsSignedWord (ns.filter (0 ≤ ·)).sum)
    (hnegative : IsSignedWord (ns.filter (· < 0)).sum) : RunsInWords ns := by
  intro p hp
  have hbounds := sum_sublist_bounds hp.sublist
  exact And.intro (hnegative.1.trans hbounds.1) (hbounds.2.trans_lt hpositive.2)

/-!
## The aggregate
-/

namespace AggregateFunction

variable {type : ColumnType} {values : List Value} {ns : List Int}

def AreIntegers (values : List Value) (ns : List Int) : Prop :=
  List.Forall₂ (fun v n => v.toInt? = some n) values ns

theorem AreIntegers.filterMap_toInt? (h : AreIntegers values ns) :
    values.filterMap (·.toInt?) = ns := by
  induction h with
  | nil => rfl
  | cons hv _ ih => rw [List.filterMap_cons_some hv, ih]

theorem AreIntegers.filterMap_toBinary64? (h : AreIntegers values ns) :
    values.filterMap (·.toBinary64?) = ns.map .ofInt := by
  induction h with
  | nil => rfl
  | @cons v n values ns hv _ ih =>
      have hdouble : v.toBinary64? = some (.ofInt n) := by
        cases v <;> cases hv <;> rfl
      rw [List.filterMap_cons_some hdouble, ih, List.map_cons]

theorem sum_apply (htype : type = .int32 ∨ type = .int64) (hne : values ≠ [])
    (hvalues : AreIntegers values ns) :
    AggregateFunction.sum.apply type values =
      match sumIntegers? 0 ns with
      | some total => .int64 (.ofInt total)
      | none => .float64 (sumDoubles (ns.map .ofInt)) := by
  have hfloat : type ≠ .float64 := by
    rcases htype with rfl | rfl <;> decide
  cases values with
  | nil => exact absurd rfl hne
  | cons v rest =>
      have hints := hvalues.filterMap_toInt?
      have hdoubles := hvalues.filterMap_toBinary64?
      cases hsum : sumIntegers? 0 ns <;> simp [apply, hfloat, hints, hdoubles, hsum]

theorem sum_apply_of_runsInWords (htype : type = .int32 ∨ type = .int64) (hne : values ≠ [])
    (hvalues : AreIntegers values ns) (h : RunsInWords ns) :
    ∃ total : Int64, total.toInt = ns.sum ∧
      AggregateFunction.sum.apply type values = .int64 total := by
  have hsum : sumIntegers? 0 ns = some ns.sum := by
    rw [sumIntegers?_eq_some_iff (by decide)]
    simpa [RunsInWords] using h
  have hword := h ns List.prefix_rfl
  exists .ofInt ns.sum
  constructor
  · exact Int64.toInt_ofInt_of_le hword.1 hword.2
  · rw [sum_apply htype hne hvalues, hsum]

theorem sum_apply_of_not_runsInWords (htype : type = .int32 ∨ type = .int64) (hne : values ≠ [])
    (hvalues : AreIntegers values ns) (h : ¬ RunsInWords ns) :
    AggregateFunction.sum.apply type values = .float64 (sumDoubles (ns.map .ofInt)) := by
  have hsum : sumIntegers? 0 ns = none := by
    rw [Option.eq_none_iff_forall_ne_some]
    intro t ht
    rw [sumIntegers?_eq_some_iff (by decide)] at ht
    apply h
    simpa [RunsInWords] using ht.1
  rw [sum_apply htype hne hvalues, hsum]

theorem AreIntegers.exists_perm {ns' : List Int} (h : AreIntegers values ns)
    (hperm : ns'.Perm ns) : ∃ values', values'.Perm values ∧ AreIntegers values' ns' := by
  rcases List.perm_comp_forall₂ hperm h.flip with ⟨values', hvalues, hperm'⟩
  exact ⟨values', hperm', hvalues.flip⟩

theorem AreIntegers.exists_of_perm {values' : List Value} (h : AreIntegers values ns)
    (hperm : values'.Perm values) : ∃ ns', ns'.Perm ns ∧ AreIntegers values' ns' := by
  rcases List.perm_comp_forall₂ hperm h with ⟨ns', hns, hperm'⟩
  exact ⟨ns', hperm', hns⟩

/-- A sum of integers is exact if all running totals are signed words, and a double otherwise.  So
it is a double in every order if the integers add up to no word, and exact in every order if
and only if the positive and the negative integers each add up to a word. -/
theorem integer_sums_are_exact_while_totals_are_words (htype : type = .int32 ∨ type = .int64)
    (hne : values ≠ []) (hvalues : AreIntegers values ns) :
    (RunsInWords ns → ∃ total : Int64, total.toInt = ns.sum ∧
        AggregateFunction.sum.apply type values = .int64 total) ∧
      (¬ RunsInWords ns →
        AggregateFunction.sum.apply type values = .float64 (sumDoubles (ns.map .ofInt))) ∧
      (¬ IsSignedWord ns.sum → ∀ values', values'.Perm values →
        ∃ x, AggregateFunction.sum.apply type values' = .float64 x) ∧
      ((∀ values', values'.Perm values → ∃ total : Int64, total.toInt = ns.sum ∧
          AggregateFunction.sum.apply type values' = .int64 total) ↔
        IsSignedWord (ns.filter (0 ≤ ·)).sum ∧ IsSignedWord (ns.filter (· < 0)).sum) := by
  have hne' : ∀ values', values'.Perm values → values' ≠ [] := by
    intro values' hperm hnil
    exact hne (List.nil_perm.mp (hnil ▸ hperm))
  constructor
  · exact sum_apply_of_runsInWords htype hne hvalues
  constructor
  · exact sum_apply_of_not_runsInWords htype hne hvalues
  constructor
  · intro hsum values' hperm
    rcases hvalues.exists_of_perm hperm with ⟨ns', hperm', hvalues'⟩
    exists sumDoubles (ns'.map .ofInt)
    apply sum_apply_of_not_runsInWords htype (hne' values' hperm) hvalues'
    intro hruns
    rw [← hperm'.sum_eq] at hsum
    exact hsum (hruns ns' List.prefix_rfl)
  constructor
  · -- The order that takes the integers of one sign first reaches their sum as a running total.
    intro hexact
    have hfirst : ∀ first second : List Int, (first ++ second).Perm ns →
        IsSignedWord first.sum := by
      intro first second hperm
      rcases hvalues.exists_perm hperm with ⟨values', hperm', hvalues'⟩
      by_contra hword
      have hruns : ¬ RunsInWords (first ++ second) := by
        intro hruns
        exact hword (hruns first (List.prefix_append first second))
      rcases hexact values' hperm' with ⟨total, _, htotal⟩
      rw [sum_apply_of_not_runsInWords htype (hne' values' hperm') hvalues' hruns] at htotal
      cases htotal
    constructor
    · exact hfirst _ _ (List.filter_append_perm (0 ≤ ·) ns)
    · exact hfirst _ _ (List.filter_append_perm (· < 0) ns)
  · intro hbounds values' hperm
    rcases hvalues.exists_of_perm hperm with ⟨ns', hperm', hvalues'⟩
    rw [← hperm'.sum_eq]
    apply sum_apply_of_runsInWords htype (hne' values' hperm) hvalues'
    apply runsInWords_of_bounds
    · rw [(hperm'.filter _).sum_eq]
      exact hbounds.1
    · rw [(hperm'.filter _).sum_eq]
      exact hbounds.2

theorem sizes_add_up :
    (∃ total : Int64, total.toInt = 5 ∧
      AggregateFunction.sum.apply .int64 [.int32 7, .int64 (-2)] = .int64 total) ∧
    ∀ values', values'.Perm [.int32 7, .int64 (-2)] → ∃ total : Int64, total.toInt = 5 ∧
      AggregateFunction.sum.apply .int64 values' = .int64 total := by
  have hvalues : AreIntegers [.int32 7, .int64 (-2)] [7, -2] :=
    .cons rfl (.cons rfl .nil)
  have htype : ColumnType.int64 = .int32 ∨ ColumnType.int64 = .int64 := Or.inr rfl
  have hsum := integer_sums_are_exact_while_totals_are_words htype (by simp) hvalues
  constructor
  · exact hsum.1 (runsInWords_of_bounds (by decide) (by decide))
  · exact hsum.2.2.2.mpr (by decide)

/-- The largest integer, one and minus one add up to the largest integer, but only in some orders
the aggregate says so. -/
theorem total_leaves_the_words_and_returns :
    AreIntegers [.int64 .maxValue, .int64 1, .int64 (-1)] [0x7fffffffffffffff, 1, -1] ∧
    IsSignedWord [0x7fffffffffffffff, 1, -1].sum ∧
    (∃ x, AggregateFunction.sum.apply .int64 [.int64 .maxValue, .int64 1, .int64 (-1)] =
      .float64 x) ∧
    AggregateFunction.sum.apply .int64 [.int64 .maxValue, .int64 (-1), .int64 1] =
      .int64 .maxValue := by
  constructor
  · exact .cons rfl (.cons rfl (.cons rfl .nil))
  constructor
  · decide
  constructor
  · exact ⟨_, rfl⟩
  · rfl

end AggregateFunction

end RelationalDb
