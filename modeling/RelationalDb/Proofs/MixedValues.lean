import RelationalDb.Proofs.Number.Rounding
import RelationalDb.Proofs.Ordering

/-!
# Values of several types in one comparison

Whatever two values are, exchanging them turns their comparison round, and equal values
compare equal.  Transitivity is another matter: two integers are compared exactly, an
integer and a double through the nearest double, and two neighbouring integers can have
one nearest double.  A double between two such integers, the greater one first, is the
only thing that stops the comparison from being an order.
-/

namespace RelationalDb

namespace Binary64

variable {m n : Nat}

/-!
## Integers that a double can hold
-/

theorem significandOf_small (h : n.log2 ≤ 52) : significandOf n = n * 2 ^ (52 - n.log2) := by
  simp only [significandOf, h, if_true, Nat.shiftLeft_eq]

theorem significandOf_small_lt (h : n.log2 ≤ 52) : significandOf n < 2 ^ 53 := by
  have hpow : 2 ^ (n.log2 + 1) * 2 ^ (52 - n.log2) = 2 ^ 53 := by
    rw [← Nat.pow_add]
    congr 1
    omega
  rw [significandOf_small h, ← hpow]
  exact Nat.mul_lt_mul_of_pos_right Nat.lt_log2_self (Nat.two_pow_pos _)

theorem magnitudeOfNat_strictMono (h : m < n) (hn : n ≤ 2 ^ 53) :
    magnitudeOfNat m < magnitudeOfNat n := by
  have hn₀ : n ≠ 0 := by omega
  have habove := (significandOf_bounds hn₀).1
  by_cases hm : m = 0
  · rw [hm, magnitudeOfNat_eq hn₀]
    change 0 < _
    omega
  have hsmall : m.log2 ≤ 52 := by
    have hlog : m.log2 < 53 := (Nat.log2_lt hm).mpr (h.trans_le hn)
    omega
  have hbelow := significandOf_small_lt hsmall
  rw [magnitudeOfNat_eq hm, magnitudeOfNat_eq hn₀]
  have hlog : m.log2 ≤ n.log2 := by
    rw [Nat.le_log2 hn₀]
    exact (Nat.log2_self_le hm).trans h.le
  by_cases hlt : m.log2 < n.log2
  · omega
  · have heq : m.log2 = n.log2 := by omega
    apply Nat.add_lt_add_of_le_of_lt (by rw [heq])
    rw [significandOf_small hsmall, significandOf_small (heq ▸ hsmall), heq]
    exact Nat.mul_lt_mul_of_pos_right h (Nat.two_pow_pos _)

theorem place_ofInt_strictMono {j k : Int} (h : j < k) (hj : j.natAbs ≤ 2 ^ 53)
    (hk : k.natAbs ≤ 2 ^ 53) : (ofInt j).place < (ofInt k).place := by
  rw [place_ofInt (by omega), place_ofInt (by omega)]
  by_cases hnegative : k < 0
  · have hstrict := magnitudeOfNat_strictMono (show k.natAbs < j.natAbs by omega) hj
    rw [if_pos (by omega), if_pos hnegative]
    omega
  · by_cases hj₀ : j < 0
    · have hstrict := magnitudeOfNat_strictMono (show 0 < j.natAbs by omega) hj
      rw [if_pos hj₀, if_neg hnegative]
      omega
    · have hstrict := magnitudeOfNat_strictMono (show j.natAbs < k.natAbs by omega) hk
      rw [if_neg hj₀, if_neg hnegative]
      omega

end Binary64

namespace Value

variable {a b c : Value} {m n : Int} {x y : Binary64}

/-!
## Kinds of values
-/

/-- The rank of a value when all numbers, whatever their types, stand together. -/
def kind : Value → Nat
  | .int32 _ | .int64 _ => 4
  | v => v.rank

theorem kind_of_toInt? (h : a.toInt? = some m) : a.kind = 4 := by
  cases a <;> cases h <;> rfl

theorem compare_of_kind_ne (h : a.kind ≠ b.kind) : compare a b = compare a.kind b.kind := by
  cases a <;> cases b <;>
    first
    | exact absurd rfl h
    | rfl

theorem number_of_kind (h : a.kind = b.kind) (ha : a.toBinary64? = some x) :
    ∃ y, b.toBinary64? = some y := by
  cases a <;> cases ha <;> cases b <;>
    first
    | exact ⟨_, rfl⟩
    | simp [kind, rank] at h

theorem type_of_kind (h : a.kind = b.kind) (ha : a.toBinary64? = none) : a.type? = b.type? := by
  cases a <;> cases ha <;> cases b <;>
    first
    | rfl
    | simp [kind, rank] at h

theorem kind_le_of_isLE (h : (compare a b).isLE = true) : a.kind ≤ b.kind := by
  by_cases hkind : a.kind = b.kind
  · exact hkind.le
  · rw [compare_of_kind_ne hkind] at h
    exact Nat.isLE_compare.mp h

theorem isLE_of_kind_lt (h : a.kind < b.kind) : (compare a b).isLE = true := by
  rw [compare_of_kind_ne h.ne]
  exact Nat.isLE_compare.mpr h.le

/-!
## Numbers
-/

theorem compare_integers (ha : a.toInt? = some m) (hb : b.toInt? = some n) :
    compare a b = compare m n := by
  cases a <;> cases ha <;> cases b <;> cases hb <;> rfl

theorem compare_doubles (ha : a.toBinary64? = some x) (hb : b.toBinary64? = some y)
    (hdouble : a.toInt? = none ∨ b.toInt? = none) : compare a b = compare x y := by
  cases a <;> cases ha <;> cases b <;> cases hb <;>
    first
    | rfl
    | exact absurd hdouble (by simp [toInt?])

theorem toBinary64?_of_toInt? (h : a.toInt? = some m) : a.toBinary64? = some (.ofInt m) := by
  cases a <;> cases h <;> rfl

theorem eq_float64_of_toInt?_none (ha : a.toBinary64? = some x) (hint : a.toInt? = none) :
    a = float64 x := by
  cases a <;> cases ha
  · cases hint
  · cases hint
  · rfl

theorem natAbs_le_of_toInt? (h : a.toInt? = some m) : m.natAbs ≤ 2 ^ 63 := by
  cases a <;> cases h
  case int32 k =>
    have hlow := k.le_toInt
    have hhigh := k.toInt_lt
    omega
  case int64 k =>
    have hlow := k.le_toInt
    have hhigh := k.toInt_lt
    omega

theorem place_le_of_isLE (ha : a.toBinary64? = some x) (hb : b.toBinary64? = some y)
    (h : (compare a b).isLE = true) : x.place ≤ y.place := by
  cases hm : a.toInt? with
  | none =>
      rw [compare_doubles ha hb (Or.inl hm)] at h
      exact Int.isLE_compare.mp h
  | some m =>
      cases hn : b.toInt? with
      | none =>
          rw [compare_doubles ha hb (Or.inr hn)] at h
          exact Int.isLE_compare.mp h
      | some n =>
          rw [compare_integers hm hn, Int.isLE_compare] at h
          cases ha.symm.trans (toBinary64?_of_toInt? hm)
          cases hb.symm.trans (toBinary64?_of_toInt? hn)
          exact Binary64.place_ofInt_mono h (natAbs_le_of_toInt? hm) (natAbs_le_of_toInt? hn)

/-!
## Where the comparison is no order
-/

/-- A double that is the nearest one to two integers, between them, the greater one first. -/
def MergesBetween (a b c : Value) : Prop :=
  ∃ m n x, a.toInt? = some m ∧ c.toInt? = some n ∧ b = float64 x ∧ n < m ∧
    compare (Binary64.ofInt m) x = .eq ∧ compare (Binary64.ofInt n) x = .eq

theorem not_mergesBetween_of_type (h : a.type? = b.type?) : ¬ MergesBetween a b c := by
  rintro ⟨m, n, x, hm, -, rfl, -⟩
  cases a <;> cases hm <;> cases h

theorem mergesBetween_of_lt (hm : a.toInt? = some m) (hn : c.toInt? = some n)
    (hlt : n < m) (hb : b.toBinary64? = some y) (hab : (compare a b).isLE = true)
    (hbc : (compare b c).isLE = true) : MergesBetween a b c := by
  have hxy := place_le_of_isLE (toBinary64?_of_toInt? hm) hb hab
  have hyz := place_le_of_isLE hb (toBinary64?_of_toInt? hn) hbc
  -- The greater integer has the greater place, so all three places are one.
  have hzx := Binary64.place_ofInt_mono hlt.le (natAbs_le_of_toInt? hn) (natAbs_le_of_toInt? hm)
  cases hk : b.toInt? with
  | some k =>
      rw [compare_integers hm hk, Int.isLE_compare] at hab
      rw [compare_integers hk hn, Int.isLE_compare] at hbc
      omega
  | none =>
      have hfirst : (Binary64.ofInt m).place = y.place := by omega
      have hlast : (Binary64.ofInt n).place = y.place := by omega
      exact ⟨m, n, y, hm, hn, eq_float64_of_toInt?_none hb hk, hlt,
        Int.compare_eq_eq.mpr hfirst, Int.compare_eq_eq.mpr hlast⟩

theorem isLE_numbers_iff {z : Binary64} (ha : a.toBinary64? = some x)
    (hb : b.toBinary64? = some y) (hc : c.toBinary64? = some z)
    (hab : (compare a b).isLE = true) (hbc : (compare b c).isLE = true) :
    (compare a c).isLE = true ↔ ¬ MergesBetween a b c := by
  have hxy := place_le_of_isLE ha hb hab
  have hyz := place_le_of_isLE hb hc hbc
  cases hm : a.toInt? with
  | none =>
      have hnever : ¬ MergesBetween a b c := by
        rintro ⟨m, n, x, ha, -⟩
        simp [hm] at ha
      rw [compare_doubles ha hc (Or.inl hm)]
      exact iff_of_true (Int.isLE_compare.mpr (hxy.trans hyz)) hnever
  | some m =>
      cases hn : c.toInt? with
      | none =>
          have hnever : ¬ MergesBetween a b c := by
            rintro ⟨m, n, x, -, hc, -⟩
            simp [hn] at hc
          rw [compare_doubles ha hc (Or.inr hn)]
          exact iff_of_true (Int.isLE_compare.mpr (hxy.trans hyz)) hnever
      | some n =>
          rw [compare_integers hm hn, Int.isLE_compare]
          constructor
          · rintro hle ⟨m', n', x, ha', hc', -, hlt, -⟩
            cases hm.symm.trans ha'
            cases hn.symm.trans hc'
            omega
          · intro hnever
            by_contra hgt
            exact hnever (mergesBetween_of_lt hm hn (by omega) hb hab hbc)

/-- Three values of which the first two and the last two are in order are in order, unless
the middle one merges the outer two. -/
theorem isLE_iff_not_mergesBetween (hab : (compare a b).isLE = true)
    (hbc : (compare b c).isLE = true) :
    (compare a c).isLE = true ↔ ¬ MergesBetween a b c := by
  have hkab := kind_le_of_isLE hab
  have hkbc := kind_le_of_isLE hbc
  by_cases hlt : a.kind < c.kind
  · have hnever : ¬ MergesBetween a b c := by
      rintro ⟨m, n, x, ha, hc, -⟩
      rw [kind_of_toInt? ha, kind_of_toInt? hc] at hlt
      exact Nat.lt_irrefl _ hlt
    exact iff_of_true (isLE_of_kind_lt hlt) hnever
  · have hkab : a.kind = b.kind := by omega
    have hkbc : b.kind = c.kind := by omega
    cases ha : a.toBinary64? with
    | some x =>
        obtain ⟨y, hb⟩ := number_of_kind hkab ha
        obtain ⟨z, hc⟩ := number_of_kind hkbc hb
        exact isLE_numbers_iff ha hb hc hab hbc
    | none =>
        have hnever : ¬ MergesBetween a b c := by
          rintro ⟨m, n, x, hm, -⟩
          simp [toBinary64?_of_toInt? hm] at ha
        have htype := type_of_kind hkab ha
        have htype' := type_of_kind (hkab.trans hkbc) ha
        apply iff_of_true _ hnever
        cases hnull : a.type? with
        | some t =>
            exact (orderedOn_type t).isLE_trans hnull (htype ▸ hnull) (htype' ▸ hnull) hab hbc
        | none =>
            rw [eq_null_of_type hnull, eq_null_of_type (htype'.symm.trans hnull), compare_self]
            rfl

theorem eq_iff_not_mergesBetween (hab : compare a b = .eq) (hbc : compare b c = .eq) :
    compare a c = .eq ↔ ¬ MergesBetween a b c ∧ ¬ MergesBetween c b a := by
  have hba : compare b a = .eq := by rw [compare_swap, hab]; rfl
  have hcb : compare c b = .eq := by rw [compare_swap, hbc]; rfl
  rw [← isLE_iff_not_mergesBetween (Ordering.isLE_of_eq_eq hab) (Ordering.isLE_of_eq_eq hbc),
    ← isLE_iff_not_mergesBetween (Ordering.isLE_of_eq_eq hcb) (Ordering.isLE_of_eq_eq hba),
    compare_swap c a]
  cases compare a c <;> decide

theorem orderedOn_iff_not_mergesBetween (P : Value → Prop) :
    OrderedOn P ↔ ∀ a b c, P a → P b → P c → ¬ MergesBetween a b c := by
  constructor
  · intro ord a b c ha hb hc hmerges
    obtain ⟨m, n, x, hm, hn, rfl, -, hmx, hnx⟩ := id hmerges
    have hab : compare a (float64 x) = .eq := by
      rw [compare_doubles (toBinary64?_of_toInt? hm) rfl (Or.inr rfl), hmx]
    have hbc : compare (float64 x) c = .eq := by
      rw [compare_swap, compare_doubles (toBinary64?_of_toInt? hn) rfl (Or.inr rfl), hnx]
      rfl
    have hab := Ordering.isLE_of_eq_eq hab
    have hbc := Ordering.isLE_of_eq_eq hbc
    exact (isLE_iff_not_mergesBetween hab hbc).mp (ord.isLE_trans ha hb hc hab hbc) hmerges
  · intro apart
    constructor
    · intro a b _ _
      exact compare_swap a b
    · intro a b c ha hb hc hab hbc
      exact (isLE_iff_not_mergesBetween hab hbc).mpr (apart a b c ha hb hc)

theorem orderedOn_of_small_integers {P : Value → Prop}
    (h : ∀ v, P v → ∀ n, v.toInt? = some n → n.natAbs ≤ 2 ^ 53) : OrderedOn P := by
  rw [orderedOn_iff_not_mergesBetween]
  rintro a b c ha - hc ⟨m, n, x, hm, hn, -, hlt, hmx, hnx⟩
  have hstrict := Binary64.place_ofInt_strictMono hlt (h c hc n hn) (h a ha m hm)
  have hmplace : (Binary64.ofInt m).place = x.place := Int.compare_eq_eq.mp hmx
  have hnplace : (Binary64.ofInt n).place = x.place := Int.compare_eq_eq.mp hnx
  omega

/-- Exchanging two values turns their comparison round, and equal values compare equal.
Three values that are in order pair by pair are in order, and a kind of values is ordered,
except where a double stands between two integers of which it is the nearest one and the
greater comes first.  That never happens among integers of at most 53 bits. -/
theorem values_are_in_order_unless_a_double_merges_integers (a b c : Value) (P : Value → Prop) :
    compare b a = (compare a b).swap ∧
    ((a == b) = true → compare a b = .eq) ∧
    ((compare a b).isLE = true → (compare b c).isLE = true →
      ((compare a c).isLE = true ↔ ¬ MergesBetween a b c)) ∧
    (compare a b = .eq → compare b c = .eq →
      (compare a c = .eq ↔ ¬ MergesBetween a b c ∧ ¬ MergesBetween c b a)) ∧
    (OrderedOn P ↔ ∀ a b c, P a → P b → P c → ¬ MergesBetween a b c) ∧
    ((∀ v, P v → ∀ n, v.toInt? = some n → n.natAbs ≤ 2 ^ 53) → OrderedOn P) := by
  constructor
  · exact compare_swap b a
  constructor
  · exact compare_eq_of_beq
  constructor
  · exact isLE_iff_not_mergesBetween
  constructor
  · exact eq_iff_not_mergesBetween
  constructor
  · exact orderedOn_iff_not_mergesBetween P
  · exact orderedOn_of_small_integers

/-- The double 2 ^ 53 compares equal to the integer 2 ^ 53 and to the next one, which
compares greater. -/
theorem double_merges_neighbours :
    compare (int64 9007199254740993) (float64 ⟨0x4340000000000000⟩) = .eq ∧
    compare (float64 ⟨0x4340000000000000⟩) (int64 9007199254740992) = .eq ∧
    compare (int64 9007199254740993) (int64 9007199254740992) = .gt := by
  decide +kernel

end Value

end RelationalDb
