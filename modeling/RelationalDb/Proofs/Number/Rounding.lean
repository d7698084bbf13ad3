import Mathlib
import RelationalDb.Number.Binary64

/-!
# Integers in the order of doubles

Turning an integer into the nearest double may merge neighbours, but it never exchanges
two integers: the place of the double does not fall when the integer grows.
-/

namespace RelationalDb

namespace Binary64

variable {m n shift : Nat}

/-!
## Rounding a natural number
-/

theorem roundShift_eq (n shift : Nat) :
    roundShift n shift =
      if 2 ^ shift < 2 * (n % 2 ^ shift) then n / 2 ^ shift + 1
      else if 2 * (n % 2 ^ shift) = 2 ^ shift then n / 2 ^ shift + n / 2 ^ shift % 2
      else n / 2 ^ shift := by
  simp only [roundShift, Nat.shiftRight_eq_div_pow, Nat.one_shiftLeft]

theorem div_le_roundShift (n shift : Nat) : n / 2 ^ shift ≤ roundShift n shift := by
  rw [roundShift_eq]
  split
  · exact Nat.le_succ _
  · split
    · exact Nat.le_add_right _ _
    · exact Nat.le_refl _

theorem roundShift_le (n shift : Nat) : roundShift n shift ≤ n / 2 ^ shift + 1 := by
  rw [roundShift_eq]
  split
  · exact Nat.le_refl _
  · split
    · have hmod := Nat.mod_lt (n / 2 ^ shift) (show 0 < 2 by decide)
      omega
    · exact Nat.le_succ _

theorem roundShift_mono (h : m ≤ n) (shift : Nat) : roundShift m shift ≤ roundShift n shift := by
  have hquotient : m / 2 ^ shift ≤ n / 2 ^ shift := Nat.div_le_div_right h
  by_cases hlt : m / 2 ^ shift < n / 2 ^ shift
  · exact (roundShift_le m shift).trans (Nat.le_trans hlt (div_le_roundShift n shift))
  · -- With one quotient the rests are in the order of the numbers.
    have heq : m / 2 ^ shift = n / 2 ^ shift := by omega
    have hm := Nat.div_add_mod m (2 ^ shift)
    have hn := Nat.div_add_mod n (2 ^ shift)
    rw [heq] at hm
    rw [roundShift_eq, roundShift_eq, heq]
    split_ifs <;> omega

def significandOf (n : Nat) : Nat :=
  if n.log2 ≤ 52 then n <<< (52 - n.log2) else roundShift n (n.log2 - 52)

theorem magnitudeOfNat_eq (h : n ≠ 0) :
    magnitudeOfNat n = (1022 + n.log2) * 2 ^ 52 + significandOf n := by
  simp only [magnitudeOfNat, h, if_false, significandOf, Nat.shiftLeft_eq]

theorem significandOf_bounds (h : n ≠ 0) :
    2 ^ 52 ≤ significandOf n ∧ significandOf n ≤ 2 ^ 53 := by
  have hlow : 2 ^ n.log2 ≤ n := Nat.log2_self_le h
  have hhigh : n < 2 ^ (n.log2 + 1) := Nat.lt_log2_self
  unfold significandOf
  split
  · next hsmall =>
      have hpow : 2 ^ n.log2 * 2 ^ (52 - n.log2) = 2 ^ 52 := by
        rw [← Nat.pow_add, Nat.add_sub_cancel' hsmall]
      rw [Nat.shiftLeft_eq]
      constructor
      · rw [← hpow]
        exact Nat.mul_le_mul_right _ hlow
      · calc n * 2 ^ (52 - n.log2) ≤ 2 ^ (n.log2 + 1) * 2 ^ (52 - n.log2) :=
              Nat.mul_le_mul_right _ hhigh.le
          _ = 2 ^ 53 := by rw [Nat.pow_succ, Nat.mul_right_comm, hpow]; rfl
  · next hlarge =>
      have hsplit : n.log2 = 52 + (n.log2 - 52) := by omega
      have hpos : 0 < 2 ^ (n.log2 - 52) := Nat.two_pow_pos _
      constructor
      · apply le_trans _ (div_le_roundShift n _)
        rw [Nat.le_div_iff_mul_le hpos, ← Nat.pow_add, ← hsplit]
        exact hlow
      · apply le_trans (roundShift_le n _)
        apply Nat.succ_le_of_lt
        rw [Nat.div_lt_iff_lt_mul hpos, ← Nat.pow_add]
        have hexponent : 53 + (n.log2 - 52) = n.log2 + 1 := by omega
        rwa [hexponent]

theorem magnitudeOfNat_mono (h : m ≤ n) : magnitudeOfNat m ≤ magnitudeOfNat n := by
  by_cases hm : m = 0
  · rw [hm]
    exact Nat.zero_le _
  have hn : n ≠ 0 := by omega
  have hbelow := (significandOf_bounds hm).2
  have habove := (significandOf_bounds hn).1
  rw [magnitudeOfNat_eq hm, magnitudeOfNat_eq hn]
  have hlog : m.log2 ≤ n.log2 := by
    rw [Nat.le_log2 hn]
    exact (Nat.log2_self_le hm).trans h
  by_cases hlt : m.log2 < n.log2
  · -- A significand that carries reaches no further than the next exponent.
    omega
  · have heq : m.log2 = n.log2 := by omega
    rw [heq]
    apply Nat.add_le_add_left
    unfold significandOf
    rw [heq]
    split
    · rw [Nat.shiftLeft_eq, Nat.shiftLeft_eq]
      exact Nat.mul_le_mul_right _ h
    · exact roundShift_mono h _

theorem magnitudeOfNat_lt_infinity (h : n ≤ 2 ^ 63) : magnitudeOfNat n < infinityMagnitude := by
  have hlimit : magnitudeOfNat (2 ^ 63) < infinityMagnitude := by decide +kernel
  exact (magnitudeOfNat_mono h).trans_lt hlimit

/-!
## The place of an integer
-/

theorem place_of_magnitude_lt {x : Binary64} (h : x.magnitude < infinityMagnitude) :
    x.place = if x.isNegative then -(x.magnitude : Int) else (x.magnitude : Int) := by
  have hnan : x.isNaN = false := by
    rw [isNaN, decide_eq_false_iff_not]
    exact h.not_gt
  simp [place, hnan]

theorem place_ofInt {k : Int} (h : k.natAbs ≤ 2 ^ 63) :
    (ofInt k).place =
      if k < 0 then -(magnitudeOfNat k.natAbs : Int) else (magnitudeOfNat k.natAbs : Int) := by
  have hlt := magnitudeOfNat_lt_infinity h
  have hlimit : infinityMagnitude = 0x7ff0000000000000 := rfl
  have hbits : (ofInt k).bits.toNat =
      if k < 0 then 0x8000000000000000 + magnitudeOfNat k.natAbs else magnitudeOfNat k.natAbs := by
    rw [ofInt]
    apply UInt64.toNat_ofNat_of_lt'
    change _ < 0x10000000000000000
    split
    · omega
    · omega
  have hmagnitude : (ofInt k).magnitude = magnitudeOfNat k.natAbs := by
    rw [magnitude, hbits]
    split
    · omega
    · omega
  have hnegative : (ofInt k).isNegative = decide (k < 0) := by
    rw [isNegative, hbits, decide_eq_decide]
    split
    · omega
    · omega
  rw [place_of_magnitude_lt (hmagnitude ▸ hlt), hmagnitude, hnegative]
  simp only [decide_eq_true_eq]

theorem place_ofInt_mono {j k : Int} (h : j ≤ k) (hj : j.natAbs ≤ 2 ^ 63)
    (hk : k.natAbs ≤ 2 ^ 63) : (ofInt j).place ≤ (ofInt k).place := by
  rw [place_ofInt hj, place_ofInt hk]
  by_cases hnegative : k < 0
  · have hmono := magnitudeOfNat_mono (show k.natAbs ≤ j.natAbs by omega)
    rw [if_pos (by omega), if_pos hnegative]
    omega
  · by_cases hj₀ : j < 0
    · rw [if_pos hj₀, if_neg hnegative]
      omega
    · have hmono := magnitudeOfNat_mono (show j.natAbs ≤ k.natAbs by omega)
      rw [if_neg hj₀, if_neg hnegative]
      omega

end Binary64

end RelationalDb
