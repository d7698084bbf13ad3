import Mathlib
import RelationalDb.Proofs.Actions
import RelationalDb.Proofs.Relation.Groups
import RelationalDb.Proofs.Relation.Sorting
import RelationalDb.Proofs.Relation.Sums
import RelationalDb.Query.Select

/-!
# Aggregates over groups

An aggregation makes one entry of each group: the first entry of the group with the values of
the aggregates over the values in the group that are not null.  A query that passes its check
asks for the distinct values of a column only if it asks for nothing else.
-/

namespace RelationalDb

/-!
## Functions of values
-/

section Extremes

variable {t : ColumnType} {v : Value} {rest : List Value}

theorem leastValue_eq (v : Value) (rest : List Value) :
    leastValue v rest = rest.foldl (fun v w => if compare v w = .gt then w else v) v := by
  induction rest generalizing v with
  | nil => rfl
  | cons w rest ih => rw [leastValue, ih, List.foldl_cons]

theorem greatestValue_eq (v : Value) (rest : List Value) :
    greatestValue v rest = rest.foldl (fun v w => if compare v w = .gt then v else w) v := by
  induction rest generalizing v with
  | nil => rfl
  | cons w rest ih => rw [greatestValue, ih, List.foldl_cons]

theorem leastValue_spec (hv : v.type? = some t) (hrest : ∀ w ∈ rest, w.type? = some t) :
    leastValue v rest ∈ v :: rest ∧ ∀ w ∈ v :: rest, compare (leastValue v rest) w ≠ .gt := by
  have ord := Value.orderedOn_type t
  rw [leastValue_eq]
  simp only [← Ordering.isLE_iff_ne_gt]
  apply foldl_pick (P := fun w : Value => w.type? = some t) (R := fun a b => (compare a b).isLE)
  · intro a b _ _
    cases hab : compare a b <;>
      simp [hab, Value.compare_self, Value.compare_swap b a, Ordering.swap]
  · exact ord.isLE_trans
  · exact hv
  · exact hrest

theorem greatestValue_spec (hv : v.type? = some t) (hrest : ∀ w ∈ rest, w.type? = some t) :
    greatestValue v rest ∈ v :: rest ∧
      ∀ w ∈ v :: rest, compare (greatestValue v rest) w ≠ .lt := by
  have ord := Value.orderedOn_type t
  rw [greatestValue_eq]
  simp only [← Ordering.isGE_iff_ne_lt]
  apply foldl_pick (P := fun w : Value => w.type? = some t) (R := fun a b => (compare a b).isGE)
  · intro a b _ _
    cases hab : compare a b <;>
      simp [hab, Value.compare_self, Value.compare_swap b a, Ordering.swap]
  · intro a b c ha hb hc hab hbc
    rw [Value.compare_swap, Ordering.isGE_swap] at hab hbc ⊢
    exact ord.isLE_trans hc hb ha hbc hab
  · exact hv
  · exact hrest

end Extremes

/-!
## The same values in another order
-/

/-- As many values and, up to equality, the same ones. -/
structure SameValues (values values' : List Value) : Prop where
  length : values.length = values'.length
  left : ∀ v ∈ values, ∃ w ∈ values', (v == w) = true
  right : ∀ w ∈ values', ∃ v ∈ values, (v == w) = true

namespace SameValues

variable {values values' : List Value} {t : ColumnType}

theorem of_perm (h : values.Perm values') : SameValues values values' where
  length := h.length_eq
  left := fun v hv => ⟨v, h.mem_iff.mp hv, Value.beq_self v⟩
  right := fun w hw => ⟨w, h.mem_iff.mpr hw, Value.beq_self w⟩

theorem eraseDups_of_perm (h : values.Perm values') :
    SameValues values.eraseDups values'.eraseDups := by
  rcases exists_perm_eraseDups h with ⟨ms, hperm, hsame⟩
  constructor
  · rw [hsame.length_eq, hperm.length_eq]
  · intro v hv
    exact exists_mem_eraseDups (h.mem_iff.mp (mem_of_mem_eraseDups hv))
  · intro w hw
    rcases exists_mem_eraseDups (h.mem_iff.mpr (mem_of_mem_eraseDups hw)) with ⟨v, hv, heq⟩
    exact ⟨v, hv, BEq.symm heq⟩

theorem beq_of_extreme {o : Ordering} {v v' : Value} (ho : o ≠ .eq) (h : SameValues values values')
    (hvalues : ∀ v ∈ values, v.type? = some t) (hvalues' : ∀ v ∈ values', v.type? = some t)
    (hv : v ∈ values) (hv' : v' ∈ values') (hend : ∀ w ∈ values, compare v w ≠ o)
    (hend' : ∀ w ∈ values', compare v' w ≠ o) : (v == v') = true := by
  have ord := Value.orderedOn_type t
  have htype := hvalues v hv
  have htype' := hvalues' v' hv'
  have hfrom : compare v v' ≠ o := by
    rcases h.right v' hv' with ⟨w, hw, heq⟩
    rw [← ord.congr_right htype (hvalues w hw) htype' (Value.compare_eq_of_beq heq)]
    exact hend w hw
  have hto : compare v' v ≠ o := by
    rcases h.left v hv with ⟨w, hw, heq⟩
    rw [ord.congr_right htype' htype (hvalues' w hw) (Value.compare_eq_of_beq heq)]
    exact hend' w hw
  rw [Value.beq_iff_of_type htype htype']
  rw [Value.compare_swap] at hto
  cases o <;> cases hcompare : compare v v' <;> simp_all [Ordering.swap]

end SameValues

/-!
## Sums, means and deviations of doubles

Doubles are added from left to right, and every sum is rounded before the next double comes, so the
order counts.  A sum starts from negative zero, so that zeros alone keep their sign.
-/

/-- The doubles add up to a total. -/
inductive SumsTo : List Binary64 → Binary64 → Prop
  | nil : SumsTo [] .negativeZero
  | concat {xs : List Binary64} {total : Binary64} (h : SumsTo xs total) (x : Binary64) :
      SumsTo (xs ++ [x]) (total + x)

/-- The mean is the total divided by the number of the doubles. -/
def IsMean (xs : List Binary64) (m : Binary64) : Prop :=
  ∃ total, SumsTo xs total ∧ m = total / .ofInt xs.length

/-- The deviation is the root of the mean of the squared distances from the mean. -/
def IsDeviation (xs : List Binary64) (d : Binary64) : Prop :=
  ∃ center variance, IsMean xs center ∧
    IsMean (xs.map fun x => (x - center) * (x - center)) variance ∧ d = variance.sqrt

theorem sumsTo_sumDoubles (xs : List Binary64) : SumsTo xs (sumDoubles xs) := by
  induction xs using List.reverseRecOn with
  | nil => exact .nil
  | append_singleton xs x ih =>
      have hsum : sumDoubles (xs ++ [x]) = sumDoubles xs + x := List.foldl_concat _ _ x xs
      rw [hsum]
      exact .concat ih x

theorem isMean_mean (xs : List Binary64) : IsMean xs (mean xs (.ofInt xs.length)) :=
  ⟨sumDoubles xs, sumsTo_sumDoubles xs, rfl⟩

/-!
## What a function says
-/

namespace AggregateFunction

def AreDoubles (values : List Value) (xs : List Binary64) : Prop :=
  List.Forall₂ (fun v x => v.toBinary64? = some x) values xs

/-- What a function says of the values of a column of the given type, none of them null.  All
functions but the count say nothing, which is null, if there are no values. -/
inductive Gives (type : ColumnType) (values : List Value) : AggregateFunction → Value → Prop
  | count : Gives type values .count (.int64 (.ofNat values.length))
  | nothing {f : AggregateFunction} : values = [] → f ≠ .count → Gives type values f .null
  | min {v : Value} : v ∈ values → (∀ w ∈ values, compare v w ≠ .gt) → Gives type values .min v
  | max {v : Value} : v ∈ values → (∀ w ∈ values, compare v w ≠ .lt) → Gives type values .max v
  | integerSum {ns : List Int} {total : Int64} : values ≠ [] → AreIntegers values ns →
      RunsInWords ns → total.toInt = ns.sum → Gives type values .sum (.int64 total)
  | integerSumAsDouble {ns : List Int} {total : Binary64} : values ≠ [] → AreIntegers values ns →
      ¬ RunsInWords ns → SumsTo (ns.map .ofInt) total → Gives type values .sum (.float64 total)
  | doubleSum {xs : List Binary64} {total : Binary64} : values ≠ [] → type = .float64 →
      AreDoubles values xs → SumsTo xs total → Gives type values .sum (.float64 total)
  | avg {xs : List Binary64} {m : Binary64} : values ≠ [] → AreDoubles values xs →
      IsMean xs m → Gives type values .avg (.float64 m)
  | stddev {xs : List Binary64} {d : Binary64} : values ≠ [] → AreDoubles values xs →
      IsDeviation xs d → Gives type values .stddev (.float64 d)

variable {f : AggregateFunction} {type : ColumnType} {values values' : List Value}

theorem exists_areIntegers (htype : type = .int32 ∨ type = .int64)
    (hvalues : ∀ v ∈ values, v.type? = some type) : ∃ ns, AreIntegers values ns := by
  apply exists_forall₂
  intro v hmem
  have hv := hvalues v hmem
  rcases htype with rfl | rfl
  · cases v <;> cases hv
    exact ⟨_, rfl⟩
  · cases v <;> cases hv
    exact ⟨_, rfl⟩

theorem exists_areDoubles (htype : type.isNumeric = true)
    (hvalues : ∀ v ∈ values, v.type? = some type) : ∃ xs, AreDoubles values xs := by
  apply exists_forall₂
  intro v hmem
  have hv := hvalues v hmem
  cases v <;> cases hv <;> first
    | exact ⟨_, rfl⟩
    | cases htype

theorem AreDoubles.filterMap_toBinary64? {xs : List Binary64} (h : AreDoubles values xs) :
    values.filterMap (·.toBinary64?) = xs := by
  induction h with
  | nil => rfl
  | cons hv _ ih => rw [List.filterMap_cons_some hv, ih]

theorem doubleSum_apply {xs : List Binary64} (hne : values ≠ []) (h : AreDoubles values xs) :
    AggregateFunction.sum.apply .float64 values = .float64 (sumDoubles xs) := by
  cases values with
  | nil => exact absurd rfl hne
  | cons v rest => rw [← h.filterMap_toBinary64?]; rfl

theorem avg_apply {xs : List Binary64} (hne : values ≠ []) (h : AreDoubles values xs) :
    AggregateFunction.avg.apply type values = .float64 (mean xs (.ofInt xs.length)) := by
  cases values with
  | nil => exact absurd rfl hne
  | cons v rest => rw [← h.length_eq, ← h.filterMap_toBinary64?]; rfl

theorem stddev_apply {xs : List Binary64} (hne : values ≠ []) (h : AreDoubles values xs) :
    ∃ d, AggregateFunction.stddev.apply type values = .float64 d ∧ IsDeviation xs d := by
  let center := mean xs (.ofInt xs.length)
  let squares := xs.map fun x => (x - center) * (x - center)
  have hvariance := isMean_mean squares
  rw [List.length_map] at hvariance
  refine ⟨_, ?_, center, _, isMean_mean xs, hvariance, rfl⟩
  cases values with
  | nil => exact absurd rfl hne
  | cons v rest =>
      subst squares center
      rw [← h.length_eq, ← h.filterMap_toBinary64?]
      rfl

theorem gives_apply (hf : f ≠ .distinct) (hnumeric : f.isNumeric = true → type.isNumeric = true)
    (hvalues : ∀ v ∈ values, v.type? = some type) : f.Gives type values (f.apply type values) := by
  cases hcases : values with
  | nil =>
      cases f with
      | count => exact .count
      | distinct => exact absurd rfl hf
      | _ => exact .nothing rfl (by decide)
  | cons v rest =>
      have hne : values ≠ [] := by simp [hcases]
      have hv : v.type? = some type := hvalues v (by simp [hcases])
      have hrest : ∀ w ∈ rest, w.type? = some type := fun w hw => hvalues w (by simp [hcases, hw])
      rw [← hcases]
      cases f with
      | count => exact .count
      | distinct => exact absurd rfl hf
      | min =>
          have hspec := leastValue_spec hv hrest
          rw [hcases]
          exact .min hspec.1 hspec.2
      | max =>
          have hspec := greatestValue_spec hv hrest
          rw [hcases]
          exact .max hspec.1 hspec.2
      | sum =>
          by_cases hdouble : type = .float64
          · subst hdouble
            rcases exists_areDoubles rfl hvalues with ⟨xs, hxs⟩
            rw [doubleSum_apply hne hxs]
            exact .doubleSum hne rfl hxs (sumsTo_sumDoubles xs)
          · have hinteger : type = .int32 ∨ type = .int64 := by
              have htype := hnumeric rfl
              cases type <;> simp_all [ColumnType.isNumeric]
            rcases exists_areIntegers hinteger hvalues with ⟨ns, hns⟩
            by_cases hruns : RunsInWords ns
            · rcases sum_apply_of_runsInWords hinteger hne hns hruns with ⟨total, htotal, heq⟩
              rw [heq]
              exact .integerSum hne hns hruns htotal
            · rw [sum_apply_of_not_runsInWords hinteger hne hns hruns]
              exact .integerSumAsDouble hne hns hruns (sumsTo_sumDoubles _)
      | avg =>
          rcases exists_areDoubles (hnumeric rfl) hvalues with ⟨xs, hxs⟩
          rw [avg_apply hne hxs]
          exact .avg hne hxs (isMean_mean xs)
      | stddev =>
          rcases exists_areDoubles (hnumeric rfl) hvalues with ⟨xs, hxs⟩
          rcases @stddev_apply type _ _ hne hxs with ⟨d, hd, hdeviation⟩
          rw [hd]
          exact .stddev hne hxs hdeviation

/-!
## Functions that do not depend on the order of the values
-/

def ignoresOrder : AggregateFunction → Bool
  | count | min | max => true
  | _ => false

theorem Gives.beq {v v' : Value} (hf : f.ignoresOrder = true) (h : SameValues values values')
    (hvalues : ∀ v ∈ values, v.type? = some type) (hvalues' : ∀ v ∈ values', v.type? = some type)
    (hv : f.Gives type values v) (hv' : f.Gives type values' v') : (v == v') = true := by
  have hnil : values = [] ↔ values' = [] := by
    rw [← List.length_eq_zero_iff, ← List.length_eq_zero_iff, h.length]
  cases hv with
  | count =>
      cases hv' with
      | count =>
          rw [h.length]
          exact Value.beq_self _
      | nothing _ hcount => exact absurd rfl hcount
  | nothing hempty hcount =>
      rw [hnil] at hempty
      subst hempty
      cases hv' with
      | count => exact absurd rfl hcount
      | nothing => rfl
      | min hmem' _ => cases hmem'
      | max hmem' _ => cases hmem'
      | _ => cases hf
  | min hmem hle =>
      cases hv' with
      | nothing hempty' _ =>
          rw [hnil.mpr hempty'] at hmem
          cases hmem
      | min hmem' hle' => exact h.beq_of_extreme (by decide) hvalues hvalues' hmem hmem' hle hle'
  | max hmem hle =>
      cases hv' with
      | nothing hempty' _ =>
          rw [hnil.mpr hempty'] at hmem
          cases hmem
      | max hmem' hle' => exact h.beq_of_extreme (by decide) hvalues hvalues' hmem hmem' hle hle'
  | _ => cases hf

end AggregateFunction

end RelationalDb
