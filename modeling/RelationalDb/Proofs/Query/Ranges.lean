import Mathlib
import RelationalDb.Proofs.Query.Bindings

/-!
# Tests as ranges of keys

A test that can be read as a list of key ranges holds of exactly the keys that one of the
ranges admits.  The ranges of one test have no key in common, and their ends are of the
type of the column.
-/

namespace RelationalDb

namespace KeyRange

/-- The keys that a scan of the range comes upon. -/
def Admits (r : KeyRange Value) (k : Value) : Prop :=
  r.isEmpty = false ∧ r.lower.admitsFromBelow k = true ∧ r.upper.admitsFromAbove k = true

variable {type : ColumnType} {k k' v low high : Value} {r : KeyRange Value}

theorem admits_only_iff : (only v).Admits k ↔ compare k v = .eq := by
  unfold Admits
  cases h : compare k v <;> simp [isEmpty, lower, upper, Edge.admitsFromBelow,
    Edge.admitsFromAbove, h]

theorem admits_below_iff {exclusive : Bool} :
    (below v exclusive).Admits k ↔
      compare k v = .lt ∨ (exclusive = false ∧ compare k v = .eq) := by
  unfold Admits
  cases exclusive <;> cases h : compare k v <;> simp [isEmpty, lower, upper, Edge.ofKey,
    Edge.admitsFromBelow, Edge.admitsFromAbove, h]

theorem admits_above_iff {exclusive : Bool} :
    (above v exclusive).Admits k ↔
      compare k v = .gt ∨ (exclusive = false ∧ compare k v = .eq) := by
  unfold Admits
  cases exclusive <;> cases h : compare k v <;> simp [isEmpty, lower, upper, Edge.ofKey,
    Edge.admitsFromBelow, Edge.admitsFromAbove, h]

/-- A range with its ends in the wrong order admits nothing, as no key lies between them. -/
theorem admits_between_iff (hk : k.type? = some type) (hlow : low.type? = some type)
    (hhigh : high.type? = some type) :
    (between low high false false).Admits k ↔ compare k low ≠ .lt ∧ compare k high ≠ .gt := by
  have ord := Value.orderedOn_type type
  have hends : compare k low ≠ .lt → compare k high ≠ .gt → compare low high ≠ .gt := by
    intro hbelow habove hgt
    have hle : (compare low high).isLE = true := by
      apply ord.isLE_trans hlow hk hhigh
      · rw [ord.swap hlow hk]
        cases h : compare k low <;> simp_all
      · cases h : compare k high <;> simp_all
    rw [hgt] at hle
    cases hle
  simpa [Admits, isEmpty, lower, upper, Edge.ofKey, Edge.admitsFromBelow,
    Edge.admitsFromAbove] using hends

theorem admits_congr (hk : k.type? = some type) (hk' : k'.type? = some type)
    (hr : ∀ e ∈ r.endpoints, e.type? = some type) (heq : compare k k' = .eq) :
    r.Admits k ↔ r.Admits k' := by
  have hcongr : ∀ e ∈ r.endpoints, compare k e = compare k' e := fun e he =>
    (Value.orderedOn_type type).congr_left hk hk' (hr e he) heq
  unfold Admits
  cases r with
  | all => simp [lower, upper, Edge.admitsFromBelow, Edge.admitsFromAbove]
  | only v =>
      simp [lower, upper, Edge.admitsFromBelow, Edge.admitsFromAbove,
        hcongr v List.mem_cons_self]
  | above v exclusive =>
      cases exclusive <;> simp [lower, upper, Edge.ofKey, Edge.admitsFromBelow,
        Edge.admitsFromAbove, hcongr v List.mem_cons_self]
  | below v exclusive =>
      cases exclusive <;> simp [lower, upper, Edge.ofKey, Edge.admitsFromBelow,
        Edge.admitsFromAbove, hcongr v List.mem_cons_self]
  | between l u lowerExclusive upperExclusive =>
      cases lowerExclusive <;> cases upperExclusive <;> simp [lower, upper, Edge.ofKey,
        Edge.admitsFromBelow, Edge.admitsFromAbove, hcongr l List.mem_cons_self,
        hcongr u (List.mem_cons_of_mem _ List.mem_cons_self)]

end KeyRange

namespace ColumnTest

variable {t : ColumnTest} {ranges : List (KeyRange Value)} {type : ColumnType} {v limit : Value}
  {comparison : Comparison} {i : Nat} {l : List Value}

/-!
## Comparisons
-/

theorem compares_eq (hv : v.isNull = false) (hlimit : limit.isNull = false) :
    compares comparison v limit = comparison.holds (compare v limit) := by
  simp [compares, Value.compare?, hv, hlimit]

theorem compares_null_left : compares comparison .null limit = false := rfl

theorem compares_null_right (h : limit.isNull = true) : compares comparison v limit = false := by
  simp [compares, Value.compare?, h]

theorem Suited.type?_of_operand (h : t.Suited) {o : Operand} (ho : o ∈ t.operands)
    (hv : o.value? = some v) (hnull : v.isNull = false) : v.type? = some t.column.type := by
  rcases h o ho with ⟨w, hw, hconforms⟩
  rw [hv] at hw
  cases hw
  cases v <;> simp_all [Value.conformsTo, Value.type?, Value.isNull]

theorem operand?_of_bound (hv : ((t.operand? i).filter fun v => !v.isNull) = some v) :
    t.operand? i = some v ∧ v.isNull = false := by
  rw [Option.filter_eq_some_iff] at hv
  exact ⟨hv.1, by simpa using hv.2⟩

theorem exists_operand (hv : t.operand? i = some v) : ∃ o ∈ t.operands, o.value? = some v := by
  rcases Option.bind_eq_some_iff.mp hv with ⟨o, ho, hvalue⟩
  exact ⟨o, List.mem_of_getElem? ho, hvalue⟩

/-!
## Lists of keys
-/

theorem pairwise_sorted (hl : ∀ v ∈ l, v.type? = some type) :
    (l.mergeSort fun a b => compare a b != .gt).Pairwise fun a b => compare a b ≠ .gt := by
  have ord := Value.orderedOn_type type
  have := ord.transCmp
  let le : Subtype (fun v : Value => v.type? = some type) →
      Subtype (fun v : Value => v.type? = some type) → Bool :=
    fun a b => compare a.val b.val != .gt
  have hmap : (l.attachWith _ hl).map Subtype.val = l := by simp
  have hsort : l.mergeSort (fun a b => compare a b != .gt) =
      ((l.attachWith _ hl).mergeSort le).map Subtype.val := by
    rw [List.map_mergeSort (s := fun a b => compare a b != .gt) (fun a _ b _ => rfl), hmap]
  have hpairwise : ((l.attachWith _ hl).mergeSort le).Pairwise fun a b => le a b = true := by
    apply List.pairwise_mergeSort
    · intro a b c hab hbc
      have htrans := ord.isLE_trans a.property b.property c.property
      simp only [le, bne_iff_ne, Ordering.isLE_iff_ne_gt] at hab hbc htrans ⊢
      exact htrans hab hbc
    · intro a b
      simp only [le, ord.swap a.property b.property]
      cases compare b.val a.val <;> simp
  rw [hsort, List.pairwise_map]
  exact hpairwise.imp fun h => by simpa [le] using h

theorem mem_of_mem_dropRepeats (h : v ∈ dropRepeats l) : v ∈ l := by
  fun_induction dropRepeats l with
  | case1 => exact h
  | case2 w => exact h
  | case3 w x rest heq ih =>
      rcases List.mem_cons.mp (ih h) with rfl | h
      · exact List.mem_cons_self
      · exact List.mem_cons_of_mem _ (List.mem_cons_of_mem _ h)
  | case4 w x rest hne ih =>
      rcases List.mem_cons.mp h with rfl | h
      · exact List.mem_cons_self
      · exact List.mem_cons_of_mem _ (ih h)

theorem exists_type?_of_mem_dropRepeats :
    ∀ v ∈ l, ∃ w ∈ dropRepeats l, v.type? = w.type? := by
  fun_induction dropRepeats l with
  | case1 => nofun
  | case2 w => exact fun v h => ⟨v, h, rfl⟩
  | case3 w x rest heq ih =>
      intro v h
      rcases List.mem_cons.mp h with rfl | h
      · exact ih v List.mem_cons_self
      · rcases List.mem_cons.mp h with rfl | h
        · rcases ih w List.mem_cons_self with ⟨y, hy, htype⟩
          exact ⟨y, hy, (Value.type?_eq_of_beq heq).trans htype⟩
        · exact ih v (List.mem_cons_of_mem _ h)
  | case4 w x rest hne ih =>
      intro v h
      rcases List.mem_cons.mp h with rfl | h
      · exact ⟨v, List.mem_cons_self, rfl⟩
      · rcases ih v h with ⟨y, hy, htype⟩
        exact ⟨y, List.mem_cons_of_mem _ hy, htype⟩

theorem exists_of_mem_dropRepeats (hl : ∀ v ∈ l, v.type? = some type) :
    ∀ v ∈ l, ∃ w ∈ dropRepeats l, compare v w = .eq := by
  fun_induction dropRepeats l with
  | case1 =>
      intro v h
      cases h
  | case2 w =>
      intro v h
      exact ⟨v, h, Value.compare_self v⟩
  | case3 w x rest heq ih =>
      have hrest : ∀ v ∈ w :: rest, v.type? = some type := by
        intro v hv
        apply hl
        rcases List.mem_cons.mp hv with rfl | hv
        · exact List.mem_cons_self
        · exact List.mem_cons_of_mem _ (List.mem_cons_of_mem _ hv)
      intro v h
      rcases List.mem_cons.mp h with rfl | h'
      · exact ih hrest v List.mem_cons_self
      · rcases List.mem_cons.mp h' with rfl | h''
        · rcases ih hrest w List.mem_cons_self with ⟨y, hy, hwy⟩
          refine ⟨y, hy, ?_⟩
          rwa [(Value.orderedOn_type type).congr_left (hl _ h) (hl _ List.mem_cons_self)
            (hrest _ (mem_of_mem_dropRepeats hy)) (Value.compare_eq_of_beq heq)]
        · exact ih hrest v (List.mem_cons_of_mem _ h'')
  | case4 w x rest hne ih =>
      intro v h
      rcases List.mem_cons.mp h with rfl | h
      · exact ⟨v, List.mem_cons_self, Value.compare_self v⟩
      · rcases ih (fun v hv => hl v (List.mem_cons_of_mem _ hv)) v h with ⟨y, hy, hvy⟩
        exact ⟨y, List.mem_cons_of_mem _ hy, hvy⟩

theorem pairwise_dropRepeats (hl : ∀ v ∈ l, v.type? = some type)
    (hsorted : l.Pairwise fun a b => compare a b ≠ .gt) :
    (dropRepeats l).Pairwise fun a b => compare a b = .lt := by
  have ord := Value.orderedOn_type type
  fun_induction dropRepeats l with
  | case1 => exact List.Pairwise.nil
  | case2 w => exact List.pairwise_singleton _ _
  | case3 w x rest heq ih =>
      have hsub : (w :: rest).Sublist (w :: x :: rest) :=
        List.Sublist.cons_cons w (List.sublist_cons_self x rest)
      exact ih (fun v hv => hl v (hsub.mem hv)) (hsorted.sublist hsub)
  | case4 w x rest hne ih =>
      have hw : w.type? = some type := hl w List.mem_cons_self
      have hrest : ∀ v ∈ x :: rest, v.type? = some type := fun v hv =>
        hl v (List.mem_cons_of_mem _ hv)
      have hx : x.type? = some type := hrest x List.mem_cons_self
      rcases List.pairwise_cons.mp hsorted with ⟨hfirst, hsorted⟩
      have hlt : compare w x = .lt := by
        cases h : compare w x with
        | lt => rfl
        | eq => exact absurd ((Value.beq_iff_of_type hx hw).mpr (ord.eq_symm hw hx h)) hne
        | gt => exact absurd h (hfirst x List.mem_cons_self)
      refine List.pairwise_cons.mpr ⟨?_, ih hrest hsorted⟩
      intro y hy
      rcases List.mem_cons.mp (mem_of_mem_dropRepeats hy) with rfl | hy
      · exact hlt
      · have hle : (compare x y).isLE = true := by
          have := (List.pairwise_cons.mp hsorted).1 y hy
          cases h : compare x y <;> simp_all
        exact ord.lt_of_lt_of_isLE hw hx (hrest y (List.mem_cons_of_mem _ hy)) hlt hle

/-!
## Tests
-/

/-- Ranges that stand for a test: they admit the keys that it holds of, no key twice. -/
structure ReadAs (t : ColumnTest) (ranges : List (KeyRange Value)) : Prop where
  endpoints : ∀ r ∈ ranges, ∀ e ∈ r.endpoints, e.type? = some t.column.type
  holds : ∀ v, v.type? = some t.column.type →
    (t.holdsOf v = true ↔ ∃ r ∈ ranges, r.Admits v)
  null : t.holdsOf .null = false
  disjoint : ranges.Pairwise fun r r' =>
    ∀ v, v.type? = some t.column.type → r.Admits v → ¬r'.Admits v

theorem ReadAs.single {r : KeyRange Value} (hend : ∀ e ∈ r.endpoints, e.type? = some t.column.type)
    (hholds : ∀ v, v.type? = some t.column.type → (t.holdsOf v = true ↔ r.Admits v))
    (hnull : t.holdsOf .null = false) : t.ReadAs [r] where
  endpoints := by simpa using hend
  holds := by simpa using hholds
  null := hnull
  disjoint := List.pairwise_singleton _ _

theorem holdsOf_limit (hbound : t.isBound = true)
    (hc : t.comparison ∈ [Comparison.eq, .lt, .le, .gt, .ge]) (hlimit : t.operand? 0 = some limit) :
    t.holdsOf v = compares t.comparison v limit := by
  simp only [List.mem_cons, List.not_mem_nil, or_false] at hc
  rcases hc with hc | hc | hc | hc | hc <;> simp [holdsOf, hbound, hc, hlimit]

theorem readAs_of_limit {range : Value → KeyRange Value} (hbound : t.isBound = true)
    (hc : t.comparison ∈ [Comparison.eq, .lt, .le, .gt, .ge])
    (hr : ((t.operand? 0).filter fun v => !v.isNull).map (fun v => [range v]) = some ranges)
    (hends : ∀ r ∈ ranges, ∀ e ∈ r.endpoints, e.type? = some t.column.type)
    (hadmits : ∀ v limit, t.comparison.holds (compare v limit) = true ↔ (range limit).Admits v) :
    t.ReadAs ranges := by
  rcases Option.map_eq_some_iff.mp hr with ⟨limit, hlimit, rfl⟩
  rcases operand?_of_bound hlimit with ⟨hoperand, hnull⟩
  apply ReadAs.single
  · exact hends _ List.mem_cons_self
  · intro v hv
    rw [holdsOf_limit hbound hc hoperand, compares_eq (Value.isNull_eq_false_of_type hv) hnull,
      hadmits v limit]
  · rw [holdsOf_limit hbound hc hoperand, compares_null_left]

theorem readAs_of_between {low high : Value} (hbound : t.isBound = true)
    (hc : t.comparison = .between)
    (hlow : ((t.operand? 0).filter fun v => !v.isNull) = some low)
    (hhigh : ((t.operand? 1).filter fun v => !v.isNull) = some high)
    (hends : ∀ r ∈ [KeyRange.between low high false false], ∀ e ∈ r.endpoints,
      e.type? = some t.column.type) :
    t.ReadAs [.between low high false false] := by
  rcases operand?_of_bound hlow with ⟨hoperand, hnull⟩
  rcases operand?_of_bound hhigh with ⟨hoperand', hnull'⟩
  have htype := hends _ List.mem_cons_self low List.mem_cons_self
  have htype' := hends _ List.mem_cons_self high (List.mem_cons_of_mem _ List.mem_cons_self)
  apply ReadAs.single
  · exact hends _ List.mem_cons_self
  · intro v hv
    have hnotNull := Value.isNull_eq_false_of_type hv
    rw [KeyRange.admits_between_iff hv htype htype']
    simp [holdsOf, hbound, hc, hoperand, hoperand', compares_eq hnotNull hnull,
      compares_eq hnotNull hnull', Comparison.holds]
  · simp [holdsOf, hbound, hc, hoperand, hoperand', compares_null_left]

def listKeys (t : ColumnTest) : List Value :=
  (t.operands.filterMap (·.value?)).filter fun v => !v.isNull

theorem holdsOf_isIn_iff (hbound : t.isBound = true) (hc : t.comparison = .isIn)
    (hv : v.isNull = false) :
    t.holdsOf v = true ↔ ∃ w ∈ t.listKeys, compare v w = .eq := by
  simp only [holdsOf, hbound, hc, Bool.not_true, Bool.false_eq_true, if_false,
    List.any_eq_true, listKeys, List.mem_filter]
  constructor
  · rintro ⟨w, hw, hcompares⟩
    cases hnull : w.isNull with
    | true => simp [compares_null_right hnull] at hcompares
    | false =>
        rw [compares_eq hv hnull] at hcompares
        exact ⟨w, ⟨hw, by simp [hnull]⟩, by simpa [Comparison.holds] using hcompares⟩
  · rintro ⟨w, ⟨hw, hnull⟩, heq⟩
    refine ⟨w, hw, ?_⟩
    rw [compares_eq hv (by simpa using hnull), heq]
    rfl

theorem holdsOf_isIn_null (hbound : t.isBound = true) (hc : t.comparison = .isIn) :
    t.holdsOf .null = false := by
  simp only [holdsOf, hbound, hc, compares_null_left, Bool.not_true, Bool.false_eq_true,
    if_false, List.any_eq_false]
  simp

theorem readAs_of_isIn (hbound : t.isBound = true) (hc : t.comparison = .isIn)
    (hends : ∀ r ∈ (dropRepeats (t.listKeys.mergeSort fun a b => compare a b != .gt)).map
      KeyRange.only, ∀ e ∈ r.endpoints, e.type? = some t.column.type) :
    t.ReadAs ((dropRepeats (t.listKeys.mergeSort fun a b => compare a b != .gt)).map .only) := by
  generalize hsort : t.listKeys.mergeSort (fun a b => compare a b != .gt) = sorted at hends ⊢
  have hmem : ∀ v, v ∈ sorted ↔ v ∈ t.listKeys := by
    intro v
    rw [← hsort, List.mem_mergeSort]
  have hkept : ∀ w ∈ dropRepeats sorted, w.type? = some t.column.type := fun w hw =>
    hends _ (List.mem_map_of_mem hw) w List.mem_cons_self
  -- A key that is left out has the type of the one that it repeats.
  have htype' : ∀ v ∈ sorted, v.type? = some t.column.type := by
    intro v hv
    rcases exists_type?_of_mem_dropRepeats v hv with ⟨w, hw, heq⟩
    exact heq.trans (hkept w hw)
  have htype : ∀ v ∈ t.listKeys, v.type? = some t.column.type := fun v hv =>
    htype' v ((hmem v).mpr hv)
  have hsorted := pairwise_sorted htype
  rw [hsort] at hsorted
  have ord := Value.orderedOn_type t.column.type
  constructor
  · exact hends
  · intro v hv
    rw [holdsOf_isIn_iff hbound hc (Value.isNull_eq_false_of_type hv)]
    constructor
    · rintro ⟨w, hw, heq⟩
      rcases exists_of_mem_dropRepeats htype' w ((hmem w).mpr hw) with ⟨x, hx, hwx⟩
      refine ⟨.only x, List.mem_map_of_mem hx, ?_⟩
      rw [KeyRange.admits_only_iff, ord.congr_left hv (htype w hw) (hkept x hx) heq]
      exact hwx
    · rintro ⟨r, hr, hadmits⟩
      rcases List.mem_map.mp hr with ⟨w, hw, rfl⟩
      rw [KeyRange.admits_only_iff] at hadmits
      exact ⟨w, (hmem w).mp (mem_of_mem_dropRepeats hw), hadmits⟩
  · exact holdsOf_isIn_null hbound hc
  · rw [List.pairwise_map]
    apply (pairwise_dropRepeats htype' hsorted).imp_of_mem
    intro w x hw hx hlt v hv hadmits hadmits'
    rw [KeyRange.admits_only_iff] at hadmits hadmits'
    rw [ord.congr_left hv (hkept w hw) (hkept x hx) hadmits, hlt] at hadmits'
    cases hadmits'

theorem isBound_of_keyRanges? (hr : t.keyRanges? = some ranges) : t.isBound = true := by
  unfold keyRanges? at hr
  cases hbound : t.isBound with
  | true => rfl
  | false => simp [hbound] at hr

theorem readAs_of_keyRanges? (hr : t.keyRanges? = some ranges)
    (hends : ∀ r ∈ ranges, ∀ e ∈ r.endpoints, e.type? = some t.column.type) :
    t.ReadAs ranges := by
  have hbound := isBound_of_keyRanges? hr
  unfold keyRanges? at hr
  simp only [hbound, Bool.not_true, Bool.false_eq_true, if_false] at hr
  cases hc : t.comparison with
  | eq =>
      simp only [hc] at hr
      apply readAs_of_limit hbound (by simp [hc]) hr hends
      intro v limit
      simp [hc, Comparison.holds, KeyRange.admits_only_iff]
  | lt =>
      simp only [hc] at hr
      apply readAs_of_limit hbound (by simp [hc]) hr hends
      intro v limit
      simp [hc, Comparison.holds, KeyRange.admits_below_iff]
  | le =>
      simp only [hc] at hr
      apply readAs_of_limit hbound (by simp [hc]) hr hends
      intro v limit
      cases h : compare v limit <;> simp [hc, Comparison.holds, KeyRange.admits_below_iff, h]
  | gt =>
      simp only [hc] at hr
      apply readAs_of_limit hbound (by simp [hc]) hr hends
      intro v limit
      simp [hc, Comparison.holds, KeyRange.admits_above_iff]
  | ge =>
      simp only [hc] at hr
      apply readAs_of_limit hbound (by simp [hc]) hr hends
      intro v limit
      cases h : compare v limit <;> simp [hc, Comparison.holds, KeyRange.admits_above_iff, h]
  | between =>
      simp only [hc] at hr
      rcases Option.bind_eq_some_iff.mp hr with ⟨low, hlow, hr⟩
      rcases Option.bind_eq_some_iff.mp hr with ⟨high, hhigh, hr⟩
      cases hr
      exact readAs_of_between hbound hc hlow hhigh hends
  | isIn =>
      simp only [hc, Option.some.injEq] at hr
      rw [← hr] at hends ⊢
      exact readAs_of_isIn hbound hc hends
  | ne => simp [hc] at hr
  | isNull => simp [hc] at hr
  | isNotNull => simp [hc] at hr

theorem operand_of_mem_endpoints (hr : t.keyRanges? = some ranges) {r : KeyRange Value}
    (hmem : r ∈ ranges) {e : Value} (he : e ∈ r.endpoints) :
    e.isNull = false ∧ ∃ o ∈ t.operands, o.value? = some e := by
  have hlimit : ∀ {i v}, ((t.operand? i).filter fun v => !v.isNull) = some v →
      v.isNull = false ∧ ∃ o ∈ t.operands, o.value? = some v := fun hv =>
    ⟨(operand?_of_bound hv).2, exists_operand (operand?_of_bound hv).1⟩
  have hbound := isBound_of_keyRanges? hr
  unfold keyRanges? at hr
  simp only [hbound, Bool.not_true, Bool.false_eq_true, if_false] at hr
  split at hr
  case h_6 =>
    rcases Option.bind_eq_some_iff.mp hr with ⟨low, hlow, hr⟩
    rcases Option.bind_eq_some_iff.mp hr with ⟨high, hhigh, hr⟩
    cases hr
    cases List.mem_singleton.mp hmem
    rcases List.mem_pair.mp he with rfl | rfl
    · exact hlimit hlow
    · exact hlimit hhigh
  case h_7 =>
    cases hr
    rcases List.mem_map.mp hmem with ⟨w, hw, rfl⟩
    cases List.mem_singleton.mp he
    have hkey := mem_of_mem_dropRepeats hw
    rw [List.mem_mergeSort, List.mem_filter, List.mem_filterMap] at hkey
    exact ⟨by simpa using hkey.2, hkey.1⟩
  all_goals first
    | cases hr
    | rcases Option.map_eq_some_iff.mp hr with ⟨v, hv, rfl⟩
      cases List.mem_singleton.mp hmem
      cases List.mem_singleton.mp he
      exact hlimit hv

/-- Where a test with suitable operands can be read as ranges, these ranges stand for it. -/
theorem Suited.readAs (h : t.Suited) (hr : t.keyRanges? = some ranges) : t.ReadAs ranges := by
  apply readAs_of_keyRanges? hr
  intro r hmem e he
  rcases operand_of_mem_endpoints hr hmem he with ⟨hnull, o, ho, hvalue⟩
  exact h.type?_of_operand ho hvalue hnull

end ColumnTest

end RelationalDb
