import Mathlib
import RelationalDb.Value

/-!
# Orders on part of a type

Values of all types stand in one comparison, but only the values of one type are known to
be in order by it: an integer can compare equal to a double that compares equal to a
different integer.  Ordered maps and indices therefore rest on an order among the keys
that can occur, and `OrderedOn` states that order for the keys of a given kind.
-/

namespace RelationalDb

universe u

/-- The items of a kind are in order: comparison is oriented and transitive among them. -/
structure OrderedOn {κ : Type u} [Ord κ] (P : κ → Prop) : Prop where
  swap : ∀ {a b : κ}, P a → P b → compare a b = (compare b a).swap
  isLE_trans : ∀ {a b c : κ}, P a → P b → P c →
    (compare a b).isLE = true → (compare b c).isLE = true → (compare a c).isLE = true

namespace OrderedOn

variable {κ : Type u} [Ord κ] {P : κ → Prop} {a b c : κ}

theorem of_transOrd [Std.TransOrd κ] : OrderedOn (fun _ : κ => True) where
  swap := fun _ _ => Std.OrientedCmp.eq_swap
  isLE_trans := fun _ _ _ hab hbc => Std.TransCmp.isLE_trans hab hbc

/-- Comparison on the subtype of the items of a kind is a comparison as the library knows it. -/
theorem transCmp (ord : OrderedOn P) :
    Std.TransCmp (fun a b : Subtype P => compare a.val b.val) where
  eq_swap := fun {a b} => ord.swap a.property b.property
  isLE_trans := fun {a b c} => ord.isLE_trans a.property b.property c.property

theorem compare_self (ord : OrderedOn P) (ha : P a) : compare a a = .eq := by
  have := ord.transCmp
  exact @Std.ReflCmp.compare_self _ (fun a b : Subtype P => compare a.val b.val) _ ⟨a, ha⟩

theorem lt_trans (ord : OrderedOn P) (ha : P a) (hb : P b) (hc : P c)
    (hab : compare a b = .lt) (hbc : compare b c = .lt) : compare a c = .lt := by
  have := ord.transCmp
  exact @Std.TransCmp.lt_trans _ (fun a b : Subtype P => compare a.val b.val) _
    ⟨a, ha⟩ ⟨b, hb⟩ ⟨c, hc⟩ hab hbc

theorem lt_of_lt_of_isLE (ord : OrderedOn P) (ha : P a) (hb : P b) (hc : P c)
    (hab : compare a b = .lt) (hbc : (compare b c).isLE = true) : compare a c = .lt := by
  have := ord.transCmp
  exact @Std.TransCmp.lt_of_lt_of_isLE _ (fun a b : Subtype P => compare a.val b.val) _
    ⟨a, ha⟩ ⟨b, hb⟩ ⟨c, hc⟩ hab hbc

theorem congr_left (ord : OrderedOn P) (ha : P a) (hb : P b) (hc : P c)
    (hab : compare a b = .eq) : compare a c = compare b c := by
  have := ord.transCmp
  exact @Std.TransCmp.congr_left _ (fun a b : Subtype P => compare a.val b.val) _
    ⟨a, ha⟩ ⟨b, hb⟩ ⟨c, hc⟩ hab

theorem congr_right (ord : OrderedOn P) (ha : P a) (hb : P b) (hc : P c)
    (hbc : compare b c = .eq) : compare a b = compare a c := by
  have := ord.transCmp
  exact @Std.TransCmp.congr_right _ (fun a b : Subtype P => compare a.val b.val) _
    ⟨a, ha⟩ ⟨b, hb⟩ ⟨c, hc⟩ hbc

theorem eq_symm (ord : OrderedOn P) (ha : P a) (hb : P b) (hab : compare a b = .eq) :
    compare b a = .eq := by
  rw [ord.swap hb ha, hab]
  rfl

theorem gt_iff_lt (ord : OrderedOn P) (ha : P a) (hb : P b) :
    compare a b = .gt ↔ compare b a = .lt := by
  rw [ord.swap ha hb]
  cases compare b a <;> simp [Ordering.swap]

end OrderedOn

namespace Binary64

instance : Std.TransOrd Binary64 :=
  inferInstanceAs (Std.TransCmp (compareOn Binary64.place))

end Binary64

namespace Value

/-!
## The comparison of values
-/

theorem compareAcross_swap (a b : Value) :
    compareAcross a b = (compareAcross b a).swap := by
  unfold compareAcross
  cases a.toInt? with
  | none =>
      cases a.toBinary64? with
      | none =>
          cases b.toInt? <;> cases b.toBinary64? <;> exact Std.OrientedOrd.eq_swap (a := a.rank)
      | some x =>
          cases b.toBinary64? with
          | none => cases b.toInt? <;> exact Std.OrientedOrd.eq_swap (a := a.rank)
          | some y => cases b.toInt? <;> exact Std.OrientedOrd.eq_swap (a := x)
  | some m =>
      cases b.toInt? with
      | some n => exact Std.OrientedOrd.eq_swap (a := m)
      | none =>
          cases a.toBinary64? with
          | none => cases b.toBinary64? <;> exact Std.OrientedOrd.eq_swap (a := a.rank)
          | some x =>
              cases b.toBinary64? with
              | none => exact Std.OrientedOrd.eq_swap (a := a.rank)
              | some y => exact Std.OrientedOrd.eq_swap (a := x)

theorem compare_of_rank_ne {a b : Value} (h : a.rank ≠ b.rank) :
    compare a b = compareAcross a b := by
  cases a <;> cases b <;>
    first
    | rfl
    | exact absurd rfl h

theorem compare_swap (a b : Value) : compare a b = (compare b a).swap := by
  by_cases h : a.rank = b.rank
  · cases a <;> cases b <;> cases h
    · rfl
    next x y => exact Std.OrientedOrd.eq_swap (a := x)
    next x y => exact Std.OrientedOrd.eq_swap (a := x.toInt)
    next x y => exact Std.OrientedOrd.eq_swap (a := x.toInt)
    next x y => exact Std.OrientedOrd.eq_swap (a := x)
    next x y => exact Std.OrientedOrd.eq_swap (a := x)
    next x y => exact Std.OrientedOrd.eq_swap (a := x.toInt)
    next x y => exact Std.OrientedOrd.eq_swap (a := x)
  · rw [compare_of_rank_ne h, compare_of_rank_ne (Ne.symm h)]
    exact compareAcross_swap a b

theorem orderedOn_type (t : ColumnType) : OrderedOn fun v : Value => v.type? = some t where
  swap := fun {a b} _ _ => compare_swap a b
  isLE_trans := by
    intro a b c ha hb hc hab hbc
    -- A type fixes the constructor, and each constructor compares by what it holds.
    cases a <;> cases ha <;> cases b <;> cases hb <;> cases c <;> cases hc
    next x y z => exact Std.TransOrd.isLE_trans (a := x) hab hbc
    next x y z => exact Std.TransOrd.isLE_trans (a := x.toInt) hab hbc
    next x y z => exact Std.TransOrd.isLE_trans (a := x.toInt) hab hbc
    next x y z => exact Std.TransOrd.isLE_trans (a := x) hab hbc
    next x y z => exact Std.TransOrd.isLE_trans (a := x) hab hbc
    next x y z => exact Std.TransOrd.isLE_trans (a := x.toInt) hab hbc
    next x y z => exact Std.TransOrd.isLE_trans (a := x) hab hbc

/-!
## Equality and null
-/

theorem compare_self (a : Value) : compare a a = .eq := by
  have hswap := compare_swap a a
  cases h : compare a a <;> simp [h, Ordering.swap] at hswap ⊢

theorem beq_eq (a b : Value) :
    (a == b) = (a.rank == b.rank && compare a b == .eq) := rfl

theorem rank_eq_rank_iff {a b : Value} : a.rank = b.rank ↔ a.type? = b.type? := by
  cases a <;> cases b <;> simp [rank, type?]

theorem beq_iff_of_type {t : ColumnType} {a b : Value} (ha : a.type? = some t)
    (hb : b.type? = some t) : (a == b) = true ↔ compare a b = .eq := by
  have hrank : a.rank = b.rank := rank_eq_rank_iff.mpr (ha.trans hb.symm)
  simp [beq_eq, hrank]

theorem compare_eq_of_beq {a b : Value} (h : (a == b) = true) : compare a b = .eq := by
  rw [beq_eq, Bool.and_eq_true] at h
  simpa using h.2

theorem type?_eq_of_beq {a b : Value} (h : (a == b) = true) : a.type? = b.type? := by
  rw [beq_eq, Bool.and_eq_true] at h
  exact rank_eq_rank_iff.mp (by simpa using h.1)

theorem eq_or_float64 {v w : Value} (htype : v.type? = w.type?) (heq : compare v w = .eq) :
    v = w ∨ ∃ x y, v = float64 x ∧ w = float64 y ∧ compare x y = .eq := by
  cases v <;> cases w <;> cases htype
  case null.null => exact Or.inl rfl
  case float64.float64 x y => exact Or.inr ⟨x, y, rfl, rfl, heq⟩
  case boolean.boolean x y =>
    left
    have h : compare x y = .eq := heq
    rw [Std.compare_eq_iff_eq.mp h]
  case int32.int32 x y =>
    left
    have h : compare x.toInt y.toInt = .eq := heq
    rw [Int32.toInt_inj.mp (Std.compare_eq_iff_eq.mp h)]
  case int64.int64 x y =>
    left
    have h : compare x.toInt y.toInt = .eq := heq
    rw [Int64.toInt_inj.mp (Std.compare_eq_iff_eq.mp h)]
  case string.string x y =>
    left
    have h : compare x y = .eq := heq
    rw [Std.compare_eq_iff_eq.mp h]
  case datetime.datetime x y =>
    left
    have h : compare x.toInt y.toInt = .eq := heq
    rw [Int64.toInt_inj.mp (Std.compare_eq_iff_eq.mp h)]
  case bytes.bytes x y =>
    left
    have h : compare x y = .eq := heq
    rw [Std.compare_eq_iff_eq.mp h]

theorem compare_congr_right {v w : Value} (htype : v.type? = w.type?)
    (heq : compare v w = .eq) (u : Value) : compare u v = compare u w := by
  rcases eq_or_float64 htype heq with rfl | ⟨x, y, rfl, rfl, hxy⟩
  · rfl
  · have ord := OrderedOn.of_transOrd (κ := Binary64)
    cases u with
    | int32 n => exact ord.congr_right trivial trivial trivial hxy
    | int64 n => exact ord.congr_right trivial trivial trivial hxy
    | float64 z => exact ord.congr_right trivial trivial trivial hxy
    | null | boolean b | string s | datetime t | bytes bs => rfl

@[simp] theorem beq_self (a : Value) : (a == a) = true := by
  simp [beq_eq, compare_self]

instance : EquivBEq Value where
  rfl := by simp
  symm := by
    intro a b h
    rw [beq_eq, Bool.and_eq_true, beq_iff_eq, beq_iff_eq] at h ⊢
    exact ⟨h.1.symm, by rw [compare_swap, h.2]; rfl⟩
  trans := by
    intro a b c hab hbc
    have hrank := (type?_eq_of_beq hab).trans (type?_eq_of_beq hbc)
    cases ha : a.type? with
    | none =>
        have hb := (type?_eq_of_beq hab).symm.trans ha
        cases a <;> cases ha
        cases b <;> cases hb
        exact hbc
    | some t =>
        have hb := (type?_eq_of_beq hab).symm.trans ha
        have hc := hrank.symm.trans ha
        rw [beq_iff_of_type ha hc, (orderedOn_type t).congr_left ha hb hc (compare_eq_of_beq hab)]
        exact compare_eq_of_beq hbc

theorem eq_null_of_type {v : Value} (h : v.type? = none) : v = null := by
  cases v <;> simp_all [type?]

theorem isNull_iff {v : Value} : v.isNull = true ↔ v.type? = none := by
  cases v <;> simp [isNull, type?]

theorem isNull_eq_false_of_type {t : ColumnType} {v : Value} (h : v.type? = some t) :
    v.isNull = false := by
  cases v <;> simp_all [isNull, type?]

theorem compare_null_left {v : Value} (h : v.isNull = false) : compare null v = .lt := by
  cases v <;> first
    | rfl
    | cases h

theorem compare_null_right {v : Value} (h : v.isNull = false) : compare v null = .gt := by
  rw [compare_swap, compare_null_left h]
  rfl

end Value

/-!
## The first of several items
-/

/-- What is picked from a list one item after the other is below every item, if it is so with two
items. -/
theorem foldl_pick {α : Type u} {P : α → Prop} {R : α → α → Prop} {f : α → α → α}
    (hf : ∀ {a b}, P a → P b → (f a b = a ∨ f a b = b) ∧
      R (f a b) a ∧ R (f a b) b)
    (htrans : ∀ {a b c}, P a → P b → P c → R a b → R b c → R a c)
    {a : α} {l : List α} (ha : P a) (hl : ∀ b ∈ l, P b) :
    l.foldl f a ∈ a :: l ∧ ∀ b ∈ a :: l, R (l.foldl f a) b := by
  induction l generalizing a with
  | nil =>
      have hself := hf ha ha
      have heq : f a a = a := hself.1.elim id id
      rw [heq] at hself
      constructor
      · exact List.mem_cons_self
      · intro b hb
        rw [List.mem_singleton.mp hb]
        exact hself.2.1
  | cons b rest ih =>
      have hb := hl b List.mem_cons_self
      have hab := hf ha hb
      have hP : P (f a b) := by
        rcases hab.1 with heq | heq <;> rw [heq] <;> assumption
      have hrest := ih hP fun c hc => hl c (List.mem_cons_of_mem b hc)
      have hPrest : P (rest.foldl f (f a b)) := by
        rcases List.mem_cons.mp hrest.1 with heq | hmem
        · rw [heq]
          exact hP
        · exact hl _ (List.mem_cons_of_mem b hmem)
      have hfirst := hrest.2 (f a b) List.mem_cons_self
      rw [List.foldl_cons]
      constructor
      · rcases List.mem_cons.mp hrest.1 with heq | hmem
        · rw [heq]
          rcases hab.1 with heq | heq <;> simp [heq]
        · exact List.mem_cons_of_mem a (List.mem_cons_of_mem b hmem)
      · intro c hc
        rcases List.mem_cons.mp hc with rfl | hc
        · exact htrans hPrest hP ha hfirst hab.2.1
        · rcases List.mem_cons.mp hc with rfl | hc
          · exact htrans hPrest hP hb hfirst hab.2.2
          · exact hrest.2 c (List.mem_cons_of_mem _ hc)

end RelationalDb
