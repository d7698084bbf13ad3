import Mathlib
import RelationalDb.Proofs.MixedValues
import RelationalDb.Relation.Sort

/-!
# Stable sorting

An entry comes before another one in a sort order if they differ first in a column that
asks for it.  The sort puts every entry behind those that come before it, and leaves entries
that no column tells apart as they were.  It rests on the values of every column being null
or of one type, because only such values are in order.
-/

namespace RelationalDb

theorem Value.orderedOn_nullable (t : ColumnType) :
    OrderedOn fun v : Value => v.type? = none ∨ v.type? = some t := by
  rw [orderedOn_iff_not_mergesBetween]
  intro a b c ha hb _ hmerges
  apply not_mergesBetween_of_type _ hmerges
  rcases hmerges with ⟨m, n, x, hm, -, rfl, -⟩
  have hnotNull : a.type? ≠ none := by
    cases a <;> cases hm <;> nofun
  rw [ha.resolve_left hnotNull, hb.resolve_left nofun]

/-- Members of a list that are in order as they stand are left so by a stable sort. -/
theorem filter_mergeSort {α : Type} {le : α → α → Bool} {p : α → Bool} {l : List α}
    (htrans : ∀ a b c, le a b = true → le b c = true → le a c = true)
    (htotal : ∀ a b, (le a b || le b a) = true)
    (hp : ∀ a b, p a = true → p b = true → le a b = true) :
    (l.mergeSort le).filter p = l.filter p := by
  have hpairwise : (l.filter p).Pairwise fun a b => le a b = true :=
    List.pairwise_filter.mpr (List.pairwise_of_forall hp)
  have hsublist := (List.sublist_mergeSort htrans htotal hpairwise List.filter_sublist).filter p
  rw [List.filter_filter] at hsublist
  simp only [Bool.and_self] at hsublist
  have hperm := (List.mergeSort_perm l le).symm.filter p
  exact (hsublist.eq_of_length hperm.length_eq).symm

namespace Relation

variable {r : Relation} {order : SortOrder} {a b e : Entry}

/-!
## What it means to be sorted
-/

/-- The first entry comes before the second one: the first column in which their values differ
asks for it. -/
def Before (r : Relation) : SortOrder → Entry → Entry → Prop
  | [], _, _ => False
  | (c, d) :: rest, a, b =>
      d.apply (compare (r.valueOrNull a c) (r.valueOrNull b c)) = .lt ∨
        (compare (r.valueOrNull a c) (r.valueOrNull b c) = .eq ∧ r.Before rest a b)

def Tied (r : Relation) (order : SortOrder) (a b : Entry) : Prop :=
  ∀ o ∈ order, compare (r.valueOrNull a o.1) (r.valueOrNull b o.1) = .eq

instance (r : Relation) (order : SortOrder) (a b : Entry) : Decidable (r.Tied order a b) :=
  inferInstanceAs (Decidable (∀ o ∈ order, _))

/-- The entries of the relation in the given order, those that are tied as they were. -/
structure StablySorted (r : Relation) (order : SortOrder) (sorted : List Entry) : Prop where
  perm : sorted.Perm r.entries
  inOrder : sorted.Pairwise fun a b => ¬ r.Before order b a
  stable : ∀ e ∈ r.entries, sorted.filter (fun a => r.Tied order a e) =
    r.entries.filter fun a => r.Tied order a e

def Uniform (r : Relation) : Prop :=
  ∀ c : ColumnRef, ∃ t : ColumnType, ∀ e ∈ r.entries,
    (r.valueOrNull e c).type? = none ∨ (r.valueOrNull e c).type? = some t

theorem stablySorted_nil (r : Relation) : r.StablySorted [] r.entries where
  perm := List.Perm.refl _
  inOrder := List.pairwise_of_forall fun _ _ h => h
  stable := fun _ _ => rfl

/-!
## The comparison of entries
-/

def compareBy (r : Relation) (order : SortOrder) (a b : Entry) : Ordering :=
  compareKeys (order.map (·.2)) (r.sortKey order a) (r.sortKey order b)

theorem compareBy_cons (r : Relation) (o : ColumnRef × Direction) (rest : SortOrder)
    (a b : Entry) :
    r.compareBy (o :: rest) a b =
      (o.2.apply (compare (r.valueOrNull a o.1) (r.valueOrNull b o.1))).then
        (r.compareBy rest a b) := rfl

theorem apply_eq_eq_iff {d : Direction} {o : Ordering} : d.apply o = .eq ↔ o = .eq := by
  cases d <;> cases o <;> decide

theorem compareBy_eq_lt_iff : r.compareBy order a b = .lt ↔ r.Before order a b := by
  induction order with
  | nil =>
      constructor
      · intro h
        cases h
      · intro h
        cases h
  | cons o rest ih =>
      rw [compareBy_cons, Ordering.then_eq_lt, apply_eq_eq_iff, ih]
      rfl

theorem compareBy_eq_eq_iff : r.compareBy order a b = .eq ↔ r.Tied order a b := by
  unfold Tied
  induction order with
  | nil => simp [compareBy, compareKeys]
  | cons o rest ih => rw [compareBy_cons, Ordering.then_eq_eq, apply_eq_eq_iff, ih,
      List.forall_mem_cons]

theorem transCmp_column {t : ColumnType} {c : ColumnRef}
    (h : ∀ e ∈ r.entries, (r.valueOrNull e c).type? = none ∨ (r.valueOrNull e c).type? = some t)
    (d : Direction) :
    Std.TransCmp fun a b : Subtype (· ∈ r.entries) =>
      d.apply (compare (r.valueOrNull a.val c) (r.valueOrNull b.val c)) where
  eq_swap := by
    intro a b
    rw [Value.compare_swap (r.valueOrNull a.val c)]
    cases d <;> rfl
  isLE_trans := by
    intro x y z hxy hyz
    have hx := h x.val x.property
    have hy := h y.val y.property
    have hz := h z.val z.property
    cases d with
    | ascending => exact (Value.orderedOn_nullable t).isLE_trans hx hy hz hxy hyz
    | descending =>
        simp only [Direction.apply, ← Value.compare_swap] at hxy hyz ⊢
        exact (Value.orderedOn_nullable t).isLE_trans hz hy hx hyz hxy

theorem Uniform.transCmp (h : r.Uniform) (order : SortOrder) :
    Std.TransCmp fun a b : Subtype (· ∈ r.entries) => r.compareBy order a.val b.val := by
  induction order with
  | nil =>
      exact
        { eq_swap := rfl
          isLE_trans := fun _ _ => rfl }
  | cons o rest ih =>
      rcases h o.1 with ⟨t, ht⟩
      have hcolumn := transCmp_column ht o.2
      exact inferInstanceAs (Std.TransCmp (compareLex
        (fun a b : Subtype (· ∈ r.entries) =>
          o.2.apply (compare (r.valueOrNull a.val o.1) (r.valueOrNull b.val o.1)))
        fun a b => r.compareBy rest a.val b.val))

/-!
## The sort
-/

/-- The entries are sorted by their comparison.  The keys beside them are only kept ready. -/
theorem entries_sort (r : Relation) (order : SortOrder) :
    (r.sort order).entries = r.entries.mergeSort fun a b => r.compareBy order a b != .gt := by
  unfold sort
  dsimp only
  rw [← List.map_mergeSort (r := fun a b => r.compareBy order a b != .gt)
    (f := fun e => (r.sortKey order e, e)) fun a _ b _ => rfl, List.map_map]
  exact List.map_id _

theorem entries_sort_perm (r : Relation) (order : SortOrder) :
    (r.sort order).entries.Perm r.entries := by
  rw [entries_sort]
  exact List.mergeSort_perm _ _

theorem entries_sort_attach (r : Relation) (order : SortOrder) :
    (r.sort order).entries =
      (r.entries.attach.mergeSort fun a b => r.compareBy order a.val b.val != .gt).map (·.val) := by
  rw [entries_sort, List.map_mergeSort (s := fun a b => r.compareBy order a b != .gt)
    fun a _ b _ => rfl, List.attach_map_subtype_val]

theorem Uniform.isLE_of_tied (h : r.Uniform) {a b e : Subtype (· ∈ r.entries)}
    (ha : r.Tied order a.val e.val) (hb : r.Tied order b.val e.val) :
    (r.compareBy order a.val b.val).isLE = true := by
  have hcmp := h.transCmp order
  apply hcmp.isLE_trans (b := e)
  · rw [compareBy_eq_eq_iff.mpr ha]
    rfl
  · have hswap : r.compareBy order e.val b.val = (r.compareBy order b.val e.val).swap :=
      hcmp.eq_swap
    rw [hswap, compareBy_eq_eq_iff.mpr hb]
    rfl

theorem Uniform.stablySorted (h : r.Uniform) (order : SortOrder) :
    r.StablySorted order (r.sort order).entries := by
  have hcmp := h.transCmp order
  let le (a b : Subtype (· ∈ r.entries)) : Bool := r.compareBy order a.val b.val != .gt
  have hle : ∀ {a b}, le a b = true ↔ (r.compareBy order a.val b.val).isLE = true := by
    intro a b
    change (r.compareBy order a.val b.val != .gt) = true ↔ _
    cases r.compareBy order a.val b.val <;> decide
  have htrans : ∀ a b c, le a b = true → le b c = true → le a c = true := by
    intro a b c hab hbc
    rw [hle] at hab hbc ⊢
    exact hcmp.isLE_trans hab hbc
  have hswap : ∀ a b : Subtype (· ∈ r.entries),
      r.compareBy order a.val b.val = (r.compareBy order b.val a.val).swap :=
    fun a b => hcmp.eq_swap
  have htotal : ∀ a b, (le a b || le b a) = true := by
    intro a b
    rw [Bool.or_eq_true, hle, hle, hswap b a]
    cases r.compareBy order a.val b.val <;> decide
  constructor
  · exact entries_sort_perm r order
  · rw [entries_sort_attach, List.pairwise_map]
    apply (List.pairwise_mergeSort htrans htotal r.entries.attach).imp
    intro a b hab hbefore
    rw [hle, hswap, compareBy_eq_lt_iff.mpr hbefore] at hab
    cases hab
  · intro e he
    let tied (a : Subtype (· ∈ r.entries)) : Bool := r.Tied order a.val e
    have hkept : (r.entries.attach.mergeSort le).filter tied = r.entries.attach.filter tied := by
      apply filter_mergeSort htrans htotal
      intro a b ha hb
      exact hle.mpr (h.isLE_of_tied (e := ⟨e, he⟩) (of_decide_eq_true ha) (of_decide_eq_true hb))
    calc (r.sort order).entries.filter (fun a => r.Tied order a e)
        = List.map (·.val) ((r.entries.attach.mergeSort le).filter tied) := by
          rw [entries_sort_attach, List.filter_map]
          rfl
      _ = List.map (·.val) (r.entries.attach.filter tied) := by rw [hkept]
      _ = (List.map (·.val) r.entries.attach).filter (fun a => r.Tied order a e) := by
          rw [List.filter_map]
          rfl
      _ = r.entries.filter fun a => r.Tied order a e := by rw [List.attach_map_subtype_val]

end Relation

end RelationalDb
