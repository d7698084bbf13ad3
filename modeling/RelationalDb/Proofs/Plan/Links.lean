import Mathlib
import RelationalDb.Plan.Linked

/-!
# Links that agree

The links of a tree are kept twice, at the child and at its parent.  They agree when every node
stands exactly once among the children of its parent and nowhere else.  An edit takes links away,
attaches a node that has no parent, or lets the children of a node move up to its own parent, and
none of this can make a cycle as long as no node is attached below itself.
-/

namespace RelationalDb

universe u

/-!
## Lists in which one item is replaced by several
-/

def substitute (n : Nat) (items l : List Nat) : List Nat :=
  l.flatMap fun m => if m = n then items else [m]

section Substitute

variable {n m : Nat} {items l before after : List Nat}

theorem substitute_append (n : Nat) (items l l' : List Nat) :
    substitute n items (l ++ l') = substitute n items l ++ substitute n items l' :=
  List.flatMap_append

theorem substitute_cons_self (n : Nat) (items l : List Nat) :
    substitute n items (n :: l) = items ++ substitute n items l := by
  unfold substitute
  rw [List.flatMap_cons, if_pos rfl]

theorem substitute_cons_of_ne (h : m ≠ n) (items l : List Nat) :
    substitute n items (m :: l) = m :: substitute n items l := by
  unfold substitute
  rw [List.flatMap_cons, if_neg h]
  rfl

theorem substitute_of_not_mem (h : n ∉ l) (items : List Nat) : substitute n items l = l := by
  induction l with
  | nil => rfl
  | cons m rest ih =>
      have hne : m ≠ n := fun heq => h (heq ▸ List.mem_cons_self)
      rw [substitute_cons_of_ne hne, ih fun hrest => h (List.mem_cons_of_mem _ hrest)]

theorem substitute_between (hbefore : n ∉ before) (hafter : n ∉ after) (items : List Nat) :
    substitute n items (before ++ n :: after) = before ++ (items ++ after) := by
  rw [substitute_append, substitute_of_not_mem hbefore, substitute_cons_self,
    substitute_of_not_mem hafter]

theorem count_substitute (n : Nat) (items l : List Nat) (m : Nat) :
    (substitute n items l).count m =
      l.count n * items.count m + if m = n then 0 else l.count m := by
  induction l with
  | nil => simp [substitute]
  | cons a rest ih =>
      by_cases ha : a = n
      · rw [ha, substitute_cons_self, List.count_append, ih, List.count_cons_self, Nat.add_mul]
        by_cases hm : m = n
        · simp only [if_pos hm]
          omega
        · rw [if_neg hm, if_neg hm, List.count_cons_of_ne (Ne.symm hm)]
          omega
      · rw [substitute_cons_of_ne ha, List.count_cons, ih, List.count_cons_of_ne ha]
        by_cases hm : m = n
        · simp [hm, ha]
        · rw [List.count_cons, if_neg hm, if_neg hm]
          omega

theorem substitute_nil (n : Nat) (l : List Nat) : substitute n [] l = l.filter (· != n) := by
  induction l with
  | nil => rfl
  | cons m rest ih =>
      by_cases hm : m = n
      · rw [hm, substitute_cons_self, ih]
        simp
      · rw [substitute_cons_of_ne hm, ih]
        simp [hm]

theorem flatMap_substitute (n : Nat) (items l : List Nat) (f : Nat → List Nat) :
    (substitute n items l).flatMap f =
      l.flatMap fun m => if m = n then items.flatMap f else f m := by
  unfold substitute
  rw [List.flatMap_assoc]
  apply List.flatMap_congr
  intro m _
  split
  · rfl
  · exact List.flatMap_singleton f m

theorem substitute_flatMap (n : Nat) (items l : List Nat) (f : Nat → List Nat) :
    substitute n items (l.flatMap f) = l.flatMap fun m => substitute n items (f m) :=
  List.flatMap_assoc

end Substitute

namespace LinkedTree

variable {α : Type u} {t t' : LinkedTree α} {n m p q c : Nat}

/-!
## One link
-/

theorem nodes_change_getElem? (t : LinkedTree α) (n : Nat) (f : LinkedNode α → LinkedNode α)
    (m : Nat) :
    (t.change n f).nodes[m]? = if m = n then (t.nodes[m]?).map f else t.nodes[m]? := by
  unfold change
  rw [List.getElem?_modify]
  by_cases h : m = n
  · simp [h]
  · simp [h, Ne.symm h]

theorem parent_change {f : LinkedNode α → LinkedNode α} (hf : ∀ node, (f node).parent = node.parent)
    (t : LinkedTree α) (n m : Nat) : (t.change n f).parent m = t.parent m := by
  unfold parent
  rw [nodes_change_getElem?]
  split
  · cases t.nodes[m]? with
    | none => rfl
    | some node => exact hf node
  · rfl

theorem children_change {f : LinkedNode α → LinkedNode α}
    (hf : ∀ node, (f node).children = node.children) (t : LinkedTree α) (n m : Nat) :
    (t.change n f).children m = t.children m := by
  unfold children
  rw [nodes_change_getElem?]
  split
  · cases t.nodes[m]? with
    | none => rfl
    | some node => exact hf node
  · rfl

@[simp] theorem length_setParent (t : LinkedTree α) (n : Nat) (v : Option Nat) :
    (t.setParent n v).nodes.length = t.nodes.length :=
  List.length_modify _ _ _

@[simp] theorem length_setChildren (t : LinkedTree α) (n : Nat) (l : List Nat) :
    (t.setChildren n l).nodes.length = t.nodes.length :=
  List.length_modify _ _ _

@[simp] theorem length_setValue (t : LinkedTree α) (n : Nat) (a : α) :
    (t.setValue n a).nodes.length = t.nodes.length :=
  List.length_modify _ _ _

@[simp] theorem parent_setChildren (t : LinkedTree α) (n : Nat) (l : List Nat) (m : Nat) :
    (t.setChildren n l).parent m = t.parent m := by
  apply parent_change
  exact fun _ => rfl

@[simp] theorem parent_setValue (t : LinkedTree α) (n : Nat) (a : α) (m : Nat) :
    (t.setValue n a).parent m = t.parent m := by
  apply parent_change
  exact fun _ => rfl

@[simp] theorem children_setParent (t : LinkedTree α) (n : Nat) (v : Option Nat) (m : Nat) :
    (t.setParent n v).children m = t.children m := by
  apply children_change
  exact fun _ => rfl

@[simp] theorem children_setValue (t : LinkedTree α) (n : Nat) (a : α) (m : Nat) :
    (t.setValue n a).children m = t.children m := by
  apply children_change
  exact fun _ => rfl

theorem parent_setParent (hn : n < t.nodes.length) (v : Option Nat) (m : Nat) :
    (t.setParent n v).parent m = if m = n then v else t.parent m := by
  unfold parent setParent
  rw [nodes_change_getElem?]
  split
  · next h => rw [h, List.getElem?_eq_getElem hn]; rfl
  · rfl

theorem children_setChildren (hn : n < t.nodes.length) (l : List Nat) (m : Nat) :
    (t.setChildren n l).children m = if m = n then l else t.children m := by
  unfold children setChildren
  rw [nodes_change_getElem?]
  split
  · next h => rw [h, List.getElem?_eq_getElem hn]; rfl
  · rfl

theorem nodes_add_getElem? (t : LinkedTree α) (a : α) (m : Nat) :
    (t.add a).2.nodes[m]? =
      if m = t.nodes.length then some { value := a } else t.nodes[m]? := by
  unfold add
  rcases Nat.lt_trichotomy m t.nodes.length with hlt | rfl | hgt
  · rw [List.getElem?_append_left hlt, if_neg (Nat.ne_of_lt hlt)]
  · simp
  · rw [if_neg (Nat.ne_of_gt hgt), List.getElem?_eq_none, List.getElem?_eq_none]
    · exact Nat.le_of_lt hgt
    · simpa using hgt

theorem parent_add (t : LinkedTree α) (a : α) (m : Nat) : (t.add a).2.parent m = t.parent m := by
  unfold parent
  rw [nodes_add_getElem?]
  by_cases h : m = t.nodes.length
  · simp [h]
  · simp [h]

theorem children_add (t : LinkedTree α) (a : α) (m : Nat) :
    (t.add a).2.children m = t.children m := by
  unfold children
  rw [nodes_add_getElem?]
  by_cases h : m = t.nodes.length
  · simp [h]
  · simp [h]

theorem lt_of_parent (h : t.parent n = some p) : n < t.nodes.length := by
  unfold parent at h
  by_contra hge
  rw [List.getElem?_eq_none (Nat.le_of_not_lt hge)] at h
  cases h

theorem lt_of_children (h : c ∈ t.children p) : p < t.nodes.length := by
  unfold children at h
  by_contra hge
  rw [List.getElem?_eq_none (Nat.le_of_not_lt hge)] at h
  cases h

/-!
## Nodes below others
-/

def ChildOf (t : LinkedTree α) (c p : Nat) : Prop :=
  t.parent c = some p

def Below (t : LinkedTree α) : Nat → Nat → Prop :=
  Relation.ReflTransGen t.ChildOf

theorem Below.refl (t : LinkedTree α) (n : Nat) : t.Below n n :=
  Relation.ReflTransGen.refl

theorem Below.up (h : t.Below m n) (hp : t.parent n = some p) : t.Below m p :=
  Relation.ReflTransGen.tail h hp

theorem below_iff : t.Below m n ↔ m = n ∨ ∃ p, t.parent m = some p ∧ t.Below p n := by
  constructor
  · intro h
    rcases h.cases_head with heq | ⟨p, hp, hbelow⟩
    · exact Or.inl heq
    · exact Or.inr ⟨p, hp, hbelow⟩
  · rintro (rfl | ⟨p, hp, hbelow⟩)
    · exact Below.refl t m
    · exact Relation.ReflTransGen.head hp hbelow

theorem Below.eq_of_parent (h : t.Below m n) (hm : t.parent m = none) : m = n := by
  rcases below_iff.mp h with heq | ⟨p, hp, _⟩
  · exact heq
  · rw [hm] at hp
    cases hp

/-- Of two nodes that stand above a third one, one stands above the other. -/
theorem Below.total (h : t.Below m n) (h' : t.Below m q) : t.Below n q ∨ t.Below q n :=
  Relation.ReflTransGen.total_of_right_unique
    (fun _ _ _ hp hq => Option.some.inj (hp.symm.trans hq)) h h'

theorem Below.eq_of_tops (h : t.Below m n) (h' : t.Below m q) (hn : t.parent n = none)
    (hq : t.parent q = none) : n = q := by
  rcases h.total h' with hbelow | hbelow
  · exact hbelow.eq_of_parent hn
  · exact (hbelow.eq_of_parent hq).symm

theorem Below.lt (h : t.Below m n) (hn : n < t.nodes.length) : m < t.nodes.length := by
  rcases below_iff.mp h with heq | ⟨p, hp, _⟩
  · rw [heq]
    exact hn
  · exact lt_of_parent hp

/-!
## Agreement
-/

/-- Links that agree, below a root without a parent and without a cycle. -/
structure Linked (t : LinkedTree α) : Prop where
  count_children : ∀ p c, (t.children p).count c = if t.parent c = some p then 1 else 0
  root_lt : t.root < t.nodes.length
  parent_root : t.parent t.root = none
  ranked : ∃ rank : Nat → Nat, ∀ c p, t.parent c = some p → rank c < rank p

theorem Linked.mem_children_iff (h : t.Linked) : c ∈ t.children p ↔ t.parent c = some p := by
  rw [← List.count_pos_iff, h.count_children]
  split
  · next hp => exact ⟨fun _ => hp, fun _ => Nat.one_pos⟩
  · next hp => exact ⟨fun hpos => absurd hpos (Nat.lt_irrefl 0), fun hp' => absurd hp' hp⟩

theorem Linked.nodup_children (h : t.Linked) (p : Nat) : (t.children p).Nodup := by
  rw [List.nodup_iff_count_le_one]
  intro c
  rw [h.count_children]
  split
  · exact Nat.le_refl 1
  · exact Nat.zero_le 1

theorem Linked.parent_lt (h : t.Linked) (hp : t.parent c = some p) : p < t.nodes.length :=
  lt_of_children (h.mem_children_iff.mpr hp)

theorem Linked.child_lt (h : t.Linked) (hc : c ∈ t.children p) : c < t.nodes.length :=
  lt_of_parent (h.mem_children_iff.mp hc)

theorem rank_le_of_below {rank : Nat → Nat} (hrank : ∀ c p, t.parent c = some p → rank c < rank p)
    (h : t.Below m n) : rank m ≤ rank n := by
  induction h with
  | refl => exact Nat.le_refl _
  | tail _ hp ih => exact Nat.le_of_lt (Nat.lt_of_le_of_lt ih (hrank _ _ hp))

theorem Linked.not_below (h : t.Linked) (hp : t.parent c = some p) : ¬ t.Below p c := by
  intro hbelow
  rcases h.ranked with ⟨rank, hrank⟩
  exact absurd (rank_le_of_below hrank hbelow) (Nat.not_le_of_lt (hrank _ _ hp))

theorem Linked.acyclic (h : t.Linked) (n : Nat) : ¬ Relation.TransGen t.ChildOf n n := by
  intro hcycle
  rcases Relation.TransGen.head'_iff.mp hcycle with ⟨p, hp, hbelow⟩
  exact h.not_below hp hbelow

theorem Linked.parent_ne_self (h : t.Linked) (n : Nat) : t.parent n ≠ some n :=
  fun hp => h.not_below hp (Below.refl t n)

theorem Linked.ne_root_of_parent (h : t.Linked) (hp : t.parent n = some p) : n ≠ t.root := by
  intro heq
  rw [heq, h.parent_root] at hp
  cases hp

theorem Linked.congr (h : t.Linked) (hparent : ∀ m, t'.parent m = t.parent m)
    (hchildren : ∀ m, t'.children m = t.children m) (hlt : t'.root < t'.nodes.length)
    (hroot : t.parent t'.root = none) : t'.Linked where
  count_children := by
    intro p c
    rw [hparent, hchildren, h.count_children]
  root_lt := hlt
  parent_root := by
    rw [hparent, hroot]
  ranked := by
    rcases h.ranked with ⟨rank, hrank⟩
    refine ⟨rank, fun c p hp => ?_⟩
    rw [hparent] at hp
    exact hrank c p hp

theorem parent_single (a : α) (m : Nat) : (single a).parent m = none := by
  cases m with
  | zero => rfl
  | succ m => rfl

theorem children_single (a : α) (m : Nat) : (single a).children m = [] := by
  cases m with
  | zero => rfl
  | succ m => rfl

theorem linked_single (a : α) : (single a).Linked where
  count_children := by
    intro p c
    rw [parent_single, children_single]
    rfl
  root_lt := Nat.one_pos
  parent_root := parent_single a _
  ranked := by
    refine ⟨id, fun c p hp => ?_⟩
    rw [parent_single] at hp
    cases hp

end LinkedTree

end RelationalDb
