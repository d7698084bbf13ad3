import Mathlib
import RelationalDb.Proofs.Plan.Links

/-!
# Nodes that are attached, detached and replaced

What an edit does to the links is described by the links before it.  The links still agree after a
node is cut off, and after one is attached that has no parent, is not the root and does not stand
above its new place.  A node that the root reaches can be replaced by such a node, which can then
be put above it.
-/

namespace RelationalDb

universe u

section Positions

variable {n : Nat} {before : List Nat}

theorem insertIdx_between (before after : List Nat) (n : Nat) :
    (before ++ after).insertIdx before.length n = before ++ n :: after := by
  induction before with
  | nil => rfl
  | cons m rest ih =>
      rw [List.cons_append, List.length_cons, List.insertIdx_succ_cons, ih]
      rfl

theorem eraseIdx_between (before after : List Nat) (n : Nat) :
    (before ++ n :: after).eraseIdx before.length = before ++ after := by
  rw [List.eraseIdx_append_of_length_le (Nat.le_refl _), Nat.sub_self]
  rfl

theorem idxOf?_between (h : n ∉ before) (after : List Nat) :
    (before ++ n :: after).idxOf? n = some before.length := by
  induction before with
  | nil => simp [List.idxOf?_cons]
  | cons m rest ih =>
      have hne : m ≠ n := fun heq => h (heq ▸ List.mem_cons_self)
      rw [List.cons_append, List.idxOf?_cons, ih fun hrest => h (List.mem_cons_of_mem _ hrest)]
      simp [hne]

end Positions

namespace LinkedTree

variable {α : Type u} {t t' : LinkedTree α} {n m p c new position : Nat}
  {before after : List Nat}

/-!
## Attaching
-/

@[simp] theorem length_insertChild (t : LinkedTree α) (p position c : Nat) :
    (t.insertChild p position c).nodes.length = t.nodes.length := by
  unfold insertChild
  rw [length_setChildren, length_setParent]

theorem parent_insertChild (hc : c < t.nodes.length) (p position m : Nat) :
    (t.insertChild p position c).parent m = if m = c then some p else t.parent m := by
  unfold insertChild
  rw [parent_setChildren, parent_setParent hc]

theorem children_insertChild (hp : p < t.nodes.length) (position c m : Nat) :
    (t.insertChild p position c).children m =
      if m = p then (t.children p).insertIdx position c else t.children m := by
  unfold insertChild
  rw [children_setChildren (by rwa [length_setParent]), children_setParent]

/-- A node without a parent that is not the root. -/
structure Spare (t : LinkedTree α) (n : Nat) : Prop where
  lt : n < t.nodes.length
  detached : t.parent n = none
  notRoot : n ≠ t.root

/-- A spare node that stands neither above another node nor is that node. -/
structure Attachable (t : LinkedTree α) (p c : Nat) : Prop extends t.Spare c where
  parent_lt : p < t.nodes.length
  apart : ¬ t.Below p c

theorem Spare.attachable (h : t.Spare c) (hp : p < t.nodes.length) (htop : t.parent p = none)
    (hne : p ≠ c) : t.Attachable p c where
  toSpare := h
  parent_lt := hp
  apart := fun hbelow => hne (hbelow.eq_of_parent htop)

theorem Linked.insertChild (h : t.Linked) (ha : t.Attachable p c)
    (hposition : position ≤ (t.children p).length) : (t.insertChild p position c).Linked where
  count_children := by
    intro q m
    rw [parent_insertChild ha.lt, children_insertChild ha.parent_lt]
    by_cases hq : q = p
    · rw [if_pos hq, (List.perm_insertIdx c _ hposition).count_eq, List.count_cons,
        h.count_children]
      by_cases hm : m = c
      · simp [hm, hq, ha.detached]
      · simp [hm, Ne.symm hm, hq]
    · rw [if_neg hq, h.count_children]
      by_cases hm : m = c
      · simp [hm, Ne.symm hq, ha.detached]
      · rw [if_neg hm]
  root_lt := by
    rw [length_insertChild]
    exact h.root_lt
  parent_root := by
    rw [parent_insertChild ha.lt]
    exact (if_neg (Ne.symm ha.notRoot)).trans h.parent_root
  ranked := by
    classical
    rcases h.ranked with ⟨rank, hrank⟩
    -- Everything from the new parent upwards is raised above the new child.
    refine ⟨fun m => if t.Below p m then rank m + rank c + 1 else rank m, ?_⟩
    intro m q hq
    dsimp only
    rw [parent_insertChild ha.lt] at hq
    by_cases hm : m = c
    · rw [if_pos hm] at hq
      cases hq
      rw [hm, if_neg ha.apart, if_pos (Below.refl t p)]
      omega
    · rw [if_neg hm] at hq
      have hlt := hrank m q hq
      by_cases hbelow : t.Below p m
      · rw [if_pos hbelow, if_pos (hbelow.up hq)]
        omega
      · rw [if_neg hbelow]
        split
        · omega
        · exact hlt

theorem Linked.setRoot (h : t.Linked) (hn : n < t.nodes.length) (hparent : t.parent n = none) :
    (t.setRoot n).Linked :=
  h.congr (fun _ => rfl) (fun _ => rfl) hn hparent

/-!
## Detaching
-/

theorem detach_of_parent_eq_none (h : t.parent n = none) : t.detach n = (none, t) := by
  unfold detach
  rw [h]

theorem detach_of_parent (h : t.parent n = some p)
    (hchildren : t.children p = before ++ n :: after) (hn : n ∉ before) :
    t.detach n =
      (some (p, before.length), (t.setParent n none).setChildren p (before ++ after)) := by
  have hposition := idxOf?_between hn after
  rw [← hchildren] at hposition
  unfold detach
  simp only [h, children_setParent, hposition]
  rw [hchildren, eraseIdx_between]

theorem Linked.children_split (h : t.Linked) (hp : t.parent n = some p) :
    ∃ before after, t.children p = before ++ n :: after ∧ n ∉ before ∧ n ∉ after := by
  rcases List.append_of_mem (h.mem_children_iff.mpr hp) with ⟨before, after, heq⟩
  have hnodup := h.nodup_children p
  rw [heq, List.nodup_middle, List.nodup_cons, List.mem_append, not_or] at hnodup
  exact ⟨before, after, heq, hnodup.1.1, hnodup.1.2⟩

theorem Linked.not_mem_children (h : t.Linked) (hp : t.parent n ≠ some p) : n ∉ t.children p :=
  fun hmem => hp (h.mem_children_iff.mp hmem)

/-- What is put in the place of a node among the children of its parent is put there everywhere. -/
theorem Linked.substitute_children (h : t.Linked) (hp : t.parent n = some p)
    (hchildren : t.children p = before ++ n :: after) (hbefore : n ∉ before) (hafter : n ∉ after)
    (items : List Nat) (m : Nat) :
    (if m = p then before ++ (items ++ after) else t.children m) =
      substitute n items (t.children m) := by
  by_cases hm : m = p
  · rw [if_pos hm, hm, hchildren, substitute_between hbefore hafter]
  · have hother : t.parent n ≠ some m := by
      rw [hp]
      exact fun heq => hm (Option.some.inj heq).symm
    rw [if_neg hm, substitute_of_not_mem (h.not_mem_children hother)]

/-- The links after a node is cut off. -/
structure CutFrom (t : LinkedTree α) (n : Nat) (t' : LinkedTree α) : Prop where
  length : t'.nodes.length = t.nodes.length
  root : t'.root = t.root
  parent : ∀ m, t'.parent m = if m = n then none else t.parent m
  children : ∀ m, t'.children m = substitute n [] (t.children m)

theorem Linked.cutFrom_detach (h : t.Linked) (n : Nat) : CutFrom t n (t.detach n).2 := by
  cases hp : t.parent n with
  | none =>
      rw [detach_of_parent_eq_none hp]
      refine ⟨rfl, rfl, fun m => ?_, fun m => ?_⟩
      · split
        · next hm => rw [hm, hp]
        · rfl
      · rw [substitute_of_not_mem (h.not_mem_children (by simp [hp]))]
  | some p =>
      rcases h.children_split hp with ⟨before, after, hchildren, hbefore, hafter⟩
      rw [detach_of_parent hp hchildren hbefore]
      refine ⟨by rw [length_setChildren, length_setParent], rfl, fun m => ?_, fun m => ?_⟩
      · rw [parent_setChildren, parent_setParent (lt_of_parent hp)]
      · rw [children_setChildren (by rw [length_setParent]; exact h.parent_lt hp),
          children_setParent]
        exact h.substitute_children hp hchildren hbefore hafter [] m

theorem CutFrom.linked (hcut : CutFrom t n t') (h : t.Linked) : t'.Linked where
  count_children := by
    intro p c
    rw [hcut.children, hcut.parent, count_substitute, h.count_children p c]
    by_cases hc : c = n
    · simp [hc]
    · simp [hc]
  root_lt := by
    rw [hcut.root, hcut.length]
    exact h.root_lt
  parent_root := by
    rw [hcut.root, hcut.parent, h.parent_root, ite_self]
  ranked := by
    rcases h.ranked with ⟨rank, hrank⟩
    refine ⟨rank, fun c p hp => ?_⟩
    rw [hcut.parent] at hp
    split at hp
    · cases hp
    · exact hrank c p hp

theorem Linked.detach (h : t.Linked) (n : Nat) : (t.detach n).2.Linked :=
  (h.cutFrom_detach n).linked h

theorem CutFrom.below (hcut : CutFrom t n t') (h : t'.Below m p) : t.Below m p := by
  apply Relation.ReflTransGen.mono _ m p h
  intro c q hq
  have hparent : t'.parent c = some q := hq
  rw [hcut.parent] at hparent
  split at hparent
  · cases hparent
  · exact hparent

/-!
## Replacing
-/

theorem Linked.not_below_spare (h : t.Linked) (hnew : t.Spare new) (hn : t.Below n t.root) :
    ¬ t.Below n new := by
  intro hbelow
  exact hnew.notRoot (hbelow.eq_of_tops hn hnew.detached h.parent_root)

theorem Linked.below_root_of_parent (h : t.Linked) (hn : t.Below n t.root)
    (hp : t.parent n = some p) : t.Below p t.root := by
  rcases below_iff.mp hn with heq | ⟨q, hq, hbelow⟩
  · exact absurd heq (h.ne_root_of_parent hp)
  · rw [hp] at hq
    cases hq
    exact hbelow

theorem Linked.eq_root_iff (h : t.Linked) (hn : t.Below n t.root) :
    n = t.root ↔ t.parent n = none := by
  constructor
  · intro heq
    rw [heq, h.parent_root]
  · exact fun hnone => hn.eq_of_parent hnone

theorem replace_of_parent_eq_none (hp : t.parent n = none) (new : Nat) :
    t.replace n new = t.setRoot new := by
  unfold replace
  rw [detach_of_parent_eq_none hp]

theorem replace_of_parent (hp : t.parent n = some p)
    (hchildren : t.children p = before ++ n :: after) (hn : n ∉ before) (new : Nat) :
    t.replace n new = (t.detach n).2.insertChild p before.length new := by
  unfold replace
  rw [detach_of_parent hp hchildren hn]

/-- The links after a node has taken the place of another one. -/
structure ReplacedFrom (t : LinkedTree α) (n new : Nat) (t' : LinkedTree α) : Prop where
  length : t'.nodes.length = t.nodes.length
  root : t'.root = if n = t.root then new else t.root
  parent : ∀ m, t'.parent m = if m = new then t.parent n else if m = n then none else t.parent m
  children : ∀ m, t'.children m = substitute n [new] (t.children m)

theorem CutFrom.attachable (hcut : CutFrom t n t') (h : t.Linked) (hn : t.Below n t.root)
    (hp : t.parent n = some p) (hnew : t.Spare new) : t'.Attachable p new where
  lt := by
    rw [hcut.length]
    exact hnew.lt
  detached := by rw [hcut.parent, hnew.detached, ite_self]
  notRoot := by
    rw [hcut.root]
    exact hnew.notRoot
  parent_lt := by
    rw [hcut.length]
    exact h.parent_lt hp
  apart := fun hbelow =>
    h.not_below_spare hnew (h.below_root_of_parent hn hp) (hcut.below hbelow)

theorem Linked.replace (h : t.Linked) (hn : t.Below n t.root) (hnew : t.Spare new) :
    (t.replace n new).Linked ∧ ReplacedFrom t n new (t.replace n new) := by
  cases hp : t.parent n with
  | none =>
      rw [replace_of_parent_eq_none hp]
      refine ⟨h.setRoot hnew.lt hnew.detached, rfl, ?_, fun m => ?_, fun m => ?_⟩
      · rw [if_pos ((h.eq_root_iff hn).mpr hp)]
        rfl
      · change t.parent m = _
        split
        · next hm => rw [hm, hnew.detached, hp]
        · split
          · next hm => rw [hm, hp]
          · rfl
      · rw [substitute_of_not_mem (h.not_mem_children (by simp [hp]))]
        rfl
  | some p =>
      rcases h.children_split hp with ⟨before, after, hchildren, hbefore, hafter⟩
      have hcut := h.cutFrom_detach n
      have hattachable := hcut.attachable h hn hp hnew
      have hrest : (t.detach n).2.children p = before ++ after := by
        rw [hcut.children, hchildren, substitute_between hbefore hafter, List.nil_append]
      rw [replace_of_parent hp hchildren hbefore]
      refine ⟨(h.detach n).insertChild hattachable ?_, ?_, ?_, fun m => ?_, fun m => ?_⟩
      · rw [hrest, List.length_append]
        omega
      · rw [length_insertChild, hcut.length]
      · rw [if_neg (h.ne_root_of_parent hp)]
        exact hcut.root
      · rw [parent_insertChild hattachable.lt, hcut.parent, hp]
      · have hsubstitute := h.substitute_children hp hchildren hbefore hafter
        rw [children_insertChild hattachable.parent_lt, hrest, insertIdx_between, hcut.children,
          ← hsubstitute [new]]
        split
        · rfl
        · next hm => rw [← hsubstitute [], if_neg hm]

/-- A path in the new links goes through a node that was put in, or was there before. -/
theorem below_of_links (hlinks : ∀ m p, m ≠ new → t'.parent m = some p → t.parent m = some p)
    (h : t'.Below m n) : t.Below m n ∨ t'.Below m new := by
  induction h using Relation.ReflTransGen.head_induction_on with
  | refl => exact Or.inl (Below.refl t n)
  | @head m p hp _ ih =>
      by_cases hm : m = new
      · right
        rw [hm]
        exact Below.refl t' new
      · have hparent := hlinks m p hm hp
        rcases ih with hbelow | hbelow
        · exact Or.inl (below_iff.mpr (Or.inr ⟨p, hparent, hbelow⟩))
        · exact Or.inr (below_iff.mpr (Or.inr ⟨p, hp, hbelow⟩))

theorem ReplacedFrom.attachable (hreplaced : ReplacedFrom t n new t') (h' : t'.Linked)
    (h : t.Linked) (hn : t.Below n t.root) (hnew : t.Spare new) : t'.Attachable new n := by
  have hne : n ≠ new := fun heq => h.not_below_spare hnew hn (heq ▸ Below.refl t n)
  refine { lt := ?_, detached := ?_, notRoot := ?_, parent_lt := ?_, apart := ?_ }
  · rw [hreplaced.length]
    exact hn.lt h.root_lt
  · rw [hreplaced.parent, if_neg hne, if_pos rfl]
  · rw [hreplaced.root]
    split
    · exact hne
    · next hroot => exact hroot
  · rw [hreplaced.length]
    exact hnew.lt
  · intro hbelow
    rcases below_iff.mp hbelow with heq | ⟨p, hp, hbelow⟩
    · exact hne heq.symm
    · have hparent := hp
      rw [hreplaced.parent, if_pos rfl] at hparent
      have hlinks : ∀ m q, m ≠ new → t'.parent m = some q → t.parent m = some q := by
        intro m q hm hq
        rw [hreplaced.parent, if_neg hm] at hq
        split at hq
        · cases hq
        · exact hq
      rcases below_of_links hlinks hbelow with hold | hround
      · exact h.not_below hparent hold
      · exact h'.not_below hp hround

theorem Linked.insertAbove (h : t.Linked) (hn : t.Below n t.root) (hnew : t.Spare new) :
    (t.insertAbove n new).Linked := by
  rcases h.replace hn hnew with ⟨h', hreplaced⟩
  exact h'.insertChild (hreplaced.attachable h' h hn hnew) (Nat.le_refl _)

end LinkedTree

end RelationalDb
