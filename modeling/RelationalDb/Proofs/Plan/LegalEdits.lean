import Mathlib
import RelationalDb.Proofs.Plan.LinkEdits

/-!
# Legal edits

A node that is spliced out leaves its place to its children.  An edit is legal if it attaches only
nodes that can be attached, and if it replaces or splices only a node that the root reaches.  The
links agree in every tree that legal edits lead to.
-/

namespace RelationalDb

universe u

namespace LinkedTree

variable {α : Type u} {t t' : LinkedTree α} {n p c : Nat} {before after : List Nat}

/-!
## Splicing
-/

@[simp] theorem length_insertChildren (t : LinkedTree α) (p position : Nat) (cs : List Nat) :
    (t.insertChildren p position cs).nodes.length = t.nodes.length := by
  induction cs generalizing t position with
  | nil => rfl
  | cons c rest ih => rw [insertChildren, ih, length_insertChild]

theorem root_insertChildren (t : LinkedTree α) (p position : Nat) (cs : List Nat) :
    (t.insertChildren p position cs).root = t.root := by
  induction cs generalizing t position with
  | nil => rfl
  | cons c rest ih =>
      rw [insertChildren, ih]
      rfl

theorem parent_insertChildren {cs : List Nat} (hcs : ∀ c ∈ cs, c < t.nodes.length)
    (p position m : Nat) :
    (t.insertChildren p position cs).parent m = if m ∈ cs then some p else t.parent m := by
  induction cs generalizing t position with
  | nil => rfl
  | cons c rest ih =>
      have hrest : ∀ c' ∈ rest, c' < (t.insertChild p position c).nodes.length := by
        intro c' hc'
        rw [length_insertChild]
        exact hcs c' (List.mem_cons_of_mem _ hc')
      rw [insertChildren, ih hrest, parent_insertChild (hcs c List.mem_cons_self)]
      by_cases hm : m ∈ rest
      · rw [if_pos hm, if_pos (List.mem_cons_of_mem _ hm)]
      · simp [hm]

theorem children_insertChildren {cs : List Nat} (hp : p < t.nodes.length)
    (hchildren : t.children p = before ++ after) (m : Nat) :
    (t.insertChildren p before.length cs).children m =
      if m = p then before ++ (cs ++ after) else t.children m := by
  induction cs generalizing t before with
  | nil =>
      split
      · next hm => rw [hm, insertChildren, hchildren, List.nil_append]
      · rfl
  | cons c rest ih =>
      have hp' : p < (t.insertChild p before.length c).nodes.length := by
        rwa [length_insertChild]
      have hchildren' : (t.insertChild p before.length c).children p = (before ++ [c]) ++ after := by
        rw [children_insertChild hp, if_pos rfl, hchildren, insertIdx_between]
        simp
      have hrest := ih hp' hchildren'
      rw [List.length_append, List.length_singleton] at hrest
      rw [insertChildren, hrest]
      split
      · simp
      · next hm => rw [children_insertChild hp, if_neg hm]

/-- The links after a node has been taken out and its children stand in its place. -/
structure SplicedFrom (t : LinkedTree α) (n : Nat) (t' : LinkedTree α) : Prop where
  length : t'.nodes.length = t.nodes.length
  root : (n = t.root ∧ t.children n = [t'.root]) ∨ (n ≠ t.root ∧ t'.root = t.root)
  parent : ∀ m, t'.parent m =
    if m = n then none else if t.parent m = some n then t.parent n else t.parent m
  children : ∀ m, t'.children m =
    if m = n then [] else substitute n (t.children n) (t.children m)

theorem Linked.parent_of_only_child (h : t.Linked) (hcs : t.children n = [c]) :
    t.parent c = some n := by
  rw [← h.mem_children_iff, hcs]
  exact List.mem_singleton_self c

theorem SplicedFrom.linked (hspliced : SplicedFrom t n t') (h : t.Linked) : t'.Linked where
  count_children := by
    intro p c
    have hchild := h.count_children n c
    have hown := h.count_children p n
    have hother := h.count_children p c
    rw [hspliced.children, hspliced.parent]
    by_cases hp : p = n
    · have hloop : t.parent n ≠ some n := h.parent_ne_self n
      rw [if_pos hp, hp, List.count_nil]
      by_cases hc : c = n
      · simp [hc]
      · by_cases hcn : t.parent c = some n
        · simp [hc, hcn, hloop]
        · simp [hc, hcn]
    · rw [if_neg hp, count_substitute, hchild, hown, hother]
      by_cases hc : c = n
      · have hloop : t.parent n ≠ some n := h.parent_ne_self n
        simp [hc, hloop]
      · by_cases hcn : t.parent c = some n
        · simp [hc, hcn, Ne.symm hp]
        · simp [hc, hcn]
  root_lt := by
    rw [hspliced.length]
    rcases hspliced.root with ⟨_, hcs⟩ | ⟨_, hroot⟩
    · exact lt_of_parent (h.parent_of_only_child hcs)
    · rw [hroot]
      exact h.root_lt
  parent_root := by
    rw [hspliced.parent]
    rcases hspliced.root with ⟨hn, hcs⟩ | ⟨_, hroot⟩
    · rw [if_pos (h.parent_of_only_child hcs), hn, h.parent_root, ite_self]
    · rw [hroot, h.parent_root]
      simp
  ranked := by
    rcases h.ranked with ⟨rank, hrank⟩
    refine ⟨rank, fun c p hp => ?_⟩
    rw [hspliced.parent] at hp
    by_cases hc : c = n
    · rw [if_pos hc] at hp
      cases hp
    · rw [if_neg hc] at hp
      split at hp
      · next hcn => exact Nat.lt_trans (hrank c n hcn) (hrank n p hp)
      · exact hrank c p hp

theorem splice_of_length_ne_one (hp : t.parent n = none) (hcs : (t.children n).length ≠ 1) :
    t.splice n = (false, t) := by
  unfold LinkedTree.splice
  rcases hchildren : t.children n with _ | ⟨c, _ | ⟨c', rest⟩⟩
  · simp only [hp]
  · rw [hchildren] at hcs
    exact absurd rfl hcs
  · simp only [hp]

theorem Linked.splice_only_child (h : t.Linked) (hn : n < t.nodes.length)
    (hp : t.parent n = none) (hroot : n = t.root) (hcs : t.children n = [c]) :
    ∃ t', t.splice n = (true, t') ∧ SplicedFrom t n t' := by
  have hmem : ∀ m, t.parent m = some n ↔ m = c := by
    intro m
    rw [← h.mem_children_iff, hcs, List.mem_singleton]
  let cut := (t.setChildren n []).setParent c none
  have hlt : c < (t.setChildren n []).nodes.length := by
    rw [length_setChildren]
    exact lt_of_parent (h.parent_of_only_child hcs)
  refine ⟨cut.setRoot c, ?_, ?_, Or.inl ⟨hroot, hcs⟩, fun m => ?_, fun m => ?_⟩
  · unfold LinkedTree.splice
    simp only [hp, hcs, cut]
  · change cut.nodes.length = t.nodes.length
    simp [cut]
  · change cut.parent m = _
    simp only [cut, hmem, hp]
    rw [parent_setParent hlt, parent_setChildren]
    by_cases hm : m = n
    · rw [if_pos hm, hm, hp, ite_self]
    · rw [if_neg hm]
  · change cut.children m = _
    simp only [cut]
    rw [children_setParent, children_setChildren hn,
      substitute_of_not_mem (h.not_mem_children (by simp [hp]))]

theorem Linked.splice_of_parent (h : t.Linked) (hp : t.parent n = some p) :
    ∃ t', t.splice n = (true, t') ∧ SplicedFrom t n t' := by
  have hn : n < t.nodes.length := lt_of_parent hp
  have hloop : t.parent n ≠ some n := h.parent_ne_self n
  have hpn : p ≠ n := fun heq => hloop (heq ▸ hp)
  rcases h.children_split hp with ⟨before, after, hchildren, hbefore, hafter⟩
  let emptied := t.setChildren n []
  let cut := (emptied.setParent n none).setChildren p (before ++ after)
  have hemptied : emptied.children p = before ++ n :: after := by
    rw [children_setChildren hn, if_neg hpn, hchildren]
  have hdetach : emptied.detach n = (some (p, before.length), cut) :=
    detach_of_parent ((parent_setChildren t n [] n).trans hp) hemptied hbefore
  have hlength : cut.nodes.length = t.nodes.length := by simp [cut, emptied]
  have hplt : p < cut.nodes.length := by
    rw [hlength]
    exact h.parent_lt hp
  have hcs : ∀ c ∈ t.children n, c < cut.nodes.length := by
    intro c hc
    rw [hlength]
    exact h.child_lt hc
  have hparent : ∀ m, cut.parent m = if m = n then none else t.parent m := by
    intro m
    simp only [cut, emptied]
    rw [parent_setChildren, parent_setParent (by simpa using hn), parent_setChildren]
  have hcut : ∀ m, cut.children m =
      if m = p then before ++ after else if m = n then [] else t.children m := by
    intro m
    simp only [cut, emptied]
    rw [children_setChildren (by simpa using h.parent_lt hp), children_setParent,
      children_setChildren hn]
  have hcutp : cut.children p = before ++ after := by rw [hcut, if_pos rfl]
  refine ⟨cut.insertChildren p before.length (t.children n), ?_, ?_,
    Or.inr ⟨h.ne_root_of_parent hp, ?_⟩, fun m => ?_, fun m => ?_⟩
  · unfold LinkedTree.splice
    simp only [hp]
    rw [hdetach]
  · rw [length_insertChildren, hlength]
  · rw [root_insertChildren]
    rfl
  · rw [parent_insertChildren hcs, hparent, hp]
    by_cases hm : m = n
    · rw [if_pos hm, if_pos hm, if_neg]
      rw [h.mem_children_iff, hm]
      exact hloop
    · simp only [if_neg hm, h.mem_children_iff]
  · rw [children_insertChildren hplt hcutp, hcut,
      ← h.substitute_children hp hchildren hbefore hafter]
    by_cases hmp : m = p
    · have hm : m ≠ n := by rwa [hmp]
      rw [if_pos hmp, if_neg hm, if_pos hmp]
    · rw [if_neg hmp, if_neg hmp, if_neg hmp]

theorem Linked.splice (h : t.Linked) (hn : t.Below n t.root) :
    (n = t.root ∧ (t.children n).length ≠ 1 ∧ t.splice n = (false, t)) ∨
      ((n = t.root → (t.children n).length = 1) ∧
        ∃ t', t.splice n = (true, t') ∧ SplicedFrom t n t') := by
  cases hp : t.parent n with
  | none =>
      have hroot := (h.eq_root_iff hn).mpr hp
      by_cases hcs : (t.children n).length = 1
      · rcases List.length_eq_one_iff.mp hcs with ⟨c, hc⟩
        exact Or.inr ⟨fun _ => hcs, h.splice_only_child (hn.lt h.root_lt) hp hroot hc⟩
      · exact Or.inl ⟨hroot, hcs, splice_of_length_ne_one hp hcs⟩
  | some p =>
      exact Or.inr ⟨fun heq => absurd heq (h.ne_root_of_parent hp), h.splice_of_parent hp⟩

/-!
## Edited trees
-/

/-- The trees that legal edits make of the tree of a single node. -/
inductive Edited : LinkedTree α → Prop
  | single (a : α) : Edited (single a)
  | add {t : LinkedTree α} (h : Edited t) (a : α) : Edited (t.add a).2
  | setValue {t : LinkedTree α} (h : Edited t) {n : Nat} (hn : n < t.nodes.length) (a : α) :
      Edited (t.setValue n a)
  | insertChild {t : LinkedTree α} (h : Edited t) {p position c : Nat} (hc : t.Attachable p c)
      (hposition : position ≤ (t.children p).length) : Edited (t.insertChild p position c)
  | addChild {t : LinkedTree α} (h : Edited t) {p c : Nat} (hc : t.Attachable p c) :
      Edited (t.addChild p c)
  | setRoot {t : LinkedTree α} (h : Edited t) {n : Nat} (hn : n < t.nodes.length)
      (hparent : t.parent n = none) : Edited (t.setRoot n)
  | detach {t : LinkedTree α} (h : Edited t) {n : Nat} (hn : n < t.nodes.length) :
      Edited (t.detach n).2
  | replace {t : LinkedTree α} (h : Edited t) {n new : Nat} (hn : t.Below n t.root)
      (hnew : t.Spare new) : Edited (t.replace n new)
  | insertAbove {t : LinkedTree α} (h : Edited t) {n new : Nat} (hn : t.Below n t.root)
      (hnew : t.Spare new) : Edited (t.insertAbove n new)
  | splice {t : LinkedTree α} (h : Edited t) {n : Nat} (hn : t.Below n t.root) :
      Edited (t.splice n).2

theorem Edited.linked (h : t.Edited) : t.Linked := by
  induction h with
  | single a => exact linked_single a
  | @add t _ a ih =>
      apply ih.congr (t.parent_add a) (t.children_add a)
      · have hlength : (t.add a).2.nodes.length = t.nodes.length + 1 := by simp [LinkedTree.add]
        rw [hlength]
        exact Nat.lt_succ_of_lt ih.root_lt
      · exact ih.parent_root
  | @setValue t _ n _ a ih =>
      apply ih.congr (t.parent_setValue n a) (t.children_setValue n a)
      · rw [length_setValue]
        exact ih.root_lt
      · exact ih.parent_root
  | insertChild _ hc hposition ih => exact ih.insertChild hc hposition
  | addChild _ hc ih => exact ih.insertChild hc (Nat.le_refl _)
  | setRoot _ hn hparent ih => exact ih.setRoot hn hparent
  | detach _ _ ih => exact ih.detach _
  | replace _ hn hnew ih => exact (ih.replace hn hnew).1
  | insertAbove _ hn hnew ih => exact ih.insertAbove hn hnew
  | splice _ hn ih =>
      rcases ih.splice hn with ⟨_, _, heq⟩ | ⟨_, t', heq, hspliced⟩
      · rw [heq]
        exact ih
      · rw [heq]
        exact hspliced.linked ih

end LinkedTree

end RelationalDb
