import Mathlib
import RelationalDb.Proofs.Plan.LegalEdits
import RelationalDb.Proofs.Plan.Walks

/-!
# The order of the nodes of edited trees

An edit lets some nodes stand in the place of one.  In a walk it is then replaced by what the
walks of these nodes have in addition, and all other nodes keep their order.
-/

namespace RelationalDb

universe u

namespace LinkedTree

variable {α : Type u} {t t' : LinkedTree α} {n r new : Nat}

/-- What the place of a node becomes in walks, if others stand among the children of its parent
instead of it. -/
theorem Linked.preOrder_of_instead (h : t.Linked) (h' : t'.Linked)
    (hlength : t'.nodes.length = t.nodes.length) (hr : r < t.nodes.length) (n : Nat)
    (instead items : List Nat)
    (hchildren : ∀ m, t.Below m r → m ≠ n → t'.children m = substitute n instead (t.children m))
    (hn : instead.flatMap t'.preOrder = items ++ (t.children n).flatMap t'.preOrder) :
    (if r = n then instead.flatMap t'.preOrder else t'.preOrder r) =
      substitute n items (t.preOrder r) := by
  let order (m : Nat) := if m = n then instead.flatMap t'.preOrder else t'.preOrder m
  have hinstead : ∀ l, (substitute n instead l).flatMap t'.preOrder = l.flatMap order :=
    fun l => flatMap_substitute n instead l t'.preOrder
  have horder : ∀ m, t.Below m r → m < t.nodes.length →
      order m = substitute n items (t.preOrder m) := by
    intro m
    induction m using h.induction with
    | step m ih =>
        intro hbelow hm
        have hall : (t.children m).flatMap order =
            substitute n items ((t.children m).flatMap t.preOrder) := by
          rw [substitute_flatMap]
          apply List.flatMap_congr
          intro c hc
          have hp := h.mem_children_iff.mp hc
          exact ih c hc (below_iff.mpr (Or.inr ⟨m, hp, hbelow⟩)) (h.child_lt hc)
        rw [h.preOrder_eq hm]
        by_cases hmn : m = n
        · -- The children of the node are no place of its own.
          have hself : ∀ c ∈ t.children n, order c = t'.preOrder c := by
            intro c hc
            have hne : c ≠ n := by
              intro heq
              exact h.parent_ne_self n (h.mem_children_iff.mp (heq ▸ hc))
            exact if_neg hne
          rw [hmn] at hall ⊢
          rw [substitute_cons_self, ← hall, List.flatMap_congr hself]
          exact (if_pos rfl).trans hn
        · have hm' : m < t'.nodes.length := by rwa [hlength]
          rw [substitute_cons_of_ne hmn, ← hall, ← hinstead, ← hchildren m hbelow hmn,
            ← h'.preOrder_eq hm']
          exact if_neg hmn
  exact horder r (Below.refl t r) hr

/-!
## Nodes that are put above others
-/

theorem Linked.children_insertAbove (h : t.Linked) (hn : t.Below n t.root) (hnew : t.Spare new)
    (hleaf : t.children new = []) (m : Nat) :
    (t.insertAbove n new).children m =
      if m = new then [n] else substitute n [new] (t.children m) := by
  rcases h.replace hn hnew with ⟨_, hreplaced⟩
  have hlt : new < (t.replace n new).nodes.length := by
    rw [hreplaced.length]
    exact hnew.lt
  unfold LinkedTree.insertAbove addChild
  rw [children_insertChild hlt, List.insertIdx_length_self, hreplaced.children,
    hreplaced.children, hleaf]
  rfl

theorem Linked.preOrder_insertAbove (h : t.Linked) (hn : t.Below n t.root) (hnew : t.Spare new)
    (hleaf : t.children new = []) :
    (t.insertAbove n new).preOrder (t.insertAbove n new).root =
      substitute n [new, n] (t.preOrder t.root) := by
  have h' := h.insertAbove hn hnew
  have hchildren := h.children_insertAbove hn hnew hleaf
  have hreplaced := (h.replace hn hnew).2
  have hlength : (t.insertAbove n new).nodes.length = t.nodes.length := by
    unfold LinkedTree.insertAbove addChild
    rw [length_insertChild, hreplaced.length]
  have hroot : (t.insertAbove n new).root = if n = t.root then new else t.root := hreplaced.root
  have hne : ∀ m, t.Below m t.root → m ≠ new :=
    fun m hm heq => h.not_below_spare hnew hm (heq ▸ Below.refl t m)
  have hlt : n < (t.insertAbove n new).nodes.length := by
    rw [hlength]
    exact hn.lt h.root_lt
  have hlt' : new < (t.insertAbove n new).nodes.length := by
    rw [hlength]
    exact hnew.lt
  have hown : (t.insertAbove n new).children n = t.children n := by
    rw [hchildren, if_neg (hne n hn),
      substitute_of_not_mem (h.not_mem_children (h.parent_ne_self n))]
  have habove : [new].flatMap (t.insertAbove n new).preOrder =
      [new, n] ++ (t.children n).flatMap (t.insertAbove n new).preOrder := by
    rw [List.flatMap_singleton, h'.preOrder_eq hlt', hchildren, if_pos rfl,
      List.flatMap_singleton, h'.preOrder_eq hlt, hown]
    rfl
  have horder := h.preOrder_of_instead h' hlength h.root_lt n [new] [new, n]
    (fun m hm _ => by rw [hchildren, if_neg (hne m hm)]) habove
  rw [← horder, hroot]
  by_cases heq : n = t.root
  · rw [if_pos heq, if_pos heq.symm, List.flatMap_singleton]
  · rw [if_neg heq, if_neg (Ne.symm heq)]

theorem Linked.preOrder_insertAbove_split (h : t.Linked) (hn : t.Below n t.root)
    (hnew : t.Spare new) (hleaf : t.children new = []) :
    ∃ before after, t.preOrder t.root = before ++ (t.preOrder n ++ after) ∧
      (t.insertAbove n new).preOrder (t.insertAbove n new).root =
        before ++ new :: (t.preOrder n ++ after) := by
  rcases h.preOrder_split hn h.root_lt with ⟨before, after, hsplit⟩
  have hnodup := h.nodup_preOrder h.root_lt
  have hown := h.preOrder_eq (hn.lt h.root_lt)
  refine ⟨before, after, hsplit, ?_⟩
  rw [hsplit, hown, List.cons_append, List.nodup_middle, List.nodup_cons, List.mem_append,
    not_or] at hnodup
  rw [h.preOrder_insertAbove hn hnew hleaf, hsplit, hown, List.cons_append,
    substitute_between hnodup.1.1 hnodup.1.2]
  rfl

/-!
## Nodes that are taken out
-/

theorem SplicedFrom.preOrder_eq (hspliced : SplicedFrom t n t') (h : t.Linked) :
    t'.preOrder t'.root = (t.preOrder t.root).erase n := by
  have horder := h.preOrder_of_instead (hspliced.linked h) hspliced.length h.root_lt n
    (t.children n) [] (fun m _ hm => by rw [hspliced.children, if_neg hm]) rfl
  rw [(h.nodup_preOrder h.root_lt).erase_eq_filter, ← substitute_nil, ← horder]
  rcases hspliced.root with ⟨hn, hroot⟩ | ⟨hn, hroot⟩
  · rw [if_pos hn.symm, hroot, List.flatMap_singleton]
  · rw [if_neg (Ne.symm hn), hroot]

/-!
## Edited trees
-/

/-- A root with one child, which has two children, and a node that stands apart. -/
def smallTree : LinkedTree String where
  nodes :=
    [{ value := "root", children := [1] }, { value := "mid", parent := some 0, children := [2, 3] },
      { value := "a", parent := some 1 }, { value := "b", parent := some 1 }, { value := "filter" }]

theorem edited_smallTree : smallTree.Edited := by
  have hnodes := ((((Edited.single "root").add "mid").add "a").add "b").add "filter"
  have hfirst := hnodes.addChild
    (Spare.attachable (p := 1) (c := 2) ⟨by decide, rfl, by decide⟩ (by decide) rfl (by decide))
  have hsecond := hfirst.addChild
    (Spare.attachable (p := 1) (c := 3) ⟨by decide, rfl, by decide⟩ (by decide) rfl (by decide))
  exact hsecond.addChild
    (Spare.attachable (p := 0) (c := 1) ⟨by decide, rfl, by decide⟩ (by decide) rfl (by decide))

/-- In every edited tree the links agree and make no cycle, walks from any node end with the nodes
below it, each once, and so does the text, with a line for each of them.  Putting a node without
children above another one adds it to the walk right before that one, and splicing takes one node
out of the walk or leaves the tree as it is. -/
theorem Edited.links_agree_and_walks_end (h : t.Edited) :
    (∀ p c, (t.children p).count c = if t.parent c = some p then 1 else 0) ∧
    t.parent t.root = none ∧
    (∀ n, ¬ Relation.TransGen t.ChildOf n n) ∧
    (∀ n < t.nodes.length, (t.preOrder n).Nodup ∧ (∀ m, m ∈ t.preOrder n ↔ t.Below m n) ∧
      ∀ visited, StackWalk t.children [n] visited ↔ visited = t.preOrder n) ∧
    (t.entries.map (·.1) = t.preOrder t.root ∧
      (∀ visited, StackWalk t.deeper [(t.root, 0)] visited ↔ visited = t.entries) ∧
      ∀ label, t.render label = String.join (t.entries.map (t.line label))) ∧
    (∀ n new, t.Below n t.root → t.Spare new → t.children new = [] →
      ∃ before after, t.preOrder t.root = before ++ (t.preOrder n ++ after) ∧
        (t.insertAbove n new).preOrder (t.insertAbove n new).root =
          before ++ new :: (t.preOrder n ++ after)) ∧
    ∀ n, t.Below n t.root →
      ((t.splice n).1 = true ↔ n = t.root → (t.children n).length = 1) ∧
      ((t.splice n).1 = true → (t.splice n).2.preOrder (t.splice n).2.root =
        (t.preOrder t.root).erase n) ∧
      ((t.splice n).1 = false → (t.splice n).2 = t) := by
  have hl := h.linked
  refine ⟨hl.count_children, hl.parent_root, hl.acyclic, ?_, ⟨?_, ?_, ?_⟩, ?_, ?_⟩
  · intro n hn
    have hwalk := hl.stackWalk_preOrder hn
    refine ⟨hl.nodup_preOrder hn, fun m => hl.mem_preOrder_iff hn, fun visited => ?_⟩
    exact ⟨fun hvisited => hvisited.unique hwalk, fun heq => heq ▸ hwalk⟩
  · exact t.map_fst_visits_deeper _ _ _
  · have hwalk := hl.stackWalk_entries
    exact fun visited => ⟨fun hvisited => hvisited.unique hwalk, fun heq => heq ▸ hwalk⟩
  · exact fun label => renderFrom_eq label t _ _ _
  · exact fun n new hn hnew hleaf => hl.preOrder_insertAbove_split hn hnew hleaf
  · intro n hn
    rcases hl.splice hn with ⟨hroot, hcs, heq⟩ | ⟨hcs, t', heq, hspliced⟩
    · rw [heq]
      refine ⟨⟨nofun, fun hone => absurd (hone hroot) hcs⟩, nofun, fun _ => rfl⟩
    · rw [heq]
      exact ⟨⟨fun _ => hcs, fun _ => rfl⟩, fun _ => hspliced.preOrder_eq hl, nofun⟩

theorem filter_comes_before_the_first_leaf :
    smallTree.Edited ∧ smallTree.Below 2 smallTree.root ∧ smallTree.Spare 4 ∧
      StackWalk smallTree.children [0] [0, 1, 2, 3] ∧
      smallTree.render id = "root\n-mid\n--a\n--b\n" ∧
      (∃ before after, [0, 1, 2, 3] = before ++ ([2] ++ after) ∧
        (smallTree.insertAbove 2 4).preOrder 0 = before ++ 4 :: ([2] ++ after)) ∧
      (smallTree.splice 1).1 = true ∧ (smallTree.splice 1).2.preOrder 0 = [0, 2, 3] := by
  have h := edited_smallTree.links_agree_and_walks_end
  rcases h with ⟨_, _, _, hwalk, ⟨_, _, hrender⟩, habove, hsplice⟩
  have hbelow : ∀ m ∈ smallTree.preOrder 0, smallTree.Below m 0 :=
    fun m => ((hwalk 0 (by decide)).2.1 m).mp
  have hspare : smallTree.Spare 4 := ⟨by decide, rfl, by decide⟩
  have hspliced := hsplice 1 (hbelow 1 (by decide))
  have htrue : (smallTree.splice 1).1 = true := hspliced.1.mpr nofun
  refine ⟨edited_smallTree, hbelow 2 (by decide), hspare, ?_, ?_, ?_, htrue, ?_⟩
  · exact ((hwalk 0 (by decide)).2.2 _).mpr rfl
  · rw [hrender]
    rfl
  · exact habove 2 4 (hbelow 2 (by decide)) hspare rfl
  · exact hspliced.2.1 htrue

end LinkedTree

end RelationalDb
