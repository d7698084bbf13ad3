import Mathlib
import RelationalDb.Proofs.Plan.Links

/-!
# Walks of trees

A walk keeps the nodes that it has still to visit on a stack.  In a tree whose links agree every
such walk ends, because a child has a smaller rank than its parent, and it visits every node below
its start once, each before its children.
-/

namespace RelationalDb

universe u v

/-!
## Walks with a stack
-/

/-- The run of a walk: the item on top of the stack is visited, and what follows from it takes its
place on the stack.  The second list has the items in the order of the visits. -/
inductive StackWalk {β : Type v} (next : β → List β) : List β → List β → Prop
  | done : StackWalk next [] []
  | visit {b : β} {stack visited : List β} (h : StackWalk next (next b ++ stack) visited) :
      StackWalk next (b :: stack) (b :: visited)

/-- An item and what follows from it, down to the given depth. -/
def visits {β : Type v} (next : β → List β) : Nat → β → List β
  | 0, _ => []
  | depth + 1, b => b :: (next b).flatMap (visits next depth)

section StackWalk

variable {β : Type v} {next : β → List β} {rank : β → Nat} {stack visited visited' : List β}

theorem StackWalk.unique (h : StackWalk next stack visited) (h' : StackWalk next stack visited') :
    visited = visited' := by
  induction h generalizing visited' with
  | done =>
      cases h'
      rfl
  | visit _ ih =>
      cases h' with
      | visit h' => rw [ih h']

theorem visits_eq (hrank : ∀ b, ∀ c ∈ next b, rank c < rank b) {b : β} {d e : Nat}
    (hd : rank b < d) (he : rank b < e) : visits next d b = visits next e b := by
  induction d generalizing b e with
  | zero => exact absurd hd (Nat.not_lt_zero _)
  | succ d ih =>
      cases e with
      | zero => exact absurd he (Nat.not_lt_zero _)
      | succ e =>
          rw [visits, visits]
          congr 1
          apply List.flatMap_congr
          intro c hc
          have hlt := hrank b c hc
          exact ih (by omega) (by omega)

theorem stackWalk_visits (hrank : ∀ b, ∀ c ∈ next b, rank c < rank b) {b : β} {depth : Nat}
    (hdepth : rank b < depth) (h : StackWalk next stack visited) :
    StackWalk next (b :: stack) (visits next depth b ++ visited) := by
  induction depth generalizing b stack visited with
  | zero => exact absurd hdepth (Nat.not_lt_zero _)
  | succ depth ih =>
      have hall : ∀ l : List β, (∀ c ∈ l, rank c < depth) →
          StackWalk next (l ++ stack) (l.flatMap (visits next depth) ++ visited) := by
        intro l hl
        induction l with
        | nil => exact h
        | cons c rest ihl =>
            rw [List.flatMap_cons, List.append_assoc]
            exact ih (hl c List.mem_cons_self) (ihl fun c' hc' => hl c' (List.mem_cons_of_mem _ hc'))
      apply StackWalk.visit
      apply hall
      intro c hc
      have hlt := hrank b c hc
      omega

end StackWalk

namespace LinkedTree

variable {α : Type u} {t : LinkedTree α} {n m p r c : Nat}

/-!
## The nodes below one
-/

theorem walk_eq_visits (t : LinkedTree α) (depth n : Nat) :
    t.walk depth n = visits t.children depth n := by
  induction depth generalizing n with
  | zero => rfl
  | succ depth ih =>
      rw [walk, visits]
      exact congrArg (n :: ·) (List.flatMap_congr fun c _ => ih c)

/-- No rank is greater than needed: fewer nodes have a smaller one than there are nodes. -/
theorem Linked.exists_rank_lt (h : t.Linked) :
    ∃ rank : Nat → Nat, (∀ p, ∀ c ∈ t.children p, rank c < rank p) ∧
      ∀ n < t.nodes.length, rank n < t.nodes.length := by
  rcases h.ranked with ⟨rank, hrank⟩
  let lower (n : Nat) := (Finset.range t.nodes.length).filter fun m => rank m < rank n
  refine ⟨fun n => (lower n).card, ?_, ?_⟩
  · intro p c hc
    have hp := h.mem_children_iff.mp hc
    have hlt := hrank c p hp
    apply Finset.card_lt_card
    rw [Finset.ssubset_iff_of_subset]
    · refine ⟨c, ?_, ?_⟩
      · exact Finset.mem_filter.mpr ⟨Finset.mem_range.mpr (lt_of_parent hp), hlt⟩
      · exact fun hmem => Nat.lt_irrefl _ (Finset.mem_filter.mp hmem).2
    · intro m hm
      rcases Finset.mem_filter.mp hm with ⟨hrange, hmc⟩
      exact Finset.mem_filter.mpr ⟨hrange, Nat.lt_trans hmc hlt⟩
  · intro n hn
    have hcard : (lower n).card < (Finset.range t.nodes.length).card := by
      apply Finset.card_lt_card
      rw [Finset.ssubset_iff_of_subset (Finset.filter_subset _ _)]
      refine ⟨n, Finset.mem_range.mpr hn, ?_⟩
      exact fun hmem => Nat.lt_irrefl _ (Finset.mem_filter.mp hmem).2
    rwa [Finset.card_range] at hcard

/-- What children hand on to their parents holds of every node. -/
theorem Linked.induction (h : t.Linked) {P : Nat → Prop}
    (step : ∀ n, (∀ c ∈ t.children n, P c) → P n) (n : Nat) : P n := by
  rcases h.ranked with ⟨rank, hrank⟩
  induction n using (measure rank).wf.induction with
  | _ n ih => exact step n fun c hc => ih c (hrank c n (h.mem_children_iff.mp hc))

theorem Linked.preOrder_eq (h : t.Linked) (hn : n < t.nodes.length) :
    t.preOrder n = n :: (t.children n).flatMap t.preOrder := by
  rcases h.exists_rank_lt with ⟨rank, hrank, hlt⟩
  have hsucc : t.preOrder n = t.walk (t.nodes.length + 1) n := by
    unfold preOrder
    rw [walk_eq_visits, walk_eq_visits]
    exact visits_eq hrank (hlt n hn) (Nat.lt_succ_of_lt (hlt n hn))
  rw [hsucc, walk]
  rfl

theorem Linked.stackWalk_preOrder (h : t.Linked) (hn : n < t.nodes.length) :
    StackWalk t.children [n] (t.preOrder n) := by
  rcases h.exists_rank_lt with ⟨rank, hrank, hlt⟩
  have hwalk := stackWalk_visits hrank (hlt n hn) StackWalk.done
  rwa [List.append_nil, ← walk_eq_visits] at hwalk

theorem Linked.mem_preOrder_iff (h : t.Linked) (hn : n < t.nodes.length) :
    m ∈ t.preOrder n ↔ t.Below m n := by
  induction n using h.induction with
  | step n ih =>
      rw [h.preOrder_eq hn, List.mem_cons, List.mem_flatMap, Below,
        Relation.ReflTransGen.cases_tail_iff]
      apply or_congr
      · exact eq_comm
      · constructor
        · rintro ⟨c, hc, hm⟩
          exact ⟨c, (ih c hc (h.child_lt hc)).mp hm, h.mem_children_iff.mp hc⟩
        · rintro ⟨c, hbelow, hp⟩
          have hc := h.mem_children_iff.mpr hp
          exact ⟨c, hc, (ih c hc (h.child_lt hc)).mpr hbelow⟩

theorem Linked.eq_of_below_children (h : t.Linked) {c' : Nat} (hc : c ∈ t.children p)
    (hc' : c' ∈ t.children p) (hm : t.Below m c) (hm' : t.Below m c') : c = c' := by
  have hbetween : ∀ {a b : Nat}, a ∈ t.children p → b ∈ t.children p → t.Below a b → a = b := by
    intro a b ha hb hbelow
    rcases below_iff.mp hbelow with heq | ⟨q, hq, hbelow⟩
    · exact heq
    · cases hq.symm.trans (h.mem_children_iff.mp ha)
      exact absurd hbelow (h.not_below (h.mem_children_iff.mp hb))
  rcases hm.total hm' with hbelow | hbelow
  · exact hbetween hc hc' hbelow
  · exact (hbetween hc' hc hbelow).symm

theorem Linked.nodup_preOrder (h : t.Linked) (hn : n < t.nodes.length) :
    (t.preOrder n).Nodup := by
  induction n using h.induction with
  | step n ih =>
      rw [h.preOrder_eq hn, List.nodup_cons]
      constructor
      · intro hmem
        rcases List.mem_flatMap.mp hmem with ⟨c, hc, hmem⟩
        have hbelow := (h.mem_preOrder_iff (h.child_lt hc)).mp hmem
        exact h.not_below (h.mem_children_iff.mp hc) hbelow
      · rw [List.nodup_flatMap]
        refine ⟨fun c hc => ih c hc (h.child_lt hc), ?_⟩
        apply (h.nodup_children n).imp_of_mem
        intro c c' hc hc' hne m hm hm'
        have hbelow := (h.mem_preOrder_iff (h.child_lt hc)).mp hm
        have hbelow' := (h.mem_preOrder_iff (h.child_lt hc')).mp hm'
        exact hne (h.eq_of_below_children hc hc' hbelow hbelow')

theorem Linked.preOrder_split (h : t.Linked) (hn : t.Below n r) (hr : r < t.nodes.length) :
    ∃ before after, t.preOrder r = before ++ (t.preOrder n ++ after) := by
  induction hn with
  | refl => exact ⟨[], [], by simp⟩
  | @tail c p _ hp ih =>
      have hc := h.mem_children_iff.mpr hp
      rcases ih (h.child_lt hc) with ⟨before, after, heq⟩
      rcases List.append_of_mem hc with ⟨left, right, hchildren⟩
      refine ⟨p :: left.flatMap t.preOrder ++ before, after ++ right.flatMap t.preOrder, ?_⟩
      rw [h.preOrder_eq hr, hchildren, List.flatMap_append, List.flatMap_cons, heq]
      simp

/-!
## Text
-/

def deeper (t : LinkedTree α) (entry : Nat × Nat) : List (Nat × Nat) :=
  (t.children entry.1).map fun c => (c, entry.2 + 1)

def line (label : α → String) (t : LinkedTree α) (entry : Nat × Nat) : String :=
  planLine entry.2 (((t.value? entry.1).map label).getD "")

def entries (t : LinkedTree α) : List (Nat × Nat) :=
  visits t.deeper t.nodes.length (t.root, 0)

theorem map_fst_visits_deeper (t : LinkedTree α) (fuel n depth : Nat) :
    (visits t.deeper fuel (n, depth)).map (·.1) = t.walk fuel n := by
  induction fuel generalizing n depth with
  | zero => rfl
  | succ fuel ih =>
      rw [visits, walk, List.map_cons, List.map_flatMap, deeper, List.flatMap_map]
      exact congrArg (n :: ·) (List.flatMap_congr fun c _ => ih c (depth + 1))

theorem renderFrom_eq (label : α → String) (t : LinkedTree α) (fuel depth n : Nat) :
    t.renderFrom label fuel depth n =
      String.join ((visits t.deeper fuel (n, depth)).map (t.line label)) := by
  induction fuel generalizing n depth with
  | zero => rfl
  | succ fuel ih =>
      have hjoin : ∀ l : List Nat,
          String.join (l.map fun c => t.renderFrom label fuel (depth + 1) c) =
            String.join ((l.flatMap fun c => visits t.deeper fuel (c, depth + 1)).map
              (t.line label)) := by
        intro l
        induction l with
        | nil => rfl
        | cons c rest ihl =>
            rw [List.map_cons, List.flatMap_cons, List.map_append, String.join_cons, ihl, ih,
              String.join_append]
      rw [renderFrom, visits, List.map_cons, String.join_cons, deeper, List.flatMap_map]
      exact congrArg (t.line label (n, depth) ++ ·) (hjoin _)

theorem Linked.stackWalk_entries (h : t.Linked) : StackWalk t.deeper [(t.root, 0)] t.entries := by
  rcases h.exists_rank_lt with ⟨rank, hrank, hlt⟩
  have hdeeper : ∀ b, ∀ c ∈ t.deeper b, rank c.1 < rank b.1 := by
    intro b e he
    rcases List.mem_map.mp he with ⟨c, hc, heq⟩
    rw [← heq]
    exact hrank b.1 c hc
  have hwalk := stackWalk_visits (b := (t.root, 0)) hdeeper (hlt t.root h.root_lt) StackWalk.done
  rwa [List.append_nil] at hwalk

end LinkedTree

end RelationalDb
