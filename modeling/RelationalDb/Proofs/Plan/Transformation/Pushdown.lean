import Mathlib
import RelationalDb.Plan.Transformation.Pushdown
import RelationalDb.Proofs.Plan.Shapes

/-!
# Moving selections down keeps what a plan stands for

A predicate is sent to an input that has all of its tables, where it holds of the same
rows.  Below a node the pending predicates are shared out among the inputs and the node
itself, and none of them is lost or doubled.
-/

namespace RelationalDb

namespace LogicalPlan

variable {t t' : LogicalPlan} {ts : List LogicalPlan} {p : Predicate}
  {ps pending : List Predicate} {a : Assignment}

theorem covers_iff {names : List String} : covers names p = true ↔ p.Within names := by
  simp only [covers, List.all_eq_true, List.contains_iff_mem, Predicate.mem_tables_iff]
  constructor
  · intro h c hc col hcol
    exact h col.table ⟨c, hc, col, hcol, rfl⟩
  · rintro h name ⟨c, hc, col, hcol, rfl⟩
    exact h c hc col hcol

theorem onlyCover?_eq_some {inputs : List (List String)} {i : Nat}
    (h : onlyCover? inputs p = some i) : ∃ names, inputs[i]? = some names ∧ p.Within names := by
  unfold onlyCover? at h
  split at h
  · next input hfilter =>
      cases h
      have hmem : input ∈ inputs.zipIdx.filter fun input => covers input.1 p := by
        rw [hfilter]
        exact List.mem_singleton_self _
      rcases List.mem_filter.mp hmem with ⟨hmem, hcovers⟩
      exact ⟨input.1, List.mem_zipIdx_iff_getElem?.mp hmem, covers_iff.mp hcovers⟩
  · cases h

theorem mem_sentTo {target : Option Nat} {sent : List (Predicate × Option Nat)} :
    p ∈ sentTo target sent ↔ (p, target) ∈ sent := by
  simp [sentTo]

theorem mem_send {target : Option Nat} :
    (p, target) ∈ send ts pending ↔
      p ∈ pending ∧ onlyCover? (ts.map tableNames) p = target := by
  simp only [send, List.mem_map, Prod.mk.injEq]
  constructor
  · rintro ⟨q, hq, rfl, rfl⟩
    exact ⟨hq, rfl⟩
  · rintro ⟨hp, htarget⟩
    exact ⟨p, hp, rfl, htarget⟩

@[simp] theorem tables_selections (ps : List Predicate) (t : LogicalPlan) :
    (selections ps t).tables = t.tables := by
  induction ps with
  | nil => rfl
  | cons p ps ih => exact tables_single.trans ih

@[simp] theorem tableNames_selections (ps : List Predicate) (t : LogicalPlan) :
    (selections ps t).tableNames = t.tableNames :=
  tableNames_congr (tables_selections ps t)

@[simp] theorem guards_selections (ps : List Predicate) (t : LogicalPlan) :
    (selections ps t).guards = ps ++ t.guards := by
  induction ps with
  | nil => rfl
  | cons p ps ih =>
      have hnode : selections (p :: ps) t = .node (.select p) [selections ps t] := rfl
      rw [hnode, guards_node, List.flatMap_singleton, ih]
      rfl

theorem holds_selections :
    (selections ps t).Holds a ↔ (∀ p ∈ ps, p.eval a = true) ∧ t.Holds a := by
  simp [Holds, or_imp, forall_and]

theorem formed_selections (ht : t.Formed) (hps : ∀ p ∈ ps, p.Within t.tableNames) :
    (selections ps t).Formed := by
  induction ps with
  | nil => exact ht
  | cons p ps ih =>
      apply Formed.select (ih fun q hq => hps q (List.mem_cons_of_mem _ hq))
      rw [tableNames, tables_selections]
      exact hps p List.mem_cons_self

theorem StandsFor.selections (h : t'.StandsFor t) (hps : ∀ p ∈ ps, p.Within t.tableNames) :
    (selections ps t').StandsFor (selections ps t) where
  formed := formed_selections h.formed fun p hp => h.tableNames.symm ▸ hps p hp
  tables := by rw [tables_selections, tables_selections, h.tables]
  holds := by
    intro a
    rw [holds_selections, holds_selections, h.holds a]
  tests := by
    intro p' hp' test htest
    rw [guards_selections, List.mem_append] at hp'
    rcases hp' with hp' | hp'
    · exact ⟨p', by simp [hp'], htest⟩
    · rcases h.tests p' hp' test htest with ⟨q, hq, htest⟩
      exact ⟨q, by simp [hq], htest⟩

theorem selections_conjuncts_standsFor (ht : t.Formed) (hp : p.Within t.tableNames)
    (hpending : ∀ q ∈ pending, q.Within t.tableNames) :
    (selections (pending ++ p.conjuncts) t).StandsFor
      (selections pending (.node (.select p) [t])) where
  formed := by
    apply formed_selections ht
    intro q hq
    rcases List.mem_append.mp hq with hq | hq
    · exact hpending q hq
    · exact fun c hc => hp c (Predicate.mem_conditions_of_mem_conjuncts hq hc)
  tables := by simp
  holds := by
    intro a
    have hconjuncts : (∀ q ∈ p.conjuncts, q.eval a = true) ↔ p.eval a = true := by
      rw [← Predicate.all_eval_conjuncts a p, List.all_eq_true]
    simp only [holds_selections, List.mem_append, or_imp, forall_and, hconjuncts, holds_node,
      LogicalOp.guard?, Option.some.injEq, forall_eq', List.forall_mem_singleton, and_assoc]
  tests := by
    intro q hq test htest
    simp only [guards_selections, List.mem_append, guards_node, LogicalOp.guard?,
      Option.toList_some, List.flatMap_singleton, List.mem_singleton] at hq ⊢
    rcases hq with (hq | hq) | hq
    · exact ⟨q, Or.inl hq, htest⟩
    · exact ⟨p, Or.inr (Or.inl rfl), Predicate.mem_conditions_of_mem_conjuncts hq htest⟩
    · exact ⟨q, Or.inr (Or.inr hq), htest⟩

def withSent (sent : List (Predicate × Option Nat)) (position : Nat) (ts : List LogicalPlan) :
    List LogicalPlan :=
  (ts.zipIdx position).map fun x => selections (sentTo (some x.2) sent) x.1

theorem withSent_cons (sent : List (Predicate × Option Nat)) (position : Nat) (t : LogicalPlan)
    (ts : List LogicalPlan) :
    withSent sent position (t :: ts) =
      selections (sentTo (some position) sent) t :: withSent sent (position + 1) ts := rfl

theorem flatMap_tables_withSent (sent : List (Predicate × Option Nat)) (position : Nat)
    (ts : List LogicalPlan) : (withSent sent position ts).flatMap tables = ts.flatMap tables := by
  induction ts generalizing position with
  | nil => rfl
  | cons t ts ih =>
      rw [withSent_cons, List.flatMap_cons, List.flatMap_cons, tables_selections, ih]

theorem mem_withSent {sent : List (Predicate × Option Nat)} :
    t ∈ withSent sent 0 ts ↔
      ∃ i u, ts[i]? = some u ∧ t = selections (sentTo (some i) sent) u := by
  simp only [withSent, List.mem_map, Prod.exists, List.mem_zipIdx_iff_getElem?]
  constructor
  · rintro ⟨u, i, hu, rfl⟩
    exact ⟨i, u, hu, rfl⟩
  · rintro ⟨i, u, hu, rfl⟩
    exact ⟨u, i, hu, rfl⟩

theorem within_of_sentTo {i : Nat} (ht : ts[i]? = some t)
    (hp : p ∈ sentTo (some i) (send ts pending)) : p.Within t.tableNames := by
  rcases onlyCover?_eq_some (mem_send.mp (mem_sentTo.mp hp)).2 with ⟨names, hnames, hwithin⟩
  rw [List.getElem?_map, ht] at hnames
  cases hnames
  exact hwithin

theorem withSent_ne_nil {sent : List (Predicate × Option Nat)} {position : Nat} (hne : ts ≠ []) :
    withSent sent position ts ≠ [] := by
  cases ts with
  | nil => exact absurd rfl hne
  | cons t ts => exact List.cons_ne_nil _ _

theorem tables_node_withSent {op : LogicalOp} {sent : List (Predicate × Option Nat)}
    (hne : ts ≠ []) : tables (.node op (withSent sent 0 ts)) = tables (.node op ts) := by
  rw [tables_node hne, tables_node (withSent_ne_nil hne), flatMap_tables_withSent]

theorem mem_guards_withSent {op : LogicalOp} :
    p ∈ guards (selections (sentTo none (send ts pending))
        (.node op (withSent (send ts pending) 0 ts))) ↔
      p ∈ guards (selections pending (.node op ts)) := by
  simp only [guards_selections, guards_node, List.mem_append, List.mem_flatMap]
  constructor
  · rintro (hp | hp | ⟨t', ht', hp⟩)
    · exact Or.inl (mem_send.mp (mem_sentTo.mp hp)).1
    · exact Or.inr (Or.inl hp)
    · rcases mem_withSent.mp ht' with ⟨i, t, ht, rfl⟩
      rw [guards_selections, List.mem_append] at hp
      rcases hp with hp | hp
      · exact Or.inl (mem_send.mp (mem_sentTo.mp hp)).1
      · exact Or.inr (Or.inr ⟨t, List.mem_of_getElem? ht, hp⟩)
  · rintro (hp | hp | ⟨t, ht, hp⟩)
    · cases htarget : onlyCover? (ts.map tableNames) p with
      | none => exact Or.inl (mem_sentTo.mpr (mem_send.mpr ⟨hp, htarget⟩))
      | some i =>
          rcases onlyCover?_eq_some htarget with ⟨names, hnames, _⟩
          rw [List.getElem?_map, Option.map_eq_some_iff] at hnames
          rcases hnames with ⟨t, ht, _⟩
          refine Or.inr (Or.inr ⟨_, mem_withSent.mpr ⟨i, t, ht, rfl⟩, ?_⟩)
          rw [guards_selections]
          exact List.mem_append_left _ (mem_sentTo.mpr (mem_send.mpr ⟨hp, htarget⟩))
    · exact Or.inr (Or.inl hp)
    · rcases List.getElem?_of_mem ht with ⟨i, hi⟩
      refine Or.inr (Or.inr ⟨_, mem_withSent.mpr ⟨i, t, hi, rfl⟩, ?_⟩)
      rw [guards_selections]
      exact List.mem_append_right _ hp

theorem withSent_standsFor {op : LogicalOp} (hne : ts ≠ [])
    (hformed : Formed (.node op (withSent (send ts pending) 0 ts)))
    (hpending : ∀ p ∈ pending, p.Within (tableNames (.node op ts))) :
    (selections (sentTo none (send ts pending))
      (.node op (withSent (send ts pending) 0 ts))).StandsFor
        (selections pending (.node op ts)) := by
  have htables := @tables_node_withSent ts op (send ts pending) hne
  refine ⟨?_, by rw [tables_selections, tables_selections, htables], ?_, ?_⟩
  · apply formed_selections hformed
    intro p hp
    rw [tableNames_congr htables]
    exact hpending p (mem_send.mp (mem_sentTo.mp hp)).1
  · intro a
    unfold Holds
    simp only [mem_guards_withSent]
  · exact fun p hp test htest => ⟨p, mem_guards_withSent.mp hp, htest⟩

/-- Moving selections down in a plan does what they do above it. -/
def Pushes (t : LogicalPlan) : Prop :=
  ∀ pending : List Predicate, (∀ p ∈ pending, p.Within t.tableNames) →
    (pushSelections pending t).StandsFor (selections pending t)

theorem pushSelectionsOf_standsFor {sent : List (Predicate × Option Nat)} {position : Nat}
    (h : ∀ t ∈ ts, t.Pushes)
    (hsent : ∀ i t, ts[i]? = some t →
      ∀ p ∈ sentTo (some (position + i)) sent, p.Within t.tableNames) :
    List.Forall₂ (fun t t' => t'.StandsFor t) (withSent sent position ts)
      (pushSelectionsOf sent position ts) := by
  induction ts generalizing position with
  | nil => exact List.Forall₂.nil
  | cons t ts ih =>
      rw [withSent_cons, pushSelectionsOf]
      apply List.Forall₂.cons
      · exact h t List.mem_cons_self _ (hsent 0 t rfl)
      · apply ih fun u hu => h u (List.mem_cons_of_mem _ hu)
        intro i u hu p hp
        apply hsent (i + 1) u hu p
        rw [Nat.add_right_comm] at hp
        exact hp

/-- Selections sent to the inputs of a node, and moved down in each of them. -/
theorem pushed_standsFor {op : LogicalOp} (hne : ts ≠ []) (h : ∀ t ∈ ts, t.Pushes)
    (hformed : Formed (.node op (withSent (send ts pending) 0 ts)))
    (hformed' : Formed (.node op (pushSelectionsOf (send ts pending) 0 ts)))
    (hpending : ∀ p ∈ pending, p.Within (tableNames (.node op ts))) :
    (selections (sentTo none (send ts pending))
      (.node op (pushSelectionsOf (send ts pending) 0 ts))).StandsFor
        (selections pending (.node op ts)) := by
  have hinputs := @pushSelectionsOf_standsFor ts (send ts pending) 0 h fun i t ht p hp =>
    within_of_sentTo ht (by rwa [Nat.zero_add] at hp)
  have hnode := standsFor_node hformed' (withSent_ne_nil hne) hinputs
  apply (hnode.selections _).trans (withSent_standsFor hne hformed hpending)
  intro p hp
  rw [tableNames_congr (tables_node_withSent hne)]
  exact hpending p (mem_send.mp (mem_sentTo.mp hp)).1

theorem formed_of_mem_withSent (pending : List Predicate) (hts : ∀ t ∈ ts, t.Formed)
    (h : t ∈ withSent (send ts pending) 0 ts) : t.Formed := by
  rcases mem_withSent.mp h with ⟨i, u, hu, rfl⟩
  exact formed_selections (hts u (List.mem_of_getElem? hu)) fun p hp => within_of_sentTo hu hp

theorem Formed.pushes (h : t.Formed) : t.Pushes := by
  induction h with
  | table t =>
      intro pending hpending
      exact (formed_selections (Formed.table t) hpending).standsFor
  | @select p t ht hp ih =>
      intro pending hpending
      have hnames : tableNames (.node (.select p) [t]) = t.tableNames :=
        tableNames_congr tables_single
      rw [hnames] at hpending
      rw [pushSelections]
      apply StandsFor.trans _ (selections_conjuncts_standsFor ht hp hpending)
      apply ih
      intro q hq
      rcases List.mem_append.mp hq with hq | hq
      · exact hpending q hq
      · exact fun c hc => hp c (Predicate.mem_conditions_of_mem_conjuncts hq hc)
  | @product ts hne hts ih =>
      intro pending hpending
      rw [pushSelections]
      have hinputs := @pushSelectionsOf_standsFor ts (send ts pending) 0 ih fun i t ht p hp =>
        within_of_sentTo ht (by rwa [Nat.zero_add] at hp)
      have hformed := Formed.product (withSent_ne_nil hne) fun t ht =>
        formed_of_mem_withSent pending hts ht
      exact pushed_standsFor hne ih hformed
        (standsFor_product (withSent_ne_nil hne) hinputs).formed hpending
  | @join j l r hl hr hleft hright ihl ihr =>
      intro pending hpending
      rw [pushSelections]
      have hwithin : ∀ i t, [l, r][i]? = some t →
          ∀ p ∈ sentTo (some i) (send [l, r] pending), p.Within t.tableNames :=
        fun i t ht p hp => within_of_sentTo ht hp
      have hl' := ihl _ (hwithin 0 l rfl)
      have hr' := ihr _ (hwithin 1 r rfl)
      apply pushed_standsFor (List.cons_ne_nil _ _) _ _ _ hpending
      · intro t ht
        rcases List.mem_cons.mp ht with rfl | ht
        · exact ihl
        · rw [List.mem_singleton.mp ht]
          exact ihr
      · apply Formed.join (formed_selections hl (hwithin 0 l rfl))
          (formed_selections hr (hwithin 1 r rfl))
        · rwa [tableNames_selections]
        · rwa [tableNames_selections]
      · apply Formed.join hl'.formed hr'.formed
        · rwa [hl'.tableNames, tableNames_selections]
        · rwa [hr'.tableNames, tableNames_selections]
  | @orderBy order t ht ih =>
      intro pending hpending
      exact ((ih [] nofun).orderBy).selections hpending

theorem pushDownSelections_standsFor (h : t.Formed) : t.pushDownSelections.StandsFor t :=
  h.pushes [] nofun

end LogicalPlan

end RelationalDb
