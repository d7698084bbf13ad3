import Mathlib
import RelationalDb.Plan.Planner
import RelationalDb.Proofs.Plan.Access
import RelationalDb.Proofs.Plan.Transformation.Sequence

/-!
# Plans compute what they stand for

A formed plan over tables of the source is lowered to a physical plan, which computes the
combinations of rows of which the predicates of the plan hold.  A selection that an index
scan answers is left out of the physical plan, and its predicate holds of the rows that
the scan reads.
-/

namespace RelationalDb

namespace PhysicalPlan

variable {op : LogicalOp} {op' : PhysicalOp} {A B : PlanTree AccessOp}
  {As : List (PlanTree AccessOp)} {P Q : PhysicalPlan} {Ps : List PhysicalPlan}
  {pending : Option PhysicalOp}

/-!
## Operators and the aggregation
-/

theorem lowerAll_singleton (h : lower A pending = .ok (P, none)) :
    lowerAll [A] pending = .ok ([P], none) := by
  simp [lowerAll, h]

theorem lowerAll_pair (hA : lower A none = .ok (P, none)) (hB : lower B none = .ok (Q, none)) :
    lowerAll [A, B] none = .ok ([P, Q], none) := by
  simp [lowerAll, hA, hB]

theorem lower_above (hop : op.physical? = some op') (hplace : op'.followsAggregation = false)
    (h : lowerAll As none = .ok (Ps, none)) (pending : Option PhysicalOp) :
    lower (.node (.asWritten op) As) pending = .ok (placeAbove pending (.node op' Ps), none) := by
  rw [lower, hop]
  simp [hplace, h]

theorem lower_past (hop : op.physical? = some op') (hplace : op'.followsAggregation = true)
    (h : lowerAll As pending = .ok (Ps, none)) :
    lower (.node (.asWritten op) As) pending = .ok (.node op' Ps, none) := by
  rw [lower, hop]
  simp [hplace, h]

end PhysicalPlan

namespace LogicalPlan

open PhysicalPlan (lower_above lower_past lowerAll_singleton lowerAll_pair)

variable {source : TableSource} {t l r : LogicalPlan} {ts : List LogicalPlan}
  {selections ps qs : List Predicate} {a b : Assignment} {R : Relation} {us : List Table}

def allHold (ps : List Predicate) (a : Assignment) : Bool :=
  ps.all fun p => p.eval a

theorem allHold_congr (h : ∀ p, p ∈ ps ↔ p ∈ qs) (a : Assignment) :
    allHold ps a = allHold qs a := by
  rw [Bool.eq_iff_iff, allHold, allHold, List.all_eq_true, List.all_eq_true]
  exact forall_congr' fun p => imp_congr_left (h p)

/-- What stands for a plan asks for the predicate that the plan asks for. -/
theorem StandsFor.allHold_guards {t t' : LogicalPlan} {p : Option Predicate}
    (h : t'.StandsFor t) (hguards : t.guards = p.toList) (a : Assignment) :
    allHold t'.guards a = p.all fun p => p.eval a := by
  have hholds := h.holds a
  rw [Holds, Holds, hguards] at hholds
  rw [Bool.eq_iff_iff, allHold, List.all_eq_true, hholds]
  cases p <;> simp

theorem allHold_append (ps qs : List Predicate) (a : Assignment) :
    allHold (ps ++ qs) a = (allHold ps a && allHold qs a) :=
  List.all_append

theorem dependsOn_allHold {names : List String} (h : ∀ p ∈ ps, p.Within names) :
    DependsOn names (allHold ps) := by
  intro a b hab
  apply Predicate.all_eq_of_mem
  intro p hp
  apply Predicate.eval_congr
  intro c hc col hcol
  exact hab col (h p hp c hc col hcol)

theorem Formed.guards_within (h : t.Formed) : ∀ p ∈ t.guards, p.Within t.tableNames := by
  have hmono : ∀ {p : Predicate} {u t : LogicalPlan}, p.Within u.tableNames →
      (∀ x ∈ u.tables, x ∈ t.tables) → p.Within t.tableNames := by
    intro p u t hp hsub c hc col hcol
    rcases List.mem_map.mp (hp c hc col hcol) with ⟨x, hx, heq⟩
    rw [← heq]
    exact List.mem_map_of_mem (hsub x hx)
  induction h with
  | table t => nofun
  | select ht hp ih =>
      intro q hq
      simp only [guards_node, LogicalOp.guard?, Option.toList_some, List.mem_append,
        List.mem_singleton, List.flatMap_singleton] at hq
      rcases hq with rfl | hq
      · exact hmono hp (by simp)
      · exact hmono (ih q hq) (by simp)
  | product hne hts ih =>
      intro q hq
      simp only [guards_node, LogicalOp.guard?, Option.toList_none, List.nil_append,
        List.mem_flatMap] at hq
      rcases hq with ⟨t, ht, hq⟩
      exact hmono (ih t ht q hq) fun x hx => mem_tables_of_input ht hx
  | @join j l r hl hr hleft hright ihl ihr =>
      have hnames : tableNames (.node (.join j) [l, r]) = l.tableNames ++ r.tableNames := by
        simp [tableNames]
      intro q hq
      simp only [guards_node, LogicalOp.guard?, Option.toList_some, List.mem_append,
        List.mem_singleton, List.flatMap_cons, List.flatMap_nil, List.append_nil] at hq
      rcases hq with rfl | hq | hq
      · intro c hc col hcol
        rw [Predicate.conditions, List.mem_singleton] at hc
        rw [hc, Condition.columns] at hcol
        rw [hnames, List.mem_append]
        rcases List.mem_cons.mp hcol with rfl | hcol
        · exact Or.inl hleft
        · rw [List.mem_singleton.mp hcol]
          exact Or.inr hright
      · exact hmono (ihl q hq) (by simp +contextual)
      · exact hmono (ihr q hq) (by simp +contextual)
  | orderBy ht ih =>
      intro q hq
      simp only [guards_node, LogicalOp.guard?, Option.toList_none, List.nil_append,
        List.flatMap_singleton] at hq
      exact hmono (ih q hq) (by simp)

/-!
## What is asked of a plan
-/

/-- The tables are in the source under different names, and the tests fit in them. -/
structure Readable (source : TableSource) (t : LogicalPlan) : Prop where
  has : ∀ u ∈ t.tables, source.Has u
  distinct : t.tableNames.Nodup
  fit : Predicate.FitIn t.guards t.tables

theorem Readable.input {op : LogicalOp} (h : Readable source (.node op ts)) (ht : t ∈ ts) :
    t.Readable source where
  has := fun u hu => h.has u (mem_tables_of_input ht hu)
  distinct := by
    have hdistinct := h.distinct
    rw [tableNames, tables_node (List.ne_nil_of_mem ht), List.map_flatMap,
      List.nodup_flatMap] at hdistinct
    exact hdistinct.1 t ht
  fit := h.fit.mono (fun _ hp => mem_guards_of_input ht hp)
    fun _ hu => mem_tables_of_input ht hu

/-- The selections that index scans answer, by their heights. -/
def answered (selections : List Predicate) (heights : List Nat) : List Predicate :=
  heights.filterMap fun height => selections[height]?

/-- Under some selections the plan is lowered to one that computes what the plan stands for,
restricted by those of the selections that it answers. -/
def Computes (source : TableSource) (t : LogicalPlan) (selections : List Predicate) : Prop :=
  (∀ height ∈ (withAccess source selections t).2, height < selections.length) ∧
    ∃ P R, PhysicalPlan.lower (withAccess source selections t).1 none = .ok (P, none) ∧
      PhysicalPlan.evaluate source P = .ok R ∧
        R.Answers source t.tables
          (allHold (t.guards ++ answered selections (withAccess source selections t).2))

theorem Computes.alone (h : t.Computes source []) :
    ∃ P R, PhysicalPlan.lower (withAccess source [] t).1 none = .ok (P, none) ∧
      PhysicalPlan.evaluate source P = .ok R ∧ R.Answers source t.tables (allHold t.guards) := by
  rcases h with ⟨_, P, R, hlower, hevaluate, hanswers⟩
  refine ⟨P, R, hlower, hevaluate, hanswers.congr ?_⟩
  apply allHold_congr
  simp [answered]

theorem withAccess_table {u : Table} {s : TableStore} (hs : source u.name = some s)
    (selections : List Predicate) :
    withAccess source selections (.node (.table u) []) =
      match s.accessPath? u selections with
      | some path => (.node (.indexed u path) [], [path.height])
      | none => (.node (.asWritten (.table u)) [], []) := by
  have hpathIn : pathIn? source u selections = s.accessPath? u selections := by
    simp [pathIn?, hs]
  cases hpath : s.accessPath? u selections <;> simp [withAccess, hpathIn, hpath]

theorem answers_table {u : Table} {s : TableStore} (hs : source u.name = some s) :
    (Relation.ofRows u.effectiveName s.toList).Answers source [u]
      (allHold (guards (.node (.table u) []) ++ answered selections [])) := by
  apply Relation.answers_ofRows
  simp [TableSource.rowsOf, hs, allHold, answered, guards, PlanTree.operators,
    PlanTree.operatorsOf, LogicalOp.guard?]

theorem answers_selected {u : Table} {s : TableStore} (hs : source u.name = some s)
    {height : Nat} {p : Predicate} {rows : List Row} (hselection : selections[height]? = some p)
    (hperm : rows.Perm (s.toList.filter fun row =>
      p.eval (({ rows := [row] } : Entry).assignment [u.effectiveName]))) :
    (Relation.ofRows u.effectiveName rows).Answers source [u]
      (allHold (guards (.node (.table u) []) ++ answered selections [height])) := by
  apply Relation.answers_ofRows
  simpa [TableSource.rowsOf, hs, allHold, answered, guards, PlanTree.operators,
    PlanTree.operatorsOf, LogicalOp.guard?, hselection] using hperm

theorem computes_table (u : Table) (h : Readable source (.node (.table u) []))
    (hfit : Predicate.FitIn selections [u]) :
    Computes source (.node (.table u) []) selections := by
  rcases h.has u (List.mem_singleton_self u) with ⟨s, hs, hsound, hnamed, hcolumns⟩
  have hstore := TableSource.storeOf_eq_ok hs
  unfold Computes
  rw [withAccess_table hs]
  cases hpath : s.accessPath? u selections with
  | none =>
      refine ⟨nofun, .node (.tableScan u) [], .ofRows u.effectiveName s.toList, rfl, ?_,
        answers_table hs⟩
      simp [PhysicalPlan.evaluate, hstore]
  | some path =>
      rcases hsound.scan_path hnamed hcolumns hfit hpath with
        ⟨p, rows, hselection, hscan, hperm⟩
      refine ⟨?_, .node (.indexScan u path.index path.ranges) [],
        .ofRows u.effectiveName rows, rfl, ?_, answers_selected hs hselection hperm⟩
      · simpa using (List.getElem?_eq_some_iff.mp hselection).1
      · simp [PhysicalPlan.evaluate, hstore, hscan]

/-!
## Selections
-/

theorem withAccess_select (source : TableSource) (selections : List Predicate) (p : Predicate)
    (t : LogicalPlan) :
    withAccess source selections (.node (.select p) [t]) =
      (.node (if (withAccess source (p :: selections) t).2.contains 0 then .answered
          else .asWritten (.select p)) [(withAccess source (p :: selections) t).1],
        ((withAccess source (p :: selections) t).2.filter (0 < ·)).map (· - 1)) := by
  simp [withAccess, withAccessOf]

/-- One selection further down, the answered heights count from there. -/
theorem mem_answered_cons {p q : Predicate} {heights : List Nat} :
    q ∈ answered (p :: selections) heights ↔
      (0 ∈ heights ∧ q = p) ∨
        q ∈ answered selections ((heights.filter (0 < ·)).map (· - 1)) := by
  simp only [answered, List.mem_filterMap, List.mem_map, List.mem_filter, decide_eq_true_eq]
  constructor
  · rintro ⟨height, hheight, hq⟩
    cases height with
    | zero => exact Or.inl ⟨hheight, by simpa using hq.symm⟩
    | succ n => exact Or.inr ⟨n, ⟨n + 1, ⟨hheight, Nat.succ_pos n⟩, rfl⟩, hq⟩
  · rintro (⟨hzero, rfl⟩ | ⟨_, ⟨height, ⟨hheight, hpos⟩, rfl⟩, hq⟩)
    · exact ⟨0, hzero, rfl⟩
    · refine ⟨height, hheight, ?_⟩
      cases height with
      | zero => exact absurd hpos (Nat.lt_irrefl 0)
      | succ n => exact hq

/-- A selection is lowered to a filter, or to nothing where the scan below answers it.  Both ways
it adds its condition to what the plan below computes. -/
theorem lower_select {p : Predicate} {P : PhysicalPlan}
    (hheights : ∀ height ∈ (withAccess source (p :: selections) t).2,
      height < (p :: selections).length)
    (hlower : PhysicalPlan.lower (withAccess source (p :: selections) t).1 none = .ok (P, none)) :
    (∀ height ∈ (withAccess source selections (.node (.select p) [t])).2,
      height < selections.length) ∧
    ∃ (P' : PhysicalPlan) (f : Relation → Relation),
      PhysicalPlan.lower (withAccess source selections (.node (.select p) [t])).1 none =
        .ok (P', none) ∧
      PhysicalPlan.evaluate source P' = (PhysicalPlan.evaluate source P).map f ∧
      ∀ R : Relation,
        R.Answers source t.tables
          (allHold (t.guards ++ answered (p :: selections)
            (withAccess source (p :: selections) t).2)) →
        (f R).Answers source (tables (.node (.select p) [t]))
          (allHold (guards (.node (.select p) [t]) ++ answered selections
            (withAccess source selections (.node (.select p) [t])).2)) := by
  rw [withAccess_select, tables_single]
  generalize withAccess source (p :: selections) t = accessed at *
  rcases accessed with ⟨A, heights⟩
  refine ⟨?_, ?_⟩
  · intro height hheight
    simp only [List.mem_map, List.mem_filter, decide_eq_true_eq] at hheight
    rcases hheight with ⟨height', ⟨hheight', hpos⟩, rfl⟩
    have hlt := hheights height' hheight'
    rw [List.length_cons] at hlt
    omega
  · by_cases hzero : 0 ∈ heights
    · -- The scan below answers this selection, which is left out.
      refine ⟨P, id, ?_, ?_, fun R hR => hR.congr ?_⟩
      · simpa [hzero, PhysicalPlan.lower] using hlower
      · cases PhysicalPlan.evaluate source P <;> rfl
      · apply allHold_congr
        intro q
        simp only [guards_node, LogicalOp.guard?, Option.toList_some, List.flatMap_singleton,
          List.mem_append, List.mem_singleton, mem_answered_cons, hzero, true_and]
        tauto
    · refine ⟨.node (.select p) [P], (Relation.filter · p), ?_, ?_, fun R hR => (hR.filter p).congr ?_⟩
      · rw [if_neg (by simpa using hzero)]
        exact lower_above rfl rfl (lowerAll_singleton hlower) none
      · rw [PhysicalPlan.evaluate]
        cases PhysicalPlan.evaluate source P <;> rfl
      · intro a
        have hsingle : p.eval a = allHold [p] a := by simp [allHold]
        rw [hsingle, ← allHold_append]
        apply allHold_congr
        intro q
        simp only [guards_node, LogicalOp.guard?, Option.toList_some, List.flatMap_singleton,
          List.mem_append, List.mem_singleton, mem_answered_cons, hzero, false_and, false_or]
        tauto

theorem computes_select {p : Predicate} (h : t.Computes source (p :: selections)) :
    Computes source (.node (.select p) [t]) selections := by
  rcases h with ⟨hheights, P, R, hlower, hevaluate, hanswers⟩
  rcases lower_select hheights hlower with ⟨hheights', P', f, hlower', hevaluate', hf⟩
  refine ⟨hheights', P', f R, hlower', ?_, hf R hanswers⟩
  rw [hevaluate', hevaluate]
  rfl

/-!
## Operators that read several inputs
-/

def LowersTo (source : TableSource) (t : LogicalPlan) (P : PhysicalPlan) : Prop :=
  PhysicalPlan.lower (withAccess source [] t).1 none = .ok (P, none) ∧
    ∃ R, PhysicalPlan.evaluate source P = .ok R ∧ R.Answers source t.tables (allHold t.guards)

theorem lowerAll_of_forall {R : LogicalPlan → PhysicalPlan → Prop}
    (h : ∀ t ∈ ts, ∃ P, PhysicalPlan.lower (withAccess source [] t).1 none = .ok (P, none) ∧
      R t P) :
    ∃ Ps, PhysicalPlan.lowerAll (withAccessOf source [] ts).1 none = .ok (Ps, none) ∧
      List.Forall₂ R ts Ps := by
  induction ts with
  | nil => exact ⟨[], rfl, List.Forall₂.nil⟩
  | cons t ts ih =>
      rcases h t List.mem_cons_self with ⟨P, hlower, hR⟩
      rcases ih fun u hu => h u (List.mem_cons_of_mem _ hu) with ⟨Ps, hPs, hall⟩
      refine ⟨P :: Ps, ?_, List.Forall₂.cons hR hall⟩
      simp [withAccessOf, PhysicalPlan.lowerAll, hlower, hPs]

theorem lowerAll_ok (h : ∀ t ∈ ts, t.Computes source []) :
    ∃ Ps, PhysicalPlan.lowerAll (withAccessOf source [] ts).1 none = .ok (Ps, none) ∧
      List.Forall₂ (LowersTo source) ts Ps := by
  apply lowerAll_of_forall
  intro t ht
  rcases (h t ht).alone with ⟨P, R, hlower, hevaluate, hanswers⟩
  exact ⟨P, hlower, hlower, R, hevaluate, hanswers⟩

theorem evaluateProduct_ok {Ps : List PhysicalPlan} (hts : List.Forall₂ (LowersTo source) ts Ps)
    (hR : R.Answers source us (allHold ps)) (hps : ∀ p ∈ ps, p.Within (us.map (·.effectiveName)))
    (hwithin : ∀ t ∈ ts, ∀ p ∈ t.guards, p.Within t.tableNames)
    (hdistinct : ((us ++ ts.flatMap tables).map (·.effectiveName)).Nodup) :
    ∃ R', PhysicalPlan.evaluateProduct source R Ps = .ok R' ∧
      R'.Answers source (us ++ ts.flatMap tables) (allHold (ps ++ ts.flatMap guards)) := by
  induction hts generalizing R us ps with
  | nil => exact ⟨R, rfl, by simpa using hR⟩
  | @cons t P ts Ps ht _ ih =>
      rcases ht with ⟨_, T, hevaluate, hT⟩
      have hdistinct' := hdistinct
      rw [List.flatMap_cons, ← List.append_assoc, List.map_append, List.nodup_append] at hdistinct'
      have hapart : ∀ name ∈ t.tables.map (·.effectiveName), name ∉ us.map (·.effectiveName) := by
        have hnodup := hdistinct'.1
        rw [List.map_append, List.nodup_append] at hnodup
        intro name hname hname'
        exact hnodup.2.2 name hname' name hname rfl
      have hguards := hwithin t List.mem_cons_self
      have hproduct := hR.product hT hapart (dependsOn_allHold hps) (dependsOn_allHold hguards)
      have hproduct' := hproduct.congr fun a => (allHold_append ps t.guards a).symm
      have hps' : ∀ p ∈ ps ++ t.guards, p.Within ((us ++ t.tables).map (·.effectiveName)) := by
        intro p hp c hc col hcol
        rw [List.map_append, List.mem_append]
        rcases List.mem_append.mp hp with hp | hp
        · exact Or.inl (hps p hp c hc col hcol)
        · exact Or.inr (hguards p hp c hc col hcol)
      rcases ih hproduct' hps' (fun u hu => hwithin u (List.mem_cons_of_mem _ hu))
        (by rwa [List.append_assoc, ← List.flatMap_cons]) with ⟨R', hR', hanswers⟩
      refine ⟨R', ?_, ?_⟩
      · simp [PhysicalPlan.evaluateProduct, hevaluate, hR']
      · simpa [List.append_assoc] using hanswers

theorem computes_of_lowersTo {op : LogicalOp} {P : PhysicalPlan}
    (haccess : withAccess source selections (.node op ts) =
      (.node (.asWritten op) (withAccessOf source [] ts).1, []))
    (hlower : PhysicalPlan.lower (.node (.asWritten op) (withAccessOf source [] ts).1) none =
      .ok (P, none))
    (hevaluate : ∃ R, PhysicalPlan.evaluate source P = .ok R ∧
      R.Answers source (tables (.node op ts)) (allHold (guards (.node op ts)))) :
    Computes source (.node op ts) selections := by
  rcases hevaluate with ⟨R, hevaluate, hanswers⟩
  unfold Computes
  rw [haccess]
  refine ⟨nofun, P, R, hlower, hevaluate, hanswers.congr ?_⟩
  apply allHold_congr
  simp [answered]

theorem computes_product (hne : ts ≠ [])
    (hts : ∀ t ∈ ts, t.Formed) (hdistinct : (tableNames (.node .product ts)).Nodup)
    (h : ∀ t ∈ ts, t.Computes source []) : Computes source (.node .product ts) selections := by
  rcases lowerAll_ok h with ⟨Ps, hPs, hall⟩
  apply computes_of_lowersTo rfl (P := .node .product Ps)
  · exact lower_above rfl rfl hPs none
  · cases hall with
    | nil => exact absurd rfl hne
    | @cons t P ts Ps ht hrest =>
        rcases ht with ⟨_, R, hevaluate, hanswers⟩
        rw [tableNames, tables_node hne, List.flatMap_cons] at hdistinct
        rcases evaluateProduct_ok hrest hanswers (hts t List.mem_cons_self).guards_within
          (fun u hu => (hts u (List.mem_cons_of_mem _ hu)).guards_within) hdistinct with
          ⟨R', hR', hanswers'⟩
        refine ⟨R', ?_, ?_⟩
        · simp [PhysicalPlan.evaluate, hevaluate, hR']
        · rw [tables_node hne, List.flatMap_cons]
          simpa [LogicalOp.guard?] using hanswers'

theorem computes_join {j : ColumnJoin} (hl : l.Formed) (hr : r.Formed)
    (hleft : j.left.table ∈ l.tableNames) (hright : j.right.table ∈ r.tableNames)
    (hdistinct : (tableNames (.node (.join j) [l, r])).Nodup)
    (hlcomputes : l.Computes source []) (hrcomputes : r.Computes source []) :
    Computes source (.node (.join j) [l, r]) selections := by
  rcases hlcomputes.alone with ⟨P, L, hlowerL, hevaluateL, hanswersL⟩
  rcases hrcomputes.alone with ⟨Q, R, hlowerR, hevaluateR, hanswersR⟩
  apply computes_of_lowersTo rfl (P := .node (.join j) [P, Q])
  · exact lower_above rfl rfl (lowerAll_pair hlowerL hlowerR) none
  · rw [tableNames, tables_pair, List.map_append, List.nodup_append] at hdistinct
    have hapart : ∀ name ∈ r.tables.map (·.effectiveName), name ∉ l.tables.map (·.effectiveName) :=
      fun name hname hname' => hdistinct.2.2 name hname' name hname rfl
    have hjoin := hanswersL.join hanswersR hapart (dependsOn_allHold hl.guards_within)
      (dependsOn_allHold hr.guards_within) hleft hright
    refine ⟨L.join R j, ?_, ?_⟩
    · simp [PhysicalPlan.evaluate, hevaluateL, hevaluateR]
    · rw [tables_pair]
      apply hjoin.congr
      intro a
      simp [allHold, LogicalOp.guard?, Bool.and_comm]

theorem computes_orderBy {order : SortOrder} (h : t.Computes source []) :
    Computes source (.node (.orderBy order) [t]) selections := by
  rcases h.alone with ⟨P, R, hlower, hevaluate, hanswers⟩
  apply computes_of_lowersTo rfl (P := .node (.orderBy order) [P])
  · exact lower_past rfl rfl (lowerAll_singleton hlower)
  · refine ⟨R.sort order, by simp [PhysicalPlan.evaluate, hevaluate], ?_⟩
    rw [tables_single]
    simpa [LogicalOp.guard?] using hanswers.sort order

theorem Formed.computes (h : t.Formed) (hreadable : t.Readable source)
    (hfit : Predicate.FitIn selections t.tables) : t.Computes source selections := by
  induction h generalizing selections with
  | table u => exact computes_table u hreadable hfit
  | @select p t ht hp ih =>
      apply computes_select
      exact ih (hreadable.input (List.mem_singleton_self t)) (hfit.below_select hreadable.fit)
  | @product ts hne hts ih =>
      exact computes_product hne hts hreadable.distinct fun t ht =>
        ih t ht (hreadable.input ht) (Predicate.fitIn_nil _)
  | @join j l r hl hr hleft hright ihl ihr =>
      exact computes_join hl hr hleft hright hreadable.distinct
        (ihl (hreadable.input List.mem_cons_self) (Predicate.fitIn_nil _))
        (ihr (hreadable.input (List.mem_cons_of_mem _ List.mem_cons_self)) (Predicate.fitIn_nil _))
  | @orderBy order t ht ih =>
      exact computes_orderBy (ih (hreadable.input (List.mem_singleton_self t)) (Predicate.fitIn_nil _))

end LogicalPlan

end RelationalDb
