import Mathlib
import RelationalDb.Proofs.Plan.Placement

/-!
# Equalities that become joins

Several conjuncts can meet at one product: those of several tables whose last table is the one
that the product adds.  They stand above it in the order in which they are written, and only the
last of them, which is directly above the product, is tried for a join.  An equality of two tables
is therefore sure to become a join where nothing else meets it, and can be missed elsewhere.
-/

namespace RelationalDb

namespace Predicate

variable {p : Predicate} {left right : List String}

/-- The predicate asks that columns of two tables be equal. -/
inductive EquatesTables : Predicate → Prop
  | intro {j : ColumnJoin} (hequal : j.isEquality = true) (hne : j.left.table ≠ j.right.table) :
      EquatesTables (.condition (.join j))

/-- The predicate asks that a column of a left table and a column of a right table be equal, in
either order. -/
inductive Equates (left right : List String) : Predicate → Prop
  | straight {j : ColumnJoin} (hequal : j.isEquality = true) (hleft : j.left.table ∈ left)
      (hright : j.right.table ∈ right) : Equates left right (.condition (.join j))
  | crossed {j : ColumnJoin} (hequal : j.isEquality = true) (hleft : j.right.table ∈ left)
      (hright : j.left.table ∈ right) : Equates left right (.condition (.join j))

/-- The last of some tables that a predicate reads.  A predicate without tables can be tested after
all of them. -/
def lastOf? (names : List String) (p : Predicate) : Option String :=
  (names.filter fun name => p.tables.isEmpty || p.tables.contains name).getLast?

theorem lastOf?_concat (names : List String) (name : String) (p : Predicate) :
    p.lastOf? (names ++ [name]) =
      if p.tables.isEmpty || p.tables.contains name then some name else p.lastOf? names := by
  unfold lastOf?
  rw [List.filter_append, List.filter_singleton]
  cases p.tables.isEmpty || p.tables.contains name with
  | true => exact List.getLast?_concat
  | false => exact congrArg List.getLast? (List.append_nil _)

theorem mem_of_lastOf? {names : List String} {name : String} (h : p.lastOf? names = some name) :
    name ∈ names :=
  List.mem_of_mem_filter (List.mem_of_getLast? h)

theorem isSome_joinOver? : (p.joinOver? left right).isSome ↔ p.Equates left right := by
  constructor
  · intro h
    rcases Option.isSome_iff_exists.mp h with ⟨j, hj⟩
    rcases LogicalPlan.joinOver?_eq_some hj with ⟨j₀, rfl, hequal, rfl | rfl, hleft, hright⟩
    · exact .straight hequal hleft hright
    · exact .crossed hequal hleft hright
  · intro h
    cases h with
    | straight hequal hleft hright =>
        simp [joinOver?, hequal, LogicalPlan.orient?, hleft, hright]
    | crossed hequal hleft hright =>
        simp only [joinOver?, hequal, if_true, LogicalPlan.orient?]
        split
        · rfl
        · simp [hleft, hright]

theorem Equates.equatesTables (h : p.Equates left right) (hdisjoint : left.Disjoint right) :
    p.EquatesTables := by
  cases h with
  | straight hequal hleft hright =>
      exact .intro hequal fun heq => hdisjoint hleft (heq ▸ hright)
  | crossed hequal hleft hright =>
      exact .intro hequal fun heq => hdisjoint hleft (heq ▸ hright)

theorem EquatesTables.exists_ne (h : p.EquatesTables) :
    ∃ a ∈ p.tables, ∃ b ∈ p.tables, a ≠ b := by
  cases h with
  | @intro j hequal hne =>
      exact ⟨_, LogicalPlan.mem_tables_join.mpr (Or.inl rfl), _,
        LogicalPlan.mem_tables_join.mpr (Or.inr rfl), hne⟩

theorem EquatesTables.length_ne_one (h : p.EquatesTables) : p.tables.length ≠ 1 := by
  intro hlength
  rcases h.exists_ne with ⟨a, ha, b, hb, hne⟩
  rcases List.length_eq_one_iff.mp hlength with ⟨c, hc⟩
  rw [hc, List.mem_singleton] at ha hb
  exact hne (ha.trans hb.symm)

theorem EquatesTables.equates (h : p.EquatesTables) (hwithin : p.Within (left ++ right))
    {ps : List Predicate} (hp : p ∈ LogicalPlan.staying left right ps) : p.Equates left right := by
  have hsame := beq_iff_eq.mp (List.mem_filter.mp hp).2
  cases h with
  | @intro j hequal hne =>
      have hiff : (j.left.table ∈ left ∧ j.right.table ∈ left) ↔
          (j.left.table ∈ right ∧ j.right.table ∈ right) := by
        rw [← LogicalPlan.covers_join_iff, hsame, LogicalPlan.covers_join_iff]
      rw [← LogicalPlan.covers_iff, LogicalPlan.covers_join_iff, List.mem_append,
        List.mem_append] at hwithin
      rcases hwithin with ⟨hl | hl, hr | hr⟩
      · exact .straight hequal hl (hiff.mp ⟨hl, hr⟩).2
      · exact .straight hequal hl hr
      · exact .crossed hequal hr hl
      · exact .straight hequal (hiff.mpr ⟨hl, hr⟩).1 hr

theorem equates_iff (hdisjoint : left.Disjoint right) (hwithin : p.Within (left ++ right))
    {ps : List Predicate} (hp : p ∈ LogicalPlan.staying left right ps) :
    p.Equates left right ↔ p.EquatesTables :=
  ⟨fun h => h.equatesTables hdisjoint, fun h => h.equates hwithin hp⟩

end Predicate

namespace LogicalPlan

open PlanTree (under)

variable {t l r : LogicalPlan} {us : List Table} {u : Table} {p : Predicate} {j : ColumnJoin}
  {ps : List Predicate} {names : List String} {name : String}

/-- The conjuncts that meet where the table of a name is combined with those before it: they do not
belong to a single table, and it is the last one that they read. -/
def meetingAt (names : List String) (ps : List Predicate) (name : String) : List Predicate :=
  ps.filter fun p => p.tables.length != 1 && p.lastOf? names == some name

def run : LogicalPlan → List Predicate
  | .node (.select p) [t] => p :: run t
  | _ => []

/-- Somewhere in the plan a product stands below a selection for an equality of its two sides, with
only selections between them. -/
inductive MissesJoin : LogicalPlan → Prop
  | here {t l r : LogicalPlan} {p : Predicate} (hbase : t.base = .node .product [l, r])
      (hp : p ∈ t.run) (hequates : p.Equates l.tableNames r.tableNames) : MissesJoin t
  | input {op : LogicalOp} {ts : List LogicalPlan} {t : LogicalPlan} (ht : t ∈ ts)
      (h : MissesJoin t) : MissesJoin (.node op ts)

/-!
## Conjuncts that meet
-/

theorem covers_singleton (name : String) (p : Predicate) :
    covers [name] p = (p.tables.isEmpty || p.tables.contains name && p.tables.length == 1) := by
  rw [Bool.eq_iff_iff, covers_iff, within_iff]
  simp only [List.mem_singleton, Bool.or_eq_true, Bool.and_eq_true, List.isEmpty_iff,
    List.contains_iff_mem, beq_iff_eq]
  constructor
  · intro h
    have hle : p.tables.length ≤ 1 :=
      ((nodup_tables p).subperm fun x hx => List.mem_singleton.mpr (h x hx)).length_le
    cases htables : p.tables with
    | nil => exact Or.inl rfl
    | cons x rest =>
        rw [htables] at h hle
        refine Or.inr ⟨?_, Nat.le_antisymm hle (Nat.succ_pos _)⟩
        rw [h x List.mem_cons_self]
        exact List.mem_cons_self
  · rintro (hnil | ⟨hmem, hlength⟩) x hx
    · rw [hnil] at hx
      cases hx
    · rcases List.length_eq_one_iff.mp hlength with ⟨y, hy⟩
      rw [hy, List.mem_singleton] at hmem hx
      exact hx.trans hmem.symm

theorem covers_of_within (hname : name ∉ names) (hp : p.Within (names ++ [name])) :
    covers names p = !p.tables.contains name := by
  rw [Bool.eq_iff_iff, covers_iff, within_iff, Bool.not_eq_true', ← Bool.not_eq_true,
    List.contains_iff_mem]
  constructor
  · exact fun h hmem => hname (h name hmem)
  · intro hnot x hx
    rcases List.mem_append.mp (within_iff.mp hp x hx) with hmem | hmem
    · exact hmem
    · rw [List.mem_singleton.mp hmem] at hx
      exact absurd hx hnot

theorem staying_eq_meetingAt (hname : name ∉ names) (hps : ∀ p ∈ ps, p.Within (names ++ [name])) :
    staying names [name] ps = meetingAt (names ++ [name]) ps name := by
  apply List.filter_congr
  intro p hp
  rw [covers_of_within hname (hps p hp), covers_singleton, Predicate.lastOf?_concat]
  have hlast : p.lastOf? names ≠ some name := fun h => hname (Predicate.mem_of_lastOf? h)
  -- without the new table a conjunct goes down to the left, and with it alone to the right
  cases htables : p.tables with
  | nil => simp
  | cons x rest =>
      cases (x :: rest).contains name with
      | true => simp [bne]
      | false => simp [hlast]

theorem meetingAt_descending {last : String} (hlast : last ∉ names)
    (hps : ∀ p ∈ ps, p.Within (names ++ [last])) (hname : name ∈ names) :
    meetingAt names (descending names [last] ps) name = meetingAt (names ++ [last]) ps name := by
  unfold meetingAt descending
  rw [List.filter_filter]
  apply List.filter_congr
  intro p hp
  rw [covers_of_within hlast (hps p hp), covers_singleton, Predicate.lastOf?_concat]
  have hne : (some last == some name) = false := by
    rw [beq_eq_false_iff_ne]
    rintro ⟨⟩
    exact hlast hname
  cases htables : p.tables with
  | nil => simp [hne]
  | cons x rest =>
      cases hmem : (x :: rest).contains last with
      | true => simp [hne]
      | false => simp

theorem exists_mem_meetingAt (hp : p ∈ ps) (hequates : p.EquatesTables) (hwithin : p.Within names) :
    ∃ name ∈ names, p ∈ meetingAt names ps name := by
  rcases hequates.exists_ne with ⟨a, ha, _⟩
  have hread : a ∈ names.filter fun name => p.tables.isEmpty || p.tables.contains name := by
    rw [List.mem_filter, List.contains_iff_mem.mpr ha, Bool.or_true]
    exact ⟨within_iff.mp hwithin a ha, rfl⟩
  have hsome : (p.lastOf? names).isSome := by
    rw [Predicate.lastOf?, List.getLast?_isSome]
    exact List.ne_nil_of_mem hread
  rcases Option.isSome_iff_exists.mp hsome with ⟨name, hname⟩
  refine ⟨name, Predicate.mem_of_lastOf? hname, List.mem_filter.mpr ⟨hp, ?_⟩⟩
  simp [hname, hequates.length_ne_one]

/-!
## Joins that are missed
-/

theorem run_selections (ps : List Predicate) (t : LogicalPlan) :
    (selections ps t).run = ps ++ t.run := by
  induction ps with
  | nil => rfl
  | cons p ps ih => rw [selections_cons, run, ih, List.cons_append]

theorem missesJoin_of_run_eq_nil {op : LogicalOp} {ts : List LogicalPlan}
    (hrun : run (.node op ts) = []) : MissesJoin (.node op ts) ↔ ∃ t ∈ ts, MissesJoin t := by
  constructor
  · intro h
    cases h with
    | here hbase hp hequates =>
        rw [hrun] at hp
        cases hp
    | input ht h => exact ⟨_, ht, h⟩
  · rintro ⟨t, ht, h⟩
    exact .input ht h

theorem missesJoin_selections (hrun : t.run = []) : MissesJoin (selections ps t) ↔
    (∃ l r : LogicalPlan, t.base = .node .product [l, r] ∧
      ∃ p ∈ ps, p.Equates l.tableNames r.tableNames) ∨ MissesJoin t := by
  constructor
  · intro h
    induction ps with
    | nil => exact Or.inr h
    | cons p ps ih =>
        rw [selections_cons] at h
        cases h with
        | here hbase hp hequates =>
            rw [← selections_cons, base_selections] at hbase
            rw [← selections_cons, run_selections, hrun, List.append_nil] at hp
            exact Or.inl ⟨_, _, hbase, _, hp, hequates⟩
        | input hmem h =>
            cases List.mem_singleton.mp hmem
            rcases ih h with ⟨l, r, hbase, q, hq, hequates⟩ | h
            · exact Or.inl ⟨l, r, hbase, q, List.mem_cons_of_mem _ hq, hequates⟩
            · exact Or.inr h
  · rintro (⟨l, r, hbase, p, hp, hequates⟩ | h)
    · refine MissesJoin.here ((base_selections ps t).trans hbase) ?_ hequates
      rw [run_selections]
      exact List.mem_append_left _ hp
    · induction ps with
      | nil => exact h
      | cons p ps ih => exact .input (List.mem_singleton_self _) ih

theorem not_missesJoin_selections_table (ps : List Predicate) (u : Table) :
    ¬ MissesJoin (selections ps (.node (.table u) [])) := by
  rw [missesJoin_selections rfl, missesJoin_of_run_eq_nil rfl]
  rintro (⟨l, r, hbase, _⟩ | ⟨t, ht, _⟩)
  · cases hbase
  · cases ht

theorem missesJoin_combined : MissesJoin (combined ps l r) ↔
    ((∃ p ∈ ps, p.Equates l.tableNames r.tableNames) ∧
      ∀ p, ps.getLast? = some p → ¬ p.Equates l.tableNames r.tableNames) ∨
      MissesJoin l ∨ MissesJoin r := by
  have hinputs : ∀ op : LogicalOp, run (.node op [l, r]) = [] →
      (MissesJoin (.node op [l, r]) ↔ MissesJoin l ∨ MissesJoin r) := by
    intro op hrun
    rw [missesJoin_of_run_eq_nil hrun]
    simp
  unfold combined
  cases hmade : madeJoin? ps l.tableNames r.tableNames with
  | none =>
      have hlast : ∀ p, ps.getLast? = some p → ¬ p.Equates l.tableNames r.tableNames := by
        intro p hp hequates
        rw [madeJoin?, hp, Option.bind_some] at hmade
        rw [← Predicate.isSome_joinOver?, hmade] at hequates
        cases hequates
      change MissesJoin (selections ps _) ↔ _
      rw [missesJoin_selections rfl, hinputs _ rfl]
      apply or_congr_left
      constructor
      · rintro ⟨l', r', hbase, hexists⟩
        cases hbase
        exact ⟨hexists, hlast⟩
      · rintro ⟨hexists, _⟩
        exact ⟨l, r, rfl, hexists⟩
  | some j =>
      rcases Option.bind_eq_some_iff.mp hmade with ⟨p, hp, hj⟩
      have hequates : p.Equates l.tableNames r.tableNames := by
        rw [← Predicate.isSome_joinOver?, hj]
        rfl
      change MissesJoin (selections ps.dropLast _) ↔ _
      rw [missesJoin_selections rfl, hinputs _ rfl]
      apply or_congr_left
      constructor
      · rintro ⟨l', r', hbase, _⟩
        cases hbase
      · rintro ⟨_, hnone⟩
        exact absurd hequates (hnone p hp)

theorem exists_join_of_combined (hp : ps.getLast? = some p)
    (hequates : p.Equates l.tableNames r.tableNames) :
    ∃ j, .join j ∈ (combined ps l r).operators ∧ (LogicalOp.join j).AsksFor p := by
  rcases Option.isSome_iff_exists.mp (Predicate.isSome_joinOver?.mpr hequates) with ⟨j, hj⟩
  refine ⟨j, ?_, (sides_of_joinOver? hj).2.2⟩
  have hmade : madeJoin? ps l.tableNames r.tableNames = some j := by
    rw [madeJoin?, hp, Option.bind_some, hj]
  have hasker : .join j ∈ (selections ps.dropLast (.node (.join j) [l, r])).askers := by
    rw [askers_selections, askers_node]
    simp [LogicalOp.guard?]
  unfold combined
  rw [hmade]
  exact List.mem_of_mem_filter hasker

/-!
## Optimized plans
-/

/-- An equality of two tables is among the conjuncts that meet at a table, but the last of them is
none. -/
def HidesEquality (names : List String) (ps : List Predicate) (name : String) : Prop :=
  (∃ p ∈ meetingAt names ps name, p.EquatesTables) ∧
    ∀ p, (meetingAt names ps name).getLast? = some p → ¬ p.EquatesTables

theorem not_equatesTables_of_within (hp : p.Within [name]) : ¬ p.EquatesTables := by
  intro hequates
  rcases hequates.exists_ne with ⟨a, ha, b, hb, hne⟩
  have hsame := within_iff.mp hp
  exact hne ((List.mem_singleton.mp (hsame a ha)).trans (List.mem_singleton.mp (hsame b hb)).symm)

theorem equates_iff_of_mem_meetingAt (hname : name ∉ names)
    (hps : ∀ p ∈ ps, p.Within (names ++ [name])) (hp : p ∈ meetingAt (names ++ [name]) ps name) :
    p.Equates names [name] ↔ p.EquatesTables := by
  have hwithin := hps p (List.mem_of_mem_filter hp)
  rw [← staying_eq_meetingAt hname hps] at hp
  exact Predicate.equates_iff (by simpa using hname) hwithin hp

theorem hidesEquality_iff (hname : name ∉ names) (hps : ∀ p ∈ ps, p.Within (names ++ [name])) :
    HidesEquality (names ++ [name]) ps name ↔
      (∃ p ∈ staying names [name] ps, p.Equates names [name]) ∧
        ∀ p, (staying names [name] ps).getLast? = some p → ¬ p.Equates names [name] := by
  rw [staying_eq_meetingAt hname hps]
  have hequates : ∀ p ∈ meetingAt (names ++ [name]) ps name,
      (p.Equates names [name] ↔ p.EquatesTables) :=
    fun p hp => equates_iff_of_mem_meetingAt hname hps hp
  constructor
  · rintro ⟨⟨p, hp, h⟩, hlast⟩
    refine ⟨⟨p, hp, (hequates p hp).mpr h⟩, ?_⟩
    intro p hp h
    exact hlast p hp ((hequates p (List.mem_of_getLast? hp)).mp h)
  · rintro ⟨⟨p, hp, h⟩, hlast⟩
    refine ⟨⟨p, hp, (hequates p hp).mp h⟩, ?_⟩
    intro p hp h
    exact hlast p hp ((hequates p (List.mem_of_getLast? hp)).mpr h)

theorem Optimized.missesJoin_iff (h : Optimized us ps t)
    (hdistinct : (us.map (·.effectiveName)).Nodup)
    (hps : ∀ p ∈ ps, p.Within (us.map (·.effectiveName))) :
    MissesJoin t ↔ ∃ name ∈ us.map (·.effectiveName),
      HidesEquality (us.map (·.effectiveName)) ps name := by
  induction h with
  | single u ps =>
      constructor
      · exact fun h => absurd h (not_missesJoin_selections_table ps u)
      · rintro ⟨name, _, ⟨p, hp, hequates⟩, _⟩
        exact absurd hequates (not_equatesTables_of_within (hps p (List.mem_of_mem_filter hp)))
  | @snoc us ps t u h ih =>
      rw [List.map_append, List.map_singleton] at hdistinct hps ⊢
      rw [← List.concat_eq_append, List.nodup_concat] at hdistinct
      rcases hdistinct with ⟨hlast, hdistinct⟩
      -- the conjuncts that meet at an earlier table all go down to the left
      have hbefore : ∀ name ∈ us.map (·.effectiveName),
          (HidesEquality (us.map (·.effectiveName))
              (descending (us.map (·.effectiveName)) [u.effectiveName] ps) name ↔
            HidesEquality (us.map (·.effectiveName) ++ [u.effectiveName]) ps name) := by
        intro name hname
        unfold HidesEquality
        rw [meetingAt_descending hlast hps hname]
      rw [missesJoin_combined, h.tableNames_eq, tableNames_selections_table,
        ← hidesEquality_iff hlast hps,
        ih hdistinct fun p hp => within_of_mem_descending hp]
      constructor
      · rintro (hhides | ⟨name, hname, hhides⟩ | hmisses)
        · exact ⟨_, List.mem_append_right _ (List.mem_singleton_self _), hhides⟩
        · exact ⟨name, List.mem_append_left _ hname, (hbefore name hname).mp hhides⟩
        · exact absurd hmisses (not_missesJoin_selections_table _ u)
      · rintro ⟨name, hname, hhides⟩
        rcases List.mem_append.mp hname with hname | hname
        · exact Or.inr (Or.inl ⟨name, hname, (hbefore name hname).mpr hhides⟩)
        · rw [List.mem_singleton.mp hname] at hhides
          exact Or.inl hhides

theorem operators_combined (ps : List Predicate) (l r : LogicalPlan) :
    l.operators ⊆ (combined ps l r).operators := by
  have hselections : ∀ (qs : List Predicate) (op : LogicalOp),
      l.operators ⊆ (selections qs (.node op [l, r])).operators := by
    intro qs op
    induction qs with
    | nil =>
        intro a ha
        change a ∈ op :: PlanTree.operatorsOf [l, r]
        rw [operatorsOf_eq]
        simp [ha]
    | cons q qs ih =>
        intro a ha
        change a ∈ LogicalOp.select q :: PlanTree.operatorsOf [selections qs (.node op [l, r])]
        rw [operatorsOf_eq]
        simp [ih ha]
  unfold combined
  split
  · exact hselections _ _
  · exact hselections _ _

theorem Optimized.exists_join (h : Optimized us ps t)
    (hdistinct : (us.map (·.effectiveName)).Nodup)
    (hps : ∀ p ∈ ps, p.Within (us.map (·.effectiveName))) (hname : name ∈ us.map (·.effectiveName))
    (hp : (meetingAt (us.map (·.effectiveName)) ps name).getLast? = some p)
    (hequates : p.EquatesTables) :
    ∃ j, .join j ∈ t.operators ∧ (LogicalOp.join j).AsksFor p := by
  induction h with
  | single u ps =>
      have hwithin := hps p (List.mem_of_mem_filter (List.mem_of_getLast? hp))
      exact absurd hequates (not_equatesTables_of_within hwithin)
  | @snoc us ps t u h ih =>
      rw [List.map_append, List.map_singleton] at hdistinct hps hname hp
      rw [← List.concat_eq_append, List.nodup_concat] at hdistinct
      rcases hdistinct with ⟨hlast, hdistinct⟩
      rcases List.mem_append.mp hname with hname | hname
      · rw [← meetingAt_descending hlast hps hname] at hp
        rcases ih hdistinct (fun p hp => within_of_mem_descending hp) hname hp with ⟨j, hj, hasks⟩
        exact ⟨j, operators_combined _ _ _ hj, hasks⟩
      · rw [List.mem_singleton.mp hname] at hp
        have hmeets := equates_iff_of_mem_meetingAt hlast hps (List.mem_of_getLast? hp)
        rw [← staying_eq_meetingAt hlast hps] at hp
        apply exists_join_of_combined hp
        rw [h.tableNames_eq, tableNames_selections_table]
        exact hmeets.mpr hequates

/-!
## Under the operators that order and cut
-/

theorem run_eq_nil_of_arranges {op : LogicalOp} (hop : op.Arranges) (ts : List LogicalPlan) :
    run (.node op ts) = [] := by
  cases hop <;> rfl

theorem missesJoin_under {ops : List LogicalOp} (hops : ∀ op ∈ ops, op.Arranges) :
    MissesJoin (under ops t) ↔ MissesJoin t := by
  induction ops with
  | nil => exact Iff.rfl
  | cons op ops ih =>
      rw [List.forall_mem_cons] at hops
      rw [under_cons, missesJoin_of_run_eq_nil (run_eq_nil_of_arranges hops.1 _)]
      simpa using ih hops.2

theorem operators_under (ops : List LogicalOp) (t : LogicalPlan) :
    (under ops t).operators = ops ++ t.operators := by
  induction ops with
  | nil => rfl
  | cons op ops ih =>
      rw [under_cons, PlanTree.operators, operatorsOf_eq, List.flatMap_singleton, ih,
        List.cons_append]

end LogicalPlan

namespace Select

variable {q q' : Select} {p : Predicate}

/-- The conjuncts of a query that meet where a table is combined with those before it. -/
def meetingAt (q : Select) (name : String) : List Predicate :=
  LogicalPlan.meetingAt q.names q.conjuncts name

/-- No equality of two tables meets another conjunct. -/
def EqualitiesAlone (q : Select) : Prop :=
  ∀ name ∈ q.names, ∀ p ∈ q.meetingAt name, p.EquatesTables → ∀ p' ∈ q.meetingAt name, p' = p

def turned (q : Select) : Select :=
  { q with predicate := q.predicate.map fun p =>
      match p with
      | .combine kind ps => .combine kind ps.reverse
      | p => p }

theorem missesJoin_logical (hcheck : q.check = .ok ()) :
    LogicalPlan.MissesJoin (Planner.logical {} q) ↔
      ∃ name ∈ q.names, LogicalPlan.HidesEquality q.names q.conjuncts name := by
  have hchecked := checked_of_check hcheck
  rcases exists_optimized hchecked with ⟨t, body, _, hstandard, hoptimized⟩
  change LogicalPlan.MissesJoin (Transformation.applyAll _ _) ↔ _
  rw [hstandard, LogicalPlan.missesJoin_of_run_eq_nil rfl]
  simp only [List.mem_singleton, exists_eq_left]
  rw [LogicalPlan.missesJoin_under arranges_of_mem_arrangement]
  exact hoptimized.missesJoin_iff hchecked.distinct fun p hp => within_of_mem_conjuncts hchecked hp

theorem exists_join_logical (hcheck : q.check = .ok ()) {name : String} (hname : name ∈ q.names)
    (hp : (q.meetingAt name).getLast? = some p) (hequates : p.EquatesTables) :
    ∃ j, .join j ∈ (Planner.logical {} q).operators ∧ (LogicalOp.join j).AsksFor p := by
  have hchecked := checked_of_check hcheck
  rcases exists_optimized hchecked with ⟨t, body, _, hstandard, hoptimized⟩
  rcases hoptimized.exists_join hchecked.distinct
    (fun p hp => within_of_mem_conjuncts hchecked hp) hname hp hequates with ⟨j, hj, hasks⟩
  refine ⟨j, ?_, hasks⟩
  change _ ∈ (Transformation.applyAll _ _).operators
  rw [hstandard, PlanTree.operators, LogicalPlan.operatorsOf_eq, List.flatMap_singleton,
    LogicalPlan.operators_under]
  exact List.mem_cons_of_mem _ (List.mem_append_right _ hj)

theorem EqualitiesAlone.of_perm (h : q.EqualitiesAlone) (htables : q'.tables = q.tables)
    (hperm : q'.conjuncts.Perm q.conjuncts) : q'.EqualitiesAlone := by
  have hnames : q'.names = q.names := by rw [names, htables, names]
  have hmem : ∀ name p, p ∈ q'.meetingAt name ↔ p ∈ q.meetingAt name := by
    intro name p
    unfold meetingAt
    rw [hnames]
    exact (hperm.filter _).mem_iff
  intro name hname p hp hequates p' hp'
  rw [hnames] at hname
  rw [hmem] at hp hp'
  exact h name hname p hp hequates p' hp'

theorem EqualitiesAlone.exists_join (h : q.EqualitiesAlone) (hcheck : q.check = .ok ())
    (hp : p ∈ q.conjuncts) (hequates : p.EquatesTables) :
    ∃ j, .join j ∈ (Planner.logical {} q).operators ∧ (LogicalOp.join j).AsksFor p := by
  rcases LogicalPlan.exists_mem_meetingAt hp hequates
    (within_of_mem_conjuncts (checked_of_check hcheck) hp) with ⟨name, hname, hmeets⟩
  apply exists_join_logical hcheck hname _ hequates
  have hne : q.meetingAt name ≠ [] := List.ne_nil_of_mem hmeets
  rw [List.getLast?_eq_some_getLast hne]
  exact congrArg some (h name hname p hmeets hequates _ (List.getLast_mem hne))

/-- The plan of a query keeps a product with an equality of its two sides in the selections right
above it exactly where the equality meets other conjuncts the last of which is no equality.  Where
equalities are alone no such product stays and every equality of two tables becomes a join, in
whatever order the conjuncts are written. -/
theorem lone_equalities_become_joins (hcheck : q.check = .ok ()) :
    (LogicalPlan.MissesJoin (Planner.logical {} q) ↔
      ∃ name ∈ q.names, (∃ p ∈ q.meetingAt name, p.EquatesTables) ∧
        ∀ p, (q.meetingAt name).getLast? = some p → ¬ p.EquatesTables) ∧
    (q.EqualitiesAlone → ∀ q' : Select, q'.check = .ok () → q'.tables = q.tables →
      q'.conjuncts.Perm q.conjuncts →
        ¬ LogicalPlan.MissesJoin (Planner.logical {} q') ∧
        ∀ p ∈ q.conjuncts, p.EquatesTables →
          ∃ j, .join j ∈ (Planner.logical {} q').operators ∧ (LogicalOp.join j).AsksFor p) := by
  refine ⟨missesJoin_logical hcheck, ?_⟩
  intro halone q' hcheck' htables hperm
  have halone' := halone.of_perm htables hperm
  constructor
  · intro hmisses
    rcases (missesJoin_logical hcheck').mp hmisses with ⟨name, hname, ⟨p, hp, hequates⟩, hlast⟩
    have hne : q'.meetingAt name ≠ [] := List.ne_nil_of_mem hp
    apply hlast _ (List.getLast?_eq_some_getLast hne)
    rwa [halone' name hname p hp hequates _ (List.getLast_mem hne)]
  · intro p hp hequates
    exact halone'.exists_join hcheck' (hperm.mem_iff.mpr hp) hequates

theorem sizes_are_joined_in_either_order :
    (sameSize (some (.int64 7))).check = .ok () ∧
      (sameSize (some (.int64 7))).EqualitiesAlone ∧
      ¬ LogicalPlan.MissesJoin (Planner.logical {} (sameSize (some (.int64 7))).turned) ∧
      ∀ p ∈ (sameSize (some (.int64 7))).conjuncts, p.EquatesTables →
        ∃ j, .join j ∈ (Planner.logical {} (sameSize (some (.int64 7))).turned).operators ∧
          (LogicalOp.join j).AsksFor p := by
  have hfirst : (sameSize (some (.int64 7))).meetingAt "item" = [] := rfl
  have hsecond : (sameSize (some (.int64 7))).meetingAt "other" =
      (sameSize (some (.int64 7))).conjuncts.tail := rfl
  have halone : (sameSize (some (.int64 7))).EqualitiesAlone := by
    intro name hname p hp _ p' hp'
    rcases List.mem_cons.mp hname with heq | hname
    · have hnone : name = "item" := heq
      rw [hnone, hfirst] at hp
      cases hp
    · have hother : name = "other" := List.mem_singleton.mp hname
      rw [hother, hsecond] at hp hp'
      exact (List.mem_singleton.mp hp').trans (List.mem_singleton.mp hp).symm
  refine ⟨rfl, halone, ?_⟩
  exact (lone_equalities_become_joins rfl).2 halone _ rfl rfl (List.Perm.swap _ _ _)

def smallerNamesakes : Select where
  tables := [.items, Table.items.withAlias "other"]
  predicate := some (.combine .conjunction
    [.condition (.join
      { left := { table := "item", column := "number", position := 0, type := .int64 }
        right := { table := "other", column := "number", position := 0, type := .int64 }
        comparison := .eq }),
     .condition (.join
      { left := { table := "item", column := "size", position := 1, type := .float64 }
        right := { table := "other", column := "size", position := 1, type := .float64 }
        comparison := .lt })])

/-- A comparison between an equality and the product hides the equality. -/
theorem comparison_hides_the_equality :
    smallerNamesakes.check = .ok () ∧
      LogicalPlan.MissesJoin (Planner.logical {} smallerNamesakes) ∧
      (∀ j, .join j ∉ (Planner.logical {} smallerNamesakes).operators) ∧
      smallerNamesakes.turned.check = .ok () ∧
      smallerNamesakes.turned.conjuncts.Perm smallerNamesakes.conjuncts ∧
      ∃ j, .join j ∈ (Planner.logical {} smallerNamesakes.turned).operators := by
  have hplan : Planner.logical {} smallerNamesakes =
      .node (.project [] []) [LogicalPlan.selections smallerNamesakes.conjuncts
        (.node .product [.node (.table .items) [],
          .node (.table (Table.items.withAlias "other")) []])] := rfl
  have hlast : (smallerNamesakes.turned.meetingAt "other").getLast? =
      smallerNamesakes.conjuncts.head? := rfl
  have hjoin := exists_join_logical rfl (List.mem_cons_of_mem _ (List.mem_singleton_self _)) hlast
    (.intro rfl (by decide))
  refine ⟨rfl, ?_, ?_, rfl, List.Perm.swap _ _ _, hjoin.imp fun j hj => hj.1⟩
  · rw [hplan]
    apply LogicalPlan.MissesJoin.input (List.mem_singleton_self _)
    rw [LogicalPlan.missesJoin_selections rfl]
    exact Or.inl ⟨_, _, rfl, _, List.mem_cons_self,
      .straight rfl (List.mem_singleton_self _) (List.mem_singleton_self _)⟩
  · intro j hj
    have hoperators : (Planner.logical {} smallerNamesakes).operators =
        .project [] [] :: smallerNamesakes.conjuncts.map .select ++
          [.product, .table .items, .table (Table.items.withAlias "other")] := rfl
    rw [hoperators] at hj
    simp at hj

end Select

end RelationalDb
