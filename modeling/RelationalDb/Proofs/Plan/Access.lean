import Mathlib
import RelationalDb.Plan.Access
import RelationalDb.Proofs.Plan.Shapes
import RelationalDb.Proofs.Relation.Answers
import RelationalDb.Proofs.Store.Scans

/-!
# Access paths read what their selections ask for

The path to a table scans an index over the column of one of the selections above it, in
the ranges that stand for its test.  The scan reads the rows of the table of which that
selection holds.
-/

namespace RelationalDb

/-- The column has in these tables the type that the reference to it has. -/
def ColumnRef.TypedIn (column : ColumnRef) (ts : List Table) : Prop :=
  ∀ t ∈ ts, column.table = t.effectiveName →
    ∀ c, t.columns[column.position]? = some c → c.type = column.type

/-- The operands of the test suit its column, and the column has its type in these tables. -/
def ColumnTest.FitsIn (test : ColumnTest) (ts : List Table) : Prop :=
  test.Suited ∧ test.column.TypedIn ts

def Predicate.FitIn (ps : List Predicate) (ts : List Table) : Prop :=
  ∀ p ∈ ps, ∀ test, Condition.test test ∈ p.conditions → test.FitsIn ts

theorem Predicate.fitIn_nil (ts : List Table) : Predicate.FitIn [] ts :=
  nofun

theorem Predicate.FitIn.mono {ps qs : List Predicate} {ts us : List Table} (h : Predicate.FitIn ps ts)
    (hps : ∀ p ∈ qs, p ∈ ps) (hts : ∀ u ∈ us, u ∈ ts) : Predicate.FitIn qs us := by
  intro p hp test htest
  rcases h p (hps p hp) test htest with ⟨hsuited, htyped⟩
  exact ⟨hsuited, fun u hu => htyped u (hts u hu)⟩

theorem Predicate.FitIn.below_select {p : Predicate} {selections : List Predicate}
    {t : LogicalPlan} (h : Predicate.FitIn selections (LogicalPlan.tables (.node (.select p) [t])))
    (hguards : Predicate.FitIn (LogicalPlan.guards (.node (.select p) [t]))
      (LogicalPlan.tables (.node (.select p) [t]))) :
    Predicate.FitIn (p :: selections) t.tables := by
  rw [LogicalPlan.tables_single] at h hguards
  intro q hq
  rcases List.mem_cons.mp hq with rfl | hq
  · exact hguards q (by simp [LogicalOp.guard?])
  · exact h q hq

def TableSource.Has (source : TableSource) (t : Table) : Prop :=
  ∃ s, source t.name = some s ∧ s.Sound ∧ s.table.IndicesNamed ∧ s.table.columns = t.columns

theorem TableSource.storeOf_eq_ok {source : TableSource} {t : Table} {s : TableStore}
    (hs : source t.name = some s) : source.storeOf t = .ok s := by
  rw [storeOf, hs]

namespace TableStore

variable {s : TableStore} {t : Table} {p : Predicate} {height : Nat} {selections : List Predicate}
  {rank : AccessRank} {path : AccessPath}

theorem mem_of_bestPath {paths : List (AccessRank × AccessPath)} {x : AccessRank × AccessPath}
    (h : bestPath paths = some x) : x ∈ paths := by
  cases paths with
  | nil => cases h
  | cons first rest =>
      cases h
      apply And.left
      apply foldl_pick (P := fun _ => True) (R := fun _ _ => True)
      · intro best path _ _
        split <;> simp
      · simp
      · trivial
      · simp

theorem mem_pathsFor (h : (rank, path) ∈ s.pathsFor t p height) :
    ∃ test ranges c, p = .condition (.test test) ∧ test.column.table = t.effectiveName ∧
      test.keyRanges? = some ranges ∧ c ∈ s.indices ∧ c.position = test.column.position ∧
        path = { index := c.index.name, ranges := ranges, height := height } := by
  unfold pathsFor at h
  split at h
  · next test =>
      split at h
      · cases h
      · next ranges hranges =>
          split at hranges
          · next htable =>
              simp only [List.mem_map, List.mem_filter, Prod.mk.injEq] at h
              rcases h with ⟨⟨c, position⟩, ⟨hc, hposition⟩, _, hpath⟩
              have hmem : c ∈ s.indices :=
                List.mem_of_getElem? (List.mem_zipIdx_iff_getElem?.mp hc)
              exact ⟨test, ranges, c, rfl, by simpa using htable, hranges, hmem,
                by simpa using hposition, hpath.symm⟩
          · cases hranges
  · cases h

theorem accessPath?_eq_some (h : s.accessPath? t selections = some path) :
    ∃ test ranges c, selections[path.height]? = some (.condition (.test test)) ∧
      test.column.table = t.effectiveName ∧ test.keyRanges? = some ranges ∧ c ∈ s.indices ∧
        c.position = test.column.position ∧ path.index = c.index.name ∧ path.ranges = ranges := by
  unfold accessPath? at h
  split at h
  · next rank best hbest =>
      split at h
      · cases h
        rcases List.mem_flatMap.mp (mem_of_bestPath hbest) with ⟨⟨p, height⟩, hp, hpath⟩
        rcases mem_pathsFor hpath with ⟨test, ranges, c, rfl, htable, hranges, hc, hposition, rfl⟩
        exact ⟨test, ranges, c, List.mem_zipIdx_iff_getElem?.mp hp, htable, hranges, hc, hposition,
          rfl, rfl⟩
      · cases h
  · cases h

theorem Sound.eval_test (h : s.Sound) {test : ColumnTest} {c : ColumnIndex}
    (hc : c ∈ s.indices) (htable : test.column.table = t.effectiveName)
    (hposition : c.position = test.column.position) {row : Row} (hrow : row ∈ s.toList) :
    (Predicate.condition (.test test)).eval
        (({ rows := [row] } : Entry).assignment [t.effectiveName]) =
      test.holdsOf (c.keyOf row) := by
  rcases h.matchesColumn hc with ⟨column, hcolumn, _⟩
  rcases Table.getElem?_of_checkRow (h.checked (h.mem_toList_iff.mp hrow)) hcolumn with ⟨v, hv⟩
  have hkey : c.keyOf row = v := by simp [ColumnIndex.keyOf, hv]
  rw [hposition] at hv
  simp [Predicate.eval, Condition.eval, Entry.assignment, rowAmong, htable, hv, hkey]

theorem Sound.path_eq_some (h : s.Sound) (ht : s.table.columns = t.columns)
    (htyped : ∀ p ∈ selections, ∀ test, Condition.test test ∈ p.conditions →
      test.column.TypedIn [t])
    (hpath : s.accessPath? t selections = some path) :
    ∃ test c, selections[path.height]? = some (.condition (.test test)) ∧
      test.keyRanges? = some path.ranges ∧ c ∈ s.indices ∧ path.index = c.index.name ∧
        test.column.type = c.index.keyType ∧
          ∀ row ∈ s.toList, (Predicate.condition (.test test)).eval
              (({ rows := [row] } : Entry).assignment [t.effectiveName]) =
            test.holdsOf (c.keyOf row) := by
  rcases accessPath?_eq_some hpath with
    ⟨test, ranges, c, hselection, htable, hranges, hc, hposition, hindex, rfl⟩
  rcases h.matchesColumn hc with ⟨column, hcolumn, hkeyType⟩
  refine ⟨test, c, hselection, hranges, hc, hindex, ?_, ?_⟩
  · rw [← hkeyType]
    refine (htyped _ (List.mem_of_getElem? hselection) test List.mem_cons_self t
      (List.mem_singleton_self _) htable column ?_).symm
    rwa [← ht, ← hposition]
  · exact fun row hrow => h.eval_test hc htable hposition hrow

theorem Sound.scan_path (h : s.Sound) (hn : s.table.IndicesNamed)
    (ht : s.table.columns = t.columns) (hfit : Predicate.FitIn selections [t])
    (hpath : s.accessPath? t selections = some path) :
    ∃ p rows, selections[path.height]? = some p ∧
      s.scanRanges path.index path.ranges = .ok rows ∧
        rows.Perm (s.toList.filter fun row =>
          p.eval (({ rows := [row] } : Entry).assignment [t.effectiveName])) := by
  rcases h.path_eq_some ht (fun p hp test htest => (hfit p hp test htest).2) hpath with
    ⟨test, c, hselection, hranges, hc, hindex, htype, heval⟩
  have hsuited := (hfit _ (List.mem_of_getElem? hselection) test List.mem_cons_self).1
  rcases h.scanRanges_perm hn hc (hsuited.readAs hranges) htype with ⟨rows, hrows, hperm⟩
  refine ⟨_, rows, hselection, by rw [hindex, hrows], hperm.trans ?_⟩
  exact List.Perm.of_eq (List.filter_congr fun row hrow => (heval row hrow).symm)

/-- Whatever the operands are, the path reads these rows and no others if its scan succeeds. -/
theorem Sound.scan_path_perm (h : s.Sound) (hn : s.table.IndicesNamed)
    (ht : s.table.columns = t.columns)
    (htyped : ∀ p ∈ selections, ∀ test, Condition.test test ∈ p.conditions →
      test.column.TypedIn [t])
    (hpath : s.accessPath? t selections = some path) {rows : List Row}
    (hscan : s.scanRanges path.index path.ranges = .ok rows) :
    ∃ p, selections[path.height]? = some p ∧
      rows.Perm (s.toList.filter fun row =>
        p.eval (({ rows := [row] } : Entry).assignment [t.effectiveName])) := by
  rcases h.path_eq_some ht htyped hpath with
    ⟨test, c, hselection, hranges, hc, hindex, htype, heval⟩
  rw [hindex] at hscan
  have hreads : test.ReadAs path.ranges := by
    apply ColumnTest.readAs_of_keyRanges? hranges
    intro r hr e he
    rw [htype]
    exact h.type?_of_scanRanges hn hc hscan hr he
  rcases h.scanRanges_perm hn hc hreads htype with ⟨rows', hrows', hperm⟩
  rw [hscan] at hrows'
  cases hrows'
  refine ⟨_, hselection, hperm.trans ?_⟩
  exact List.Perm.of_eq (List.filter_congr fun row hrow => (heval row hrow).symm)

end TableStore

end RelationalDb
