import Mathlib
import RelationalDb.Proofs.Plan.Access

/-!
# The best access path

A table may be read by an index over the column that one of the selections right above it tests.
Of all these ways the one that costs least is taken, where the cost is the number of the rows
that it reads, and a unique index and then an early declaration win among equal costs.
-/

namespace RelationalDb

/-!
## Ranks
-/

namespace AccessRank

/-- The rank is as good as the other one: it costs less, or at the same cost its index is unique
and the other one is not, or else its index is not declared later. -/
def AsGoodAs (a b : AccessRank) : Prop :=
  a.cost < b.cost ∨ a.cost = b.cost ∧
    (a.repeats = false ∧ b.repeats = true ∨ a.repeats = b.repeats ∧ a.position ≤ b.position)

theorem asGoodAs_trans {a b c : AccessRank} (hab : a.AsGoodAs b) (hbc : b.AsGoodAs c) :
    a.AsGoodAs c := by
  rcases a with ⟨_, repeatsA, _⟩
  rcases b with ⟨_, repeatsB, _⟩
  rcases c with ⟨_, repeatsC, _⟩
  unfold AsGoodAs at *
  cases repeatsA <;> cases repeatsB <;> cases repeatsC <;> simp at * <;> omega

theorem asGoodAs_of_betterThan {a b : AccessRank} (h : a.betterThan b = true) :
    a.AsGoodAs b := by
  rcases a with ⟨_, repeatsA, _⟩
  rcases b with ⟨_, repeatsB, _⟩
  unfold betterThan at h
  unfold AsGoodAs
  cases repeatsA <;> cases repeatsB <;> simp at * <;> omega

theorem asGoodAs_of_not_betterThan {a b : AccessRank} (h : b.betterThan a = false) :
    a.AsGoodAs b := by
  rcases a with ⟨_, repeatsA, _⟩
  rcases b with ⟨_, repeatsB, _⟩
  unfold betterThan at h
  unfold AsGoodAs
  cases repeatsA <;> cases repeatsB <;> simp at * <;> omega

theorem asGoodAs_refl (a : AccessRank) : a.AsGoodAs a :=
  Or.inr ⟨rfl, Or.inr ⟨rfl, Nat.le_refl _⟩⟩

end AccessRank

namespace TableStore

variable {s : TableStore} {u : Table} {selections : List Predicate} {rank : AccessRank}
  {path : AccessPath} {c : ColumnIndex} {ranges : List (KeyRange Value)} {height position : Nat}

theorem bestPath_asGoodAs {paths : List (AccessRank × AccessPath)} {x : AccessRank × AccessPath}
    (h : bestPath paths = some x) : x ∈ paths ∧ ∀ y ∈ paths, x.1.AsGoodAs y.1 := by
  cases paths with
  | nil => cases h
  | cons first rest =>
      cases h
      apply foldl_pick (P := fun _ => True)
        (R := fun x y : AccessRank × AccessPath => x.1.AsGoodAs y.1)
      · intro x y _ _
        cases hbetter : y.1.betterThan x.1 with
        | true =>
            rw [if_pos rfl]
            exact ⟨Or.inr rfl, AccessRank.asGoodAs_of_betterThan hbetter,
              AccessRank.asGoodAs_refl y.1⟩
        | false =>
            rw [if_neg Bool.false_ne_true]
            exact ⟨Or.inl rfl, AccessRank.asGoodAs_refl x.1,
              AccessRank.asGoodAs_of_not_betterThan hbetter⟩
      · intro x y z _ _ _
        exact AccessRank.asGoodAs_trans
      · trivial
      · intro _ _
        trivial

/-!
## Candidates
-/

/-- The selection at this height, counted from the one nearest to the table, is a test of a column
of the table that these ranges stand for, and the index at this position is over that column. -/
structure Candidate (s : TableStore) (u : Table) (selections : List Predicate)
    (height position : Nat) (ranges : List (KeyRange Value)) (c : ColumnIndex) : Prop where
  selection : ∃ test, selections[height]? = some (.condition (.test test)) ∧
    test.column.table = u.effectiveName ∧ test.keyRanges? = some ranges ∧
      test.column.position = c.position
  index : s.indices[position]? = some c

def rankOf (position : Nat) (ranges : List (KeyRange Value)) (c : ColumnIndex) : AccessRank where
  cost := (ranges.map fun r => c.index.cost (some r)).sum
  repeats := !c.index.unique
  position := position

theorem pathsFor_test {test : ColumnTest} (htable : test.column.table = u.effectiveName)
    (hranges : test.keyRanges? = some ranges) (height : Nat) :
    s.pathsFor u (.condition (.test test)) height =
      (s.indices.zipIdx.filter fun c => c.1.position == test.column.position).map fun c =>
        (rankOf c.2 ranges c.1, ⟨c.1.index.name, ranges, height⟩) := by
  have hwanted : (if test.column.table == u.effectiveName then test.keyRanges? else none) =
      some ranges := by
    rw [if_pos (beq_iff_eq.mpr htable), hranges]
  unfold pathsFor
  dsimp only
  rw [hwanted]
  simp only [rankOf, List.sum_eq_foldl]

theorem mem_paths_iff :
    (rank, path) ∈ (selections.zipIdx.flatMap fun p => s.pathsFor u p.1 p.2) ↔
      ∃ position c, s.Candidate u selections path.height position path.ranges c ∧
        rank = rankOf position path.ranges c ∧ path.index = c.index.name := by
  constructor
  · intro h
    rcases List.mem_flatMap.mp h with ⟨⟨p, height⟩, hp, hpath⟩
    rcases mem_pathsFor hpath with ⟨test, ranges, _, rfl, htable, hranges, _, _, _⟩
    rw [pathsFor_test htable hranges] at hpath
    rcases List.mem_map.mp hpath with ⟨⟨c, position⟩, hc, heq⟩
    rw [List.mem_filter, List.mem_zipIdx_iff_getElem?, beq_iff_eq] at hc
    cases heq
    exact ⟨position, c, ⟨⟨test, List.mem_zipIdx_iff_getElem?.mp hp, htable, hranges, hc.2.symm⟩,
      hc.1⟩, rfl, rfl⟩
  · intro h
    rcases h with ⟨position, c, ⟨⟨test, hselection, htable, hranges, hposition⟩, hc⟩, rfl, hindex⟩
    apply List.mem_flatMap.mpr
    exists (.condition (.test test), path.height)
    constructor
    · exact List.mem_zipIdx_iff_getElem?.mpr hselection
    · rw [pathsFor_test htable hranges]
      apply List.mem_map.mpr
      exists (c, position)
      constructor
      · rw [List.mem_filter, List.mem_zipIdx_iff_getElem?, beq_iff_eq]
        exact ⟨hc, hposition.symm⟩
      · rw [← hindex]

theorem Candidate.mem_paths (h : s.Candidate u selections height position ranges c) :
    (rankOf position ranges c, ⟨c.index.name, ranges, height⟩) ∈
      selections.zipIdx.flatMap fun p => s.pathsFor u p.1 p.2 :=
  mem_paths_iff.mpr ⟨position, c, h, rfl, rfl⟩

theorem eq_nil_of_bestPath {paths : List (AccessRank × AccessPath)} (h : bestPath paths = none) :
    paths = [] := by
  cases paths with
  | nil => rfl
  | cons => cases h

/-!
## What a scan costs
-/

theorem all_not_mem_of_keyRanges? {test : ColumnTest} (h : test.keyRanges? = some ranges) :
    KeyRange.all ∉ ranges := by
  have hbound := ColumnTest.isBound_of_keyRanges? h
  unfold ColumnTest.keyRanges? at h
  simp only [hbound, Bool.not_true, Bool.false_eq_true, if_false] at h
  cases hc : test.comparison with
  | eq | lt | le | gt | ge =>
      simp only [hc, Option.map_eq_some_iff] at h
      rcases h with ⟨limit, _, rfl⟩
      simp
  | between =>
      simp only [hc] at h
      rcases Option.bind_eq_some_iff.mp h with ⟨low, _, h⟩
      rcases Option.bind_eq_some_iff.mp h with ⟨high, _, h⟩
      cases h
      simp
  | isIn =>
      simp only [hc, Option.some.injEq] at h
      rw [← h]
      simp
  | ne | isNull | isNotNull => simp [hc] at h

theorem Sound.length_scanIndex (h : s.Sound) (hn : s.table.IndicesNamed) (hc : c ∈ s.indices)
    {r : KeyRange Value} (hr : ∀ e ∈ r.endpoints, e.type? = some c.index.keyType)
    (hall : r ≠ .all) {rows : List Row}
    (hscan : s.scanIndex c.index.name (some r) .ascending none 0 = .ok rows) :
    rows.length = c.index.cost (some r) := by
  have hcheck : c.index.checkRange r = .ok () := by
    rw [KeyIndex.checkRange, Outcome.forM_eq_ok_iff]
    intro e he
    simp [KeyIndex.checkKey, hr e he]
  have hids : ∀ id ∈ (c.index.entriesIn r).flatMap (·.2), ∃ row, s.rows.get? id = some row := by
    intro id hid
    rcases List.mem_flatMap.mp hid with ⟨e, he, hid⟩
    have hpair : (e.1, id) ∈ c.index.pairs :=
      KeyIndex.mem_pairs_iff.mpr ⟨e.2, (mem_entriesIn_iff.mp he).1, hid⟩
    rcases h.row_of_mem_pairs hc hpair with ⟨row, hrow, _⟩
    exact ⟨row, hrow⟩
  have hrows : s.rowsOf ((c.index.entriesIn r).flatMap (·.2)) = rows := by
    simpa [scanIndex, h.indexed.named.index?_name hn hc, TableIndex.range, KeyIndex.range, hcheck, slice]
      using hscan
  have hcost : c.index.cost (some r) = ((c.index.entriesIn r).map (·.2.length)).sum := by
    unfold KeyIndex.cost
    split
    next heq => cases heq
    next heq => exact absurd (Option.some.inj heq) hall
    next heq =>
      cases heq
      rw [hcheck, List.sum_eq_foldl]
  rw [hcost, ← hrows, ← List.length_map (·.id), h.map_id_rowsOf hids, List.length_flatMap]

theorem Sound.scanRanges_cost (h : s.Sound) (hn : s.table.IndicesNamed) (hc : c ∈ s.indices)
    {test : ColumnTest} (hranges : test.keyRanges? = some ranges) (hread : test.ReadAs ranges)
    (htype : test.column.type = c.index.keyType) (position : Nat) :
    ∃ rows, s.scanRanges c.index.name ranges = .ok rows ∧
      (rankOf position ranges c).cost = rows.length ∧ rows.length ≤ s.size := by
  rcases h.scanRanges_perm hn hc hread htype with ⟨rows, hrows, hperm⟩
  exists rows
  constructor
  · exact hrows
  constructor
  · rcases Outcome.bind_eq_ok_iff.mp hrows with ⟨parts, hparts, heq⟩
    cases heq
    rw [Outcome.mapM_eq_ok_iff] at hparts
    show (ranges.map fun r => c.index.cost (some r)).sum = parts.flatten.length
    rw [List.length_flatten]
    congr 1
    rw [← List.forall₂_eq_eq_eq, List.forall₂_map_left_iff, List.forall₂_map_right_iff]
    apply (forall₂_mem hparts).imp
    intro r part hpart
    have hall : r ≠ .all := by
      intro heq
      exact all_not_mem_of_keyRanges? hranges (heq ▸ hpart.1)
    symm
    apply h.length_scanIndex hn hc _ hall hpart.2.2
    rw [← htype]
    exact hread.endpoints r hpart.1
  · rw [hperm.length_eq]
    apply (List.length_filter_le _ _).trans_eq
    exact List.length_map _

theorem Sound.reads_candidate (h : s.Sound) (hn : s.table.IndicesNamed)
    (ht : s.table.columns = u.columns) (hfit : Predicate.FitIn selections [u])
    (hcandidate : s.Candidate u selections height position ranges c) :
    ∃ rows, s.scanRanges c.index.name ranges = .ok rows ∧
      (rankOf position ranges c).cost = rows.length ∧ rows.length ≤ s.size := by
  rcases hcandidate.selection with ⟨test, hselection, htable, hranges, hposition⟩
  have hc : c ∈ s.indices := List.mem_of_getElem? hcandidate.index
  rcases hfit _ (List.mem_of_getElem? hselection) test List.mem_cons_self with ⟨hsuited, htyped⟩
  rcases h.matchesColumn hc with ⟨column, hcolumn, hkeyType⟩
  have htype : test.column.type = c.index.keyType := by
    rw [← hkeyType]
    symm
    apply htyped u (List.mem_singleton_self u) htable column
    rwa [← ht, hposition]
  exact h.scanRanges_cost hn hc hranges (hsuited.readAs hranges) htype position

/-!
## How a table is read
-/

/-- The candidate reads as many rows as it costs, no more than the table has, and it is as good as
every candidate. -/
structure Best (s : TableStore) (u : Table) (selections : List Predicate) (height position : Nat)
    (ranges : List (KeyRange Value)) (c : ColumnIndex) : Prop where
  candidate : s.Candidate u selections height position ranges c
  reads : ∃ rows, s.scanRanges c.index.name ranges = .ok rows ∧
    (rankOf position ranges c).cost = rows.length ∧ rows.length ≤ s.size
  asGoodAs : ∀ height' position' ranges' c',
    s.Candidate u selections height' position' ranges' c' →
      (rankOf position ranges c).AsGoodAs (rankOf position' ranges' c')

/-- The operator that reads the table under some selections, and the selections that remain: all but
the one of the best candidate, or all of them if there is no candidate. -/
inductive Reading (s : TableStore) (u : Table) (selections : List Predicate) :
    PhysicalOp → List Predicate → Prop
  | indexed {height position : Nat} {ranges : List (KeyRange Value)} {c : ColumnIndex} :
      s.Best u selections height position ranges c →
        Reading s u selections (.indexScan u c.index.name ranges) (selections.eraseIdx height)
  | scanned : (∀ height position ranges c, ¬ s.Candidate u selections height position ranges c) →
      Reading s u selections (.tableScan u) selections

end TableStore

def TableSource.Reads (source : TableSource) (u : Table) (selections : List Predicate)
    (op : PhysicalOp) (left : List Predicate) : Prop :=
  ∃ s, source u.name = some s ∧ s.Reading u selections op left

def AccessPath.reading (u : Table) (selections : List Predicate) :
    Option AccessPath → PhysicalOp × List Predicate
  | some path => (.indexScan u path.index path.ranges, selections.eraseIdx path.height)
  | none => (.tableScan u, selections)

namespace TableStore

variable {s : TableStore} {u : Table} {selections : List Predicate}

theorem Sound.reading_accessPath? (h : s.Sound) (hn : s.table.IndicesNamed)
    (ht : s.table.columns = u.columns) (hfit : Predicate.FitIn selections [u]) :
    s.Reading u selections (AccessPath.reading u selections (s.accessPath? u selections)).1
      (AccessPath.reading u selections (s.accessPath? u selections)).2 := by
  unfold accessPath?
  cases hbest : bestPath (selections.zipIdx.flatMap fun p => s.pathsFor u p.1 p.2) with
  | none =>
      apply Reading.scanned
      intro height position ranges c hcandidate
      have hmem := hcandidate.mem_paths
      rw [eq_nil_of_bestPath hbest] at hmem
      cases hmem
  | some best =>
      rcases best with ⟨rank, path⟩
      rcases bestPath_asGoodAs hbest with ⟨hmem, hleast⟩
      rcases mem_paths_iff.mp hmem with ⟨position, c, hcandidate, hrank, hindex⟩
      rcases h.reads_candidate hn ht hfit hcandidate with ⟨rows, hrows, hcost, hsize⟩
      dsimp only
      rw [if_pos (by rw [hrank, hcost]; exact hsize), AccessPath.reading, hindex]
      apply Reading.indexed
      constructor
      · exact hcandidate
      · exact ⟨rows, hrows, hcost, hsize⟩
      · intro height' position' ranges' c' hcandidate'
        have hgood := hleast _ hcandidate'.mem_paths
        rwa [hrank] at hgood

end TableStore

end RelationalDb
