import RelationalDb.Plan.Logical
import RelationalDb.Store.TableStore

/-!
# How tables are read

A table is read through an index if one of the selections directly above it is answered
by a scan of that index and the scan reads no more rows than the table has.  The scan
takes the place of the selection.
-/

namespace RelationalDb

abbrev TableSource := String → Option TableStore

def TableSource.storeOf (source : TableSource) (t : Table) : Outcome TableStore :=
  match source t.name with
  | some s => .ok s
  | none => .error (.tableNotFound t.name)

/-- A scan of an index.  Of the selections above the table, counted from the nearest one, it
answers the one at the given height. -/
structure AccessPath where
  index : String
  ranges : List (KeyRange Value)
  height : Nat

/-- What speaks for an access path: few rows, then a unique index, then an early declaration. -/
structure AccessRank where
  cost : Nat
  repeats : Bool
  position : Nat

def AccessRank.betterThan (a b : AccessRank) : Bool :=
  a.cost < b.cost ||
    (a.cost == b.cost &&
      ((!a.repeats && b.repeats) || (a.repeats == b.repeats && a.position < b.position)))

namespace TableStore

def pathsFor (s : TableStore) (t : Table) (p : Predicate) (height : Nat) :
    List (AccessRank × AccessPath) :=
  match p with
  | .condition (.test test) =>
      match if test.column.table == t.effectiveName then test.keyRanges? else none with
      | none => []
      | some ranges =>
          (s.indices.zipIdx.filter fun c => c.1.position == test.column.position).map fun c =>
            ({ cost := (ranges.map fun r => c.1.index.cost (some r)).foldl (· + ·) 0
               repeats := !c.1.index.unique
               position := c.2 },
             { index := c.1.index.name, ranges := ranges, height := height })
  | _ => []

/-- The best of several paths, the first one among equals. -/
def bestPath : List (AccessRank × AccessPath) → Option (AccessRank × AccessPath)
  | [] => none
  | path :: rest =>
      some (rest.foldl (fun best path => if path.1.betterThan best.1 then path else best) path)

def accessPath? (s : TableStore) (t : Table) (selections : List Predicate) : Option AccessPath :=
  match bestPath (selections.zipIdx.flatMap fun p => s.pathsFor t p.1 p.2) with
  | some (rank, path) => if rank.cost ≤ s.size then some path else none
  | none => none

end TableStore

/-!
## Plans with access paths
-/

inductive AccessOp
  | asWritten (op : LogicalOp)
  | indexed (t : Table) (path : AccessPath)
  | answered

namespace LogicalPlan

def pathIn? (source : TableSource) (t : Table) (selections : List Predicate) :
    Option AccessPath := do
  (← source t.name).accessPath? t selections

mutual

/-- Decide how every table is read.  The given selections are those directly above the plan, the
nearest one first; the result has the heights of those of them that index scans answer. -/
def withAccess (source : TableSource) (selections : List Predicate) :
    LogicalPlan → PlanTree AccessOp × List Nat
  | .node (.table t) [] =>
      match pathIn? source t selections with
      | some path => (.node (.indexed t path) [], [path.height])
      | none => (.node (.asWritten (.table t)) [], [])
  | .node (.select p) ts =>
      let (ts, heights) := withAccessOf source (p :: selections) ts
      (.node (if heights.contains 0 then .answered else .asWritten (.select p)) ts,
        (heights.filter (0 < ·)).map (· - 1))
  | .node op ts => (.node (.asWritten op) (withAccessOf source [] ts).1, [])

def withAccessOf (source : TableSource) (selections : List Predicate) :
    List LogicalPlan → List (PlanTree AccessOp) × List Nat
  | [] => ([], [])
  | t :: ts =>
      let (t, heights) := withAccess source selections t
      let (ts, more) := withAccessOf source selections ts
      (t :: ts, heights ++ more)

end

def accessed (source : TableSource) (t : LogicalPlan) : PlanTree AccessOp :=
  (withAccess source [] t).1

end LogicalPlan

end RelationalDb
