import RelationalDb.Plan.Logical

/-!
# Selections near their tables

Every selection is taken apart into its conjuncts, and each conjunct goes down as far as
its tables allow: below a product or a join it follows the one input that reads all of
them, and where no input or several do, it stays above.  Conjuncts that end up at one
place keep their order, the first one outermost.
-/

namespace RelationalDb

namespace LogicalPlan

def covers (tables : List String) (p : Predicate) : Bool :=
  p.tables.all tables.contains

/-- The position of the only input that covers a predicate. -/
def onlyCover? (inputs : List (List String)) (p : Predicate) : Option Nat :=
  match inputs.zipIdx.filter fun input => covers input.1 p with
  | [input] => some input.2
  | _ => none

def selections (ps : List Predicate) (t : LogicalPlan) : LogicalPlan :=
  t.under (ps.map .select)

def sentTo (target : Option Nat) (sent : List (Predicate × Option Nat)) : List Predicate :=
  (sent.filter fun s => s.2 == target).map (·.1)

def send (inputs : List LogicalPlan) (ps : List Predicate) : List (Predicate × Option Nat) :=
  ps.map fun p => (p, onlyCover? (inputs.map tableNames) p)

mutual

/-- The plan with its own selections and the given ones moved down.  A selection with several
inputs stays where it is and lets the others pass to its first input. -/
def pushSelections (pending : List Predicate) : LogicalPlan → LogicalPlan
  | .node (.select p) [] => selections pending (.node (.select p) [])
  | .node (.select p) [t] => pushSelections (pending ++ p.conjuncts) t
  | .node (.select p) (t :: ts) =>
      .node (.select p) (pushSelections pending t :: pushSelectionsOf [] 0 ts)
  | .node .product ts =>
      let sent := send ts pending
      selections (sentTo none sent) (.node .product (pushSelectionsOf sent 0 ts))
  | .node (.join j) ts =>
      let sent := send ts pending
      selections (sentTo none sent) (.node (.join j) (pushSelectionsOf sent 0 ts))
  | .node op ts => selections pending (.node op (pushSelectionsOf [] 0 ts))

def pushSelectionsOf (sent : List (Predicate × Option Nat)) (position : Nat) :
    List LogicalPlan → List LogicalPlan
  | [] => []
  | t :: ts =>
      pushSelections (sentTo (some position) sent) t :: pushSelectionsOf sent (position + 1) ts

end

def pushDownSelections (t : LogicalPlan) : LogicalPlan :=
  pushSelections [] t

end LogicalPlan

end RelationalDb
