import RelationalDb.Index.KeyRange
import RelationalDb.Query.ColumnRef

/-!
# Conditions on columns

A condition compares one column with operands, or two columns with each other.  An
operand is a literal or a placeholder that is given a value later.  A condition on one
column can often be read as a list of key ranges, which an index over the column answers
without looking at the rows.
-/

namespace RelationalDb

inductive Comparison
  | eq
  | ne
  | lt
  | le
  | gt
  | ge
  | between
  | isIn
  | isNull
  | isNotNull
deriving DecidableEq, Inhabited

/-- A literal, or a numbered placeholder and the value it was given. -/
inductive Operand
  | literal (v : Value)
  | placeholder (index : Nat) (given : Option Value)
deriving BEq, Inhabited

structure ColumnTest where
  column : ColumnRef
  comparison : Comparison
  operands : List Operand
deriving BEq, Inhabited

structure ColumnJoin where
  left : ColumnRef
  right : ColumnRef
  comparison : Comparison
deriving BEq, Inhabited

inductive Condition
  | test (t : ColumnTest)
  | join (j : ColumnJoin)
deriving BEq, Inhabited

namespace Comparison

def symbol : Comparison → String
  | eq => "="
  | ne => "!="
  | lt => "<"
  | le => "<="
  | gt => ">"
  | ge => ">="
  | between => "between"
  | isIn => "in"
  | isNull => "is null"
  | isNotNull => "is not null"

def reverse : Comparison → Comparison
  | lt => gt
  | le => ge
  | gt => lt
  | ge => le
  | c => c

/-- Does the comparison hold of two values in this order?  Only the six signs of comparison can. -/
def holds : Comparison → Ordering → Bool
  | eq, o => o == .eq
  | ne, o => o != .eq
  | lt, o => o == .lt
  | le, o => o != .gt
  | gt, o => o == .gt
  | ge, o => o != .lt
  | _, _ => false

def isNullTest : Comparison → Bool
  | isNull | isNotNull => true
  | _ => false

end Comparison

namespace Operand

def value? : Operand → Option Value
  | literal v => some v
  | placeholder _ given => given

def isBound (o : Operand) : Bool :=
  o.value?.isSome

/-- How many values have to be given for this operand alone: one more than its number. -/
def slots : Operand → Nat
  | literal _ => 0
  | placeholder index _ => index + 1

def text (o : Operand) : String :=
  match o with
  | literal v => v.text
  | placeholder _ (some v) => v.text
  | placeholder index none => "?" ++ toString index

end Operand

namespace ColumnTest

/-- The values of two operands of a test for a range, the smaller first once both are known. -/
def sortBounds (t : ColumnTest) : ColumnTest :=
  match t.comparison, t.operands with
  | .between, [a, b] =>
      match a.value?, b.value? with
      | some x, some y => if compare x y = .gt then { t with operands := [b, a] } else t
      | _, _ => t
  | _, _ => t

/-- Read a literal as a value of the type of the column. -/
def widenOperand (type : ColumnType) : Operand → Operand
  | .literal v => .literal (v.widen type)
  | o => o

def make (column : ColumnRef) (comparison : Comparison) (operands : List Operand) : ColumnTest :=
  sortBounds
    { column := column
      comparison := comparison
      operands := operands.map (widenOperand column.type) }

def isBound (t : ColumnTest) : Bool :=
  t.operands.all (·.isBound)

def operand? (t : ColumnTest) (i : Nat) : Option Value :=
  t.operands[i]?.bind (·.value?)

/-- Does the comparison of a value with a bound hold?  It never does with null. -/
def compares (comparison : Comparison) (v bound : Value) : Bool :=
  match v.compare? bound with
  | none => false
  | some o => comparison.holds o

/-- Does the test hold of a value?  Without a value for every operand it never does. -/
def holdsOf (t : ColumnTest) (v : Value) : Bool :=
  if !t.isBound then false
  else
    match t.comparison with
    | .isNull => v.isNull
    | .isNotNull => !v.isNull
    | .between =>
        match t.operand? 0, t.operand? 1 with
        | some low, some high => compares .ge v low && compares .le v high
        | _, _ => false
    | .isIn => (t.operands.filterMap (·.value?)).any fun bound => compares .eq v bound
    | comparison =>
        match t.operand? 0 with
        | some bound => compares comparison v bound
        | none => false

def dropRepeats : List Value → List Value
  | [] => []
  | [v] => [v]
  | v :: w :: rest => if w == v then dropRepeats (v :: rest) else v :: dropRepeats (w :: rest)

/-- The ranges of keys of which the test holds, if it can be read in this way. -/
def keyRanges? (t : ColumnTest) : Option (List (KeyRange Value)) :=
  if !t.isBound then none
  else
    let bound? (i : Nat) : Option Value := (t.operand? i).filter fun v => !v.isNull
    match t.comparison with
    | .eq => (bound? 0).map fun v => [.only v]
    | .lt => (bound? 0).map fun v => [.below v true]
    | .le => (bound? 0).map fun v => [.below v false]
    | .gt => (bound? 0).map fun v => [.above v true]
    | .ge => (bound? 0).map fun v => [.above v false]
    | .between => do
        let low ← bound? 0
        let high ← bound? 1
        return [.between low high false false]
    | .isIn =>
        let keys := (t.operands.filterMap (·.value?)).filter fun v => !v.isNull
        let sorted := keys.mergeSort fun a b => compare a b != .gt
        some ((dropRepeats sorted).map .only)
    | .ne | .isNull | .isNotNull => none

def check (t : ColumnTest) : Outcome Unit :=
  t.operands.forM fun o =>
    match o with
    | .literal v =>
        if v.conformsTo t.column.type then .ok ()
        else .error (.data (.operandType t.column.fullName t.column.type v))
    | .placeholder .. => .ok ()

def bindOperand (column : ColumnRef) (values : List Value) : Operand → Outcome Operand
  | .literal v => .ok (.literal v)
  | .placeholder index given =>
      match values[index]? with
      | none => .ok (.placeholder index given)
      | some v =>
          let v := v.widen column.type
          if v.conformsTo column.type then .ok (.placeholder index (some v))
          else .error (.statement (.bindingType column.fullName column.type v))

def bind (t : ColumnTest) (values : List Value) : Outcome ColumnTest := do
  let operands ← t.operands.mapM (bindOperand t.column values)
  return { t with operands := operands }.sortBounds

def operandText (t : ColumnTest) : String :=
  match t.comparison, t.operands with
  | .between, [a, b] => a.text ++ " and " ++ b.text
  | _, [a] => a.text
  | _, operands => "(" ++ commaSeparated (operands.map (·.text)) ++ ")"

def text (t : ColumnTest) : String :=
  t.column.fullName ++ " " ++ t.comparison.symbol ++
    (if t.comparison.isNullTest then "" else " " ++ t.operandText)

end ColumnTest

namespace ColumnJoin

def reverse (j : ColumnJoin) : ColumnJoin :=
  { left := j.right, right := j.left, comparison := j.comparison.reverse }

def isEquality (j : ColumnJoin) : Bool :=
  j.comparison == .eq

def holdsOf (j : ColumnJoin) (l r : Value) : Bool :=
  ColumnTest.compares j.comparison l r

def check (j : ColumnJoin) : Outcome Unit :=
  if j.left.type = j.right.type then .ok ()
  else
    .error (.data (.incomparable j.left.fullName j.left.type j.right.fullName j.right.type))

def text (j : ColumnJoin) : String :=
  j.left.fullName ++ " " ++ j.comparison.symbol ++ " " ++ j.right.fullName

end ColumnJoin

namespace Condition

/-- Does the condition hold where columns have these values?  It needs a value for every column. -/
def eval (a : Assignment) : Condition → Bool
  | test t =>
      match a t.column with
      | some v => t.holdsOf v
      | none => false
  | join j =>
      match a j.left, a j.right with
      | some l, some r => j.holdsOf l r
      | _, _ => false

def columns : Condition → List ColumnRef
  | test t => [t.column]
  | join j => [j.left, j.right]

def operands : Condition → List Operand
  | test t => t.operands
  | join _ => []

def check : Condition → Outcome Unit
  | test t => t.check
  | join j => j.check

def bind (values : List Value) : Condition → Outcome Condition
  | test t => do return test (← t.bind values)
  | join j => .ok (join j)

def text : Condition → String
  | test t => t.text
  | join j => j.text

end Condition

end RelationalDb
