import RelationalDb.Query.Condition
import RelationalDb.SortedMap

/-!
# Predicates

A predicate is a tree of conjunctions and disjunctions over conditions.  What concerns
the conditions alone is said through the list of them; what concerns the tree goes by
recursion on it, each function with a partner for lists of predicates.
-/

namespace RelationalDb

inductive Connective
  | conjunction
  | disjunction
deriving DecidableEq, Inhabited

inductive Predicate
  | condition (c : Condition)
  | combine (connective : Connective) (parts : List Predicate)
deriving Inhabited

namespace Predicate

mutual

protected def beq : Predicate → Predicate → Bool
  | condition c, condition d => c == d
  | combine c ps, combine d qs => c == d && Predicate.beqList ps qs
  | _, _ => false

protected def beqList : List Predicate → List Predicate → Bool
  | [], [] => true
  | p :: ps, q :: qs => Predicate.beq p q && Predicate.beqList ps qs
  | _, _ => false

end

instance : BEq Predicate := ⟨Predicate.beq⟩

/-- Several predicates under a connective; a single one stands for itself. -/
def join (connective : Connective) : List Predicate → Predicate
  | [p] => p
  | ps => combine connective ps

def allOf (ps : List Predicate) : Predicate :=
  join .conjunction ps

def anyOf (ps : List Predicate) : Predicate :=
  join .disjunction ps

def test (column : ColumnRef) (comparison : Comparison) (operands : List Operand) : Predicate :=
  condition (.test (.make column comparison operands))

def parts : Predicate → List Predicate
  | condition _ => []
  | combine _ ps => ps

def isConjunction : Predicate → Bool
  | combine .conjunction _ => true
  | _ => false

/-!
## Recursion on the tree
-/

mutual

def eval (a : Assignment) : Predicate → Bool
  | condition c => c.eval a
  | combine .conjunction ps => evalAll a ps
  | combine .disjunction ps => evalAny a ps

def evalAll (a : Assignment) : List Predicate → Bool
  | [] => true
  | p :: ps => eval a p && evalAll a ps

def evalAny (a : Assignment) : List Predicate → Bool
  | [] => false
  | p :: ps => eval a p || evalAny a ps

end

mutual

def conditions : Predicate → List Condition
  | condition c => [c]
  | combine _ ps => conditionsOf ps

def conditionsOf : List Predicate → List Condition
  | [] => []
  | p :: ps => conditions p ++ conditionsOf ps

end

mutual

/-- The conjuncts of a predicate, those of nested conjunctions included, left to right. -/
def conjuncts : Predicate → List Predicate
  | combine .conjunction ps => conjunctsOf ps
  | p => [p]

def conjunctsOf : List Predicate → List Predicate
  | [] => []
  | p :: ps => conjuncts p ++ conjunctsOf ps

end

mutual

/-- Change every condition; the first failure is the answer. -/
def mapConditions (f : Condition → Outcome Condition) : Predicate → Outcome Predicate
  | condition c => do return condition (← f c)
  | combine k ps => do return combine k (← mapConditionsOf f ps)

def mapConditionsOf (f : Condition → Outcome Condition) :
    List Predicate → Outcome (List Predicate)
  | [] => .ok []
  | p :: ps => do return (← mapConditions f p) :: (← mapConditionsOf f ps)

end

mutual

def text : Predicate → String
  | condition c => c.text
  | combine .conjunction ps => "and(" ++ commaSeparated (texts ps) ++ ")"
  | combine .disjunction ps => "or(" ++ commaSeparated (texts ps) ++ ")"

def texts : List Predicate → List String
  | [] => []
  | p :: ps => text p :: texts ps

end

/-!
## What is said through the conditions
-/

def columns (p : Predicate) : List ColumnRef :=
  p.conditions.flatMap (·.columns)

/-- The names of the tables whose columns occur, in order and each once. -/
def tables (p : Predicate) : List String :=
  (SortedMap.ofList (p.columns.map fun c => (c.table, ()))).keys

def operands (p : Predicate) : List Operand :=
  p.conditions.flatMap (·.operands)

/-- How many values have to be given for the placeholders: one more than the greatest number. -/
def slots (p : Predicate) : Nat :=
  (p.operands.map (·.slots)).foldl max 0

def isBound (p : Predicate) : Bool :=
  p.operands.all (·.isBound)

/-- Check the types of all conditions; the first fault is the answer. -/
def check (p : Predicate) : Outcome Unit :=
  p.conditions.forM (·.check)

/-- Give every placeholder its value from a list, which has to be of the right length. -/
def bind (p : Predicate) (values : List Value) : Outcome Predicate :=
  if values.length = p.slots then p.mapConditions (Condition.bind values)
  else .error (.statement (.bindingCount p.slots values.length))

def keyRanges? : Predicate → Option (List (KeyRange Value))
  | condition (.test t) => t.keyRanges?
  | _ => none

end Predicate

end RelationalDb
