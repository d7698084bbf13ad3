import RelationalDb.Query.ColumnRef

/-!
# What a query asks for: columns and aggregates
-/

namespace RelationalDb

inductive AggregateFunction
  | count
  | sum
  | avg
  | min
  | max
  | distinct
  | stddev
deriving DecidableEq, Inhabited

/-- A function over a column, or over the rows themselves if there is no column. -/
structure Aggregate where
  function : AggregateFunction
  column : Option ColumnRef
  distinct : Bool := false
  label : Option String := none
deriving DecidableEq, Inhabited

inductive Expression
  | column (c : ColumnRef)
  | aggregate (a : Aggregate)
deriving DecidableEq, Inhabited

namespace AggregateFunction

def all : List AggregateFunction :=
  [.count, .sum, .avg, .min, .max, .distinct, .stddev]

def name : AggregateFunction → String
  | count => "count"
  | sum => "sum"
  | avg => "avg"
  | min => "min"
  | max => "max"
  | distinct => "distinct"
  | stddev => "stddev"

def isNumeric : AggregateFunction → Bool
  | sum | avg | stddev => true
  | _ => false

end AggregateFunction

def Aggregate.outputName (a : Aggregate) : String :=
  match a.label with
  | some label => label
  | none =>
      let argument :=
        match a.column with
        | none => "*"
        | some c => if a.distinct then "distinct(" ++ c.column ++ ")" else c.column
      a.function.name ++ "(" ++ argument ++ ")"

namespace Expression

def column? : Expression → Option ColumnRef
  | column c => some c
  | aggregate a => a.column

def aggregate? : Expression → Option Aggregate
  | column _ => none
  | aggregate a => some a

/-- Let an aggregate look at every value only once; columns are left alone. -/
def overDistinct : Expression → Expression
  | column c => column c
  | aggregate a => aggregate { a with distinct := true }

def labelled (label : String) : Expression → Expression
  | column c => column { c with label := some label }
  | aggregate a => aggregate { a with label := some label }

def outputName (qualify : Bool) : Expression → String
  | column c => c.outputName qualify
  | aggregate a => a.outputName

def namesText (qualify : Bool) (es : List Expression) : String :=
  commaSeparated (es.map (outputName qualify))

end Expression

end RelationalDb
