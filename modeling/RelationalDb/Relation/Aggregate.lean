import RelationalDb.Query.Expression
import RelationalDb.Relation.Basic

/-!
# Aggregates and groups

Entries with equal values in the grouping columns form a group, and every group becomes
one entry: its first one, together with the values of the aggregates over the group.
Null never takes part in an aggregate over a column.
-/

namespace RelationalDb

/-- The first items for every key, where keys are the same if they are equal. -/
def firstOfEach {α κ : Type} [BEq κ] (key : α → κ) : List κ → List α → List α
  | _, [] => []
  | seen, a :: rest =>
      if seen.any (· == key a) then firstOfEach key seen rest
      else a :: firstOfEach key (key a :: seen) rest

/-- Put an item into the group of its key; a new key opens a group at the end. -/
def addToGroup {α κ : Type} [BEq κ] (k : κ) (a : α) : List (κ × List α) → List (κ × List α)
  | [] => [(k, [a])]
  | (k', group) :: rest =>
      if k' == k then (k', group ++ [a]) :: rest else (k', group) :: addToGroup k a rest

def groupsBy {α κ : Type} [BEq κ] (key : α → κ) (items : List α) : List (κ × List α) :=
  items.foldl (fun groups a => addToGroup (key a) a groups) []

/-!
## Functions of values
-/

/-- The sum of doubles, from left to right. -/
def sumDoubles (xs : List Binary64) : Binary64 :=
  xs.foldl (· + ·) .negativeZero

/-- The sum of integers, provided that it stays a signed word of 64 bits all along. -/
def sumIntegers? : Int → List Int → Option Int
  | total, [] => some total
  | total, n :: rest =>
      let next := total + n
      if -0x8000000000000000 ≤ next ∧ next < 0x8000000000000000 then sumIntegers? next rest else none

def countAsDouble {α : Type} (xs : List α) : Binary64 :=
  .ofInt xs.length

def mean (xs : List Binary64) (count : Binary64) : Binary64 :=
  sumDoubles xs / count

/-- The least value, the first of equal ones. -/
def leastValue : Value → List Value → Value
  | v, [] => v
  | v, w :: rest => leastValue (if compare v w = .gt then w else v) rest

/-- The greatest value, the last of equal ones. -/
def greatestValue : Value → List Value → Value
  | v, [] => v
  | v, w :: rest => greatestValue (if compare v w = .gt then v else w) rest

namespace AggregateFunction

/-- The value of a function over values that are not null, of a column of the given type.  A sum
of integers that leaves the signed words of 64 bits is a sum of doubles. -/
def apply (f : AggregateFunction) (type : ColumnType) (values : List Value) : Value :=
  match f, values with
  | .count, values => .int64 (.ofNat values.length)
  | _, [] => .null
  | .distinct, _ => .null
  | .min, v :: rest => leastValue v rest
  | .max, v :: rest => greatestValue v rest
  | f, values =>
      let numbers := values.filterMap (·.toBinary64?)
      let count := countAsDouble values
      match f with
      | .sum =>
          if type = .float64 then .float64 (sumDoubles numbers)
          else
            match sumIntegers? 0 (values.filterMap (·.toInt?)) with
            | some total => .int64 (.ofInt total)
            | none => .float64 (sumDoubles numbers)
      | .avg => .float64 (mean numbers count)
      | _ =>
          let center := mean numbers count
          let squares := numbers.map fun x => (x - center) * (x - center)
          .float64 (mean squares count).sqrt

end AggregateFunction

namespace Relation

def valuesOf (r : Relation) (c : ColumnRef) (entries : List Entry) : List Value :=
  (entries.filterMap fun e => r.value? e c).filter fun v => !v.isNull

/-- The value of an aggregate over some entries.  Without a column it is their number. -/
def aggregateValue (r : Relation) (entries : List Entry) (a : Aggregate) : Value :=
  match a.column with
  | none => .int64 (.ofNat entries.length)
  | some c =>
      let values := r.valuesOf c entries
      a.function.apply c.type (if a.distinct then firstOfEach id [] values else values)

/-- One entry for some entries: the first of them with the values of the aggregates. -/
def summarize (r : Relation) (aggregates : List Aggregate) (entries : List Entry) : Entry :=
  { rows := (entries.head?.getD {}).rows
    aggregates := aggregates.map (r.aggregateValue entries) }

/-- The values of the grouping columns in an entry; a column that is not there counts as null. -/
def groupKey (r : Relation) (groupBy : List ColumnRef) (e : Entry) : List Value :=
  groupBy.map (r.valueOrNull e)

/-- One entry for each distinct value of a column, null included. -/
def distinctEntries (r : Relation) (c : ColumnRef) : List Entry :=
  (firstOfEach (fun e => r.valueOrNull e c) [] r.entries).map
    fun e => { rows := e.rows, aggregates := [r.valueOrNull e c] }

/-- The column whose distinct values are asked for, if nothing else is. -/
def loneDistinct? (groupBy : List ColumnRef) (aggregates : List Aggregate) : Option ColumnRef :=
  match groupBy, aggregates with
  | [], [a] => if a.function = .distinct then a.column else none
  | _, _ => none

/-- Group the entries and compute the aggregates.  Without grouping columns all entries form one
group, even if there are none. -/
def aggregate (r : Relation) (groupBy : List ColumnRef) (aggregates : List Aggregate) :
    Relation :=
  match loneDistinct? groupBy aggregates with
  | some c => { r with entries := r.distinctEntries c }
  | none =>
      if groupBy.isEmpty then { r with entries := [r.summarize aggregates r.entries] }
      else
        { r with
          entries := (groupsBy (r.groupKey groupBy) r.entries).map
            fun g => r.summarize aggregates g.2 }

end Relation

end RelationalDb
