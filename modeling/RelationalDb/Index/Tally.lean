import RelationalDb.Row

/-!
# The counters of an index
-/

namespace RelationalDb

/-- The number of entries in an index and the greatest row id it was ever given. -/
structure IndexTally where
  total : Nat := 0
  greatest : RowId := 0
deriving DecidableEq

namespace IndexTally

def add (t : IndexTally) (count : Nat) (id : RowId) : IndexTally :=
  { total := t.total + count, greatest := max t.greatest id }

def remove (t : IndexTally) (count : Nat) : IndexTally :=
  { t with total := t.total - count }

/-- Count no entry any more.  The greatest row id stays. -/
def clear (t : IndexTally) : IndexTally :=
  { t with total := 0 }

end IndexTally

def slice {α : Type} (items : List α) (limit : Option Nat) (skip : Nat) : List α :=
  match limit with
  | none => items.drop skip
  | some limit => (items.drop skip).take limit

end RelationalDb
