import RelationalDb.Store.TableStore

/-!
# The committed tables
-/

namespace RelationalDb

structure Committed where
  stores : SortedMap String TableStore := {}

namespace Committed

def store? (c : Committed) (table : String) : Option TableStore :=
  c.stores.get? table

def addStore (c : Committed) (s : TableStore) : Outcome Committed :=
  if c.stores.contains s.table.name then .error (.schema (.tableExists s.table.name))
  else .ok { stores := c.stores.insert s.table.name s }

def createTable (c : Committed) (t : Table) : Outcome Committed :=
  c.addStore (.empty t)

def snapshot (c : Committed) (table : String) : Outcome TableStore :=
  match c.store? table with
  | some s => .ok s
  | none => .error (.tableNotFound table)

/-- Put a store in the place of the one of the same table; there has to be one. -/
def replaceStore (c : Committed) (s : TableStore) : Committed :=
  if c.stores.contains s.table.name then { stores := c.stores.insert s.table.name s } else c

def rowCount (c : Committed) : Nat :=
  (c.stores.values.map (·.size)).foldl (· + ·) 0

end Committed

end RelationalDb
