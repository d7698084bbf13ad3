import RelationalDb.Failure
import RelationalDb.Index.KeyRange
import RelationalDb.Index.Tally
import RelationalDb.Schema.Direction
import RelationalDb.SortedMap

/-!
# The index over row ids

This index is a set of row ids.  Its keys are integer values that stand for the ids
themselves, so that a range of keys is a range of ids.
-/

namespace RelationalDb

structure RowIdIndex where
  name : String
  ids : SortedMap RowId Unit := {}
  tally : IndexTally := {}

namespace RowIdIndex

def toList (i : RowIdIndex) : List RowId :=
  i.ids.keys

def holds (i : RowIdIndex) (id : RowId) : Bool :=
  i.ids.contains id

def size (i : RowIdIndex) : Nat :=
  i.ids.size

def idOfKey (i : RowIdIndex) (key : Value) : Outcome RowId :=
  match key.toInt? with
  | none => .error (.data (.idKeyType i.name key))
  | some n =>
      if n < 0 then .error (.data (.idKeyNegative i.name n)) else .ok (UInt64.ofNat n.toNat)

def boundOfKey (i : RowIdIndex) (key : Value) : Outcome Int :=
  match key.toInt? with
  | none => .error (.data (.idBoundType i.name key))
  | some n => .ok n

def add (i : RowIdIndex) (key : Value) : Outcome RowIdIndex := do
  let id ← i.idOfKey key
  if i.holds id then return i
  return { i with ids := i.ids.insert id (), tally := i.tally.add 1 id }

/-- Remove the id that a key stands for; a key that stands for none is passed over. -/
def remove (i : RowIdIndex) (key : Value) : RowIdIndex :=
  match i.idOfKey key with
  | .error _ => i
  | .ok id =>
      if i.holds id then { i with ids := i.ids.erase id, tally := i.tally.remove 1 } else i

def set (i : RowIdIndex) (key : Value) : Outcome RowIdIndex :=
  (i.remove key).add key

def contains (i : RowIdIndex) (key : Value) : Bool :=
  match i.idOfKey key with
  | .error _ => false
  | .ok id => i.holds id

def get (i : RowIdIndex) (key : Value) : List RowId :=
  match i.idOfKey key with
  | .error _ => []
  | .ok id => if i.holds id then [id] else []

/-- Ids from which a signed word of 64 bits can be made. -/
def isSigned (id : RowId) : Bool :=
  id.toNat < 0x8000000000000000

def range (i : RowIdIndex) (wanted : Option (KeyRange Value)) (direction : Direction)
    (limit : Option Nat) (skip : Nat) : Outcome (List RowId) := do
  let wanted ← (wanted.getD .all).mapM i.boundOfKey
  let hits := i.toList.filter fun id => isSigned id && wanted.contains (id.toNat : Int)
  let ordered :=
    match direction with
    | .ascending => hits
    | .descending => hits.reverse
  return slice ordered limit skip

/-- The expected number of ids in a range.  It is always the size of the set, so that an index
over a column is preferred. -/
def cost (i : RowIdIndex) : Nat :=
  i.size

def clear (i : RowIdIndex) : RowIdIndex :=
  { i with ids := {}, tally := i.tally.clear }

/-- The key that stands for an id.  Ids beyond the signed words wrap around. -/
def keyOfId (id : RowId) : Value :=
  .int64 id.toInt64

def toRows (i : RowIdIndex) : List Row :=
  [{ id := reservedRowId, values := i.toList.map keyOfId }]

def ofRows (name : String) (rows : List Row) : Outcome RowIdIndex :=
  rows.foldlM
    (fun i row =>
      if row.id = reservedRowId then row.values.foldlM add i
      else .error (.data (.idRowUnexpected name row.id)))
    { name := name }

end RowIdIndex

end RelationalDb
