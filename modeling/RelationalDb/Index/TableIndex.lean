import RelationalDb.Index.Keys
import RelationalDb.Index.RowIds

/-!
# The two kinds of index

A table has an index over its row ids and any number of indices over columns.  Both kinds
answer to the same operations.
-/

namespace RelationalDb

inductive TableIndex
  | ofRowIds (index : RowIdIndex)
  | ofKeys (index : KeyIndex)

namespace TableIndex

def name : TableIndex → String
  | ofRowIds i => i.name
  | ofKeys i => i.name

def size : TableIndex → Nat
  | ofRowIds i => i.size
  | ofKeys i => i.size

def tally : TableIndex → IndexTally
  | ofRowIds i => i.tally
  | ofKeys i => i.tally

def keyType : TableIndex → ColumnType
  | ofRowIds _ => .int64
  | ofKeys i => i.keyType

def isUnique : TableIndex → Bool
  | ofRowIds _ => true
  | ofKeys i => i.unique

/-!
## Reading
-/

def get (key : Value) : TableIndex → List RowId
  | ofRowIds i => i.get key
  | ofKeys i => i.get key

def contains (key : Value) : TableIndex → Bool
  | ofRowIds i => i.contains key
  | ofKeys i => i.contains key

def range (wanted : Option (KeyRange Value)) (direction : Direction) (limit : Option Nat)
    (skip : Nat) : TableIndex → Outcome (List RowId)
  | ofRowIds i => i.range wanted direction limit skip
  | ofKeys i => i.range wanted direction limit skip

def cost (wanted : Option (KeyRange Value)) : TableIndex → Nat
  | ofRowIds i => i.cost
  | ofKeys i => i.cost wanted

def toRows : TableIndex → List Row
  | ofRowIds i => i.toRows
  | ofKeys i => i.toRows

/-!
## Writing
-/

def add (key : Value) (id : RowId) : TableIndex → Outcome TableIndex
  | ofRowIds i => (i.add key).map ofRowIds
  | ofKeys i => (i.add key id).map ofKeys

def set (key : Value) (id : RowId) : TableIndex → Outcome TableIndex
  | ofRowIds i => (i.set key).map ofRowIds
  | ofKeys i => (i.set key id).map ofKeys

def remove (key : Value) (id : Option RowId) : TableIndex → TableIndex
  | ofRowIds i => ofRowIds (i.remove key)
  | ofKeys i =>
      match id with
      | some id => ofKeys (i.remove key id)
      | none => ofKeys (i.removeKey key)

def clear : TableIndex → TableIndex
  | ofRowIds i => ofRowIds i.clear
  | ofKeys i => ofKeys i.clear

def reload (name : String) (rows : List Row) : TableIndex → Outcome TableIndex
  | ofRowIds _ => (RowIdIndex.ofRows name rows).map ofRowIds
  | ofKeys _ => (KeyIndex.ofRows name rows).map ofKeys

end TableIndex

end RelationalDb
