import RelationalDb.Failure
import RelationalDb.Index.KeyRange
import RelationalDb.Index.Tally
import RelationalDb.Schema.Table
import RelationalDb.SortedMap

/-!
# Indices over a column

An index maps the keys of one type to the ids of the rows that hold them, oldest first.
Null is never a key.  A unique index keeps at most one row id under a key.
-/

namespace RelationalDb

structure KeyIndex where
  name : String
  keyType : ColumnType
  unique : Bool
  direction : Direction
  entries : SortedMap Value (List RowId) := {}
  tally : IndexTally := {}

namespace KeyIndex

def ofDecl (d : IndexDecl) (keyType : ColumnType) : KeyIndex :=
  { name := d.fullName, keyType := keyType, unique := d.unique, direction := d.direction }

def get (i : KeyIndex) (key : Value) : List RowId :=
  (i.entries.get? key).getD []

def contains (i : KeyIndex) (key : Value) : Bool :=
  i.entries.contains key

def pairs (i : KeyIndex) : List (Value × RowId) :=
  i.entries.entries.flatMap fun e => e.2.map fun id => (e.1, id)

/-- The number of pairs that were counted. -/
def size (i : KeyIndex) : Nat :=
  i.tally.total

def checkKey (i : KeyIndex) (key : Value) : Outcome Unit :=
  if key.type? = some i.keyType then .ok ()
  else .error (.data (.keyType i.name i.keyType key))

def checkRange (i : KeyIndex) (wanted : KeyRange Value) : Outcome Unit :=
  wanted.endpoints.forM i.checkKey

def conflicts (i : KeyIndex) (key : Value) (id : RowId) : Bool :=
  i.unique && !key.isNull && (i.get key).any (· != id)

/-- Add a row under a key.  Null is passed over, and so is a row that is there already. -/
def add (i : KeyIndex) (key : Value) (id : RowId) : Outcome KeyIndex :=
  if key.isNull then .ok i
  else do
    i.checkKey key
    if i.conflicts key id then throw (.keyNotUnique i.name key)
    let ids := i.get key
    if ids.contains id then return i
    return { i with entries := i.entries.insert key (ids ++ [id]), tally := i.tally.add 1 id }

/-- Remove one row under a key; the key goes with its last row. -/
def remove (i : KeyIndex) (key : Value) (id : RowId) : KeyIndex :=
  match i.entries.get? key with
  | none => i
  | some ids =>
      let rest := ids.filter (· != id)
      { i with
        entries := if rest.isEmpty then i.entries.erase key else i.entries.insert key rest
        tally := i.tally.remove (ids.length - rest.length) }

def removeKey (i : KeyIndex) (key : Value) : KeyIndex :=
  match i.entries.get? key with
  | none => i
  | some ids =>
      { i with entries := i.entries.erase key, tally := i.tally.remove ids.length }

def set (i : KeyIndex) (key : Value) (id : RowId) : Outcome KeyIndex :=
  if key.isNull then .ok i
  else do
    i.checkKey key
    (i.removeKey key).add key id

def scan (i : KeyIndex) (lower upper : Edge Value) : List (Value × List RowId) :=
  i.entries.entries.filter fun e => lower.admitsFromBelow e.1 && upper.admitsFromAbove e.1

/-- The entries in a range, ascending.  A range that is known to be empty is not scanned. -/
def entriesIn (i : KeyIndex) (wanted : KeyRange Value) : List (Value × List RowId) :=
  if wanted.isEmpty then [] else i.scan wanted.lower wanted.upper

/-- The row ids in a range, by key in the given direction and oldest first under one key. -/
def range (i : KeyIndex) (wanted : Option (KeyRange Value)) (direction : Direction)
    (limit : Option Nat) (skip : Nat) : Outcome (List RowId) := do
  let wanted := wanted.getD .all
  i.checkRange wanted
  let hits := i.entriesIn wanted
  let ordered :=
    match direction with
    | .ascending => hits
    | .descending => hits.reverse
  return slice (ordered.flatMap (·.2)) limit skip

/-- The number of row ids in a range; of a range that cannot be scanned, the size of the index. -/
def cost (i : KeyIndex) (wanted : Option (KeyRange Value)) : Nat :=
  match wanted with
  | none | some .all => i.size
  | some wanted =>
      match i.checkRange wanted with
      | .error _ => i.size
      | .ok () => ((i.entriesIn wanted).map (·.2.length)).foldl (· + ·) 0

def clear (i : KeyIndex) : KeyIndex :=
  { i with entries := {}, tally := i.tally.clear }

/-!
## The stored form
-/

def header (i : KeyIndex) : List Value :=
  [.string i.keyType.name, .boolean i.unique, .string i.direction.name]

/-- The stored form: the description under the reserved id, then one row for every pair. -/
def toRows (i : KeyIndex) : List Row :=
  { id := reservedRowId, values := i.header } ::
    i.pairs.zipIdx.map fun p =>
      { id := UInt64.ofNat (p.2 + 1), values := [p.1.1, .int64 p.1.2.toInt64] }

def ofHeader? (name : String) (values : List Value) : Option KeyIndex :=
  match values with
  | .string type :: .boolean unique :: .string direction :: _ =>
      match ColumnType.ofName? type, Direction.ofName? direction with
      | some type, some direction =>
          some { name := name, keyType := type, unique := unique, direction := direction }
      | _, _ => none
  | _ => none

def entryOfRow? (values : List Value) : Option (Value × RowId) :=
  match values with
  | [key, .int64 id] => if id.toInt < 0 then none else some (key, id.toUInt64)
  | _ => none

def ofRows (name : String) (rows : List Row) : Outcome KeyIndex :=
  match rows.find? fun row => row.id = reservedRowId with
  | none => .error (.data (.indexHeaderMissing name))
  | some row =>
      match ofHeader? name row.values with
      | none => .error (.data (.indexHeaderMalformed name))
      | some index =>
          (rows.filter fun row => row.id != reservedRowId).foldlM
            (fun i row =>
              match entryOfRow? row.values with
              | none => .error (.data (.indexEntryMalformed name row.id))
              | some (key, id) => i.add key id)
            index

end KeyIndex

end RelationalDb
