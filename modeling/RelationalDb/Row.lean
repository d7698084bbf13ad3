import RelationalDb.Value

/-!
# Rows and their identities

A row is a list of values under a row id.  Ids are words of 64 bits handed out in
ascending order; the id zero is kept for the entries that describe a stored index.
-/

namespace RelationalDb

abbrev RowId := UInt64

structure Row where
  id : RowId
  values : List Value
deriving BEq, Inhabited

/-- The id that no row of a table is given. -/
def reservedRowId : RowId := 0

def firstRowId : RowId := 1

structure RowIdSource where
  next : RowId := firstRowId

namespace RowIdSource

/-- A source that begins at the given id, or at the first one that may be handed out. -/
def startingAt (id : RowId) : RowIdSource :=
  ⟨max id firstRowId⟩

/-- Hand out `count` ids in a row: the first of them, and the source after them. -/
def reserve (source : RowIdSource) (count : UInt64) : RowId × RowIdSource :=
  (source.next, ⟨source.next + count⟩)

def take (source : RowIdSource) : RowId × RowIdSource :=
  source.reserve 1

/-- The id after this one; the greatest id is its own successor. -/
def successor (id : RowId) : RowId :=
  if id = 0xffffffffffffffff then id else id + 1

/-- Never hand out this id or a smaller one. -/
def observe (source : RowIdSource) (id : RowId) : RowIdSource :=
  ⟨max source.next (successor id)⟩

end RowIdSource

end RelationalDb
