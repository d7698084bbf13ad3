/-!
# Sort directions
-/

namespace RelationalDb

inductive Direction
  | ascending
  | descending
deriving DecidableEq, Inhabited

namespace Direction

def apply : Direction → Ordering → Ordering
  | .ascending, o => o
  | .descending, o => o.swap

def name : Direction → String
  | .ascending => "asc"
  | .descending => "desc"

def ofName? (s : String) : Option Direction :=
  [Direction.ascending, .descending].find? fun d => d.name == s

def keyword : Direction → String
  | .ascending => "ASC"
  | .descending => "DESC"

end Direction

end RelationalDb
