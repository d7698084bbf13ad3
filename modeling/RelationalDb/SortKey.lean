import RelationalDb.Schema.Direction
import RelationalDb.Value

/-!
# Sorting by several keys

Lists of keys are compared position by position, each in a direction of its own.  A
missing key comes before a key that is there, whatever the direction.
-/

namespace RelationalDb

def compareKey (d : Direction) : Option Value → Option Value → Ordering
  | some a, some b => d.apply (compare a b)
  | none, some _ => .lt
  | some _, none => .gt
  | none, none => .eq

/-- Compare two lists of keys in the given directions; the first difference decides. -/
def compareKeys : List Direction → List Value → List Value → Ordering
  | [], _, _ => .eq
  | d :: ds, a, b => (compareKey d a.head? b.head?).then (compareKeys ds a.tail b.tail)

end RelationalDb
