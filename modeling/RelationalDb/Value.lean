import RelationalDb.Number.Binary64

/-!
# Column types and values

A value is null or belongs to one of seven types.  Values of all types stand in one
order: null first, numbers by their size whatever their width, and otherwise type by
type.  Equality is stricter than the order: it also asks for the same type, while the
two zeros of a double are equal and so are all doubles that are not numbers.
-/

namespace RelationalDb

inductive ColumnType
  | boolean
  | int32
  | int64
  | float64
  | string
  | datetime
  | bytes
deriving DecidableEq, Inhabited

inductive Value
  | null
  | boolean (b : Bool)
  | int32 (n : Int32)
  | int64 (n : Int64)
  | float64 (x : Binary64)
  | string (s : String)
  | datetime (t : Int64)
  | bytes (bs : List UInt8)
deriving Inhabited

namespace ColumnType

def all : List ColumnType :=
  [.boolean, .int32, .int64, .float64, .string, .datetime, .bytes]

def name : ColumnType → String
  | .boolean => "boolean"
  | .int32 => "int32"
  | .int64 => "int64"
  | .float64 => "float64"
  | .string => "string"
  | .datetime => "datetime"
  | .bytes => "bytes"

def ofName? (s : String) : Option ColumnType :=
  all.find? fun t => t.name == s

def title : ColumnType → String
  | .boolean => "Boolean"
  | .int32 => "Int32"
  | .int64 => "Int64"
  | .float64 => "Float64"
  | .string => "String"
  | .datetime => "DateTime"
  | .bytes => "Bytes"

/-- Byte columns admit null unless they are declared otherwise; all others refuse it. -/
def nullableByDefault (t : ColumnType) : Bool :=
  t == .bytes

def isNumeric : ColumnType → Bool
  | .int32 | .int64 | .float64 => true
  | _ => false

/-- Byte columns cannot be the key of an index. -/
def isIndexable (t : ColumnType) : Bool :=
  t != .bytes

end ColumnType

namespace Value

def type? : Value → Option ColumnType
  | .null => none
  | .boolean _ => some .boolean
  | .int32 _ => some .int32
  | .int64 _ => some .int64
  | .float64 _ => some .float64
  | .string _ => some .string
  | .datetime _ => some .datetime
  | .bytes _ => some .bytes

def isNull : Value → Bool
  | .null => true
  | _ => false

def conformsTo (v : Value) (t : ColumnType) : Bool :=
  match v.type? with
  | none => true
  | some t' => t' == t

/-- Read a number as one of a wider type; any other value is left alone. -/
def widen (v : Value) (t : ColumnType) : Value :=
  match v, t with
  | .int32 n, .int64 => .int64 n.toInt64
  | .int32 n, .float64 => .float64 (.ofInt n.toInt)
  | .int64 n, .float64 => .float64 (.ofInt n.toInt)
  | v, _ => v

def toInt? : Value → Option Int
  | .int32 n => some n.toInt
  | .int64 n => some n.toInt
  | _ => none

def toBinary64? : Value → Option Binary64
  | .int32 n => some (.ofInt n.toInt)
  | .int64 n => some (.ofInt n.toInt)
  | .float64 x => some x
  | _ => none

/-!
## Order
-/

def rank : Value → Nat
  | .null => 0
  | .boolean _ => 1
  | .int32 _ => 2
  | .int64 _ => 3
  | .float64 _ => 4
  | .string _ => 5
  | .datetime _ => 6
  | .bytes _ => 7

/-- Compare values of different types: integers exactly, other pairs of numbers as doubles,
and everything else by rank. -/
def compareAcross (a b : Value) : Ordering :=
  match a.toInt?, b.toInt? with
  | some m, some n => compare m n
  | _, _ =>
      match a.toBinary64?, b.toBinary64? with
      | some x, some y => compare x y
      | _, _ => compare a.rank b.rank

protected def compare (a b : Value) : Ordering :=
  match a, b with
  | .boolean x, .boolean y => compare x y
  | .string x, .string y => compare x y
  | .datetime x, .datetime y => compare x.toInt y.toInt
  | .bytes x, .bytes y => compare x y
  | a, b => compareAcross a b

instance : Ord Value := ⟨Value.compare⟩

/-- Equal values have one type and the same place in the order. -/
protected def beq (a b : Value) : Bool :=
  a.rank == b.rank && compare a b == .eq

instance : BEq Value := ⟨Value.beq⟩

/-- Compare two values as a condition does: null is not comparable with anything. -/
def compare? (a b : Value) : Option Ordering :=
  if a.isNull || b.isNull then none else some (compare a b)

end Value

end RelationalDb
