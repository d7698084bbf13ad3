import RelationalDb.Text.Numeral
import RelationalDb.Text.Quoted
import RelationalDb.Value

/-!
# How values are written

A value is written as its type followed by its content in parentheses.
-/

namespace RelationalDb

def commaSeparated (items : List String) : String :=
  String.intercalate ", " items

def boolText (b : Bool) : String :=
  if b then "true" else "false"

namespace Value

def text : Value → String
  | .null => "Null"
  | .boolean b => "Boolean(" ++ boolText b ++ ")"
  | .int32 n => "Int32(" ++ toString n.toInt ++ ")"
  | .int64 n => "Int64(" ++ toString n.toInt ++ ")"
  | .float64 x => "Float64(" ++ x.text ++ ")"
  | .string s => "String(" ++ quoted s ++ ")"
  | .datetime t => "DateTime(" ++ toString t.toInt ++ ")"
  | .bytes bs => "Bytes([" ++ commaSeparated (bs.map fun b => toString b.toNat) ++ "])"

def typeName (v : Value) : String :=
  match v.type? with
  | none => "null"
  | some t => t.name

end Value

end RelationalDb
