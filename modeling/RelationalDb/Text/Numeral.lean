import RelationalDb.Number.Shortest

/-!
# How doubles are written

A double is written with its shortest digits.  From `1e-4` up to `1e16` the point is
placed among the digits and at least one digit follows it; other numbers have one digit
before the point and an exponent.
-/

namespace RelationalDb

/-- Which decimals are written without an exponent, by the position of their point. -/
structure NumeralStyle where
  leastPoint : Int
  greatestPoint : Int

/-- Points from three zeros after the point to sixteen places before it. -/
def NumeralStyle.standard : NumeralStyle where
  leastPoint := -3
  greatestPoint := 16

namespace Decimal

def digitText (d : Decimal) : String :=
  toString d.digits

def zeros (n : Nat) : String :=
  String.ofList (List.replicate n '0')

def positional (d : Decimal) : String :=
  let digits := d.digitText.toList
  if d.point ≤ 0 then "0." ++ zeros (-d.point).toNat ++ d.digitText
  else if (d.length : Int) ≤ d.point then d.digitText ++ zeros (d.point - d.length).toNat ++ ".0"
  else
    let whole := d.point.toNat
    String.ofList (digits.take whole) ++ "." ++ String.ofList (digits.drop whole)

def scientific (d : Decimal) : String :=
  let digits := d.digitText.toList
  let fraction := digits.drop 1
  String.ofList (digits.take 1) ++ (if fraction.isEmpty then "" else "." ++ String.ofList fraction)
    ++ "e" ++ toString (d.point - 1)

def text (style : NumeralStyle) (d : Decimal) : String :=
  if style.leastPoint ≤ d.point ∧ d.point ≤ style.greatestPoint then d.positional
  else d.scientific

end Decimal

namespace Binary64

def text (x : Binary64) : String :=
  if x.isNaN then "NaN"
  else
    let sign := if x.isNegative then "-" else ""
    let magnitude := x.magnitude
    sign ++
      (if magnitude = infinityMagnitude then "inf"
      else if magnitude = 0 then "0.0"
      else (shortest magnitude).text .standard)

end Binary64

end RelationalDb
