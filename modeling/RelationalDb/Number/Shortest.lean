import RelationalDb.Number.Binary64

/-!
# The shortest decimal that reads back

A finite double stands for every real number that rounds to it.  Among the decimals in
that interval we want one with the fewest significant digits, and of those the nearest
to the double.  Everything is exact arithmetic on natural numbers.
-/

namespace RelationalDb

/-- A positive decimal `0.d₁d₂…dₙ · 10 ^ point`, its digits written as one number. -/
structure Decimal where
  digits : Nat
  length : Nat
  point : Int
deriving DecidableEq

/-- The reals that round to a double, in units of `2 ^ exponent`: from `low` to `high`
around `value`, with both ends or without them. -/
structure RoundingInterval where
  low : Nat
  value : Nat
  high : Nat
  exponent : Int
  closed : Bool

namespace RoundingInterval

/-- The interval of a finite positive magnitude.  Below a power of two the neighbours are
twice as close, and the ends belong to the double whose significand is even. -/
def ofMagnitude (magnitude : Nat) : RoundingInterval :=
  let field : Nat := magnitude >>> 52
  let fraction : Nat := magnitude % 0x10000000000000
  let significand : Nat := if field = 0 then fraction else 0x10000000000000 + fraction
  let exponent : Int := if field = 0 then -1074 else (field : Int) - 1075
  let value : Nat := 4 * significand
  { low := if fraction = 0 ∧ 1 < field then value - 1 else value - 2
    value := value
    high := value + 2
    exponent := exponent - 2
    closed := significand % 2 = 0 }

/-- The interval over the common denominator of a decimal grid: a point `a` of the grid
with step `10 ^ step` is `a * unit`, and the ends and the value are multiples of `scale`. -/
structure Grid where
  unit : Nat
  scale : Nat

def grid (i : RoundingInterval) (step : Int) : Grid where
  unit := Nat.pow 10 step.toNat <<< (-i.exponent).toNat
  scale := Nat.pow 10 (-step).toNat <<< i.exponent.toNat

def holds (i : RoundingInterval) (g : Grid) (point : Nat) : Bool :=
  let x := point * g.unit
  if i.closed then i.low * g.scale ≤ x && x ≤ i.high * g.scale
  else i.low * g.scale < x && x < i.high * g.scale

/-- The point of the grid nearest to the value among its two neighbours that lie in the
interval; of two at the same distance the greater one. -/
def nearest? (i : RoundingInterval) (g : Grid) : Option Nat :=
  let value := i.value * g.scale
  let below := value / g.unit
  let above := below + 1
  match i.holds g below, i.holds g above with
  | true, true =>
      if value - below * g.unit < above * g.unit - value then some below else some above
  | true, false => some below
  | false, true => some above
  | false, false => none

end RoundingInterval

def digitCount (n : Nat) : Nat :=
  (Nat.toDigits 10 n).length

/-- The least `p` with `numerator / denominator < 10 ^ p`, for a positive quotient. -/
def pointPosition (numerator denominator : Nat) : Int :=
  if denominator ≤ numerator then digitCount (numerator / denominator)
  else 1 - (digitCount ((denominator - 1) / numerator) : Int)

def shortestFrom (i : RoundingInterval) (point : Int) : Nat → Nat → Option Decimal
  | 0, _ => none
  | remaining + 1, length =>
      match i.nearest? (i.grid (point - length)) with
      | some hit =>
          if hit < Nat.pow 10 length then some { digits := hit, length := length, point := point }
          else some { digits := hit / 10, length := length, point := point + 1 }
      | none => shortestFrom i point remaining (length + 1)

/-- The shortest decimal of a finite positive magnitude.  Seventeen digits always do. -/
def shortest (magnitude : Nat) : Decimal :=
  let i := RoundingInterval.ofMagnitude magnitude
  let point := pointPosition (i.value <<< i.exponent.toNat) (1 <<< (-i.exponent).toNat)
  (shortestFrom i point 17 1).getD { digits := 0, length := 1, point := 1 }

end RelationalDb
