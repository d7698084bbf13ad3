/-!
# Double precision numbers by their bits

A `Binary64` is the 64-bit word of an IEEE double.  Comparison and the conversion of
integers are computed on the word with exact integer arithmetic; only sums, quotients
and square roots go through the machine operations.
-/

namespace RelationalDb

structure Binary64 where
  bits : UInt64
deriving DecidableEq, Inhabited

namespace Binary64

def magnitude (x : Binary64) : Nat :=
  x.bits.toNat % 0x8000000000000000

def isNegative (x : Binary64) : Bool :=
  decide (0x8000000000000000 ≤ x.bits.toNat)

/-- The magnitude of the infinities; every greater one is not a number. -/
def infinityMagnitude : Nat := 0x7ff0000000000000

def isNaN (x : Binary64) : Bool :=
  decide (infinityMagnitude < x.magnitude)

/-- The place of a double in ascending order: the two zeros share a place, and everything
that is not a number stands together above positive infinity. -/
def place (x : Binary64) : Int :=
  if x.isNaN then 0x8000000000000000
  else if x.isNegative then -(x.magnitude : Int)
  else x.magnitude

instance : Ord Binary64 where
  compare x y := compare x.place y.place

/-!
## Integers as doubles
-/

/-- The nearest multiple of `2 ^ shift`, a tie going to the even quotient; the quotient. -/
def roundShift (n shift : Nat) : Nat :=
  let quotient := n >>> shift
  let unit := 1 <<< shift
  let twiceRest := 2 * (n % unit)
  if unit < twiceRest then quotient + 1
  else if twiceRest = unit then quotient + quotient % 2
  else quotient

/-- The word of the double nearest to a natural number, a tie going to the even one.  A
quotient that rounds up to the next power of two carries into the exponent. -/
def magnitudeOfNat (n : Nat) : Nat :=
  if n = 0 then 0
  else
    let exponent := n.log2
    let significand :=
      if exponent ≤ 52 then n <<< (52 - exponent) else roundShift n (exponent - 52)
    (1022 + exponent) <<< 52 + significand

def ofInt (n : Int) : Binary64 :=
  let magnitude := magnitudeOfNat n.natAbs
  ⟨UInt64.ofNat (if n < 0 then 0x8000000000000000 + magnitude else magnitude)⟩

/-!
## Arithmetic
-/

def toFloat (x : Binary64) : Float :=
  Float.ofBits x.bits

def ofFloat (x : Float) : Binary64 :=
  ⟨x.toBits⟩

def zero : Binary64 := ⟨0⟩

def negativeZero : Binary64 := ⟨0x8000000000000000⟩

instance : Add Binary64 := ⟨fun x y => ofFloat (x.toFloat + y.toFloat)⟩

instance : Sub Binary64 := ⟨fun x y => ofFloat (x.toFloat - y.toFloat)⟩

instance : Mul Binary64 := ⟨fun x y => ofFloat (x.toFloat * y.toFloat)⟩

instance : Div Binary64 := ⟨fun x y => ofFloat (x.toFloat / y.toFloat)⟩

def sqrt (x : Binary64) : Binary64 :=
  ofFloat x.toFloat.sqrt

end Binary64

end RelationalDb
