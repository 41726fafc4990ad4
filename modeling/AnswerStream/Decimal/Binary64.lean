import AnswerStream.Decimal.Shortest

/-
  This file defines the numbers of 64-bit binary floating
  point by their bits, and how a decimal is read as one: the
  significand as a 64-bit word, times or divided by one power
  of ten, in floating-point arithmetic.

  Key definitions include:
    * `Decimal.Binary64`
    * `Decimal.Binary64.isNegative`
    * `Decimal.Binary64.toBinary?`
    * `Decimal.Binary64.ofScaled?`
-/

namespace AnswerStream

namespace Decimal

/- A floating-point number, by its bits. -/
structure Binary64 where
  bits : UInt64
deriving DecidableEq, Repr

namespace Binary64

------------------------------------------------------------
-- Parts of a Number
------------------------------------------------------------

/- The number of an arithmetic result. -/
def ofFloat (x : Float) : Binary64 :=
  ⟨x.toBits⟩

/- The sign bit is set. -/
def isNegative (x : Binary64) : Bool :=
  x.bits >>> 63 == 1

/- The exponent field. -/
def exponentField (x : Binary64) : Nat :=
  ((x.bits >>> 52) &&& 0x7FF).toNat

/- The fraction field. -/
def fractionField (x : Binary64) : Nat :=
  (x.bits &&& 0xFFFFFFFFFFFFF).toNat

/-
  The size of a finite number other than zero, as a binary
  with its significand.
-/
def toBinary? (x : Binary64) : Option Binary :=
  if x.exponentField = 0x7FF then
    none
  else if x.exponentField = 0 then
    if x.fractionField = 0 then none
    else some ⟨x.fractionField, -1074, false⟩
  else
    some
      { significand := x.fractionField + 0x10000000000000
        exponent := (x.exponentField : Int) - 1075
        lowerHalf :=
          x.fractionField = 0 && 1 < x.exponentField }

------------------------------------------------------------
-- Reading a Scaled Significand
------------------------------------------------------------

/- The greatest power of ten used in one step. -/
def greatestPower : Nat := 308

/- A power of ten as a floating-point number. -/
def powerOfTen (n : Nat) : Float :=
  Float.ofScientific 1 false n

/-
  A number divided by `10 ^ n`, in steps of the greatest power
  until one step remains or nothing is left.
-/
def scaleDown
    (x : Float)
    (n : Nat) : Float :=
  if n ≤ greatestPower then
    x / powerOfTen n
  else if x == 0 then
    x
  else
    scaleDown (x / powerOfTen greatestPower) (n - greatestPower)
termination_by n
decreasing_by
  simp only [greatestPower] at *
  omega

/-
  A number times `10 ^ n`, unless it is out of range.
-/
def scaleUp?
    (x : Float)
    (n : Nat) : Option Float :=
  if n ≤ greatestPower then
    let y := x * powerOfTen n
    if y.isInf then none else some y
  else if x == 0 then
    some x
  else
    none

/-
  The number with the given sign, significand and power of
  ten; none if it is out of range.
-/
def ofScaled?
    (negative : Bool)
    (significand : UInt64)
    (scale : Int) : Option Binary64 :=
  let size :=
    if scale < 0 then
      some (scaleDown significand.toFloat (-scale).toNat)
    else
      scaleUp? significand.toFloat scale.toNat
  size.map fun x => ofFloat (if negative then -x else x)

end Binary64

end Decimal

end AnswerStream
