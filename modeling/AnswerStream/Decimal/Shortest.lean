/-
  This file defines the shortest decimal of a positive number
  `m * 2 ^ q` held in binary floating point: the fewest digits
  such that the decimal reads back as that number, and of
  those decimals the nearest. All arithmetic is exact.

  Key definitions include:
    * `Decimal.Scientific`
    * `Decimal.Binary`
    * `Decimal.Binary.magnitude`
    * `Decimal.Binary.Encloses`
    * `Decimal.Binary.shortest`
-/

namespace AnswerStream

namespace Decimal

------------------------------------------------------------
-- Decimals and Binaries
------------------------------------------------------------

/-
  A positive decimal in scientific form: its digits as one
  number, and the power of ten of the first digit.
-/
structure Scientific where
  digits : Nat
  exponent : Int
deriving DecidableEq, Repr

/-
  A positive number `significand * 2 ^ exponent`, with half
  the distance to its lower neighbour when `lowerHalf` holds:
  the significand is then the least of its binade.
-/
structure Binary where
  significand : Nat
  exponent : Int
  lowerHalf : Bool
deriving DecidableEq, Repr

namespace Binary

------------------------------------------------------------
-- Exact Comparison
------------------------------------------------------------

/-
  The order of `a * 2 ^ q` and `b * 10 ^ k`, found by moving
  negative powers to the other side.
-/
def comparePowers
    (a : Nat) (q : Int)
    (b : Nat) (k : Int) : Ordering :=
  compare
    (a * Nat.pow 2 q.toNat * Nat.pow 10 (-k).toNat)
    (b * Nat.pow 10 k.toNat * Nat.pow 2 (-q).toNat)

/-
  The whole part of `a * 2 ^ q / 10 ^ k`.
-/
def quotient
    (a : Nat) (q k : Int) : Nat :=
  a * Nat.pow 2 q.toNat * Nat.pow 10 (-k).toNat /
    (Nat.pow 10 k.toNat * Nat.pow 2 (-q).toNat)

/- The number of decimal digits. -/
def digitCount (n : Nat) : Nat :=
  (Nat.toDigits 10 n).length

/-
  The power of ten of the first digit: the digit counts of
  numerator and denominator give it up to one.
-/
def magnitude (v : Binary) : Int :=
  let above := v.significand * Nat.pow 2 v.exponent.toNat
  let below := Nat.pow 2 (-v.exponent).toNat
  let guess : Int := digitCount above - digitCount below
  match comparePowers v.significand v.exponent 1 guess with
  | .lt => guess - 1
  | _ => guess

/-
  `c * 10 ^ k` reads back as the number: it lies between the
  midpoints to the neighbours, on a midpoint only if the
  significand is even. In units of `2 ^ (exponent - 2)` the
  number is `4 * significand`.
-/
def Encloses
    (v : Binary)
    (c : Nat) (k : Int) : Bool :=
  let unit := v.exponent - 2
  let low := 4 * v.significand - (if v.lowerHalf then 1 else 2)
  let high := 4 * v.significand + 2
  let even := v.significand % 2 == 0
  let aboveLow :=
    match comparePowers low unit c k with
    | .lt => true
    | .eq => even
    | .gt => false
  let belowHigh :=
    match comparePowers high unit c k with
    | .gt => true
    | .eq => even
    | .lt => false
  aboveLow && belowHigh

/-
  The upper neighbour `c + 1` on the grid of `10 ^ k` is
  nearer than `c`, a tie going to the even one.
-/
def nearerAbove
    (v : Binary)
    (c : Nat) (k : Int) : Bool :=
  match comparePowers (2 * v.significand) v.exponent
    (2 * c + 1) k with
  | .lt => false
  | .gt => true
  | .eq => c % 2 == 1

------------------------------------------------------------
-- The Shortest Decimal
------------------------------------------------------------

/-
  The decimal on the grid of `10 ^ k` that reads back as the
  number, the nearer one if both neighbours do.
-/
def onGrid?
    (v : Binary)
    (k : Int) : Option Nat :=
  let c := quotient v.significand v.exponent k
  match v.Encloses c k, v.Encloses (c + 1) k with
  | true, true => some (if v.nearerAbove c k then c + 1 else c)
  | true, false => some c
  | false, true => some (c + 1)
  | false, false => none

/-
  The first of the grids `10 ^ k`, `10 ^ (k - 1)`, ... that
  has a decimal reading back, with that decimal.
-/
def firstGrid?
    (v : Binary) : Nat → Int → Option (Nat × Int)
  | 0, _ => none
  | n + 1, k =>
      match v.onGrid? k with
      | some c => some (c, k)
      | none => firstGrid? v n (k - 1)

/- A positive number without its trailing zeros, at most `n`. -/
def dropZeros : Nat → Nat → Nat
  | 0, c => c
  | n + 1, c => if c % 10 = 0 then dropZeros n (c / 10) else c

/-
  The shortest decimal of the number. Seventeen digits always
  suffice for a significand of 53 bits.
-/
def shortest (v : Binary) : Scientific :=
  match v.firstGrid? 17 v.magnitude with
  | none => ⟨0, 0⟩
  | some (c, k) =>
      ⟨dropZeros 18 c, k + digitCount c - 1⟩

end Binary

end Decimal

end AnswerStream
