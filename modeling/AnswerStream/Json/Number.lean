import AnswerStream.Decimal.Binary64

/-
  This file defines the numbers of JSON values and their text.
  A number is an integer or a floating-point number; the two
  kinds are different values even when they are equal in size.

  Key definitions include:
    * `Json.Number`
    * `Json.Number.text`
    * `Json.Number.positional`
    * `Json.Number.scientific`
-/

namespace AnswerStream

namespace Json

open Decimal

------------------------------------------------------------
-- Numbers
------------------------------------------------------------

/-
  A number: an integer, or a finite floating-point number.
-/
inductive Number where
| integer (value : Int)
| float (value : Binary64)
deriving DecidableEq, Repr

namespace Number

/- The number as a word of the given width, if it is one. -/
def toWord?
    (width : Nat) : Number → Option Nat
  | .integer (.ofNat n) => if n < 1 <<< width then some n else none
  | _ => none

------------------------------------------------------------
-- Text of Floating-Point Numbers
------------------------------------------------------------

/-
  The powers of ten of a first digit that are written without
  an exponent.
-/
def leastPositional : Int := -5

def greatestPositional : Int := 15

/-
  Digits around the decimal point, with at least one digit on
  each side.
-/
def positional
    (digits : List Char)
    (exponent : Int) : List Char :=
  if exponent < 0 then
    ['0', '.'] ++ List.replicate ((-exponent).toNat - 1) '0'
      ++ digits
  else
    let whole := exponent.toNat + 1
    let fraction := digits.drop whole
    digits.take whole
      ++ List.replicate (whole - digits.length) '0'
      ++ ['.']
      ++ (if fraction.isEmpty then ['0'] else fraction)

/-
  One digit, the others behind the decimal point if there are
  any, and the exponent with its sign.
-/
def scientific
    (digits : List Char)
    (exponent : Int) : List Char :=
  let fraction := digits.drop 1
  digits.take 1
    ++ (if fraction.isEmpty then [] else '.' :: fraction)
    ++ ['e', if exponent < 0 then '-' else '+']
    ++ Nat.toDigits 10 exponent.natAbs

/- The text of a positive decimal. -/
def decimalText (d : Scientific) : List Char :=
  let digits := Nat.toDigits 10 d.digits
  if leastPositional ≤ d.exponent
      ∧ d.exponent ≤ greatestPositional then
    positional digits d.exponent
  else
    scientific digits d.exponent

/-
  The text of a finite floating-point number: the fewest
  digits that read back, never without a point or an exponent.
-/
def floatText (x : Binary64) : List Char :=
  let size :=
    match x.toBinary? with
    | none => ['0', '.', '0']
    | some v => decimalText v.shortest
  if x.isNegative then '-' :: size else size

------------------------------------------------------------
-- Text of Numbers
------------------------------------------------------------

/- The text of an integer: its digits after its sign. -/
def integerText : Int → List Char
  | .ofNat n => Nat.toDigits 10 n
  | .negSucc n => '-' :: Nat.toDigits 10 (n + 1)

/- The text of a number. -/
def text : Number → List Char
  | .integer i => integerText i
  | .float x => floatText x

end Number

end Json

end AnswerStream
