import AnswerStream.Json.Number

/-
  This file defines how the digits of a written number are
  collected and read. The significand is held in a 64-bit
  word: a digit of the whole part that no longer fits counts
  as a power of ten, and one of the fraction is ignored.

  Key definitions include:
    * `Json.Numeral`
    * `Json.Numeral.Phase`
    * `Json.Numeral.step`
    * `Json.Numeral.number?`
-/

namespace AnswerStream

namespace Json

------------------------------------------------------------
-- Numerals
------------------------------------------------------------

/-
  What has been read of a numeral: its sign, the significand,
  whether that is full, the power of ten it stands for, whether
  the numeral has neither point nor exponent, and the exponent
  with its sign.
-/
structure Numeral where
  negative : Bool
  significand : Nat
  full : Bool
  scale : Int
  whole : Bool
  exponentNegative : Bool
  exponent : Nat
deriving DecidableEq, Repr

namespace Numeral

/- A numeral of which only the sign has been read. -/
def start (negative : Bool) : Numeral where
  negative := negative
  significand := 0
  full := false
  scale := 0
  whole := true
  exponentNegative := false
  exponent := 0

/- The value of a digit. -/
def digitValue (c : Char) : Nat :=
  c.toNat - '0'.toNat

/- The significand has room for one more digit. -/
def fits
    (n : Numeral)
    (c : Char) : Bool :=
  !n.full && n.significand * 10 + digitValue c < UInt64.size

/- One more digit in front of the decimal point. -/
def wholeDigit
    (n : Numeral)
    (c : Char) : Numeral :=
  if n.fits c then
    { n with significand := n.significand * 10 + digitValue c }
  else
    { n with full := true, scale := n.scale + 1 }

/- The decimal point. -/
def point (n : Numeral) : Numeral :=
  { n with full := false, whole := false }

/- One more digit behind the decimal point. -/
def fractionDigit
    (n : Numeral)
    (c : Char) : Numeral :=
  if n.fits c then
    { n with
      significand := n.significand * 10 + digitValue c
      scale := n.scale - 1 }
  else
    { n with full := true }

/- The mark of the exponent. -/
def mark (n : Numeral) : Numeral :=
  { n with whole := false }

/- One more digit of the exponent. -/
def exponentDigit
    (n : Numeral)
    (c : Char) : Numeral :=
  { n with exponent := n.exponent * 10 + digitValue c }

------------------------------------------------------------
-- Reading a Numeral
------------------------------------------------------------

/-
  Where the reading of a numeral stands: after the sign, after
  a leading zero, in the whole part, after the point, in the
  fraction, after the mark of the exponent, after its sign, or
  in the exponent.
-/
inductive Phase where
| sign
| zero
| whole
| point
| fraction
| mark
| markSign
| exponent
deriving DecidableEq, Repr

/- A numeral may end in the phase. -/
def Phase.complete : Phase → Bool
  | .zero | .whole | .fraction | .exponent => true
  | .sign | .point | .mark | .markSign => false

/- A point or the mark of an exponent may follow the phase. -/
def Phase.mayPoint : Phase → Bool
  | .zero | .whole => true
  | _ => false

/-
  One more character of a numeral, or none if the character is
  no part of it.
-/
def step
    (n : Numeral)
    (phase : Phase)
    (c : Char) : Option (Phase × Numeral) :=
  if c.isDigit then
    match phase with
    | .sign =>
        some (if c = '0' then .zero else .whole, n.wholeDigit c)
    | .zero => none
    | .whole => some (.whole, n.wholeDigit c)
    | .point | .fraction => some (.fraction, n.fractionDigit c)
    | .mark | .markSign | .exponent =>
        some (.exponent, n.exponentDigit c)
  else if c = '.' then
    if phase.mayPoint then some (.point, n.point) else none
  else if c = 'e' ∨ c = 'E' then
    if phase.complete && phase != .exponent then
      some (.mark, n.mark)
    else none
  else if c = '+' then
    if phase = .mark then some (.markSign, n) else none
  else if c = '-' then
    if phase = .mark then
      some (.markSign, { n with exponentNegative := true })
    else none
  else
    none

/-
  The number of a numeral that was read to its end: an integer
  if it is written as one and lies in the range of signed or
  unsigned 64-bit words, and a floating-point number otherwise;
  none if it is out of the range of those too. Zero with a sign
  is a floating-point number.
-/
def number? (n : Numeral) : Option Number :=
  if n.whole && !n.full then
    if !n.negative then
      some (.integer n.significand)
    else if 0 < n.significand ∧ n.significand ≤ UInt64.size / 2 then
      some (.integer (-n.significand))
    else
      (Decimal.Binary64.ofScaled? true n.significand.toUInt64 0).map
        .float
  else
    let exponent : Int :=
      if n.exponentNegative then -n.exponent else n.exponent
    (Decimal.Binary64.ofScaled? n.negative
      n.significand.toUInt64 (n.scale + exponent)).map .float

end Numeral

end Json

end AnswerStream
