import AnswerStream.Json.Value
import AnswerStream.Json.Numeral

/-
  This file defines JSON as it is written, before it means
  anything: numerals may be out of range, strings may hold
  half of a surrogate pair, keys of an object may repeat, and
  containers may nest to any depth. The value of a written
  tree exists if none of its parts is without a meaning and
  it does not nest too deep.

  Key definitions include:
    * `Json.Written`
    * `Json.Written.value?`
    * `Json.Written.repeats`
    * `Json.Written.isSingle`
-/

namespace AnswerStream

namespace Json

------------------------------------------------------------
-- Written Trees
------------------------------------------------------------

/-
  A tree as it is written: the members of an object stand in
  the order of the text, with any repetition, and a string or
  a key is none if half of a surrogate pair stands in it alone.
-/
inductive Written where
| null
| bool (value : Bool)
| number (numeral : Numeral)
| string (text : Option String)
| array (items : List Written)
| object (members : List (Option String × Written))
deriving Repr

namespace Written

------------------------------------------------------------
-- Values of Trees
------------------------------------------------------------

mutual

/-
  The value of a tree that nests no deeper than the given
  depth. In every object the members are put into order, and
  of a repeated key the last value counts.
-/
def value? (depth : Nat) : Written → Option Value
  | .null => some .null
  | .bool b => some (.bool b)
  | .number n => n.number?.map .number
  | .string s => s.map .string
  | .array items =>
      match depth with
      | 0 => none
      | depth + 1 => (items? depth items).map .array
  | .object members =>
      match depth with
      | 0 => none
      | depth + 1 =>
          (members? depth members).map fun ms =>
            .object (Members.ofList ms)

/- The values of a list of trees. -/
def items? (depth : Nat) : List Written → Option (List Value)
  | [] => some []
  | t :: rest =>
      match value? depth t with
      | none => none
      | some v => (items? depth rest).map fun vs => v :: vs

/- The values of members, in the order of the text. -/
def members? (depth : Nat) :
    List (Option String × Written) → Option Members
  | [] => some []
  | (key, t) :: rest =>
      match key, value? depth t with
      | some k, some v =>
          (members? depth rest).map fun ms => (k, v) :: ms
      | _, _ => none

end

/- The greatest depth of a text that has a value. -/
def depthLimit : Nat := 127

------------------------------------------------------------
-- Keys as Written
------------------------------------------------------------

/- A key is written more than once. -/
def repeats
    (t : Written)
    (key : String) : Bool :=
  match t with
  | .object members =>
      1 < members.countP fun m => m.1 == some key
  | _ => false

/- A tree that is no object, or one with a single member. -/
def isSingle : Written → Bool
  | .object members => members.length == 1
  | _ => true

end Written

end Json

end AnswerStream
