import AnswerStream.Json.Reader

/-
  This file defines the two sides of the wire form of records:
  writing named fields as an object without the absent ones,
  and reading them back by name, or by place from an array.

  Key definitions include:
    * `Wire.record`
    * `Wire.fields?`
    * `Wire.required`
    * `Wire.optional`
    * `Wire.orDefault`
    * `Wire.ofText?`
    * `Wire.fieldsOfText?`
-/

namespace AnswerStream

open Json

namespace Wire

------------------------------------------------------------
-- Writing Records
------------------------------------------------------------

/- The object of the fields that are present. -/
def record (fields : List (String × Option Value)) : Value :=
  .object <| Members.ofList <| fields.filterMap fun f =>
    f.2.map fun v => (f.1, v)

/- A 32-bit word as a value. -/
def ofWord32 (n : UInt32) : Value :=
  .number (.integer n.toNat)

/- A 64-bit word as a value. -/
def ofWord64 (n : UInt64) : Value :=
  .number (.integer n.toNat)

/- A size as a value. -/
def ofNat (n : Nat) : Value :=
  .number (.integer n)

------------------------------------------------------------
-- Reading Fields
------------------------------------------------------------

/-
  The fields of a record with the given keys: those of an
  object by name, others being passed over, or those of an
  array by place, of which the last may be missing.
-/
def fields?
    (keys : List String) :
    Value → Option (String → Option Value)
  | .object members => some fun key => Table.get? key members
  | .array items =>
      if items.length ≤ keys.length then
        some fun key => (keys.zip items).lookup key
      else none
  | _ => none

/- A field that must be present. -/
def required
    {α : Type}
    (read : Value → Option α)
    (field : Option Value) : Option α :=
  field.bind read

/- A field that may be absent or null. -/
def optional
    {α : Type}
    (read : Value → Option α) :
    Option Value → Option (Option α)
  | none => some none
  | some .null => some none
  | some v => (read v).map some

/- A field with a default. -/
def orDefault
    {α : Type}
    (default : α)
    (read : Value → Option α) :
    Option Value → Option α
  | none => some default
  | some v => read v

------------------------------------------------------------
-- Reading Values
------------------------------------------------------------

/- Any value. -/
def any (v : Value) : Option Value :=
  some v

/- A string. -/
def string : Value → Option String
  | .string s => some s
  | _ => none

/- A truth value. -/
def bool : Value → Option Bool
  | .bool b => some b
  | _ => none

/- A whole number of the given width. -/
def word
    (width : Nat) : Value → Option Nat
  | .number n => n.toWord? width
  | _ => none

/- A 32-bit word. -/
def word32 (v : Value) : Option UInt32 :=
  (word 32 v).map UInt32.ofNat

/- A 64-bit word. -/
def word64 (v : Value) : Option UInt64 :=
  (word 64 v).map UInt64.ofNat

/- A size. -/
def size (v : Value) : Option Nat :=
  word 64 v

/-
  The name of a case without data: a string, or an object that
  holds a null under the name and nothing else.
-/
def caseName : Value → Option String
  | .string s => some s
  | .object [(name, .null)] => some name
  | _ => none

/- Each of the items of an array. -/
def list
    {α : Type}
    (read : Value → Option α) : Value → Option (List α)
  | .array items => items.mapM read
  | _ => none

------------------------------------------------------------
-- Reading Texts
------------------------------------------------------------

/-
  The record of a text, all of which must have a value. Of the
  keys of the record none may be written twice.
-/
def ofText?
    {α : Type}
    (read : Value → Option α)
    (keys : α → List String)
    (s : String) : Option α := do
  let tree ← written? s
  let a ← (tree.value? Written.depthLimit).bind read
  if (keys a).any tree.repeats then none else some a

/-
  The parts of a tree that stand for the fields of a record
  with the given keys: by name, none of them twice, or by
  place. A part under another name needs no value, only its
  name must have a text.
-/
def parts?
    (keys : List String) :
    Written → Option (List (String × Written))
  | .object members => do
      let named ← members.mapM fun m => m.1.map fun k => (k, m.2)
      let parts := named.filter fun m => keys.contains m.1
      if (parts.map Prod.fst).Nodup then some parts else none
  | .array items =>
      if items.length ≤ keys.length then some (keys.zip items)
      else none
  | _ => none

/-
  The object of the fields of a record in a text. What is
  written under other names is passed over; a part that holds
  the name of a case is written with a single member if it is
  an object.
-/
def fieldsOfText?
    (keys : List String)
    (caseKeys : List String)
    (s : String) : Option Value := do
  let parts ← (written? s).bind (parts? keys)
  if parts.all fun p => !caseKeys.contains p.1 || p.2.isSingle then
    let members ← parts.mapM fun p =>
      (p.2.value? (Written.depthLimit - 1)).map fun v => (p.1, v)
    return .object (Members.ofList members)
  else none

end Wire

end AnswerStream
