import AnswerStream.Wire

/-
  This file defines the record of one tool call and its wire
  form.

  Key definitions include:
    * `ToolState`
    * `ToolRecord`
    * `ToolRecord.pending`
    * `ToolRecord.toValue`
    * `ToolRecord.ofValue?`
-/

namespace AnswerStream

open Json

------------------------------------------------------------
-- Tool States
------------------------------------------------------------

/-
  The state of a tool call: announced, with input, with
  output, or failed.
-/
inductive ToolState where
| pending
| running
| complete
| error
deriving DecidableEq, Repr

namespace ToolState

/- The name of a state. -/
def name : ToolState → String
  | .pending => "pending"
  | .running => "running"
  | .complete => "complete"
  | .error => "error"

/- The state of a name. -/
def ofName? : String → Option ToolState
  | "pending" => some .pending
  | "running" => some .running
  | "complete" => some .complete
  | "error" => some .error
  | _ => none

/- The wire form of a state. -/
def toValue (s : ToolState) : Value :=
  .string s.name

/- The state of a wire form. -/
def ofValue? (v : Value) : Option ToolState :=
  (Wire.caseName v).bind ofName?

end ToolState

------------------------------------------------------------
-- Tool Records
------------------------------------------------------------

/-
  What is known of one tool call: its latest input and output,
  and the message of its failure.
-/
structure ToolRecord where
  id : String
  name : String
  state : ToolState
  input : Option Value
  output : Option Value
  error : Option String
deriving DecidableEq, Repr

namespace ToolRecord

/- A tool call that was only announced. -/
def pending
    (id name : String) : ToolRecord where
  id := id
  name := name
  state := .pending
  input := none
  output := none
  error := none

/- The keys of a record, in order. -/
def keys : List String :=
  ["id", "name", "state", "input", "output", "error"]

/- The wire form of a record. -/
def toValue (r : ToolRecord) : Value :=
  Wire.record
    [ ("id", some (.string r.id)),
      ("name", some (.string r.name)),
      ("state", some r.state.toValue),
      ("input", r.input),
      ("output", r.output),
      ("error", r.error.map .string) ]

/- The record of a wire form. -/
def ofValue? (v : Value) : Option ToolRecord := do
  let field ← Wire.fields? keys v
  return {
    id := ← Wire.required Wire.string (field "id")
    name := ← Wire.required Wire.string (field "name")
    state := ← Wire.required ToolState.ofValue? (field "state")
    input := ← Wire.optional Wire.any (field "input")
    output := ← Wire.optional Wire.any (field "output")
    error := ← Wire.optional Wire.string (field "error") }

end ToolRecord

end AnswerStream
