import AnswerStream.Text.Blank
import AnswerStream.Text.LowerCase
import AnswerStream.Wire

/-
  This file defines how structured output reaches the
  consumer, and the name of that target.

  Key definitions include:
    * `Target`
    * `Target.parse`
    * `UnknownTarget`
    * `UnknownTarget.message`
-/

namespace AnswerStream

open Json

------------------------------------------------------------
-- Targets
------------------------------------------------------------

/-
  The target of structured output: one event with the whole
  value per update, or one event per top-level key.
-/
inductive Target where
| messages
| state
deriving DecidableEq, Repr

/- A name that is no target, in lower case. -/
structure UnknownTarget where
  name : String
deriving DecidableEq, Repr

/- The wording of the failure. -/
def UnknownTarget.message (e : UnknownTarget) : String :=
  "unknown target mode: " ++ e.name

namespace Target

/- The name of a target. -/
def name : Target → String
  | .messages => "messages"
  | .state => "state"

/- The name of a target in summaries. -/
def label : Target → String
  | .messages => "Messages"
  | .state => "State"

/- The target of a name. -/
def ofName? : String → Option Target
  | "messages" => some .messages
  | "state" => some .state
  | _ => none

/-
  The target of a name in any case, with white space around
  it.
-/
def parse (s : String) : Except UnknownTarget Target :=
  let name := Text.lower (Text.trim s)
  match ofName? name with
  | some target => .ok target
  | none => .error ⟨name⟩

/- The wire form of a target. -/
def toValue (t : Target) : Value :=
  .string t.name

/- The target of a wire form. -/
def ofValue? (v : Value) : Option Target :=
  (Wire.caseName v).bind ofName?

end Target

end AnswerStream
