import AnswerStream.Wire

/-
  This file defines the events of an ordered stream: an
  envelope with the place in the stream around the content,
  and the wire form in which both share one object.

  Key definitions include:
    * `Content`
    * `Content.typeName`
    * `Content.isFinal`
    * `Content.ofValue?`
    * `Event`
    * `Event.segments`
    * `Event.toValue`
    * `Event.ofValue?`
    * `Event.ofText?`
-/

namespace AnswerStream

open Json

------------------------------------------------------------
-- Contents
------------------------------------------------------------

/-
  What an event says: the latest or the last value of a key,
  the present text or value of a block, or a step of a tool
  call.
-/
inductive Content where
| stateStreaming (key : String) (value : Value)
| stateFinal (key : String) (value : Value)
| text
    (blockId : String) (index : UInt32)
    (body : String) (isFinal : Bool)
| structured
    (blockId : String) (index : UInt32)
    (data : Option Value) (sourceText : Option String)
    (isFinal : Bool)
| reasoning
    (blockId : String) (index : UInt32)
    (body : String) (isFinal : Bool)
| toolStart
    (toolId name : String) (input : Option Value)
| toolInput (toolId : String) (input : Value)
| toolOutput (toolId : String) (output : Value)
| toolError (toolId error : String)
deriving DecidableEq, Repr

namespace Content

/- The names of the types of contents, in order. -/
def typeNames : List String :=
  [ "state:streaming", "state:final", "content:text",
    "content:structured", "content:reasoning", "tool:start",
    "tool:input", "tool:output", "tool:error" ]

/- The name of the type. -/
def typeName : Content → String
  | .stateStreaming .. => "state:streaming"
  | .stateFinal .. => "state:final"
  | .text .. => "content:text"
  | .structured .. => "content:structured"
  | .reasoning .. => "content:reasoning"
  | .toolStart .. => "tool:start"
  | .toolInput .. => "tool:input"
  | .toolOutput .. => "tool:output"
  | .toolError .. => "tool:error"

/- The content is the last of its key or block. -/
def isFinal : Content → Bool
  | .stateFinal .. => true
  | .text _ _ _ isFinal => isFinal
  | .structured _ _ _ _ isFinal => isFinal
  | .reasoning _ _ _ isFinal => isFinal
  | _ => false

------------------------------------------------------------
-- Wire Form of Contents
------------------------------------------------------------

/- The fields of a content beside its type. -/
def fields : Content → List (String × Option Value)
  | .stateStreaming key value =>
      [("key", some (.string key)), ("value", some value)]
  | .stateFinal key value =>
      [("key", some (.string key)), ("value", some value)]
  | .text blockId index body isFinal =>
      [ ("blockId", some (.string blockId)),
        ("index", some (Wire.ofWord32 index)),
        ("text", some (.string body)),
        ("final", some (.bool isFinal)) ]
  | .structured blockId index data sourceText isFinal =>
      [ ("blockId", some (.string blockId)),
        ("index", some (Wire.ofWord32 index)),
        ("data", data),
        ("sourceText", sourceText.map .string),
        ("final", some (.bool isFinal)) ]
  | .reasoning blockId index body isFinal =>
      [ ("blockId", some (.string blockId)),
        ("index", some (Wire.ofWord32 index)),
        ("text", some (.string body)),
        ("final", some (.bool isFinal)) ]
  | .toolStart toolId name input =>
      [ ("toolId", some (.string toolId)),
        ("name", some (.string name)),
        ("input", input) ]
  | .toolInput toolId input =>
      [("toolId", some (.string toolId)), ("input", some input)]
  | .toolOutput toolId output =>
      [("toolId", some (.string toolId)), ("output", some output)]
  | .toolError toolId error =>
      [ ("toolId", some (.string toolId)),
        ("error", some (.string error)) ]

/- The keys of the fields of a type, in order. -/
def keysOf : String → List String
  | "state:streaming" | "state:final" => ["key", "value"]
  | "content:text" | "content:reasoning" =>
      ["blockId", "index", "text", "final"]
  | "content:structured" =>
      ["blockId", "index", "data", "sourceText", "final"]
  | "tool:start" => ["toolId", "name", "input"]
  | "tool:input" => ["toolId", "input"]
  | "tool:output" => ["toolId", "output"]
  | "tool:error" => ["toolId", "error"]
  | _ => []

/- The final mark of a block, absent from a partial one. -/
def finalMark (field : Option Value) : Option Bool :=
  Wire.orDefault false Wire.bool field

/- The content of a type with the given fields. -/
def ofFields?
    (typeName : String)
    (field : String → Option Value) : Option Content := do
  match typeName with
  | "state:streaming" =>
      return .stateStreaming
        (← Wire.required Wire.string (field "key"))
        (← Wire.required Wire.any (field "value"))
  | "state:final" =>
      return .stateFinal
        (← Wire.required Wire.string (field "key"))
        (← Wire.required Wire.any (field "value"))
  | "content:text" =>
      return .text
        (← Wire.required Wire.string (field "blockId"))
        (← Wire.required Wire.word32 (field "index"))
        (← Wire.required Wire.string (field "text"))
        (← finalMark (field "final"))
  | "content:structured" =>
      return .structured
        (← Wire.required Wire.string (field "blockId"))
        (← Wire.required Wire.word32 (field "index"))
        (← Wire.optional Wire.any (field "data"))
        (← Wire.optional Wire.string (field "sourceText"))
        (← finalMark (field "final"))
  | "content:reasoning" =>
      return .reasoning
        (← Wire.required Wire.string (field "blockId"))
        (← Wire.required Wire.word32 (field "index"))
        (← Wire.required Wire.string (field "text"))
        (← finalMark (field "final"))
  | "tool:start" =>
      return .toolStart
        (← Wire.required Wire.string (field "toolId"))
        (← Wire.required Wire.string (field "name"))
        (← Wire.optional Wire.any (field "input"))
  | "tool:input" =>
      return .toolInput
        (← Wire.required Wire.string (field "toolId"))
        (← Wire.required Wire.any (field "input"))
  | "tool:output" =>
      return .toolOutput
        (← Wire.required Wire.string (field "toolId"))
        (← Wire.required Wire.any (field "output"))
  | "tool:error" =>
      return .toolError
        (← Wire.required Wire.string (field "toolId"))
        (← Wire.required Wire.string (field "error"))
  | _ => none

/-
  The content of a wire form of its own: an object with the
  name of the type, or an array that begins with it.
-/
def ofValue? : Value → Option Content
  | .object members => do
      let typeName ←
        Wire.required Wire.string (Table.get? "type" members)
      ofFields? typeName fun key => Table.get? key members
  | .array (.string typeName :: items) => do
      let field ← Wire.fields? (keysOf typeName) (.array items)
      ofFields? typeName field
  | _ => none

end Content

------------------------------------------------------------
-- Events
------------------------------------------------------------

/-
  An event: its identity, its place in the stream, the time at
  which it was made, the path of the part of the stream it
  belongs to, and its content.
-/
structure Event where
  id : String
  seq : UInt64
  timestamp : String
  path : Option String
  content : Content
deriving DecidableEq, Repr

namespace Event

/- The event with the given path. -/
def withPath
    (e : Event)
    (path : String) : Event :=
  { e with path := some path }

/- A character between the segments of a path. -/
def isSeparator (c : Char) : Bool :=
  c == '/' || c == '|'

/- The segments of a path that are not empty. -/
def segmentsOf (cs : List Char) : List String :=
  ((cs.splitOnP isSeparator).filter fun s => !s.isEmpty).map
    String.ofList

/- The segments of the path of an event. -/
def segments (e : Event) : List String :=
  match e.path with
  | none => []
  | some path => segmentsOf path.toList

------------------------------------------------------------
-- Wire Form of Events
------------------------------------------------------------

/- The fields of the place of an event and of its content. -/
def placedFields (e : Event) : List (String × Option Value) :=
  [ ("seq", some (Wire.ofWord64 e.seq)),
    ("namespace", e.path.map .string),
    ("type", some (.string e.content.typeName)) ]
    ++ e.content.fields

/-
  The wire form of an event that was just made, without its
  identity and its time.
-/
def toPlacedValue (e : Event) : Value :=
  Wire.record e.placedFields

/- The wire form of an event. -/
def toValue (e : Event) : Value :=
  Wire.record <|
    [ ("id", some (.string e.id)),
      ("timestamp", some (.string e.timestamp)) ]
      ++ e.placedFields

/-
  The name of the type of an event: written out, or as its
  number among the names of types.
-/
def typeName? : Value → Option String
  | .string s => some s
  | .number (.integer (.ofNat n)) => Content.typeNames[n]?
  | _ => none

/- The event of a wire form. -/
def ofValue? (v : Value) : Option Event := do
  let members ← v.members?
  let field := fun key => Table.get? key members
  let typeName ← Wire.required typeName? (field "type")
  return {
    id := ← Wire.required Wire.string (field "id")
    seq := ← Wire.required Wire.word64 (field "seq")
    timestamp := ← Wire.required Wire.string (field "timestamp")
    path := ← Wire.optional Wire.string (field "namespace")
    content := ← Content.ofFields? typeName field }

/- The keys of an event. -/
def keys (e : Event) : List String :=
  ["id", "seq", "timestamp", "namespace", "type"]
    ++ Content.keysOf e.content.typeName

/- The event of a text. -/
def ofText? (s : String) : Option Event :=
  Wire.ofText? ofValue? keys s

end Event

end AnswerStream
