import AnswerStream.Tool

/-
  This file defines blocks, the addressable parts of an
  answer, and their wire form. A later block with the same
  identity replaces an earlier one; the index fixes the place
  at which a block is shown.

  Key definitions include:
    * `BlockKind`
    * `Block`
    * `Block.ofText`
    * `Block.ofReasoning`
    * `Block.ofStructured`
    * `Block.ofTool`
    * `Block.applyTool`
    * `Block.sortByIndex`
    * `Block.toValue`
    * `Block.ofValue?`
    * `Block.ofText?`
-/

namespace AnswerStream

open Json

------------------------------------------------------------
-- Kinds of Blocks
------------------------------------------------------------

/-
  What a block holds: prose, the value of a fence, the
  reasoning of the model, or a tool call.
-/
inductive BlockKind where
| text
| structured
| reasoning
| toolCall
deriving DecidableEq, Repr

namespace BlockKind

/- The name of a kind. -/
def name : BlockKind → String
  | .text => "text"
  | .structured => "structured"
  | .reasoning => "reasoning"
  | .toolCall => "tool_call"

/- The kind of a name. -/
def ofName? : String → Option BlockKind
  | "text" => some .text
  | "structured" => some .structured
  | "reasoning" => some .reasoning
  | "tool_call" => some .toolCall
  | _ => none

/- The wire form of a kind. -/
def toValue (k : BlockKind) : Value :=
  .string k.name

/- The kind of a wire form. -/
def ofValue? (v : Value) : Option BlockKind :=
  (Wire.caseName v).bind ofName?

end BlockKind

------------------------------------------------------------
-- Blocks
------------------------------------------------------------

/-
  A block. Which of the optional parts it has depends on its
  kind: text for prose and reasoning; a value and its source
  for a fence; the parts of a tool record for a tool call,
  with the input as the value.
-/
structure Block where
  kind : BlockKind
  id : String
  index : UInt32
  text : Option String
  data : Option Value
  sourceText : Option String
  isPartial : Option Bool
  toolId : Option String
  name : Option String
  state : Option ToolState
  output : Option Value
  error : Option String
deriving DecidableEq, Repr

namespace Block

/- A block without any optional part. -/
def bare
    (kind : BlockKind)
    (id : String)
    (index : UInt32) : Block where
  kind := kind
  id := id
  index := index
  text := none
  data := none
  sourceText := none
  isPartial := none
  toolId := none
  name := none
  state := none
  output := none
  error := none

/- A block of prose. -/
def ofText
    (id : String)
    (index : UInt32)
    (text : String) : Block :=
  { bare .text id index with text := some text }

/- A block of reasoning. -/
def ofReasoning
    (id : String)
    (index : UInt32)
    (text : String) : Block :=
  { bare .reasoning id index with text := some text }

/- A block of a fence, with its best value and its source. -/
def ofStructured
    (id : String)
    (index : UInt32)
    (data : Option Value)
    (sourceText : Option String) : Block :=
  { bare .structured id index with
    data := data
    sourceText := sourceText }

/- The block with the changing parts of a tool record. -/
def applyTool
    (b : Block)
    (r : ToolRecord) : Block :=
  { b with
    toolId := some r.id
    name := some r.name
    state := some r.state
    data := r.input
    output := r.output
    error := r.error }

/- A block of a tool call. -/
def ofTool
    (id : String)
    (index : UInt32)
    (r : ToolRecord) : Block :=
  (bare .toolCall id index).applyTool r

/- The block marked as partial or as final. -/
def withPartial
    (b : Block)
    (isPartial : Bool) : Block :=
  { b with isPartial := some isPartial }

/- The block is still being written. -/
def stillPartial (b : Block) : Bool :=
  b.isPartial.getD false

/- The text of the block, empty if it has none. -/
def textOrEmpty (b : Block) : String :=
  b.text.getD ""

------------------------------------------------------------
-- Order of Blocks
------------------------------------------------------------

/- Blocks by index, those of one index in the given order. -/
def sortByIndex (blocks : List Block) : List Block :=
  blocks.mergeSort fun a b => a.index ≤ b.index

------------------------------------------------------------
-- Wire Form
------------------------------------------------------------

/- The keys of a block, in order. -/
def keys : List String :=
  [ "type", "id", "index", "text", "data", "sourceText",
    "partial", "toolId", "name", "state", "output", "error" ]

/- The wire form of a block. -/
def toValue (b : Block) : Value :=
  Wire.record
    [ ("type", some b.kind.toValue),
      ("id", some (.string b.id)),
      ("index", some (Wire.ofWord32 b.index)),
      ("text", b.text.map .string),
      ("data", b.data),
      ("sourceText", b.sourceText.map .string),
      ("partial", b.isPartial.map .bool),
      ("toolId", b.toolId.map .string),
      ("name", b.name.map .string),
      ("state", b.state.map ToolState.toValue),
      ("output", b.output),
      ("error", b.error.map .string) ]

/- The block of a wire form. -/
def ofValue? (v : Value) : Option Block := do
  let field ← Wire.fields? keys v
  return {
    kind := ← Wire.required BlockKind.ofValue? (field "type")
    id := ← Wire.required Wire.string (field "id")
    index := ← Wire.required Wire.word32 (field "index")
    text := ← Wire.optional Wire.string (field "text")
    data := ← Wire.optional Wire.any (field "data")
    sourceText := ← Wire.optional Wire.string (field "sourceText")
    isPartial := ← Wire.optional Wire.bool (field "partial")
    toolId := ← Wire.optional Wire.string (field "toolId")
    name := ← Wire.optional Wire.string (field "name")
    state := ← Wire.optional ToolState.ofValue? (field "state")
    output := ← Wire.optional Wire.any (field "output")
    error := ← Wire.optional Wire.string (field "error") }

/- The keys under which the name of a case stands. -/
def caseKeys : List String :=
  ["type", "state"]

/-
  The block of a text. What is written there under a key that
  no block has needs no value.
-/
def ofText? (s : String) : Option Block :=
  (Wire.fieldsOfText? keys caseKeys s).bind ofValue?

end Block

end AnswerStream
