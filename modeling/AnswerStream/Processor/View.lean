import AnswerStream.Event
import AnswerStream.Message
import AnswerStream.Note
import AnswerStream.Table

/-
  This file defines what a consumer sees of a stream: state
  values, blocks and tool calls, and how one event changes
  that view. An event is worked off in steps, each of which may
  fail; nothing that was changed before is taken back.

  Key definitions include:
    * `ProcessorError`
    * `Update`
    * `View`
    * `View.sortedBlocks`
    * `Draft`
    * `Edit`
    * `Edit.upsert`
    * `Edit.startTool`
    * `Edit.updateTool`
    * `Edit.apply`
    * `View.edit`
-/

namespace AnswerStream

open Json

------------------------------------------------------------
-- Failures
------------------------------------------------------------

/-
  Why an event cannot be applied: it names no key, no block or
  no tool call, or leaves no index for a further block.
-/
inductive ProcessorError where
| missingKey (eventType : String)
| missingBlockId (eventType : String)
| missingToolId (eventType : String)
| indexOverflow (eventType : String) (index : UInt32)
deriving DecidableEq, Repr

namespace ProcessorError

/- The name of the kind of a failure. -/
def name : ProcessorError → String
  | .missingKey _ => "MissingKey"
  | .missingBlockId _ => "MissingBlockId"
  | .missingToolId _ => "MissingToolId"
  | .indexOverflow _ _ => "IndexOverflow"

/- The wording of a failure. -/
def message : ProcessorError → String
  | .missingKey t => t ++ " event has no key"
  | .missingBlockId t => t ++ " event has no block id"
  | .missingToolId t => t ++ " event has no tool id"
  | .indexOverflow t index =>
      t ++ " event has out of range index "
        ++ toString index.toNat

end ProcessorError

------------------------------------------------------------
-- Views
------------------------------------------------------------

/-
  A change that an event made: to a state key, a block, or a
  tool call.
-/
inductive Update where
| state
    (key : String) (value : Value)
    (isFinal : Bool) (path : Option String)
| block (block : Block)
| tool (record : ToolRecord)
deriving DecidableEq, Repr

/-
  What a consumer sees: the latest value of each state key, the
  keys that have their final value, the blocks in the order in
  which they came first, the tool calls by their identities, the
  identities in the order in which the calls were started, and
  the index behind all blocks.
-/
structure View where
  state : Members
  finalized : List String
  blocks : List Block
  tools : Table String ToolRecord
  toolOrder : List String
  nextIndex : UInt32
deriving DecidableEq, Repr

namespace View

/- A view without anything in it. -/
def empty : View where
  state := []
  finalized := []
  blocks := []
  tools := []
  toolOrder := []
  nextIndex := 0

/- The block with an identity. -/
def block?
    (v : View)
    (id : String) : Option Block :=
  v.blocks.find? fun b => b.id == id

/- The tool call with an identity. -/
def tool?
    (v : View)
    (id : String) : Option ToolRecord :=
  Table.get? id v.tools

/- The tool calls in the order in which they were started. -/
def toolCalls (v : View) : List ToolRecord :=
  v.toolOrder.filterMap v.tool?

/- A key has its final value. -/
def isFinalized
    (v : View)
    (key : String) : Bool :=
  v.finalized.contains key

/-
  Blocks with one more, in place of the one with its identity,
  or at the end.
-/
def putBlock (b : Block) : List Block → List Block
  | [] => [b]
  | c :: rest =>
      if c.id = b.id then b :: rest else c :: putBlock b rest

/-
  A block as it is put into a view: with the index of the one
  whose identity it has, if there is one.
-/
def placed
    (v : View)
    (b : Block) : Block :=
  match v.block? b.id with
  | some old => { b with index := old.index }
  | none => b

/- The greatest index, behind which there is none. -/
def greatestIndex : UInt32 := 0xFFFFFFFF

/- A block without a partial mark if it is final. -/
def markPartial
    (b : Block)
    (isFinal : Bool) : Block :=
  if isFinal then b else b.withPartial true

/- A state key has its final value. -/
def finalizeKey
    (v : View)
    (key : String) : View :=
  if v.isFinalized key then v
  else { v with finalized := v.finalized ++ [key] }

/- Blocks by index, and by identity where that is the same. -/
def sortedBlocks (v : View) : List Block :=
  v.blocks.mergeSort fun a b =>
    if a.index = b.index then a.id ≤ b.id
    else a.index ≤ b.index

end View

------------------------------------------------------------
-- Edits
------------------------------------------------------------

/-
  An event that is being worked off: the view, the changes and
  the notes so far.
-/
structure Draft where
  view : View
  updates : List Update
  notes : Array Note
deriving DecidableEq, Repr

/- An event is taken up, and nothing was done for it yet. -/
def Draft.start (v : View) : Draft :=
  ⟨v, [], #[]⟩

/-
  A step of working off an event. Where it fails, the draft
  stays as far as it had come.
-/
abbrev Edit (α : Type) :=
  EStateM ProcessorError Draft α

namespace Edit

/- The view so far. -/
def view : Edit View := do
  return (← get).view

/- The view is changed. -/
def change (f : View → View) : Edit Unit :=
  modify fun d => { d with view := f d.view }

/- A change is reported. -/
def report (u : Update) : Edit Unit :=
  modify fun d => { d with updates := d.updates ++ [u] }

/- A note is left. -/
def note (n : Note) : Edit Unit :=
  modify fun d => { d with notes := d.notes.push n }

/- A name must not be empty. -/
def require
    (name : String)
    (cause : ProcessorError) : Edit Unit :=
  if name.isEmpty then throw cause else pure ()

/- A state key gets a value. -/
def setState
    (key : String)
    (value : Value)
    (isFinal : Bool)
    (path : Option String) : Edit Unit := do
  change fun v =>
    { v with state := Members.insert key value v.state }
  report (.state key value isFinal path)

/-
  A block is put into the view, unless there is no index behind
  its own. In place of another one it keeps the index of that.
-/
def upsert
    (b : Block)
    (eventType : String) : Edit Unit := do
  let b := (← view).placed b
  if b.index = View.greatestIndex then
    throw (.indexOverflow eventType b.index)
  change fun v =>
    { v with nextIndex := max v.nextIndex (b.index + 1) }
  change fun v => { v with blocks := View.putBlock b v.blocks }
  report (.block b)

/-
  The record of a tool call that starts is kept. One that is
  new comes last in the order.
-/
def enroll
    (id : String)
    (record : ToolRecord) : Edit Unit := do
  unless Table.has id (← view).tools do
    change fun v => { v with toolOrder := v.toolOrder ++ [id] }
  change fun v => { v with tools := Table.put id record v.tools }
  report (.tool record)

/- A tool call starts, or starts again. -/
def startTool
    (id name : String)
    (input : Option Value) : Edit Unit := do
  let record := { ToolRecord.pending id name with input := input }
  let index := (← view).nextIndex
  upsert (Block.ofTool id index record) "tool:start"
  enroll id record
  note <| Note.debug "tool started"
    [("tool_id", id), ("name", name)]

/- The block of a tool call shows how far that is. -/
def updateBlock
    (id : String)
    (record : ToolRecord) : Edit Unit := do
  match (← view).block? id with
  | none => pure ()
  | some b =>
      let b := b.applyTool record
      change fun v => { v with blocks := View.putBlock b v.blocks }
      report (.block b)

/-
  A tool call and its block are changed. A tool call that was
  never started is passed over.
-/
def updateTool
    (id : String)
    (merge : ToolRecord → ToolRecord) : Edit Unit := do
  match (← view).tool? id with
  | none =>
      note <| Note.debug "update for unknown tool ignored"
        [("tool_id", id)]
  | some old =>
      let record := merge old
      change fun v =>
        { v with tools := Table.put id record v.tools }
      updateBlock id record
      report (.tool record)

/-
  An event is applied. A key that has its final value takes no
  other one, except a further final value.
-/
def apply
    (content : Content)
    (path : Option String) : Edit Unit := do
  let t := content.typeName
  match content with
  | .stateStreaming key value =>
      require key (.missingKey t)
      if (← view).isFinalized key then
        note <| Note.debug "update for finalized key ignored"
          [("key", key)]
      else
        setState key value false path
  | .stateFinal key value =>
      require key (.missingKey t)
      change fun v => v.finalizeKey key
      setState key value true path
  | .text blockId index body isFinal =>
      require blockId (.missingBlockId t)
      let b := Block.ofText blockId index body
      upsert (View.markPartial b isFinal) t
  | .reasoning blockId index body isFinal =>
      require blockId (.missingBlockId t)
      let b := Block.ofReasoning blockId index body
      upsert (View.markPartial b isFinal) t
  | .structured blockId index data sourceText isFinal =>
      require blockId (.missingBlockId t)
      let b := Block.ofStructured blockId index data sourceText
      upsert (View.markPartial b isFinal) t
  | .toolStart toolId name input =>
      require toolId (.missingToolId t)
      startTool toolId name input
  | .toolInput toolId input =>
      require toolId (.missingToolId t)
      updateTool toolId fun r =>
        { r with input := some input, state := .running }
  | .toolOutput toolId output =>
      require toolId (.missingToolId t)
      updateTool toolId fun r =>
        { r with output := some output, state := .complete }
  | .toolError toolId error =>
      require toolId (.missingToolId t)
      updateTool toolId fun r =>
        { r with error := some error, state := .error }

end Edit

/- What becomes of a view when an event is applied to it. -/
def View.edit
    (v : View)
    (content : Content)
    (path : Option String) :
    EStateM.Result ProcessorError Draft Unit :=
  (Edit.apply content path).run (.start v)

end AnswerStream
