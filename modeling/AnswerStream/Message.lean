import AnswerStream.Block

/-
  This file defines the messages of a transcript: as they are
  stored, with the text and perhaps the blocks recorded when
  it was streamed, and as they are shown, in blocks.

  Key definitions include:
    * `Role`
    * `Metadata`
    * `StoredMessage`
    * `StoredMessage.recordedBlocks`
    * `BlockMessage`
-/

namespace AnswerStream

open Json

------------------------------------------------------------
-- Roles
------------------------------------------------------------

/- The author of a message. -/
inductive Role where
| user
| assistant
deriving DecidableEq, Repr

namespace Role

/- The name of a role. -/
def name : Role → String
  | .user => "user"
  | .assistant => "assistant"

/- The role of a name. -/
def ofName? : String → Option Role
  | "user" => some .user
  | "assistant" => some .assistant
  | _ => none

/- The wire form of a role. -/
def toValue (r : Role) : Value :=
  .string r.name

/- The role of a wire form. -/
def ofValue? (v : Value) : Option Role :=
  (Wire.caseName v).bind ofName?

end Role

------------------------------------------------------------
-- Stored Messages
------------------------------------------------------------

/- What is stored beside the text of a message. -/
structure Metadata where
  blocks : Option (List Block)
deriving DecidableEq, Repr

namespace Metadata

/- The wire form of a list of blocks. -/
def blocksValue (blocks : List Block) : Value :=
  .array (blocks.map Block.toValue)

/- The keys of metadata, in order. -/
def keys : List String :=
  ["blocks"]

/- The wire form of metadata. -/
def toValue (m : Metadata) : Value :=
  Wire.record [("blocks", m.blocks.map blocksValue)]

/- The metadata of a wire form. -/
def ofValue? (v : Value) : Option Metadata := do
  let field ← Wire.fields? keys v
  return {
    blocks :=
      ← Wire.optional (Wire.list Block.ofValue?) (field "blocks") }

end Metadata

/-
  A message as it is stored. Older messages have no metadata.
-/
structure StoredMessage where
  id : String
  role : Role
  content : String
  metadata : Option Metadata
deriving DecidableEq, Repr

namespace StoredMessage

/- The blocks that were recorded with the message. -/
def recordedBlocks (m : StoredMessage) : Option (List Block) :=
  m.metadata.bind Metadata.blocks

/- The keys of a stored message, in order. -/
def keys : List String :=
  ["id", "role", "content", "metadata"]

/- The wire form of a stored message. -/
def toValue (m : StoredMessage) : Value :=
  Wire.record
    [ ("id", some (.string m.id)),
      ("role", some m.role.toValue),
      ("content", some (.string m.content)),
      ("metadata", m.metadata.map Metadata.toValue) ]

/- The stored message of a wire form. -/
def ofValue? (v : Value) : Option StoredMessage := do
  let field ← Wire.fields? keys v
  return {
    id := ← Wire.required Wire.string (field "id")
    role := ← Wire.required Role.ofValue? (field "role")
    content := ← Wire.required Wire.string (field "content")
    metadata :=
      ← Wire.optional Metadata.ofValue? (field "metadata") }

end StoredMessage

------------------------------------------------------------
-- Messages in Blocks
------------------------------------------------------------

/- A message as it is shown: its blocks in order. -/
structure BlockMessage where
  id : String
  role : Role
  blocks : List Block
deriving DecidableEq, Repr

namespace BlockMessage

/- The keys of a message in blocks, in order. -/
def keys : List String :=
  ["id", "role", "blocks"]

/- The wire form of a message in blocks. -/
def toValue (m : BlockMessage) : Value :=
  Wire.record
    [ ("id", some (.string m.id)),
      ("role", some m.role.toValue),
      ("blocks", some (Metadata.blocksValue m.blocks)) ]

/- The message in blocks of a wire form. -/
def ofValue? (v : Value) : Option BlockMessage := do
  let field ← Wire.fields? keys v
  return {
    id := ← Wire.required Wire.string (field "id")
    role := ← Wire.required Role.ofValue? (field "role")
    blocks :=
      ← Wire.required (Wire.list Block.ofValue?) (field "blocks") }

end BlockMessage

end AnswerStream
