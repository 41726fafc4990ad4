import AnswerStream.History.Legacy
import AnswerStream.Message
import AnswerStream.Scope

/-
  This file defines how stored messages are shown again: the
  recorded blocks of a message as they are, the text of older
  messages in the blocks found in it, and the text of a user
  as one block.

  Key definitions include:
    * `History`
    * `History.blocks`
    * `History.message`
    * `History.messages`
    * `History.finalState`
-/

namespace AnswerStream

open Json

------------------------------------------------------------
-- Showing Messages
------------------------------------------------------------

/-
  How stored messages are shown: the check of recorded values,
  and the transforms of final state values.
-/
structure History (σ : Type) where
  validator : Option (Value → Bool)
  transforms : KeyTransforms σ

namespace History

variable {σ : Type}

/- A recorded fence whose value does not pass the check. -/
def rejects
    (accepts : Value → Bool)
    (b : Block) : Bool :=
  b.kind == .structured &&
    match b.data with
    | some v => !accepts v
    | none => false

/- The notes on recorded fences that do not pass the check. -/
def rejectionNotes
    (h : History σ)
    (messageId : String)
    (recorded : List Block) : Array Note :=
  match h.validator with
  | none => #[]
  | some accepts =>
      ((recorded.filter (rejects accepts)).map fun b =>
        Note.warn
          "recorded structured block failed validation, keeping raw value"
          [ ("message_id", messageId),
            ("block_id", b.id) ]).toArray

/- The recorded blocks of a message by index, all of them. -/
def replay
    (h : History σ)
    (messageId : String)
    (recorded : List Block) : Noted (List Block) where
  value := Block.sortByIndex recorded
  notes := h.rejectionNotes messageId recorded

/- The text of a user as one block. -/
def userBlock (m : StoredMessage) : Block :=
  Block.ofText
    (Legacy.contentId m.id .text (.string m.content)) 0 m.content

/- The blocks of a stored message. -/
def blocks
    (h : History σ)
    (m : StoredMessage) : Noted (List Block) :=
  match m.role, m.recordedBlocks with
  | .user, _ => pure [userBlock m]
  | .assistant, some recorded => h.replay m.id recorded
  | .assistant, none => Legacy.blocksOf m.id m.content

/- A stored message in blocks. -/
def message
    (h : History σ)
    (m : StoredMessage) : Noted BlockMessage := do
  return ⟨m.id, m.role, ← h.blocks m⟩

/- Stored messages in blocks, each by itself. -/
def each
    (h : History σ) :
    List StoredMessage → Noted (List BlockMessage)
  | [] => pure []
  | m :: rest => do
      let first ← h.message m
      let others ← h.each rest
      return first :: others

/- A transcript in blocks. -/
def messages
    (h : History σ)
    (ms : List StoredMessage) : Noted (List BlockMessage) := do
  let shown ← h.each ms
  let count := (shown.flatMap fun m => m.blocks).length
  Noted.say <| Note.debug "history reconstructed"
    [ ("messages", toString shown.length),
      ("blocks", toString count) ]
  return shown

------------------------------------------------------------
-- Final State Values
------------------------------------------------------------

/-
  Final state values, with the scope and the memory behind
  their transforms.
-/
structure FinalState (σ : Type) where
  state : Members
  scope : RunScope
  memory : σ

/-
  The given members after their transforms, written over the
  state so far. A key that is not ready is left out.
-/
def transformMembers
    (h : History σ)
    (messageId : String)
    (done : FinalState σ) : Members → Noted (FinalState σ)
  | [] => pure done
  | (key, v) :: rest => do
      let next :=
        done.scope.transform h.transforms messageId key v
          done.memory
      match next.result with
      | .ok output =>
          h.transformMembers messageId
            ⟨Members.insert key output done.state,
              next.scope, next.memory⟩ rest
      | .error e => do
          Noted.say <| Note.debug
            "final transform failed, key skipped"
            [ ("run_id", done.scope.runId),
              ("message_id", messageId),
              ("key", key),
              ("error", e.message) ]
          h.transformMembers messageId
            ⟨done.state, next.scope, next.memory⟩ rest

/-
  The final state values of a message: the members of its
  fences after their transforms.
-/
def finalState
    (h : History σ)
    (m : StoredMessage)
    (scope : RunScope)
    (memory : σ) : Noted (FinalState σ) := do
  let shown ← h.message m
  h.transformMembers m.id ⟨[], scope, memory⟩
    (mergeState shown.blocks)

end History

end AnswerStream
