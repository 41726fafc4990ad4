import AnswerStream.Message
import AnswerStream.Scope
import AnswerStream.Sequencer
import AnswerStream.Splitter.Basic
import AnswerStream.Streamer.Outlet

/-
  This file defines the streamer, which turns the chunks of an
  answer into events: after each chunk one event for every
  block or state key that looks different from what was sent
  last, and at the end the final events and the message with
  its blocks.

  Key definitions include:
    * `Plan`
    * `Streamer`
    * `Session`
    * `Session.push`
    * `Session.finish`
    * `Session.run`
    * `Outcome`
-/

namespace AnswerStream

open Json

------------------------------------------------------------
-- Streams
------------------------------------------------------------

/-
  What shapes the events of a stream: the transforms of state
  values, the check of the last value, and the marks of the
  events by their places.
-/
structure Plan (σ : Type) where
  transforms : KeyTransforms σ
  validator : Option (Value → Bool)
  marks : UInt64 → Mark

/-
  A stream on its way: the splitter, the sequencer, the target,
  the identity of the message, the text so far, the number of
  finished blocks that were announced, and the fingerprints of
  what was sent last for each block and for each state key.
-/
structure Streamer where
  splitter : Splitter
  sequencer : Sequencer
  target : Target
  messageId : String
  rawText : String
  announced : Nat
  sentBlocks : Table String String
  sentKeys : Table String String
deriving DecidableEq, Repr

/- A stream before the first chunk. -/
def Streamer.start
    (messageId : String)
    (target : Target)
    (limits : Limits)
    (path : Option String) : Streamer where
  splitter := .start messageId limits
  sequencer := .start path
  target := target
  messageId := messageId
  rawText := ""
  announced := 0
  sentBlocks := []
  sentKeys := []

/-
  What a stream leaves: the message with its blocks, and the
  last value of a fence, if it passes the check.
-/
structure Outcome where
  message : StoredMessage
  parsed : Option Value
deriving DecidableEq, Repr

/-
  A stream with its surroundings: the outlet of its events, the
  memory of the transforms, the scope of the run, and the notes
  so far.
-/
structure Session (σ : Type) where
  streamer : Streamer
  outlet : Outlet
  memory : σ
  scope : RunScope
  notes : Array Note

namespace Session

variable {σ : Type}

/- A step of a session, which keeps what it did if it fails. -/
abbrev Step (σ α : Type) :=
  EStateM StreamError (Session σ) α

/- A stream that begins. -/
def start
    (streamer : Streamer)
    (outlet : Outlet)
    (scope : RunScope)
    (memory : σ) : Session σ where
  streamer := streamer
  outlet := outlet
  memory := memory
  scope := scope
  notes := #[]

------------------------------------------------------------
-- Elementary Steps
------------------------------------------------------------

/- A change of the streamer. -/
def change (f : Streamer → Streamer) : Step σ Unit :=
  modify fun s => { s with streamer := f s.streamer }

/- A note. -/
def say (note : Note) : Step σ Unit :=
  modify fun s => { s with notes := s.notes.push note }

/- The value of a step that leaves notes. -/
def hear
    {α : Type}
    (x : Noted α) : Step σ α := do
  modify fun s => { s with notes := s.notes ++ x.notes }
  return x.value

/- The next event goes out. -/
def emit
    (plan : Plan σ)
    (content : Content) : Step σ Unit := fun s =>
  let sequencer := s.streamer.sequencer
  let event :=
    sequencer.event (plan.marks sequencer.nextSeq) content
  let s :=
    { s with
      streamer :=
        { s.streamer with sequencer := sequencer.next } }
  match s.outlet.accept? event with
  | some outlet => .ok () { s with outlet := outlet }
  | none => .error .closedOutlet s

/-
  A value differs from what was sent last for a slot, by its
  fingerprint; if so, it is put there.
-/
def refresh
    (sent : Table String String)
    (slot : String)
    (v : Value) : Option (Table String String) :=
  let fingerprint := v.fingerprint
  if Table.get? slot sent = some fingerprint then none
  else some (Table.put slot fingerprint sent)

/-
  Something goes out for a block, unless it looks the same as
  what was sent last.
-/
def emitBlock
    (plan : Plan σ)
    (blockId : String)
    (v : Value)
    (content : Content) : Step σ Unit := do
  match refresh (← get).streamer.sentBlocks blockId v with
  | none => pure ()
  | some sent =>
      change fun s => { s with sentBlocks := sent }
      emit plan content

/-
  A value goes out for a state key, unless it looks the same as
  what was sent last.
-/
def emitKey
    (plan : Plan σ)
    (key : String)
    (v : Value) : Step σ Unit := do
  match refresh (← get).streamer.sentKeys key v with
  | none => pure ()
  | some sent =>
      change fun s => { s with sentKeys := sent }
      emit plan (.stateStreaming key v)

------------------------------------------------------------
-- Previews
------------------------------------------------------------

/-
  The blocks of prose to look at after a chunk: those finished
  since the last look, and the present one without the
  backticks that are held back.
-/
def textPreviews (s : Streamer) : List Block :=
  let finished :=
    (s.splitter.blocks.drop s.announced).filter
      fun b => b.kind == .text
  let trimmed := Text.trim s.splitter.text
  if trimmed.isEmpty then finished
  else
    finished ++
      [ Block.ofText s.splitter.pendingTextId
          s.splitter.nextIndex trimmed ]

/- An event for each of the blocks of prose that changed. -/
def emitTexts
    (plan : Plan σ) : List Block → Step σ Unit
  | [] => pure ()
  | b :: rest => do
      emitBlock plan b.id (.string b.textOrEmpty)
        (.text b.id b.index b.textOrEmpty false)
      emitTexts plan rest

/- The changed prose after a chunk. -/
def emitTextUpdates (plan : Plan σ) : Step σ Unit := do
  let s := (← get).streamer
  let previews := textPreviews s
  change fun s =>
    { s with announced := s.splitter.blocks.length }
  emitTexts plan previews

/- An event for each state key that changed and is ready. -/
def emitMembers
    (plan : Plan σ) : Members → Step σ Unit
  | [] => pure ()
  | (key, v) :: rest => do
      let (result, memory) :=
        plan.transforms.apply key v (← get).memory
      modify fun s => { s with memory := memory }
      match result with
      | .ok output => emitKey plan key output
      | .error e =>
          say <| Note.debug "transform not ready, key skipped"
            [("key", key), ("error", e.message)]
      emitMembers plan rest

/- The changed state of an unfinished value. -/
def emitStatePartial
    (plan : Plan σ)
    (v : Value) : Step σ Unit :=
  match v with
  | .object members => emitMembers plan members
  | _ =>
      say <| Note.debug
        "partial structured value is not an object, no state emitted"
        []

/- The changed block of an unfinished value. -/
def emitStructuredPartial
    (plan : Plan σ)
    (v : Value) : Step σ Unit := do
  let p := (← get).streamer.splitter
  emitBlock plan p.pendingStructuredId v
    (.structured p.pendingStructuredId p.nextIndex
      (some v) none false)

------------------------------------------------------------
-- Chunks
------------------------------------------------------------

/- The text of a chunk is taken in. -/
def take (chunk : String) : Step σ Unit := do
  change fun s => { s with rawText := s.rawText ++ chunk }
  let result ← hear ((← get).streamer.splitter.append chunk)
  change fun s => { s with splitter := result.splitter }
  match result.failure with
  | some cause => throw (.overflow cause)
  | none => pure ()

/- One chunk of the answer, with the events that it causes. -/
def push
    (plan : Plan σ)
    (chunk : String) : Step σ Unit := do
  take chunk
  emitTextUpdates plan
  let s := (← get).streamer
  match s.splitter.partialValue? with
  | none => pure ()
  | some v =>
      match s.target with
      | .state => emitStatePartial plan v
      | .messages => emitStructuredPartial plan v

------------------------------------------------------------
-- The End of a Stream
------------------------------------------------------------

/- The last event of each block of prose. -/
def emitFinalTexts
    (plan : Plan σ) : List Block → Step σ Unit
  | [] => pure ()
  | b :: rest => do
      emit plan (.text b.id b.index b.textOrEmpty true)
      emitFinalTexts plan rest

/- The last event of each fence. -/
def emitFinalFences
    (plan : Plan σ) : List Block → Step σ Unit
  | [] => pure ()
  | b :: rest => do
      emit plan
        (.structured b.id b.index b.data b.sourceText true)
      emitFinalFences plan rest

/-
  A transform in the scope of the run.
-/
def transformInScope
    (plan : Plan σ)
    (key : String)
    (v : Value) : Step σ (Except TransformError Value) := do
  let s ← get
  let done :=
    s.scope.transform plan.transforms s.streamer.messageId key v
      s.memory
  set { s with scope := done.scope, memory := done.memory }
  return done.result

/- The last event of each state key that is ready. -/
def emitFinalMembers
    (plan : Plan σ) : Members → Step σ Unit
  | [] => pure ()
  | (key, v) :: rest => do
      match ← transformInScope plan key v with
      | .ok output => emit plan (.stateFinal key output)
      | .error e =>
          say <| Note.debug "final transform failed, key skipped"
            [("key", key), ("error", e.message)]
      emitFinalMembers plan rest

/- The last value of the fences. -/
def lastData (fences : List Block) : Option Value :=
  fences.reverse.findSome? Block.data

/- A value, if it passes the check. -/
def checked
    (plan : Plan σ)
    (messageId : String)
    (data : Option Value) : Noted (Option Value) :=
  match data, plan.validator with
  | some v, some accepts =>
      if accepts v then pure (some v)
      else do
        Noted.say <| Note.warn
          "structured output failed schema validation"
          [("message_id", messageId)]
        return none
  | data, _ => pure data

/-
  The end of the answer: an unfinished fence is closed, the
  final events go out, and the message is put together.
-/
def finish (plan : Plan σ) : Step σ Outcome := do
  let closed ← hear (← get).streamer.splitter.close
  change fun s => { s with splitter := closed }
  let blocks := closed.allBlocks
  emitFinalTexts plan (blocks.filter fun b => b.kind == .text)
  let fences := blocks.filter fun b => b.kind == .structured
  match (← get).streamer.target with
  | .state => emitFinalMembers plan (mergeState fences)
  | .messages => emitFinalFences plan fences
  let s := (← get).streamer
  let parsed ← hear (checked plan s.messageId (lastData fences))
  say <| Note.debug "stream finalized"
    [ ("message_id", s.messageId),
      ("blocks", toString blocks.length),
      ("events", toString (s.sequencer.nextSeq - 1).toNat),
      ("parsed", toString parsed.isSome) ]
  return {
    message := {
      id := s.messageId
      role := .assistant
      content := s.rawText
      metadata := some ⟨some blocks⟩ }
    parsed := parsed }

------------------------------------------------------------
-- Whole Streams
------------------------------------------------------------

/- All chunks of the answer. -/
def pushAll
    (plan : Plan σ) : List String → Step σ Unit
  | [] => pure ()
  | chunk :: rest => do
      push plan chunk
      pushAll plan rest

/-
  All chunks of the answer and its end. A chunk that fails ends
  the stream.
-/
def run
    (plan : Plan σ)
    (chunks : List String) : Step σ Outcome := do
  let s := (← get).streamer
  say <| Note.debug "stream started"
    [ ("message_id", s.messageId), ("target", s.target.label) ]
  try
    pushAll plan chunks
  catch e =>
    say <| Note.warn "stream aborted"
      [("message_id", s.messageId), ("error", e.message)]
    throw e
  finish plan

end Session

end AnswerStream
