import AnswerStream.Splitter.Basic

/-
  This file defines the splitter with registers of its own for
  what is held back: one for the backticks that may open a
  fence, one for its tag, and a counter each for the backticks
  that may close a fence of JSON or another one. A phase only
  says which register is in use; what the others hold is up to
  the steps, which have to clear them. As a splitter it is seen
  with the register of its phase in the mode.

  Key definitions include:
    * `Splitter.Phase`
    * `Splitter.Machine`
    * `Splitter.Machine.splitter`
    * `Splitter.Machine.step`
    * `Splitter.Machine.append`
    * `Splitter.Machine.close`
    * `Splitter.Machine.reset`
-/

namespace AnswerStream

namespace Splitter

------------------------------------------------------------
-- States
------------------------------------------------------------

/- What a machine reads, without what it holds back. -/
inductive Phase where
| prose
| opening
| tag
| json
| closing
| other
deriving DecidableEq, Repr

/-
  A splitter with registers: its identity and caps, its phase,
  the buffers of the prose, of the backticks that may open a
  fence, of the tag and of the open fence, the backticks that
  may close a fence of JSON and those that may close another
  one, and what else a splitter has.
-/
structure Machine where
  id : String
  limits : Limits
  phase : Phase
  text : String
  fenceBuffer : String
  fenceTag : String
  json : String
  endTicks : Nat
  otherTicks : Nat
  blocks : List Block
  nextIndex : UInt32
  exhausted : Bool
  jsonComplete : Bool
deriving DecidableEq, Repr

namespace Machine

/- A machine before the first character. -/
def start
    (id : String)
    (limits : Limits) : Machine where
  id := id
  limits := limits
  phase := .prose
  text := ""
  fenceBuffer := ""
  fenceTag := ""
  json := ""
  endTicks := 0
  otherTicks := 0
  blocks := []
  nextIndex := 0
  exhausted := false
  jsonComplete := false

/- The machine before the first character of another text. -/
def reset (m : Machine) : Machine :=
  { m with
    phase := .prose
    text := ""
    fenceBuffer := ""
    fenceTag := ""
    json := ""
    endTicks := 0
    otherTicks := 0
    blocks := []
    nextIndex := 0
    exhausted := false
    jsonComplete := false }

------------------------------------------------------------
-- Machines as Splitters
------------------------------------------------------------

/- The phase with the register that is in use. -/
def mode (m : Machine) : Mode :=
  match m.phase with
  | .prose => .prose
  | .opening => .opening m.fenceBuffer.utf8ByteSize
  | .tag => .tag m.fenceTag
  | .json => .json
  | .closing => .closing m.endTicks
  | .other => .other m.otherTicks

/- The splitter that a machine is. -/
def splitter (m : Machine) : Splitter where
  id := m.id
  limits := m.limits
  mode := m.mode
  text := m.text
  json := m.json
  blocks := m.blocks
  nextIndex := m.nextIndex
  exhausted := m.exhausted
  jsonComplete := m.jsonComplete

/- All of a splitter but its mode, in place of what was there. -/
def holding
    (m : Machine)
    (p : Splitter) : Machine :=
  { m with
    id := p.id
    limits := p.limits
    text := p.text
    json := p.json
    blocks := p.blocks
    nextIndex := p.nextIndex
    exhausted := p.exhausted
    jsonComplete := p.jsonComplete }

------------------------------------------------------------
-- Buffers and Blocks
------------------------------------------------------------

/- More characters of prose. -/
def pushTexts
    (m : Machine)
    (cs : List Char) : Noted Machine :=
  m.holding <$> m.splitter.pushTexts cs

/- The open fence becomes a block, unless it is blank. -/
def finishJson (m : Machine) : Noted Machine :=
  m.holding <$> m.splitter.finishJson

/- The tag of a fence is complete. -/
def openFence (m : Machine) : Noted Machine :=
  let name := Text.lower (Text.trim m.fenceTag)
  if name = jsonTag then do
    let flushed := m.holding m.splitter.flushText
    Noted.say <| Note.debug "json fence opened"
      [("index", toString flushed.nextIndex.toNat)]
    return { flushed with json := "", phase := .json }
  else do
    Noted.say <|
      Note.debug "non-json fence skipped" [("tag", name)]
    return { m with otherTicks := 0, phase := .other }

/-
  An unfinished fence of JSON becomes a block, without the
  backticks that are held back.
-/
def close (m : Machine) : Noted Machine :=
  if m.splitter.inJson then do
    Noted.say <| Note.debug "closing unterminated json fence"
      [("index", toString m.nextIndex.toNat)]
    let finished ← ({ m with endTicks := 0 }).finishJson
    return { finished with phase := .prose }
  else
    pure m

------------------------------------------------------------
-- Steps
------------------------------------------------------------

/-
  What becomes of a machine: its next state, and the failure if
  the open fence outgrew its cap.
-/
structure Result where
  machine : Machine
  failure : Option Overflow
deriving DecidableEq, Repr

/- A step that does not fail. -/
def Result.ok (m : Machine) : Result :=
  ⟨m, none⟩

/-
  More characters of the open fence, up to the first one for
  which there is no room.
-/
def takeJson
    (m : Machine)
    (cs : List Char) : Noted Result := do
  let taken ← m.splitter.takeJson cs m.mode
  return ⟨m.holding taken.splitter, taken.failure⟩

/- One more character behind prose. -/
def stepProse
    (m : Machine)
    (c : Char) : Noted Result :=
  if c = tick then
    pure <| .ok
      { m with
        fenceBuffer := m.fenceBuffer.push c
        phase := .opening }
  else .ok <$> m.pushTexts [c]

/- One more character behind backticks that may open a fence. -/
def stepOpening
    (m : Machine)
    (c : Char) : Noted Result :=
  let held := m.fenceBuffer.push c
  if c = tick then
    pure <| .ok <|
      if held.utf8ByteSize = fenceLength then
        { m with fenceBuffer := "", fenceTag := "", phase := .tag }
      else { m with fenceBuffer := held }
  else do
    let pushed ←
      ({ m with fenceBuffer := "" }).pushTexts
        (m.fenceBuffer.toList ++ [c])
    return .ok { pushed with phase := .prose }

/- One more character on the line that opens a fence. -/
def stepTag
    (m : Machine)
    (c : Char) : Noted Result :=
  if c = '\n' then .ok <$> m.openFence
  else pure (.ok { m with fenceTag := m.fenceTag.push c })

/- One more character of a fence of JSON. -/
def stepJson
    (m : Machine)
    (c : Char) : Noted Result :=
  if c = tick then
    pure (.ok { m with endTicks := 1, phase := .closing })
  else m.takeJson [c]

/-
  One more character behind backticks that may close a fence of
  JSON. If they did not, they are counted until all of them are
  back in the fence, and the phase is left behind the character
  that follows them.
-/
def stepClosing
    (m : Machine)
    (c : Char) : Noted Result :=
  if c = tick then
    if m.endTicks + 1 = fenceLength then do
      let finished ← ({ m with endTicks := 0 }).finishJson
      return .ok { finished with phase := .prose }
    else pure (.ok { m with endTicks := m.endTicks + 1 })
  else do
    let returned ← m.takeJson (List.replicate m.endTicks tick)
    if returned.failure.isSome then return returned
    else
      let pushed ←
        ({ returned.machine with endTicks := 0 }).takeJson [c]
      if pushed.failure.isSome then return pushed
      else return .ok { pushed.machine with phase := .json }

/- One more character of another fence. -/
def stepOther
    (m : Machine)
    (c : Char) : Noted Result :=
  pure <| .ok <|
    if c = tick then
      if m.otherTicks + 1 = fenceLength then
        { m with otherTicks := 0, phase := .prose }
      else { m with otherTicks := m.otherTicks + 1 }
    else { m with otherTicks := 0 }

/- One more character. -/
def step
    (m : Machine)
    (c : Char) : Noted Result :=
  match m.phase with
  | .prose => m.stepProse c
  | .opening => m.stepOpening c
  | .tag => m.stepTag c
  | .json => m.stepJson c
  | .closing => m.stepClosing c
  | .other => m.stepOther c

------------------------------------------------------------
-- Texts
------------------------------------------------------------

/-
  The characters of a text, behind the given result; those
  behind a failure are not taken.
-/
def feed
    (done : Noted Result) : List Char → Noted Result
  | [] => done
  | c :: rest =>
      if done.value.failure.isSome then done
      else
        let next := done.value.machine.step c
        feed ⟨next.value, done.notes ++ next.notes⟩ rest

/- A further part of the text. -/
def append
    (m : Machine)
    (chunk : String) : Noted Result :=
  feed (pure (.ok m)) chunk.toList

end Machine

end Splitter

end AnswerStream
