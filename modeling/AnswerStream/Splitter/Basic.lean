import AnswerStream.Block
import AnswerStream.Note
import AnswerStream.Json.Completion
import AnswerStream.Splitter.Buffer
import AnswerStream.Text.LowerCase

/-
  This file defines the splitter, which divides the text of an
  answer into blocks, one character at a time. Three backticks
  open a fence; the rest of their line is its tag. A fence
  with the tag `json` becomes a block of its own when it is
  closed, any other fence is left out, and the text between
  fences becomes blocks of prose.

  Key definitions include:
    * `Splitter.Mode`
    * `Splitter`
    * `Splitter.step`
    * `Splitter.append`
    * `Splitter.close`
    * `Splitter.allBlocks`
    * `Splitter.partialValue?`
-/

namespace AnswerStream

open Json

------------------------------------------------------------
-- States
------------------------------------------------------------

/-
  Where a splitter stands: in prose; in prose with backticks
  held back that may open a fence; in the tag of a fence; in a
  fence of JSON; there with backticks held back that may close
  it; or in another fence, behind a run of backticks.
-/
inductive Splitter.Mode where
| prose
| opening (held : Nat)
| tag (text : String)
| json
| closing (held : Nat)
| other (run : Nat)
deriving DecidableEq, Repr

/- The name of a mode. -/
def Splitter.Mode.label : Splitter.Mode → String
  | .prose => "Text"
  | .opening _ => "MaybeFence"
  | .tag _ => "FenceType"
  | .json => "InJsonBlock"
  | .closing _ => "MaybeEndFence"
  | .other _ => "InOtherCodeBlock"

/-
  A splitter: the identity from which those of its blocks are
  made, its caps, its mode, the prose since the last block, the
  text of the open fence, the finished blocks in order, the
  index of the next block, whether the number of that got out of
  range, and whether a fence was finished.
-/
structure Splitter where
  id : String
  limits : Limits
  mode : Splitter.Mode
  text : String
  json : String
  blocks : List Block
  nextIndex : UInt32
  exhausted : Bool
  jsonComplete : Bool
deriving DecidableEq, Repr

namespace Splitter

/- A splitter before the first character. -/
def start
    (id : String)
    (limits : Limits) : Splitter where
  id := id
  limits := limits
  mode := .prose
  text := ""
  json := ""
  blocks := []
  nextIndex := 0
  exhausted := false
  jsonComplete := false

/- The splitter before the first character of another text. -/
def reset (p : Splitter) : Splitter :=
  start p.id p.limits

/- The character of which fences are made. -/
def tick : Char := '\x60'

/- The number of backticks of a fence. -/
def fenceLength : Nat := 3

------------------------------------------------------------
-- Views
------------------------------------------------------------

/- A fence of JSON is open. -/
def inJson (p : Splitter) : Bool :=
  match p.mode with
  | .json | .closing _ => true
  | _ => false

/- The identity of a block. -/
def blockId
    (p : Splitter)
    (kind : BlockKind)
    (index : UInt32) : String :=
  p.id ++ ":" ++ kind.name ++ ":" ++ toString index.toNat

/- The identity that a block of the present prose will have. -/
def pendingTextId (p : Splitter) : String :=
  p.blockId .text p.nextIndex

/- The identity that the block of the open fence will have. -/
def pendingStructuredId (p : Splitter) : String :=
  p.blockId .structured p.nextIndex

/- The text of the open fence. -/
def partialSource? (p : Splitter) : Option String :=
  if p.inJson then some p.json else none

/- The best value of the open fence. -/
def partialValue? (p : Splitter) : Option Value :=
  if p.inJson then Json.partialValue? p.json else none

/- The present prose with the backticks that are held back. -/
def trailingText (p : Splitter) : String :=
  match p.mode with
  | .opening held =>
      p.text ++ String.ofList (List.replicate held tick)
  | _ => p.text

/- The finished blocks, and one of the present prose if any. -/
def allBlocks (p : Splitter) : List Block :=
  let trailing := Text.trim p.trailingText
  if trailing.isEmpty then p.blocks
  else
    p.blocks ++
      [Block.ofText p.pendingTextId p.nextIndex trailing]

------------------------------------------------------------
-- Prose
------------------------------------------------------------

/- One more character of prose. -/
def pushText
    (p : Splitter)
    (c : Char) : Noted Splitter :=
  let text := p.text.push c
  if p.limits.text < text.utf8ByteSize then
    let rest := shorten p.limits text
    let dropped := text.utf8ByteSize - rest.utf8ByteSize
    { value := { p with text := rest }
      notes :=
        #[Note.debug "free-text buffer trimmed"
          [ ("dropped", toString dropped),
            ("kept", toString rest.utf8ByteSize) ]] }
  else
    { value := { p with text := text }, notes := #[] }

/- More characters of prose. -/
def pushTexts
    (p : Splitter) : List Char → Noted Splitter
  | [] => pure p
  | c :: rest => do
      let next ← p.pushText c
      pushTexts next rest

/- The number of the index behind the next one is out of range. -/
def runsOut (p : Splitter) : Bool :=
  p.exhausted || p.nextIndex.toNat + 1 == UInt32.size

/-
  A finished block, at the next index. Once the indices run out
  the splitter is of no use, until it is reset.
-/
def addBlock
    (p : Splitter)
    (b : Block) : Splitter :=
  { p with
    blocks := p.blocks ++ [b]
    nextIndex := p.nextIndex + 1
    exhausted := p.runsOut }

/- The prose so far becomes a block, unless it is blank. -/
def flushText (p : Splitter) : Splitter :=
  let text := Text.trim p.text
  let flushed :=
    if text.isEmpty then p
    else
      p.addBlock (Block.ofText p.pendingTextId p.nextIndex text)
  { flushed with text := "" }

------------------------------------------------------------
-- Fences
------------------------------------------------------------

/- One more character of the open fence, if it has room. -/
def pushJson?
    (p : Splitter)
    (c : Char) : Option Splitter :=
  if p.limits.structured < p.json.utf8ByteSize + c.utf8Size then
    none
  else
    some { p with json := p.json.push c }

/-
  More characters of the open fence, up to the first one for
  which there is no room.
-/
def pushJsons
    (p : Splitter) : List Char → Splitter × Bool
  | [] => (p, true)
  | c :: rest =>
      match p.pushJson? c with
      | some next => pushJsons next rest
      | none => (p, false)

/- The start of a source, for a note. -/
def preview (source : String) : String :=
  String.ofList (source.toList.take 80)

/- The open fence becomes a block, unless it is blank. -/
def finishJson (p : Splitter) : Noted Splitter := do
  let source := Text.trim p.json
  let cleared := { p with json := "" }
  if source.isEmpty then
    Noted.say (Note.debug "empty json fence ignored" [])
    return cleared
  else
    let data := Json.partialValue? source
    let index := toString p.nextIndex.toNat
    if data.isNone then
      Noted.say <| Note.warn
        "json fence did not parse, keeping source only"
        [("index", index), ("preview", preview source)]
    let finished :=
      cleared.addBlock <|
        Block.ofStructured p.pendingStructuredId p.nextIndex
          data (some source)
    Noted.say <|
      Note.debug "json fence finalized" [("index", index)]
    return { finished with jsonComplete := true }

/- The tag of a fence of JSON. -/
def jsonTag : String := "json"

/- The tag of a fence is complete. -/
def openFence
    (p : Splitter)
    (tag : String) : Noted Splitter :=
  let name := Text.lower (Text.trim tag)
  if name = jsonTag then do
    let flushed := p.flushText
    Noted.say <| Note.debug "json fence opened"
      [("index", toString flushed.nextIndex.toNat)]
    return { flushed with json := "", mode := .json }
  else do
    Noted.say <|
      Note.debug "non-json fence skipped" [("tag", name)]
    return { p with mode := .other 0 }

/-
  An unfinished fence of JSON becomes a block, without the
  backticks that are held back.
-/
def close (p : Splitter) : Noted Splitter :=
  if p.inJson then do
    Noted.say <| Note.debug "closing unterminated json fence"
      [("index", toString p.nextIndex.toNat)]
    let finished ← p.finishJson
    return { finished with mode := .prose }
  else
    pure p

------------------------------------------------------------
-- Steps
------------------------------------------------------------

/-
  What becomes of a splitter: its next state, and the failure
  if the open fence outgrew its cap.
-/
structure Result where
  splitter : Splitter
  failure : Option Overflow
deriving DecidableEq, Repr

/- A step that does not fail. -/
def Result.ok (p : Splitter) : Result :=
  ⟨p, none⟩

/-
  More characters of the open fence, with the given mode
  behind them. Without room the mode stays, and so do the
  characters for which there was room.
-/
def takeJson
    (p : Splitter)
    (cs : List Char)
    (mode : Mode) : Noted Result :=
  match p.pushJsons cs with
  | (next, true) => pure (.ok { next with mode := mode })
  | (next, false) => do
      Noted.say <| Note.warn
        "structured block exceeded buffer cap"
        [("limit", toString p.limits.structured)]
      return ⟨next, some ⟨p.limits.structured⟩⟩

/-
  One more character. Backticks that did not close a fence of
  JSON go back into it before the character behind them; where
  only that has no room, none is held any more.
-/
def step
    (p : Splitter)
    (c : Char) : Noted Result :=
  match p.mode with
  | .prose =>
      if c = tick then pure (.ok { p with mode := .opening 1 })
      else .ok <$> p.pushText c
  | .opening held =>
      if c = tick then
        pure <| .ok <|
          if held + 1 = fenceLength then { p with mode := .tag "" }
          else { p with mode := .opening (held + 1) }
      else
        .ok <$>
          ({ p with mode := .prose }).pushTexts
            (List.replicate held tick ++ [c])
  | .tag text =>
      if c = '\n' then .ok <$> p.openFence text
      else pure (.ok { p with mode := .tag (text.push c) })
  | .json =>
      if c = tick then pure (.ok { p with mode := .closing 1 })
      else p.takeJson [c] .json
  | .closing held =>
      if c = tick then
        if held + 1 = fenceLength then do
          let finished ← p.finishJson
          return .ok { finished with mode := .prose }
        else pure (.ok { p with mode := .closing (held + 1) })
      else do
        let returned ←
          p.takeJson (List.replicate held tick) (.closing 0)
        if returned.failure.isSome then return returned
        else returned.splitter.takeJson [c] .json
  | .other run =>
      pure <| .ok <|
        if c = tick then
          if run + 1 = fenceLength then { p with mode := .prose }
          else { p with mode := .other (run + 1) }
        else { p with mode := .other 0 }

------------------------------------------------------------
-- Texts
------------------------------------------------------------

/-
  The characters of a text, behind the given result; those
  behind a failure are not taken.
-/
def feed
    (done : Noted Result) : List Char → Noted Result
  | [] => done
  | c :: rest =>
      if done.value.failure.isSome then done
      else
        let next := done.value.splitter.step c
        feed ⟨next.value, done.notes ++ next.notes⟩ rest

/- A further part of the text. -/
def append
    (p : Splitter)
    (chunk : String) : Noted Result :=
  feed (pure (.ok p)) chunk.toList

end Splitter

end AnswerStream
