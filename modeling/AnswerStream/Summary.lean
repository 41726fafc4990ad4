import AnswerStream.History.Basic
import AnswerStream.Processor.Basic
import AnswerStream.Streamer.Basic
import AnswerStream.Text.Quoted

/-
  This file defines one-line summaries of the parts of a
  stream, for diagnostics.

  Key definitions include:
    * `Summary.record`
    * `KeyTransforms.summary`
    * `History.summary`
    * `Streamer.summary`
    * `Processor.summary`
-/

namespace AnswerStream

namespace Summary

/- A named detail. -/
def detail (d : String × String) : String :=
  d.1 ++ ": " ++ d.2

/-
  A name with details between braces; dots stand for details
  that are not given.
-/
def record
    (name : String)
    (details : List (String × String))
    (dots : Bool) : String :=
  let parts :=
    details.map detail ++ (if dots then [".."] else [])
  name ++ " \x7b " ++ String.intercalate ", " parts ++ " \x7d"

end Summary

/- The summary of transforms: their keys. -/
def KeyTransforms.summary
    {σ : Type}
    (ts : KeyTransforms σ) : String :=
  Summary.record "KeyTransforms"
    [("keys", Text.quotedList ts.keys)] false

/- The summary of a history. -/
def History.summary
    {σ : Type}
    (h : History σ) : String :=
  Summary.record "HistoryReconstructor"
    [ ("validator", toString h.validator.isSome),
      ("transforms", h.transforms.summary) ] false

/- The summary of a stream on its way. -/
def Streamer.summary
    {σ : Type}
    (s : Streamer)
    (plan : Plan σ) : String :=
  Summary.record "StructuredOutputStreamer"
    [ ("message_id", Text.quoted s.messageId),
      ("target", s.target.label),
      ("state", s.splitter.mode.label),
      ("next_seq", toString s.sequencer.nextSeq.toNat),
      ("transforms", plan.transforms.summary),
      ("validator", toString plan.validator.isSome) ] true

/- The summary of a processor. -/
def Processor.summary (p : Processor) : String :=
  Summary.record "EventProcessor"
    [ ("stream_id", Text.quotedOption p.streamId),
      ("expected_seq", toString p.expected.toNat),
      ("pending", toString p.pending.length),
      ("blocks", toString p.view.blocks.length),
      ("tools", toString p.view.tools.length),
      ("listener", toString p.listening) ] true

end AnswerStream
