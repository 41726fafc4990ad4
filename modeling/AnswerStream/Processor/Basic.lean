import AnswerStream.Processor.View
import AnswerStream.Settings.Basic
import AnswerStream.Text.Quoted

/-
  This file defines the processor of a consumer, which applies
  the events of a stream in the order of their places, however
  they arrive. Early events wait in a buffer; when it holds
  more than its bound, the missing events are given up. There
  is no place behind the greatest one: behind an event with
  that place the processor stops.

  Key definitions include:
    * `Call`
    * `Output`
    * `Processor`
    * `Processor.moveOn`
    * `Processor.applyNext`
    * `Processor.process`
    * `Processor.processAll`
    * `Processor.reset`
    * `Processor.switchStream`
-/

namespace AnswerStream

open Json

------------------------------------------------------------
-- Outputs
------------------------------------------------------------

/-
  What a listener hears: an event came early, a range of events
  was given up, or an event could not be applied.
-/
inductive Call where
| outOfOrder (expected received : UInt64)
| gap (first last : UInt64)
| error (event : Event) (cause : ProcessorError)
deriving DecidableEq, Repr

/-
  What comes of an event: the changes to the view, the calls of
  the listener, and the notes.
-/
structure Output where
  updates : List Update
  calls : List Call
  notes : Array Note
deriving DecidableEq, Repr

namespace Output

/- Nothing came of an event. -/
def empty : Output :=
  ⟨[], [], #[]⟩

/- One output after another. -/
def append (a b : Output) : Output where
  updates := a.updates ++ b.updates
  calls := a.calls ++ b.calls
  notes := a.notes ++ b.notes

instance : Append Output :=
  ⟨append⟩

end Output

------------------------------------------------------------
-- Processors
------------------------------------------------------------

/-
  A processor: the bound of its buffer, whether it has a
  listener, the stream it follows, the place of the next event,
  whether it has stopped because there is none, the early events
  by their places, and the view.
-/
structure Processor where
  maxPending : Option Nat
  listening : Bool
  streamId : Option String
  expected : UInt64
  stopped : Bool
  pending : List Event
  view : View
deriving DecidableEq, Repr

namespace Processor

/- A processor that waits for the first event. -/
def start
    (maxPending : Option Nat)
    (listening : Bool) : Processor where
  maxPending := maxPending
  listening := listening
  streamId := none
  expected := 1
  stopped := false
  pending := []
  view := .empty

/- The bound of the default settings. -/
def standardBound : Option Nat :=
  ({} : ProcessorSettings).maxPending

/- A call, if there is a listener. -/
def calls
    (p : Processor)
    (call : Call) : List Call :=
  if p.listening then [call] else []

------------------------------------------------------------
-- Applying Events in Order
------------------------------------------------------------

/- The greatest place, behind which there is none. -/
def greatestPlace : UInt64 := 0xFFFFFFFFFFFFFFFF

/-
  The next place is one further. Behind the greatest one that
  number is out of range, and the processor stops.
-/
def moveOn (p : Processor) : Processor :=
  if p.expected = greatestPlace then { p with stopped := true }
  else { p with expected := p.expected + 1 }

/-
  The event with the next place changes the view, and is
  reported if it cannot be applied to the end; the place moves
  on.
-/
def applyNext
    (p : Processor)
    (e : Event) : Processor × Output :=
  match p.view.edit e.content e.path with
  | .ok () d =>
      (({ p with view := d.view }).moveOn,
        ⟨d.updates, [], d.notes⟩)
  | .error cause d =>
      (({ p with view := d.view }).moveOn,
        { updates := d.updates
          calls := p.calls (.error e cause)
          notes :=
            d.notes.push <| Note.warn "event not applied"
              [ ("seq", toString e.seq.toNat),
                ("event_type", e.content.typeName),
                ("error", cause.message) ] })

/-
  The given early events are applied as long as each has the
  next place; the others go on waiting.
-/
def drainFrom
    (p : Processor)
    (done : Output) : List Event → Processor × Output
  | [] => ({ p with pending := [] }, done)
  | e :: rest =>
      if p.stopped = false ∧ e.seq = p.expected then
        let next := p.applyNext e
        drainFrom next.1 (done ++ next.2) rest
      else
        ({ p with pending := e :: rest }, done)

/- The early events that are due are applied. -/
def drain
    (p : Processor)
    (done : Output) : Processor × Output :=
  p.drainFrom done p.pending

------------------------------------------------------------
-- Early Events
------------------------------------------------------------

/-
  Early events in the order of their places with one more, in
  place of the one with its place.
-/
def insertPending (e : Event) : List Event → List Event
  | [] => [e]
  | f :: rest =>
      if f.seq = e.seq then e :: rest
      else if e.seq < f.seq then e :: f :: rest
      else f :: insertPending e rest

/-
  If the buffer holds more than its bound, the events missing
  before the first one in it are given up.
-/
def enforceBound
    (p : Processor)
    (done : Output) : Processor × Output :=
  match p.maxPending, p.pending with
  | some bound, lowest :: _ =>
      if p.pending.length ≤ bound then (p, done)
      else
        let first := p.expected
        let last := lowest.seq - 1
        let report : Output :=
          { updates := []
            calls := p.calls (.gap first last)
            notes :=
              #[Note.warn
                "reorder buffer full, skipping missing events"
                [ ("from", toString first.toNat),
                  ("to", toString last.toNat),
                  ("buffered", toString p.pending.length) ]] }
        ({ p with expected := lowest.seq }).drain (done ++ report)
  | _, _ => (p, done)

/- The details of a note on the place of an event. -/
def placeDetails
    (p : Processor)
    (e : Event) : List (String × String) :=
  [ ("seq", toString e.seq.toNat),
    ("expected", toString p.expected.toNat) ]

/-
  One event. One whose place is behind is dropped, one that is
  due is applied with those waiting for it, and an early one is
  kept. Nothing comes of events once the processor has stopped.
-/
def process
    (p : Processor)
    (e : Event) : Processor × Output :=
  if p.stopped then (p, .empty)
  else if e.seq < p.expected then
    (p,
      { updates := []
        calls := []
        notes :=
          #[Note.debug "stale event dropped" (p.placeDetails e)] })
  else if e.seq = p.expected then
    let next := p.applyNext e
    next.1.drain next.2
  else
    let report : Output :=
      { updates := []
        calls := p.calls (.outOfOrder p.expected e.seq)
        notes :=
          #[Note.debug "event buffered out of order"
            (p.placeDetails e)] }
    ({ p with pending := insertPending e p.pending }).enforceBound
      report

/- Several events in the order in which they arrive. -/
def processAll
    (p : Processor) : List Event → Processor × Output
  | [] => (p, .empty)
  | e :: rest =>
      let next := p.process e
      let last := processAll next.1 rest
      (last.1, next.2 ++ last.2)

------------------------------------------------------------
-- Streams
------------------------------------------------------------

/- The processor before the first event of its stream. -/
def reset (p : Processor) : Processor :=
  { p with
    expected := 1
    stopped := false
    pending := []
    view := .empty }

/-
  The processor before the first event of another stream, or
  as it is if it follows that stream already.
-/
def switchStream
    (p : Processor)
    (id : String) : Noted Processor :=
  if p.streamId = some id then pure p
  else do
    Noted.say <| Note.debug "processor switched stream"
      [ ("stream_id", id),
        ("previous", Text.quotedOption p.streamId) ]
    return { p.reset with streamId := some id }

/- The blocks as a message of the assistant. -/
def message
    (p : Processor)
    (id : String) : BlockMessage where
  id := id
  role := .assistant
  blocks := p.view.sortedBlocks

end Processor

end AnswerStream
