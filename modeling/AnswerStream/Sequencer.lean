import AnswerStream.Event

/-
  This file defines the sequencer of a stream, which puts
  contents into envelopes: the places count up from one, and
  all events of the stream have its path.

  Key definitions include:
    * `Mark`
    * `Sequencer`
    * `Sequencer.start`
    * `Sequencer.stamp`
    * `Sequencer.reset`
-/

namespace AnswerStream

/- The identity of an event and the time at which it is made. -/
structure Mark where
  id : String
  timestamp : String
deriving DecidableEq, Repr

/- The next place of a stream, and its path. -/
structure Sequencer where
  nextSeq : UInt64
  path : Option String
deriving DecidableEq, Repr

namespace Sequencer

/- The sequencer of a new stream. -/
def start (path : Option String) : Sequencer :=
  ⟨1, path⟩

/- The next event of the stream. -/
def event
    (s : Sequencer)
    (mark : Mark)
    (content : Content) : Event where
  id := mark.id
  seq := s.nextSeq
  timestamp := mark.timestamp
  path := s.path
  content := content

/- The sequencer behind the next event. -/
def next (s : Sequencer) : Sequencer :=
  { s with nextSeq := s.nextSeq + 1 }

/- The next event of the stream, and the sequencer behind it. -/
def stamp
    (s : Sequencer)
    (mark : Mark)
    (content : Content) : Event × Sequencer :=
  (s.event mark content, s.next)

/- The sequencer of a new stream with the same path. -/
def reset (s : Sequencer) : Sequencer :=
  { s with nextSeq := 1 }

end Sequencer

end AnswerStream
