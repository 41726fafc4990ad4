import AnswerStream.Event
import AnswerStream.Splitter.Buffer

/-
  This file defines where the events of a stream go: an outlet
  that takes any number of events, or only so many more.

  Key definitions include:
    * `StreamError`
    * `StreamError.message`
    * `Outlet`
    * `Outlet.accept?`
-/

namespace AnswerStream

------------------------------------------------------------
-- Failures
------------------------------------------------------------

/-
  Why a stream ends early: a fence outgrew its cap, or the
  outlet takes no more events.
-/
inductive StreamError where
| overflow (cause : Overflow)
| closedOutlet
deriving DecidableEq, Repr

/- The wording of the failure. -/
def StreamError.message : StreamError → String
  | .overflow cause => "parse error: " ++ cause.message
  | .closedOutlet => "event sink closed"

------------------------------------------------------------
-- Outlets
------------------------------------------------------------

/-
  An outlet: the events it took, in order, and the number of
  events it still takes, if that is bounded.
-/
structure Outlet where
  accepted : Array Event
  room : Option Nat
deriving DecidableEq, Repr

namespace Outlet

/- An outlet that takes any number of events. -/
def unbounded : Outlet :=
  ⟨#[], none⟩

/- An outlet that takes so many events. -/
def ofRoom (room : Option Nat) : Outlet :=
  ⟨#[], room⟩

/- The outlet behind one more event, if it takes it. -/
def accept?
    (o : Outlet)
    (e : Event) : Option Outlet :=
  match o.room with
  | none => some ⟨o.accepted.push e, none⟩
  | some 0 => none
  | some (n + 1) => some ⟨o.accepted.push e, some n⟩

end Outlet

end AnswerStream
