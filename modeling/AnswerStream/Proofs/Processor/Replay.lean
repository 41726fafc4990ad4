import AnswerStream.Processor.Basic
import AnswerStream.Proofs.Processor.Editing

/-
  This file defines the replay of events on a view: what the
  view is behind them, which changes they make, and which of
  them cannot be applied. The processor applies an event in
  just this way, whatever is waiting in its buffer.

  Key definitions include:
    * `Draft.left`
    * `View.after`
    * `View.replay`
    * `View.changes`
    * `View.failures`
    * `Tally`
    * `Output.tally`

  Main statements:
    * `View.after_of_error`
    * `View.replay_induction`
    * `Processor.applyNext_fst`
    * `Processor.applyNext_tally`
-/

namespace AnswerStream

open Json

------------------------------------------------------------
-- One Event
------------------------------------------------------------

/- The draft that is left of an event, be it applied or not. -/
def Draft.left :
    EStateM.Result ProcessorError Draft Unit → Draft
  | .ok _ d => d
  | .error _ d => d

namespace View

/- The view that is left behind an event. -/
def after
    (v : View)
    (e : Event) : View :=
  (Draft.left (v.edit e.content e.path)).view

/- The changes that are left of an event. -/
def changesOf
    (v : View)
    (e : Event) : List Update :=
  (Draft.left (v.edit e.content e.path)).updates

/- The event with the cause, if it cannot be applied. -/
def failureOf
    (v : View)
    (e : Event) : List (Event × ProcessorError) :=
  match v.edit e.content e.path with
  | .ok _ _ => []
  | .error cause _ => [(e, cause)]

/-
  An event that fails leaves the view as it is, since it fails
  before anything is changed.
-/
theorem after_of_error
    {v : View}
    {e : Event}
    {cause : ProcessorError}
    {left : Draft}
    (hError : v.edit e.content e.path = .error cause left) :
    v.after e = v ∧ v.changesOf e = [] ∧
      v.failureOf e = [(e, cause)] := by
  have hLeft : left = .start v :=
    Edit.atomic_apply e.content e.path (.start v) cause left
      hError
  unfold after changesOf failureOf
  rw [hError, hLeft]
  exact ⟨rfl, rfl, rfl⟩

/- An event that is applied gives what its content gives. -/
theorem after_of_ok
    {v : View}
    {e : Event}
    {left : Draft}
    (hOk : v.edit e.content e.path = .ok () left) :
    v.after e = left.view ∧ v.changesOf e = left.updates ∧
      v.failureOf e = [] := by
  unfold after changesOf failureOf
  rw [hOk]
  exact ⟨rfl, rfl, rfl⟩

------------------------------------------------------------
-- Several Events
------------------------------------------------------------

/- The view behind events. -/
def replay
    (v : View)
    (es : List Event) : View :=
  es.foldl after v

/- The changes that events make, in order. -/
def changes
    (v : View) : List Event → List Update
  | [] => []
  | e :: rest => v.changesOf e ++ changes (v.after e) rest

/- The events that cannot be applied, in order. -/
def failures
    (v : View) :
    List Event → List (Event × ProcessorError)
  | [] => []
  | e :: rest => v.failureOf e ++ failures (v.after e) rest

@[simp] theorem replay_nil (v : View) :
    v.replay [] = v :=
  rfl

@[simp] theorem replay_cons
    (v : View)
    (e : Event)
    (es : List Event) :
    v.replay (e :: es) = (v.after e).replay es :=
  rfl

@[simp] theorem replay_append
    (v : View)
    (es fs : List Event) :
    v.replay (es ++ fs) = (v.replay es).replay fs := by
  simp [replay]

/- What each event keeps is kept by all of them. -/
theorem replay_induction
    {P : View → Prop}
    {v : View}
    {es : List Event}
    (hStart : P v)
    (hStep : ∀ w, ∀ e ∈ es, P w → P (w.after e)) :
    P (v.replay es) := by
  induction es generalizing v with
  | nil => exact hStart
  | cons e es ih =>
      refine ih (hStep v e List.mem_cons_self hStart) ?_
      intro w f hMember
      exact hStep w f (List.mem_cons_of_mem e hMember)

theorem changes_append
    (v : View)
    (es fs : List Event) :
    v.changes (es ++ fs) =
      v.changes es ++ (v.replay es).changes fs := by
  induction es generalizing v with
  | nil => rfl
  | cons e es ih =>
      simp [changes, ih, List.append_assoc]

theorem failures_append
    (v : View)
    (es fs : List Event) :
    v.failures (es ++ fs) =
      v.failures es ++ (v.replay es).failures fs := by
  induction es generalizing v with
  | nil => rfl
  | cons e es ih =>
      simp [failures, ih, List.append_assoc]

end View

------------------------------------------------------------
-- What Comes of Events
------------------------------------------------------------

/-
  What comes of events, apart from the notes: the changes to
  the view, the ranges that were given up, and the events that
  could not be applied.
-/
structure Tally where
  changes : List Update
  gaps : List (UInt64 × UInt64)
  failures : List (Event × ProcessorError)
deriving DecidableEq, Repr

namespace Tally

/- Nothing came of events. -/
def empty : Tally :=
  ⟨[], [], []⟩

/- One tally after another. -/
def append (a b : Tally) : Tally where
  changes := a.changes ++ b.changes
  gaps := a.gaps ++ b.gaps
  failures := a.failures ++ b.failures

instance : Append Tally :=
  ⟨append⟩

theorem append_def (a b : Tally) :
    a ++ b =
      ⟨a.changes ++ b.changes, a.gaps ++ b.gaps,
        a.failures ++ b.failures⟩ :=
  rfl

@[simp] theorem append_empty (a : Tally) :
    a ++ empty = a := by
  simp [append_def, empty]

@[simp] theorem empty_append (a : Tally) :
    empty ++ a = a := by
  simp [append_def, empty]

theorem append_assoc (a b c : Tally) :
    a ++ b ++ c = a ++ (b ++ c) := by
  simp [append_def]

end Tally

/- Nothing comes before an output. -/
theorem Output.empty_append (o : Output) :
    Output.empty ++ o = o := by
  change Output.append Output.empty o = o
  simp [Output.append, Output.empty]

theorem Output.append_empty (o : Output) :
    o ++ Output.empty = o := by
  change Output.append o Output.empty = o
  simp [Output.append, Output.empty]

theorem Output.append_assoc (a b c : Output) :
    a ++ b ++ c = a ++ (b ++ c) := by
  change Output.append (Output.append a b) c =
    Output.append a (Output.append b c)
  simp [Output.append]

/- The range that a call reports as given up. -/
def Call.gap? : Call → Option (UInt64 × UInt64)
  | .gap first last => some (first, last)
  | _ => none

/- The failure that a call reports. -/
def Call.failure? : Call → Option (Event × ProcessorError)
  | .error e cause => some (e, cause)
  | _ => none

/- What an output tells of the events. -/
def Output.tally (o : Output) : Tally where
  changes := o.updates
  gaps := o.calls.filterMap Call.gap?
  failures := o.calls.filterMap Call.failure?

@[simp] theorem Output.tally_append (a b : Output) :
    (a ++ b).tally = a.tally ++ b.tally := by
  change Output.tally (Output.append a b) = _
  simp [Output.tally, Output.append, Tally.append_def]

------------------------------------------------------------
-- The Next Event of a Processor
------------------------------------------------------------

namespace Processor

/- What the listener hears of something, if there is one. -/
def heard
    {α : Type}
    (p : Processor)
    (report : List α) : List α :=
  if p.listening then report else []

theorem heard_append
    {α : Type}
    (p : Processor)
    (a b : List α) :
    p.heard (a ++ b) = p.heard a ++ p.heard b := by
  unfold heard
  split <;> simp

/-
  The place behind the given one, unless that is the greatest.
-/
def behind (place : UInt64) : UInt64 :=
  if place = greatestPlace then place else place + 1

theorem behind_of_ne
    {place : UInt64}
    (hRoom : place ≠ greatestPlace) :
    behind place = place + 1 :=
  if_neg hRoom

/- The place moves on, or the processor stops. -/
theorem moveOn_eq (p : Processor) :
    p.moveOn =
      { p with
        expected := behind p.expected
        stopped :=
          p.stopped || decide (p.expected = greatestPlace) } := by
  unfold moveOn behind
  split
  · next hLast => simp [hLast]
  · next hRoom => simp [hRoom]

/- The next event changes the view as in a replay. -/
theorem applyNext_fst
    (p : Processor)
    (e : Event) :
    (p.applyNext e).1 =
      ({ p with view := p.view.after e } : Processor).moveOn := by
  unfold applyNext View.after
  cases p.view.edit e.content e.path <;> rfl

/-
  The next event makes the changes of a replay, and is reported
  if it cannot be applied.
-/
theorem applyNext_tally
    (p : Processor)
    (e : Event) :
    (p.applyNext e).2.tally =
      ⟨p.view.changesOf e, [], p.heard (p.view.failureOf e)⟩ := by
  unfold applyNext View.changesOf View.failureOf
  cases p.view.edit e.content e.path with
  | ok _ left => simp [Output.tally, heard, Draft.left]
  | error cause left =>
      by_cases hListening : p.listening <;>
        simp [hListening, Output.tally, heard, calls,
          Call.gap?, Call.failure?, Draft.left]

end Processor

end AnswerStream
