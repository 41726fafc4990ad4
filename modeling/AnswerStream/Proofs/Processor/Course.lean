import AnswerStream.Proofs.Processor.Replay

/-
  This file defines the course that the arrival of an event
  takes in a processor: the moves in the order of places that
  it sets off, and the events that go on waiting. A move
  applies one event or gives up a range of places.

  Key definitions include:
    * `Move`
    * `Move.TakesLast`
    * `due`
    * `Processor.course`
    * `Processor.follow`
    * `Processor.tally`
    * `Processor.journal`

  That an event takes this course is proven by:
    * `Processor.process_fst`
    * `Processor.process_tally`
    * `Processor.processAll_view`
    * `Processor.processAll_tally`
    * `Processor.processAll_stopped`
-/

namespace AnswerStream

------------------------------------------------------------
-- Moves
------------------------------------------------------------

/-
  A step along the places of a stream: an event is applied, or
  the events missing in a range of places are given up.
-/
inductive Move where
| apply (event : Event)
| skip (first last : UInt64)
deriving DecidableEq, Repr

namespace Move

/- The event that is applied. -/
def event? : Move → Option Event
  | .apply e => some e
  | .skip _ _ => none

/- The range that is given up. -/
def gap? : Move → Option (UInt64 × UInt64)
  | .apply _ => none
  | .skip first last => some (first, last)

/- The place behind the move, unless it takes the greatest. -/
def next
    (place : UInt64) : Move → UInt64
  | .apply _ => Processor.behind place
  | .skip _ last => last + 1

/- The events that are applied, in order. -/
def applied (ms : List Move) : List Event :=
  ms.filterMap event?

/- The ranges that are given up, in order. -/
def gaps (ms : List Move) : List (UInt64 × UInt64) :=
  ms.filterMap gap?

/- The place behind all moves. -/
def placeAfter
    (place : UInt64)
    (ms : List Move) : UInt64 :=
  ms.foldl next place

/- The place behind an event that has not the greatest. -/
theorem placeAfter_cons_apply
    {place : UInt64}
    (hRoom : place ≠ Processor.greatestPlace)
    (e : Event)
    (ms : List Move) :
    placeAfter place (.apply e :: ms) =
      placeAfter (place + 1) ms := by
  rw [placeAfter, List.foldl_cons, next,
    Processor.behind_of_ne hRoom]
  rfl

theorem placeAfter_append
    (place : UInt64)
    (ms ns : List Move) :
    placeAfter place (ms ++ ns) =
      placeAfter (placeAfter place ms) ns :=
  List.foldl_append

/- An event with the greatest place is applied. -/
def TakesLast (ms : List Move) : Prop :=
  ∃ e ∈ applied ms, e.seq = Processor.greatestPlace

instance (ms : List Move) : Decidable (TakesLast ms) :=
  inferInstanceAs (Decidable (∃ e ∈ applied ms, _))

@[simp] theorem applied_append (ms ns : List Move) :
    applied (ms ++ ns) = applied ms ++ applied ns :=
  List.filterMap_append

@[simp] theorem gaps_append (ms ns : List Move) :
    gaps (ms ++ ns) = gaps ms ++ gaps ns :=
  List.filterMap_append

@[simp] theorem applied_cons_apply
    (e : Event)
    (ms : List Move) :
    applied (.apply e :: ms) = e :: applied ms :=
  rfl

@[simp] theorem applied_cons_skip
    (first last : UInt64)
    (ms : List Move) :
    applied (.skip first last :: ms) = applied ms :=
  rfl

@[simp] theorem gaps_cons_apply
    (e : Event)
    (ms : List Move) :
    gaps (.apply e :: ms) = gaps ms :=
  rfl

@[simp] theorem gaps_cons_skip
    (first last : UInt64)
    (ms : List Move) :
    gaps (.skip first last :: ms) = (first, last) :: gaps ms :=
  rfl

@[simp] theorem applied_map_apply (es : List Event) :
    applied (es.map .apply) = es := by
  induction es with
  | nil => rfl
  | cons e es ih => simp [ih]

@[simp] theorem gaps_map_apply (es : List Event) :
    gaps (es.map .apply) = [] := by
  induction es with
  | nil => rfl
  | cons e es ih => simp [ih]

@[simp] theorem takesLast_nil :
    ¬ TakesLast [] := by
  rintro ⟨_, hMember, _⟩
  cases hMember

@[simp] theorem takesLast_cons_apply
    (e : Event)
    (ms : List Move) :
    TakesLast (.apply e :: ms) ↔
      e.seq = Processor.greatestPlace ∨ TakesLast ms := by
  simp [TakesLast]

@[simp] theorem takesLast_cons_skip
    (first last : UInt64)
    (ms : List Move) :
    TakesLast (.skip first last :: ms) ↔ TakesLast ms :=
  Iff.rfl

@[simp] theorem takesLast_append (ms ns : List Move) :
    TakesLast (ms ++ ns) ↔ TakesLast ms ∨ TakesLast ns := by
  simp [TakesLast, or_and_right, exists_or]

end Move

------------------------------------------------------------
-- Events That Are Due
------------------------------------------------------------

/-
  The events at the front of a buffer whose places follow one
  another from the given one on, up to the greatest.
-/
def due
    (place : UInt64) : List Event → List Event
  | [] => []
  | e :: rest =>
      if e.seq = place then
        if place = Processor.greatestPlace then [e]
        else e :: due (place + 1) rest
      else []

/- The events that are not due. -/
def later
    (place : UInt64)
    (es : List Event) : List Event :=
  es.drop (due place es).length

@[simp] theorem later_nil (place : UInt64) :
    later place [] = [] :=
  rfl

theorem due_cons_of_eq
    {place : UInt64}
    {e : Event}
    (hSeq : e.seq = place)
    (hRoom : place ≠ Processor.greatestPlace)
    (es : List Event) :
    due place (e :: es) = e :: due (place + 1) es := by
  simp [due, hSeq, hRoom]

/- Nothing is due behind the greatest place. -/
theorem due_cons_of_last
    {place : UInt64}
    {e : Event}
    (hSeq : e.seq = place)
    (hLast : place = Processor.greatestPlace)
    (es : List Event) :
    due place (e :: es) = [e] := by
  simp [due, hSeq, hLast]

theorem due_cons_of_ne
    {place : UInt64}
    {e : Event}
    (hSeq : e.seq ≠ place)
    (es : List Event) :
    due place (e :: es) = [] := by
  simp [due, hSeq]

theorem later_cons_of_eq
    {place : UInt64}
    {e : Event}
    (hSeq : e.seq = place)
    (hRoom : place ≠ Processor.greatestPlace)
    (es : List Event) :
    later place (e :: es) = later (place + 1) es := by
  simp [later, due_cons_of_eq hSeq hRoom]

theorem later_cons_of_last
    {place : UInt64}
    {e : Event}
    (hSeq : e.seq = place)
    (hLast : place = Processor.greatestPlace)
    (es : List Event) :
    later place (e :: es) = es := by
  simp [later, due_cons_of_last hSeq hLast]

theorem later_cons_of_ne
    {place : UInt64}
    {e : Event}
    (hSeq : e.seq ≠ place)
    (es : List Event) :
    later place (e :: es) = e :: es := by
  simp [later, due_cons_of_ne hSeq]

/- A buffer is what is due and what is not, in this order. -/
theorem due_append_later
    (place : UInt64)
    (es : List Event) :
    due place es ++ later place es = es := by
  induction es generalizing place with
  | nil => rfl
  | cons e es ih =>
      by_cases hSeq : e.seq = place
      · by_cases hLast : place = Processor.greatestPlace
        · rw [due_cons_of_last hSeq hLast,
            later_cons_of_last hSeq hLast]
          rfl
        · rw [due_cons_of_eq hSeq hLast,
            later_cons_of_eq hSeq hLast]
          simp [ih]
      · rw [due_cons_of_ne hSeq, later_cons_of_ne hSeq]
        simp

------------------------------------------------------------
-- Courses
------------------------------------------------------------

/-
  What the arrival of an event sets off: moves in the order of
  places, and the events that wait behind them.
-/
structure Course where
  moves : List Move
  waiting : List Event
deriving DecidableEq, Repr

namespace Processor

/- The first event of a buffer that is too long. -/
def lowestOver?
    (p : Processor)
    (held : List Event) : Option Event :=
  match p.maxPending with
  | none => none
  | some bound =>
      if held.length ≤ bound then none else held.head?

/-
  The course of an early event, given the buffer with it: if
  that is too long, the places before its first event are given
  up and those due from there on are applied.
-/
def earlyCourse
    (p : Processor)
    (held : List Event) : Course :=
  match p.lowestOver? held with
  | none => ⟨[], held⟩
  | some lowest =>
      { moves :=
          .skip p.expected (lowest.seq - 1) ::
            (due lowest.seq held).map .apply
        waiting := later lowest.seq held }

/-
  The course that the arrival of an event takes: none if the
  processor has stopped or the event is behind, the event and
  those due after it if it is the next one, and that of an early
  event otherwise.
-/
def course
    (p : Processor)
    (e : Event) : Course :=
  if p.stopped then
    ⟨[], p.pending⟩
  else if e.seq < p.expected then
    ⟨[], p.pending⟩
  else if e.seq = p.expected then
    { moves := (due p.expected (e :: p.pending)).map .apply
      waiting := later p.expected (e :: p.pending) }
  else
    p.earlyCourse (insertPending e p.pending)

/- The processor behind a course. -/
def follow
    (p : Processor)
    (c : Course) : Processor :=
  { p with
    view := p.view.replay (Move.applied c.moves)
    expected := Move.placeAfter p.expected c.moves
    stopped := p.stopped || decide (Move.TakesLast c.moves)
    pending := c.waiting }

/- What comes of moves. -/
def tally
    (p : Processor)
    (ms : List Move) : Tally where
  changes := p.view.changes (Move.applied ms)
  gaps := p.heard (Move.gaps ms)
  failures := p.heard (p.view.failures (Move.applied ms))

/- The moves of all events in the order of their arrival. -/
def journal
    (p : Processor) : List Event → List Move
  | [] => []
  | e :: rest =>
      (p.course e).moves ++ journal (p.process e).1 rest

/- What comes of moves depends on the view and the listener. -/
theorem tally_congr
    {p q : Processor}
    (hView : p.view = q.view)
    (hListening : p.listening = q.listening)
    (ms : List Move) :
    p.tally ms = q.tally ms := by
  simp [tally, heard, hView, hListening]

@[simp] theorem tally_nil (p : Processor) :
    p.tally [] = .empty := by
  simp [tally, heard, Move.applied, Move.gaps, View.changes,
    View.failures, Tally.empty]

theorem tally_append
    (p : Processor)
    (c : Course)
    (ms : List Move) :
    p.tally (c.moves ++ ms) =
      p.tally c.moves ++ (p.follow c).tally ms := by
  have hHeard :
      ∀ {α : Type} (report : List α),
        (p.follow c).heard report = p.heard report := by
    intro α report
    rfl
  simp [tally, Tally.append_def, View.changes_append,
    View.failures_append, heard_append, hHeard]
  exact ⟨rfl, rfl⟩

/- The next event and what is due behind it. -/
theorem tally_cons_apply
    (p : Processor)
    (e : Event)
    (ms : List Move) :
    p.tally (.apply e :: ms) =
      (p.applyNext e).2.tally ++ (p.applyNext e).1.tally ms := by
  rw [applyNext_tally, applyNext_fst, moveOn_eq]
  simp [tally, heard, Tally.append_def, View.changes,
    View.failures]
  split <;> simp

------------------------------------------------------------
-- Draining the Buffer
------------------------------------------------------------

/- A processor that has stopped leaves its buffer as it is. -/
theorem drainFrom_of_stopped
    {p : Processor}
    (hStopped : p.stopped = true)
    (done : Output)
    (es : List Event) :
    p.drainFrom done es = ({ p with pending := es }, done) := by
  cases es with
  | nil => rfl
  | cons e es => simp [drainFrom, hStopped]

/- Nothing is done in a course without moves. -/
theorem follow_still
    (p : Processor)
    (es : List Event) :
    p.follow ⟨[], es⟩ = { p with pending := es } := by
  simp [follow, Move.applied, Move.placeAfter]

/- The next event is the first move of a course. -/
theorem follow_applyNext
    {p : Processor}
    {e : Event}
    (hSeq : e.seq = p.expected)
    (ms : List Move)
    (es : List Event) :
    (p.applyNext e).1.follow ⟨ms, es⟩ =
      p.follow ⟨.apply e :: ms, es⟩ := by
  rw [applyNext_fst, moveOn_eq]
  simp [follow, Move.placeAfter, Move.next, hSeq, Bool.or_assoc]

/- Behind the event with the greatest place it has stopped. -/
theorem stopped_applyNext
    {p : Processor}
    (e : Event)
    (hLast : p.expected = greatestPlace) :
    (p.applyNext e).1.stopped = true := by
  rw [applyNext_fst, moveOn_eq]
  simp [hLast]

/- Behind any other one it goes on with the next place. -/
theorem going_applyNext
    {p : Processor}
    (e : Event)
    (hGoing : p.stopped = false)
    (hRoom : p.expected ≠ greatestPlace) :
    (p.applyNext e).1.stopped = false ∧
      (p.applyNext e).1.expected = p.expected + 1 := by
  rw [applyNext_fst, moveOn_eq]
  simp [hGoing, hRoom, behind_of_ne hRoom]

/-
  The buffer is drained of the events that are due: one after
  another is applied, until one is not due or the processor
  stops.
-/
theorem drainFrom_fst
    {p : Processor}
    (hGoing : p.stopped = false)
    (done : Output)
    (es : List Event) :
    (p.drainFrom done es).1 =
      p.follow
        ⟨(due p.expected es).map .apply,
          later p.expected es⟩ := by
  induction es generalizing p done with
  | nil => exact (follow_still p []).symm
  | cons e es ih =>
      by_cases hSeq : e.seq = p.expected
      · rw [drainFrom, if_pos ⟨hGoing, hSeq⟩]
        by_cases hLast : p.expected = greatestPlace
        · rw [drainFrom_of_stopped (stopped_applyNext e hLast),
            due_cons_of_last hSeq hLast,
            later_cons_of_last hSeq hLast, ← follow_still,
            follow_applyNext hSeq]
          rfl
        · rcases going_applyNext e hGoing hLast with
            ⟨hStill, hNext⟩
          rw [ih hStill, hNext, due_cons_of_eq hSeq hLast,
            later_cons_of_eq hSeq hLast, follow_applyNext hSeq]
          rfl
      · rw [drainFrom, if_neg fun hBoth => hSeq hBoth.2,
          due_cons_of_ne hSeq, later_cons_of_ne hSeq]
        exact (follow_still p _).symm

theorem drainFrom_tally
    {p : Processor}
    (hGoing : p.stopped = false)
    (done : Output)
    (es : List Event) :
    (p.drainFrom done es).2.tally =
      done.tally ++
        p.tally ((due p.expected es).map .apply) := by
  induction es generalizing p done with
  | nil => simp [drainFrom, due]
  | cons e es ih =>
      by_cases hSeq : e.seq = p.expected
      · rw [drainFrom, if_pos ⟨hGoing, hSeq⟩]
        by_cases hLast : p.expected = greatestPlace
        · rw [drainFrom_of_stopped (stopped_applyNext e hLast),
            due_cons_of_last hSeq hLast, Output.tally_append,
            List.map_singleton, tally_cons_apply, tally_nil,
            Tally.append_empty]
        · rcases going_applyNext e hGoing hLast with
            ⟨hStill, hNext⟩
          rw [ih hStill, hNext, due_cons_of_eq hSeq hLast,
            List.map_cons, tally_cons_apply,
            Output.tally_append, Tally.append_assoc]
      · rw [drainFrom, if_neg fun hBoth => hSeq hBoth.2,
          due_cons_of_ne hSeq]
        simp

------------------------------------------------------------
-- Arrivals
------------------------------------------------------------

/- A buffer within its bound is left as it is. -/
theorem enforceBound_of_none
    {p : Processor}
    (hFits : p.lowestOver? p.pending = none)
    (done : Output) :
    p.enforceBound done = (p, done) := by
  unfold enforceBound
  split
  · next bound lowest rest hBound hPending =>
    by_cases hLength : p.pending.length ≤ bound
    · rw [if_pos hLength]
    · rw [hPending] at hLength
      simp [lowestOver?, hBound, hPending] at hFits
      exact absurd hFits hLength
  · rfl

/-
  A buffer that is too long is drained from its first event
  on, and the places before that are reported.
-/
theorem enforceBound_of_some
    {p : Processor}
    {lowest : Event}
    (hOver : p.lowestOver? p.pending = some lowest)
    (done : Output) :
    ∃ report : Output,
      report.tally =
          ⟨[], p.heard [(p.expected, lowest.seq - 1)], []⟩ ∧
        p.enforceBound done =
          ({ p with expected := lowest.seq }).drain
            (done ++ report) := by
  unfold lowestOver? at hOver
  cases hBound : p.maxPending with
  | none => simp [hBound] at hOver
  | some bound =>
      by_cases hLength : p.pending.length ≤ bound
      · simp [hBound, hLength] at hOver
      · simp only [hBound, if_neg hLength] at hOver
        cases hPending : p.pending with
        | nil => simp [hPending] at hOver
        | cons first rest =>
            simp only [hPending, List.head?_cons,
              Option.some.injEq] at hOver
            subst hOver
            unfold enforceBound
            simp only [hBound, hPending]
            rw [hPending] at hLength
            rw [if_neg hLength]
            refine ⟨_, ?_, rfl⟩
            by_cases hListening : p.listening <;>
              simp [Output.tally, heard, calls, hListening,
                Call.gap?, Call.failure?]

/- The bound of the buffer leads to the course of an early event. -/
theorem enforceBound_fst
    {p : Processor}
    (hGoing : p.stopped = false)
    (done : Output) :
    (p.enforceBound done).1 =
      p.follow (p.earlyCourse p.pending) := by
  unfold earlyCourse
  cases hOver : p.lowestOver? p.pending with
  | none =>
      rw [enforceBound_of_none hOver, follow_still]
  | some lowest =>
      rcases enforceBound_of_some hOver done with
        ⟨report, _, hEq⟩
      have hSkipped :
          ({ p with expected := lowest.seq } : Processor).stopped =
            false :=
        hGoing
      rw [hEq, drain, drainFrom_fst hSkipped]
      simp [follow, Move.placeAfter, Move.next]

theorem enforceBound_tally
    {p : Processor}
    (hGoing : p.stopped = false)
    (done : Output) :
    (p.enforceBound done).2.tally =
      done.tally ++
        p.tally (p.earlyCourse p.pending).moves := by
  unfold earlyCourse
  cases hOver : p.lowestOver? p.pending with
  | none =>
      rw [enforceBound_of_none hOver]
      simp
  | some lowest =>
      rcases enforceBound_of_some hOver done with
        ⟨report, hReport, hEq⟩
      have hSkipped :
          ({ p with expected := lowest.seq } : Processor).stopped =
            false :=
        hGoing
      rw [hEq, drain, drainFrom_tally hSkipped,
        Output.tally_append, hReport, Tally.append_assoc]
      simp [tally, Tally.append_def, heard]

/- The next event is drained like those that wait behind it. -/
theorem process_of_next
    {p : Processor}
    {e : Event}
    (hGoing : p.stopped = false)
    (hNext : e.seq = p.expected) :
    p.process e = p.drainFrom .empty (e :: p.pending) := by
  have hPending : (p.applyNext e).1.pending = p.pending := by
    rw [applyNext_fst, moveOn_eq]
  have hNotBehind : ¬e.seq < p.expected := by
    rw [hNext]
    exact UInt64.lt_irrefl _
  unfold process
  rw [if_neg (by simp [hGoing]), if_neg hNotBehind,
    if_pos hNext, drainFrom, if_pos ⟨hGoing, hNext⟩]
  dsimp only
  rw [drain, hPending, Output.empty_append]

/- An event takes its course. -/
theorem process_fst
    (p : Processor)
    (e : Event) :
    (p.process e).1 = p.follow (p.course e) := by
  unfold course
  by_cases hStopped : p.stopped = true
  · rw [if_pos hStopped, follow_still, process,
      if_pos hStopped]
  · have hGoing := Bool.eq_false_iff.mpr hStopped
    rw [if_neg hStopped]
    by_cases hBehind : e.seq < p.expected
    · rw [if_pos hBehind, follow_still, process,
        if_neg hStopped, if_pos hBehind]
    · rw [if_neg hBehind]
      by_cases hNext : e.seq = p.expected
      · rw [if_pos hNext, process_of_next hGoing hNext,
          drainFrom_fst hGoing]
      · have hHeld :
            ({ p with pending := insertPending e p.pending } :
              Processor).stopped = false :=
          hGoing
        rw [if_neg hNext, process, if_neg hStopped,
          if_neg hBehind, if_neg hNext]
        exact enforceBound_fst hHeld _

/- What comes of an event is what comes of its course. -/
theorem process_tally
    (p : Processor)
    (e : Event) :
    (p.process e).2.tally = p.tally (p.course e).moves := by
  unfold course
  by_cases hStopped : p.stopped = true
  · rw [if_pos hStopped, tally_nil, process, if_pos hStopped]
    rfl
  · have hGoing := Bool.eq_false_iff.mpr hStopped
    rw [if_neg hStopped]
    by_cases hBehind : e.seq < p.expected
    · rw [if_pos hBehind, tally_nil, process, if_neg hStopped,
        if_pos hBehind]
      rfl
    · rw [if_neg hBehind]
      by_cases hNext : e.seq = p.expected
      · rw [if_pos hNext, process_of_next hGoing hNext,
          drainFrom_tally hGoing]
        exact Tally.empty_append _
      · have hHeld :
            ({ p with pending := insertPending e p.pending } :
              Processor).stopped = false :=
          hGoing
        rw [if_neg hNext, process, if_neg hStopped,
          if_neg hBehind, if_neg hNext]
        refine (enforceBound_tally hHeld _).trans ?_
        have hReport :
            ∀ call notes,
              call = Call.outOfOrder p.expected e.seq →
                Output.tally ⟨[], p.calls call, notes⟩ =
                  .empty := by
          intro call notes hCall
          subst hCall
          by_cases hListening : p.listening <;>
            simp [Output.tally, calls, hListening, Call.gap?,
              Call.failure?, Tally.empty]
        rw [hReport _ _ rfl, Tally.empty_append]
        exact tally_congr rfl rfl _

------------------------------------------------------------
-- Runs
------------------------------------------------------------

/- Nothing comes of events once a processor has stopped. -/
theorem processAll_of_stopped
    {p : Processor}
    (hStopped : p.stopped = true)
    (es : List Event) :
    p.processAll es = (p, .empty) ∧ p.journal es = [] := by
  induction es with
  | nil => exact ⟨rfl, rfl⟩
  | cons e es ih =>
      have hCourse : (p.course e).moves = [] := by
        simp [course, hStopped]
      have hStill : p.process e = (p, .empty) := by
        rw [process, if_pos hStopped]
      rw [processAll, journal, hStill, hCourse]
      dsimp only
      rw [ih.1, ih.2, Output.empty_append]
      exact ⟨rfl, rfl⟩

/- A run in two parts goes on where its first part ended. -/
theorem processAll_append
    (p : Processor)
    (es fs : List Event) :
    p.processAll (es ++ fs) =
      (((p.processAll es).1.processAll fs).1,
        (p.processAll es).2 ++
          ((p.processAll es).1.processAll fs).2) := by
  induction es generalizing p with
  | nil => rw [List.nil_append, processAll, Output.empty_append]
  | cons e es ih =>
      rw [List.cons_append, processAll, ih, processAll,
        Output.append_assoc]

/- A run ends behind the moves of its journal. -/
theorem processAll_expected
    (p : Processor)
    (es : List Event) :
    (p.processAll es).1.expected =
      Move.placeAfter p.expected (p.journal es) := by
  induction es generalizing p with
  | nil => rfl
  | cons e es ih =>
      rw [processAll, ih, process_fst, journal,
        Move.placeAfter_append, process_fst]
      rfl

/- It has stopped behind the event with the greatest place. -/
theorem processAll_stopped
    (p : Processor)
    (es : List Event) :
    (p.processAll es).1.stopped = true ↔
      p.stopped = true ∨ Move.TakesLast (p.journal es) := by
  induction es generalizing p with
  | nil => simp [processAll, journal]
  | cons e es ih =>
      rw [processAll, ih, journal, Move.takesLast_append,
        ← or_assoc, process_fst]
      simp [follow]

/- A run changes the view by the events of its journal. -/
theorem processAll_view
    (p : Processor)
    (es : List Event) :
    (p.processAll es).1.view =
      p.view.replay (Move.applied (p.journal es)) := by
  induction es generalizing p with
  | nil => rfl
  | cons e es ih =>
      rw [processAll, ih, process_fst, journal]
      simp [follow, process_fst]

/- What comes of a run is what comes of its journal. -/
theorem processAll_tally
    (p : Processor)
    (es : List Event) :
    (p.processAll es).2.tally = p.tally (p.journal es) := by
  induction es generalizing p with
  | nil =>
      rw [journal, tally_nil]
      rfl
  | cons e es ih =>
      rw [processAll, Output.tally_append, ih, process_tally,
        journal, tally_append, process_fst]

/- A run keeps the bound and the listener. -/
theorem processAll_config
    (p : Processor)
    (es : List Event) :
    (p.processAll es).1.maxPending = p.maxPending ∧
      (p.processAll es).1.listening = p.listening ∧
        (p.processAll es).1.streamId = p.streamId := by
  induction es generalizing p with
  | nil => exact ⟨rfl, rfl, rfl⟩
  | cons e es ih =>
      have hRest := ih (p.process e).1
      rw [process_fst] at hRest
      rw [processAll, process_fst]
      exact hRest

end Processor

end AnswerStream
