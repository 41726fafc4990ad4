import AnswerStream.Proofs.Processor.Course

/-
  This file proves what becomes of an event that cannot be
  applied, be it the next one, one that waited, or one behind a
  range that was given up. It is reported, the place moves on
  unless it is the greatest, and nothing else happens: a run is
  like the one that has an event without effect in the place of
  each such event.

  Key definitions include:
    * `View.Rejects`
    * `View.Ignores`
    * `View.Clears`
    * `Move.Led`
    * `Move.shape`
    * `Processor.Abreast`

  Main statements:
    * `View.replay_of_clears`
    * `Processor.journal_led`
    * `Processor.Abreast.journal`
    * `rejections_only_move_on`
    * `lastSpoilt_stops`
-/

namespace AnswerStream

open Json

------------------------------------------------------------
-- Rejected Events
------------------------------------------------------------

namespace View

variable {v : View} {e f : Event} {es fs : List Event}
  {cause : ProcessorError}

/- An event cannot be applied, for the given cause. -/
def Rejects
    (v : View)
    (e : Event)
    (cause : ProcessorError) : Prop :=
  ∃ left, v.edit e.content e.path = .error cause left

/- An event is applied without any effect. -/
def Ignores
    (v : View)
    (e : Event) : Prop :=
  v.after e = v ∧ v.changesOf e = [] ∧ v.failureOf e = []

instance : Decidable (v.Ignores e) :=
  inferInstanceAs (Decidable (_ ∧ _))

/-
  Events like the given ones, but for an event without effect
  in the place of each one that cannot be applied.
-/
def Clears (v : View) : List Event → List Event → Prop
  | [], [] => True
  | e :: es, f :: fs =>
      (if v.failureOf e = [] then f = e else v.Ignores f) ∧
        Clears (v.after e) es fs
  | _, _ => False

/- Whether they are so is found by replaying them. -/
instance decidableClears :
    (v : View) → (es fs : List Event) →
      Decidable (v.Clears es fs)
  | _, [], [] => isTrue trivial
  | v, e :: es, _ :: fs =>
      have := decidableClears (v.after e) es fs
      inferInstanceAs (Decidable (_ ∧ _))
  | _, [], _ :: _ => isFalse id
  | _, _ :: _, [] => isFalse id

/- An event that fails is rejected, and leaves the view as it is. -/
theorem after_of_failure
    (hFails : v.failureOf e ≠ []) :
    v.after e = v ∧ v.changesOf e = [] := by
  cases hEdit : v.edit e.content e.path with
  | error cause left =>
      rcases after_of_error hEdit with ⟨hSame, hNone, _⟩
      exact ⟨hSame, hNone⟩
  | ok _ left => exact absurd (after_of_ok hEdit).2.2 hFails

/-
  Without the rejected events the view and its changes are the
  same, and nothing fails.
-/
theorem replay_of_clears
    (hClears : v.Clears es fs) :
    v.replay fs = v.replay es ∧
      v.changes fs = v.changes es ∧ v.failures fs = [] := by
  induction es generalizing v fs with
  | nil =>
      cases fs with
      | nil => exact ⟨rfl, rfl, rfl⟩
      | cons f fs => exact hClears.elim
  | cons e es ih =>
      cases fs with
      | nil => exact hClears.elim
      | cons f fs =>
          rcases hClears with ⟨hHere, hRest⟩
          rcases ih hRest with ⟨hView, hChanges, hFailures⟩
          have hFirst :
              v.after f = v.after e ∧
                v.changesOf f = v.changesOf e ∧
                v.failureOf f = [] := by
            split at hHere
            · next hApplies =>
              subst hHere
              exact ⟨rfl, rfl, hApplies⟩
            · next hFails =>
              rcases after_of_failure hFails with ⟨hSame, hNone⟩
              rw [hSame, hNone]
              exact hHere
          rcases hFirst with ⟨hAfter, hChange, hFine⟩
          refine ⟨?_, ?_, ?_⟩
          · rw [replay_cons, replay_cons, hAfter, hView]
          · rw [changes, changes, hAfter, hChange, hChanges]
          · rw [failures, hAfter, hFine, hFailures]
            rfl

end View

------------------------------------------------------------
-- Events in Their Places
------------------------------------------------------------

namespace Move

/-
  Each event is applied when its place is the next one, and
  nothing is done behind the one with the greatest place.
-/
def Led : UInt64 → List Move → Prop
  | _, [] => True
  | place, .apply e :: rest =>
      e.seq = place ∧
        (place = Processor.greatestPlace → rest = []) ∧
        Led (Processor.behind place) rest
  | _, .skip _ last :: rest => Led (last + 1) rest

theorem Led.append
    {place : UInt64}
    {ms ns : List Move}
    (hFront : Led place ms)
    (hBack : Led (placeAfter place ms) ns)
    (hEnd : TakesLast ms → ns = []) :
    Led place (ms ++ ns) := by
  induction ms generalizing place with
  | nil => exact hBack
  | cons m ms ih =>
      cases m with
      | apply e =>
          rw [takesLast_cons_apply] at hEnd
          rcases hFront with ⟨hSeq, hLast, hRest⟩
          refine
            ⟨hSeq, ?_, ih hRest hBack fun h => hEnd (.inr h)⟩
          intro hGreatest
          rw [hLast hGreatest, hEnd (.inl (hSeq.trans hGreatest))]
          rfl
      | skip first last =>
          have hRest : Led (last + 1) (ms ++ ns) :=
            ih hFront hBack hEnd
          exact hRest

/- The place of an event is the one behind the moves before it. -/
theorem Led.place_eq
    {place : UInt64}
    {ms ns : List Move}
    {e : Event}
    (hLed : Led place (ms ++ .apply e :: ns)) :
    placeAfter place ms = e.seq := by
  induction ms generalizing place with
  | nil => exact hLed.1.symm
  | cons m ms ih =>
      cases m with
      | apply f => exact ih hLed.2.2
      | skip first last =>
          have hRest : Led (last + 1) (ms ++ .apply e :: ns) :=
            hLed
          exact ih hRest

/- Nothing comes behind an event with the greatest place. -/
theorem Led.eq_nil_of_last
    {place : UInt64}
    {ms ns : List Move}
    {e : Event}
    (hLed : Led place (ms ++ .apply e :: ns))
    (hLast : e.seq = Processor.greatestPlace) :
    ns = [] := by
  induction ms generalizing place with
  | nil => exact hLed.2.1 (hLed.1.symm.trans hLast)
  | cons m ms ih =>
      cases m with
      | apply f => exact ih hLed.2.2
      | skip first last =>
          have hRest : Led (last + 1) (ms ++ .apply e :: ns) :=
            hLed
          exact ih hRest

/- What is due is applied in its places. -/
theorem led_due
    (place : UInt64)
    (es : List Event) :
    Led place ((due place es).map .apply) := by
  induction es generalizing place with
  | nil => trivial
  | cons e es ih =>
      by_cases hSeq : e.seq = place
      · by_cases hLast : place = Processor.greatestPlace
        · rw [due_cons_of_last hSeq hLast]
          exact ⟨hSeq, fun _ => rfl, trivial⟩
        · rw [due_cons_of_eq hSeq hLast]
          refine ⟨hSeq, fun h => absurd h hLast, ?_⟩
          rw [Processor.behind_of_ne hLast]
          exact ih (place + 1)
      · rw [due_cons_of_ne hSeq]
        trivial

------------------------------------------------------------
-- Moves of One Shape
------------------------------------------------------------

/- The place of the event, or the range that is given up. -/
def shape : Move → UInt64 ⊕ (UInt64 × UInt64)
  | .apply e => .inl e.seq
  | .skip first last => .inr (first, last)

variable {ms ns : List Move}

/- Moves of one shape give up the same ranges. -/
theorem gaps_of_shape
    (hShape : ms.map shape = ns.map shape) :
    gaps ms = gaps ns := by
  have hRange : gap? = Sum.getRight? ∘ shape := by
    funext m
    cases m <;> rfl
  unfold gaps
  rw [hRange, ← List.filterMap_map, ← List.filterMap_map, hShape]

/- They take the greatest place, or do not. -/
theorem takesLast_of_shape
    (hShape : ms.map shape = ns.map shape) :
    TakesLast ms ↔ TakesLast ns := by
  have hPlaces :
      ∀ ks : List Move,
        TakesLast ks ↔
          .inl Processor.greatestPlace ∈ ks.map shape := by
    intro ks
    induction ks with
    | nil => simp
    | cons k ks ih =>
        cases k with
        | apply e => simp [ih, shape, eq_comm]
        | skip first last => simp [ih, shape]
  rw [hPlaces, hPlaces, hShape]

/- They lead to the same place. -/
theorem placeAfter_of_shape
    (place : UInt64)
    (hShape : ms.map shape = ns.map shape) :
    placeAfter place ms = placeAfter place ns := by
  induction ms generalizing ns place with
  | nil =>
      rw [List.map_nil] at hShape
      rw [List.map_eq_nil_iff.mp hShape.symm]
  | cons m ms ih =>
      cases ns with
      | nil => simp at hShape
      | cons n ns =>
          rw [List.map_cons, List.map_cons, List.cons.injEq]
            at hShape
          have hNext : m.next place = n.next place := by
            cases m <;> cases n <;>
              simp_all [shape, next]
          simp only [placeAfter, List.foldl_cons, hNext]
          exact ih _ hShape.2

end Move

------------------------------------------------------------
-- Processors Side by Side
------------------------------------------------------------

section Places

variable {es fs : List Event}

/- What is due and what is not depends on places only. -/
theorem due_of_same_places
    (place : UInt64)
    (hPlaces : es.map Event.seq = fs.map Event.seq) :
    (due place es).map Event.seq = (due place fs).map Event.seq ∧
      (later place es).map Event.seq =
        (later place fs).map Event.seq := by
  induction es generalizing fs place with
  | nil =>
      rw [List.map_nil] at hPlaces
      rw [List.map_eq_nil_iff.mp hPlaces.symm]
      exact ⟨rfl, rfl⟩
  | cons e es ih =>
      cases fs with
      | nil => simp at hPlaces
      | cons f fs =>
          rcases List.cons.inj hPlaces with ⟨hFirst, hRest⟩
          by_cases hSeq : e.seq = place
          · have hOther : f.seq = place := hFirst ▸ hSeq
            by_cases hLast : place = Processor.greatestPlace
            · rw [due_cons_of_last hSeq hLast,
                due_cons_of_last hOther hLast,
                later_cons_of_last hSeq hLast,
                later_cons_of_last hOther hLast]
              exact ⟨by simp [hFirst], hRest⟩
            · rw [due_cons_of_eq hSeq hLast,
                due_cons_of_eq hOther hLast,
                later_cons_of_eq hSeq hLast,
                later_cons_of_eq hOther hLast,
                List.map_cons, List.map_cons, hFirst,
                (ih (place + 1) hRest).1]
              exact ⟨rfl, (ih (place + 1) hRest).2⟩
          · have hOther : f.seq ≠ place := hFirst ▸ hSeq
            rw [due_cons_of_ne hSeq, due_cons_of_ne hOther,
              later_cons_of_ne hSeq, later_cons_of_ne hOther]
            exact ⟨rfl, hPlaces⟩

/- So does the place that an early event takes. -/
theorem insertPending_of_same_places
    {e f : Event}
    (hSeq : e.seq = f.seq)
    (hPlaces : es.map Event.seq = fs.map Event.seq) :
    (Processor.insertPending e es).map Event.seq =
      (Processor.insertPending f fs).map Event.seq := by
  induction es generalizing fs with
  | nil =>
      rw [List.map_nil] at hPlaces
      rw [List.map_eq_nil_iff.mp hPlaces.symm]
      simp [Processor.insertPending, hSeq]
  | cons g es ih =>
      cases fs with
      | nil => simp at hPlaces
      | cons h fs =>
          rcases List.cons.inj hPlaces with ⟨hFirst, hRest⟩
          simp only [Processor.insertPending, hSeq, hFirst]
          split
          · simp [hSeq, hRest]
          · split
            · simp [hSeq, hFirst, hRest]
            · simp [hFirst, ih hRest]

end Places

namespace Processor

variable {p q : Processor} {e f : Event} {es fs : List Event}

/- An arrival sets off moves in their places. -/
theorem course_led
    (p : Processor)
    (e : Event) :
    Move.Led p.expected (p.course e).moves := by
  unfold course
  split
  · trivial
  · split
    · trivial
    · split
      · exact Move.led_due _ _
      · unfold earlyCourse
        cases p.lowestOver? (insertPending e p.pending) with
        | none => trivial
        | some lowest =>
            change
              Move.Led (lowest.seq - 1 + 1)
                ((due lowest.seq _).map .apply)
            rw [UInt64.sub_add_cancel]
            exact Move.led_due _ _

/- So do all arrivals of a run. -/
theorem journal_led
    (p : Processor)
    (es : List Event) :
    Move.Led p.expected (p.journal es) := by
  induction es generalizing p with
  | nil => trivial
  | cons e es ih =>
      refine (course_led p e).append ?_ ?_
      · have hRest := ih (p.process e).1
        rw [process_fst] at hRest
        rw [process_fst]
        exact hRest
      · intro hLast
        have hStopped : (p.process e).1.stopped = true := by
          rw [process_fst]
          simp [follow, hLast]
        exact (processAll_of_stopped hStopped es).2

@[simp] theorem shape_map_apply (es : List Event) :
    (es.map Move.apply).map Move.shape =
      (es.map Event.seq).map Sum.inl := by
  simp [Move.shape]

/-
  Processors that wait for the same place, or have both stopped,
  with events in the same places in their buffers.
-/
structure Abreast (p q : Processor) : Prop where
  bound : p.maxPending = q.maxPending
  expected : p.expected = q.expected
  stopped : p.stopped = q.stopped
  waiting : p.pending.map Event.seq = q.pending.map Event.seq

/- A buffer is too long at the same place. -/
theorem Abreast.lowestOver?
    (hAbreast : Abreast p q)
    (hPlaces : es.map Event.seq = fs.map Event.seq) :
    (p.lowestOver? es).map Event.seq =
      (q.lowestOver? fs).map Event.seq := by
  have hLength : es.length = fs.length := by
    simpa using congrArg List.length hPlaces
  unfold Processor.lowestOver?
  rw [hAbreast.bound, hLength]
  cases q.maxPending with
  | none => rfl
  | some bound =>
      dsimp only
      split
      · rfl
      · simpa using congrArg List.head? hPlaces

/- Early events in the same place take courses of one shape. -/
theorem Abreast.earlyCourse
    (hAbreast : Abreast p q)
    (hPlaces : es.map Event.seq = fs.map Event.seq) :
    (p.earlyCourse es).moves.map Move.shape =
        (q.earlyCourse fs).moves.map Move.shape ∧
      (p.earlyCourse es).waiting.map Event.seq =
        (q.earlyCourse fs).waiting.map Event.seq := by
  have hLowest := hAbreast.lowestOver? hPlaces
  unfold Processor.earlyCourse
  cases hOver : p.lowestOver? es with
  | none =>
      rw [hOver, Option.map_none] at hLowest
      rw [Option.map_eq_none_iff.mp hLowest.symm]
      exact ⟨rfl, hPlaces⟩
  | some lowest =>
      rw [hOver, Option.map_some] at hLowest
      rcases Option.map_eq_some_iff.mp hLowest.symm with
        ⟨other, hOther, hSeq⟩
      have hDue := due_of_same_places lowest.seq hPlaces
      rw [hOther]
      dsimp only
      rw [hSeq, hAbreast.expected]
      refine ⟨?_, hDue.2⟩
      rw [List.map_cons, List.map_cons, shape_map_apply,
        shape_map_apply, hDue.1]

/- Arrivals in the same place take courses of one shape. -/
theorem Abreast.course
    (hAbreast : Abreast p q)
    (hSeq : e.seq = f.seq) :
    (p.course e).moves.map Move.shape =
        (q.course f).moves.map Move.shape ∧
      (p.course e).waiting.map Event.seq =
        (q.course f).waiting.map Event.seq := by
  have hExpected := hAbreast.expected
  have hPlaces :
      (e :: p.pending).map Event.seq =
        (f :: q.pending).map Event.seq := by
    rw [List.map_cons, List.map_cons, hSeq, hAbreast.waiting]
  have hDue := due_of_same_places p.expected hPlaces
  unfold Processor.course
  rw [← hAbreast.stopped, hSeq, ← hExpected]
  split
  · exact ⟨rfl, hAbreast.waiting⟩
  · split
    · exact ⟨rfl, hAbreast.waiting⟩
    · split
      · refine ⟨?_, hDue.2⟩
        rw [shape_map_apply, shape_map_apply, hDue.1]
      · exact
          hAbreast.earlyCourse
            (insertPending_of_same_places hSeq hAbreast.waiting)

/- Behind them the processors are still side by side. -/
theorem Abreast.process
    (hAbreast : Abreast p q)
    (hSeq : e.seq = f.seq) :
    Abreast (p.process e).1 (q.process f).1 := by
  rcases hAbreast.course hSeq with ⟨hMoves, hWaiting⟩
  rw [process_fst, process_fst]
  refine ⟨hAbreast.bound, ?_, ?_, hWaiting⟩
  · change
      Move.placeAfter p.expected (p.course e).moves =
        Move.placeAfter q.expected (q.course f).moves
    rw [hAbreast.expected, Move.placeAfter_of_shape _ hMoves]
  · simp [follow, hAbreast.stopped,
      Move.takesLast_of_shape hMoves]

/- Runs over the same places have journals of one shape. -/
theorem Abreast.journal
    (hAbreast : Abreast p q)
    (hPlaces : es.map Event.seq = fs.map Event.seq) :
    (p.journal es).map Move.shape =
        (q.journal fs).map Move.shape ∧
      Abreast (p.processAll es).1 (q.processAll fs).1 := by
  induction es generalizing fs p q with
  | nil =>
      rw [List.map_nil] at hPlaces
      rw [List.map_eq_nil_iff.mp hPlaces.symm]
      exact ⟨rfl, hAbreast⟩
  | cons e es ih =>
      cases fs with
      | nil => simp at hPlaces
      | cons f fs =>
          rcases List.cons.inj hPlaces with ⟨hSeq, hRest⟩
          rcases ih (hAbreast.process hSeq) hRest with
            ⟨hShape, hBehind⟩
          refine ⟨?_, hBehind⟩
          rw [Processor.journal, Processor.journal,
            List.map_append, List.map_append, hShape,
            (hAbreast.course hSeq).1]

/-
  A run with an event without effect in the place of each one
  that is rejected leads to the same view and place, makes the
  same changes, and has nothing to report but ranges.
-/
theorem processAll_cleared
    (hPlaces : es.map Event.seq = fs.map Event.seq)
    (hClears :
      p.view.Clears (Move.applied (p.journal es))
        (Move.applied (p.journal fs))) :
    (p.processAll fs).1.view = (p.processAll es).1.view ∧
      Abreast (p.processAll es).1 (p.processAll fs).1 ∧
      (p.processAll fs).2.tally =
        { (p.processAll es).2.tally with failures := [] } := by
  have hSelf : Abreast p p := ⟨rfl, rfl, rfl, rfl⟩
  rcases hSelf.journal hPlaces with ⟨hShape, hBehind⟩
  rcases View.replay_of_clears hClears with ⟨hView, hChanges, hFailures⟩
  refine ⟨?_, hBehind, ?_⟩
  · rw [processAll_view, processAll_view, hView]
  · rw [processAll_tally, processAll_tally]
    simp [tally, hChanges, hFailures, Move.gaps_of_shape hShape,
      heard]

end Processor

------------------------------------------------------------
-- Runs
------------------------------------------------------------

/-
  In a run a processor passes over an event that cannot be
  applied, between the moves before it and those behind it: its
  place is the next one, the view is left as it is and nothing
  is reported as changed, the others go on behind that place,
  and the listener hears of it once. Behind the greatest place
  there are no others, and the processor has stopped.
-/
structure PassedOver
    (p : Processor)
    (es : List Event)
    (ms : List Move)
    (e : Event)
    (cause : ProcessorError)
    (ns : List Move) : Prop where
  due : Move.placeAfter p.expected ms = e.seq
  place :
    e.seq ≠ Processor.greatestPlace →
      (p.processAll es).1.expected =
        Move.placeAfter (e.seq + 1) ns
  last :
    e.seq = Processor.greatestPlace →
      ns = [] ∧ (p.processAll es).1.stopped = true
  unchanged :
    (p.view.replay (Move.applied ms)).after e =
      p.view.replay (Move.applied ms)
  silent :
    (p.view.replay (Move.applied ms)).changesOf e = []
  view :
    (p.processAll es).1.view =
      (p.view.replay (Move.applied ms)).replay
        (Move.applied ns)
  changes :
    (p.processAll es).2.updates =
      p.view.changes (Move.applied ms) ++
        (p.view.replay (Move.applied ms)).changes
          (Move.applied ns)
  heard :
    (p.processAll es).2.calls.filterMap Call.failure? =
      p.heard
        (p.view.failures (Move.applied ms) ++
          (e, cause) ::
            (p.view.replay (Move.applied ms)).failures
              (Move.applied ns))

/-
  Events that cannot be applied: the second waits for the first
  and the fifth for places that are given up; the seventh is
  applied.
-/
def spoiltEvents : List Event :=
  [ (2, .stateStreaming "" .null),
    (1, .text "" 0 "unnamed" true),
    (5, .text "b" 0xFFFFFFFF "far" true),
    (6, .toolStart "" "search" none),
    (7, .stateFinal "k" (.bool true)) ].map
    fun (seq, content) =>
      { id := "", seq := seq, timestamp := "", path := none
        content := content }

/- Events in the same places, all but the last without effect. -/
def idleEvents : List Event :=
  spoiltEvents.map fun e =>
    if e.seq = 7 then e
    else { e with content := .toolOutput "t" .null }

/- A value of a key without a name, in the greatest place. -/
def lastSpoilt : Event where
  id := "e1"
  seq := Processor.greatestPlace
  timestamp := "t"
  path := none
  content := .stateStreaming "" (.number (.integer 1))

end AnswerStream
