import AnswerStream.Proofs.Processor.Account
import AnswerStream.Proofs.Processor.Feed

/-
  This file proves how far a processor can count places. Each
  move leads on, and what was applied or given up stays behind,
  until an event with the greatest place is applied: there the
  number of the next one is out of range, and the processor has
  stopped. A range that is given up never ends before it begins.

  Key definitions include:
    * `Move.last`
    * `Move.Starts`
    * `Move.Winds`
    * `Processor.Queued`

  Main statements:
    * `Processor.Queued.course_winds`
    * `Processor.Queued.journal_winds`
    * `places_grow_up_to_the_last`
    * `last_place_overflows`
-/

namespace AnswerStream

/- A place that is before another one leads up to that at most. -/
theorem behind_le_of_lt
    {place other : UInt64}
    (hBefore : place < other) :
    Processor.behind place ≤ other := by
  rw [UInt64.lt_iff_toNat_lt] at hBefore
  have hPlace : place.toNat < lastPlace :=
    Nat.lt_of_lt_of_le hBefore (toNat_le_lastPlace other)
  rw [Processor.behind_of_ne (toNat_lt_lastPlace_iff.mp hPlace),
    UInt64.le_iff_toNat_le, toNat_add_one hPlace]
  exact hBefore

------------------------------------------------------------
-- Moves That Lead On
------------------------------------------------------------

namespace Move

variable {place : UInt64} {m : Move} {ms ns : List Move}
  {f : Event}

/- The last place of a move. -/
def last : Move → UInt64
  | .apply e => e.seq
  | .skip _ last => last

/-
  A move starts at a place. A range that is given up does not
  end before that, nor at the greatest place.
-/
def Starts (place : UInt64) : Move → Prop
  | .apply e => e.seq = place
  | .skip low high =>
      low = place ∧ low ≤ high ∧ high ≠ Processor.greatestPlace

/-
  Moves without a hole, one behind the other, and none behind an
  event with the greatest place.
-/
def Winds : UInt64 → List Move → Prop
  | _, [] => True
  | place, m :: rest =>
      m.Starts place ∧ (TakesLast [m] → rest = []) ∧
        Winds (m.next place) rest

theorem takesLast_cons
    (m : Move)
    (ms : List Move) :
    TakesLast (m :: ms) ↔ TakesLast [m] ∨ TakesLast ms :=
  takesLast_append [m] ms

/- Moves wind on if the ones in front do, and those behind. -/
theorem winds_append :
    Winds place (ms ++ ns) ↔
      Winds place ms ∧ Winds (placeAfter place ms) ns ∧
        (TakesLast ms → ns = []) := by
  induction ms generalizing place with
  | nil => simp [Winds, placeAfter]
  | cons m ms ih =>
      have hRest := @ih (m.next place)
      rw [List.cons_append, Winds, hRest, Winds,
        takesLast_cons m ms, List.append_eq_nil_iff]
      change _ ↔ _ ∧ Winds (placeAfter (m.next place) ms) ns ∧ _
      tauto

/- A move leads to no place before the one where it starts. -/
theorem Starts.le_next
    (hStarts : m.Starts place) :
    place ≤ m.next place := by
  cases m with
  | apply e =>
      rw [next, Processor.behind]
      split
      · exact UInt64.le_refl _
      · next hRoom =>
        have hPlace := toNat_lt_lastPlace_iff.mpr hRoom
        rw [UInt64.le_iff_toNat_le, toNat_add_one hPlace]
        exact Nat.le_succ _
  | skip low high =>
      rcases hStarts with ⟨rfl, hRange, hEnd⟩
      have hPlace := toNat_lt_lastPlace_iff.mpr hEnd
      rw [UInt64.le_iff_toNat_le] at hRange ⊢
      rw [next, toNat_add_one hPlace]
      exact Nat.le_succ_of_le hRange

/- It leads behind its last place, unless that is the greatest. -/
theorem Starts.last_lt_next
    (hStarts : m.Starts place)
    (hRoom : ¬ TakesLast [m]) :
    place ≤ m.last ∧ m.last < m.next place := by
  have hNext :
      ∀ {q : UInt64}, q ≠ Processor.greatestPlace → q < q + 1 := by
    intro q hLess
    rw [UInt64.lt_iff_toNat_lt,
      toNat_add_one (toNat_lt_lastPlace_iff.mpr hLess)]
    exact Nat.lt_succ_self _
  cases m with
  | apply e =>
      have hSeq : e.seq = place := hStarts
      subst hSeq
      have hLess : e.seq ≠ Processor.greatestPlace := by
        simpa using hRoom
      rw [next, Processor.behind_of_ne hLess]
      exact ⟨UInt64.le_refl _, hNext hLess⟩
  | skip low high =>
      rcases hStarts with ⟨rfl, hRange, hEnd⟩
      exact ⟨hRange, hNext hEnd⟩

/- An event with the greatest place is the last one. -/
theorem Winds.eq_nil_of_last
    (hWinds : Winds place (m :: ms))
    (hLast : TakesLast [m]) :
    place = Processor.greatestPlace ∧ ms = [] := by
  rcases hWinds with ⟨hStarts, hEnd, _⟩
  refine ⟨?_, hEnd hLast⟩
  cases m with
  | apply e =>
      have hSeq : e.seq = place := hStarts
      rw [← hSeq]
      simpa using hLast
  | skip low high => simp at hLast

/- Moves lead on. -/
theorem Winds.le_placeAfter
    (hWinds : Winds place ms) :
    place ≤ placeAfter place ms := by
  induction ms generalizing place with
  | nil => exact UInt64.le_refl _
  | cons m ms ih =>
      exact
        UInt64.le_trans hWinds.1.le_next (ih hWinds.2.2)

/- What is applied lies behind all moves before it. -/
theorem Winds.last_lt
    (hWinds : Winds place (m :: ms ++ .apply f :: ns)) :
    m.last < f.seq := by
  rcases hWinds with ⟨hStarts, hEnd, hRest⟩
  have hRoom : ¬ TakesLast [m] := fun hLast =>
    absurd (hEnd hLast) (by simp)
  rcases winds_append.mp hRest with ⟨hFront, ⟨hSeq, _⟩, _⟩
  have hPlace : f.seq = placeAfter (m.next place) ms := hSeq
  rw [hPlace]
  exact
    UInt64.lt_of_lt_of_le (hStarts.last_lt_next hRoom).2
      hFront.le_placeAfter

/- Each range that is given up ends before the last place. -/
theorem Winds.gaps_bounds
    (hWinds : Winds place ms)
    {gap : UInt64 × UInt64}
    (hGap : gap ∈ gaps ms) :
    gap.1 ≤ gap.2 ∧ gap.2.toNat < lastPlace := by
  induction ms generalizing place with
  | nil => simp [gaps] at hGap
  | cons m ms ih =>
      rcases hWinds with ⟨hStarts, _, hRest⟩
      cases m with
      | apply e => exact ih hRest hGap
      | skip low high =>
          rw [gaps_cons_skip, List.mem_cons] at hGap
          rcases hGap with rfl | hGap
          · exact
              ⟨hStarts.2.1,
                toNat_lt_lastPlace_iff.mpr hStarts.2.2⟩
          · exact ih hRest hGap

end Move

------------------------------------------------------------
-- Buffers in Order
------------------------------------------------------------

/- What is due winds on from its place. -/
theorem winds_due
    (place : UInt64)
    (es : List Event) :
    Move.Winds place ((due place es).map .apply) := by
  induction es generalizing place with
  | nil => trivial
  | cons e es ih =>
      by_cases hSeq : e.seq = place
      · by_cases hLast : place = Processor.greatestPlace
        · rw [due_cons_of_last hSeq hLast]
          exact ⟨hSeq, fun _ => rfl, trivial⟩
        · rw [due_cons_of_eq hSeq hLast]
          refine ⟨hSeq, ?_, ?_⟩
          · simp [hSeq, hLast]
          · rw [Move.next, Processor.behind_of_ne hLast]
            exact ih (place + 1)
      · rw [due_cons_of_ne hSeq]
        trivial

namespace Processor

variable {p : Processor} {e f : Event} {es : List Event}

/- What waits is in order, and ahead of the next place. -/
structure Queued (p : Processor) : Prop where
  increasing : Increasing p.pending
  ahead : ∀ e ∈ p.pending, p.expected < e.seq

/- Behind what is due in a buffer in order, others wait ahead. -/
theorem later_ahead
    {place : UInt64}
    (hIncreasing : Increasing es)
    (hFrom : ∀ e ∈ es, place ≤ e.seq) :
    ∀ f ∈ later place es,
      Move.placeAfter place ((due place es).map .apply) <
        f.seq := by
  induction es generalizing place with
  | nil => simp
  | cons e es ih =>
      rcases List.pairwise_cons.mp hIncreasing with
        ⟨hHead, hTail⟩
      intro f hMember
      by_cases hSeq : e.seq = place
      · by_cases hLast : place = greatestPlace
        · rw [due_cons_of_last hSeq hLast]
          rw [later_cons_of_last hSeq hLast] at hMember
          have hBehind : place < f.seq := hSeq ▸ hHead f hMember
          simpa [Move.placeAfter, Move.next, behind, hLast]
            using hBehind
        · rw [due_cons_of_eq hSeq hLast, List.map_cons,
            Move.placeAfter_cons_apply hLast]
          rw [later_cons_of_eq hSeq hLast] at hMember
          refine ih hTail (fun g hThere => ?_) f hMember
          rw [← behind_of_ne hLast]
          exact behind_le_of_lt (hSeq ▸ hHead g hThere)
      · rw [due_cons_of_ne hSeq]
        rw [later_cons_of_ne hSeq] at hMember
        have hFirst : place < e.seq :=
          UInt64.lt_of_le_of_ne
            (hFrom e List.mem_cons_self) (Ne.symm hSeq)
        rcases List.mem_cons.mp hMember with rfl | hRest
        · exact hFirst
        · exact UInt64.lt_trans hFirst (hHead f hRest)

/- An early event winds on and leaves the buffer in order. -/
theorem Queued.early
    (hQueued : p.Queued)
    (hEarly : p.expected < e.seq) :
    let c := p.earlyCourse (insertPending e p.pending)
    Move.Winds p.expected c.moves ∧ (p.follow c).Queued := by
  have hIncreasing :=
    increasing_insertPending (e := e) hQueued.increasing
  have hAhead :
      ∀ f ∈ insertPending e p.pending, p.expected < f.seq := by
    intro f hMember
    rcases mem_of_mem_insertPending hMember with rfl | hOld
    · exact hEarly
    · exact hQueued.ahead f hOld
  intro c
  cases hOver :
      p.lowestOver? (insertPending e p.pending) with
  | none =>
      have hCourse : c = ⟨[], insertPending e p.pending⟩ := by
        simp [c, earlyCourse, hOver]
      rw [hCourse]
      exact ⟨trivial, hIncreasing, hAhead⟩
  | some lowest =>
      rcases lowestOver?_eq_some hOver with
        ⟨_, rest, _, hHeld, _⟩
      have hLowest : p.expected < lowest.seq :=
        hAhead lowest (hHeld ▸ List.mem_cons_self)
      have hFrom :
          ∀ f ∈ insertPending e p.pending,
            lowest.seq ≤ f.seq := by
        intro f hMember
        rw [hHeld] at hMember hIncreasing
        rcases List.mem_cons.mp hMember with rfl | hRest
        · exact UInt64.le_refl _
        · exact UInt64.le_of_lt
            ((List.pairwise_cons.mp hIncreasing).1 f hRest)
      have hWaiting := later_ahead hIncreasing hFrom
      have hCourse :
          c =
            { moves :=
                .skip p.expected (lowest.seq - 1) ::
                  (due lowest.seq
                    (insertPending e p.pending)).map .apply
              waiting :=
                later lowest.seq (insertPending e p.pending) } := by
        simp [c, earlyCourse, hOver]
      have hNext : lowest.seq - 1 + 1 = lowest.seq :=
        UInt64.sub_add_cancel _ _
      have hRange :
          p.expected ≤ lowest.seq - 1 ∧
            lowest.seq - 1 ≠ greatestPlace := by
        have hLast := toNat_le_lastPlace lowest.seq
        rw [UInt64.lt_iff_toNat_lt] at hLowest
        have hBefore :
            (lowest.seq - 1).toNat = lowest.seq.toNat - 1 :=
          toNat_sub_one (by omega)
        rw [UInt64.le_iff_toNat_le, ← toNat_lt_lastPlace_iff,
          hBefore]
        omega
      rw [hCourse]
      refine
        ⟨⟨⟨rfl, hRange.1, hRange.2⟩, by simp, ?_⟩, ?_, ?_⟩
      · rw [Move.next, hNext]
        exact winds_due _ _
      · exact hIncreasing.sublist (later_sublist _ _)
      · intro f hMember
        change
          Move.placeAfter (lowest.seq - 1 + 1)
              ((due lowest.seq _).map .apply) < f.seq
        rw [hNext]
        exact hWaiting f hMember

/- So does each arrival, whatever its place. -/
theorem Queued.course_winds
    (hQueued : p.Queued)
    (e : Event) :
    Move.Winds p.expected (p.course e).moves ∧
      (p.process e).1.Queued := by
  have hStill : (p.follow ⟨[], p.pending⟩).Queued := by
    rw [follow_still]
    exact hQueued
  rw [process_fst]
  unfold course
  split
  · exact ⟨trivial, hStill⟩
  · split
    · exact ⟨trivial, hStill⟩
    · next hNotBehind =>
      by_cases hNext : e.seq = p.expected
      · rw [if_pos hNext]
        have hIncreasing : Increasing (e :: p.pending) := by
          refine List.pairwise_cons.mpr ⟨?_, hQueued.increasing⟩
          rw [hNext]
          exact hQueued.ahead
        have hFrom :
            ∀ f ∈ e :: p.pending, p.expected ≤ f.seq := by
          intro f hMember
          rcases List.mem_cons.mp hMember with rfl | hOld
          · exact UInt64.not_lt.mp hNotBehind
          · exact UInt64.le_of_lt (hQueued.ahead f hOld)
        exact
          ⟨winds_due _ _,
            hIncreasing.sublist (later_sublist _ _),
            later_ahead hIncreasing hFrom⟩
      · rw [if_neg hNext]
        exact
          hQueued.early <|
            UInt64.lt_of_le_of_ne (UInt64.not_lt.mp hNotBehind)
              (Ne.symm hNext)

/- And so do all arrivals of a run. -/
theorem Queued.journal_winds
    (hQueued : p.Queued)
    (es : List Event) :
    Move.Winds p.expected (p.journal es) ∧
      (p.processAll es).1.Queued := by
  induction es generalizing p with
  | nil => exact ⟨trivial, hQueued⟩
  | cons e es ih =>
      rcases hQueued.course_winds e with ⟨hWinds, hNext⟩
      rcases ih hNext with ⟨hRest, hLast⟩
      refine ⟨Move.winds_append.mpr ⟨hWinds, ?_, ?_⟩, hLast⟩
      · rw [process_fst] at hRest ⊢
        exact hRest
      · intro hTakes
        have hStopped : (p.process e).1.stopped = true := by
          rw [process_fst]
          simp [follow, hTakes]
        exact (processAll_of_stopped hStopped es).2

/- Before the first event nothing waits. -/
theorem Beginning.queued
    (hBeginning : p.Beginning) :
    p.Queued := by
  rcases hBeginning.blank with ⟨_, hNone, _⟩
  refine ⟨?_, ?_⟩
  · rw [hNone]
    exact List.Pairwise.nil
  · rw [hNone]
    exact nofun

/- The listener hears of nothing but what is reported. -/
theorem mem_of_mem_heard
    {α : Type}
    {report : List α}
    {x : α}
    (hMember : x ∈ p.heard report) :
    x ∈ report := by
  unfold heard at hMember
  split at hMember
  · exact hMember
  · cases hMember

end Processor

------------------------------------------------------------
-- Runs
------------------------------------------------------------

/-
  In a run since the beginning of a stream, whatever places the
  events have, no range that is given up ends before it begins
  or reaches the last place. Each move leads on, but for an event
  with the greatest place: behind that one there are no others,
  and just then the processor has stopped. The next place never
  goes back, and no event is applied whose place was applied or
  given up.
-/
theorem places_grow_up_to_the_last
    (p : Processor)
    (es : List Event)
    (hBeginning : p.Beginning) :
    let done := p.processAll es
    (∀ gap ∈ done.2.tally.gaps,
      gap.1 ≤ gap.2 ∧ gap.2.toNat < lastPlace) ∧
    (∀ ms m ns, p.journal es = ms ++ m :: ns →
      let place := Move.placeAfter p.expected ms
      if Move.TakesLast [m] then
        place = Processor.greatestPlace ∧ ns = []
      else place < m.next place) ∧
    (done.1.stopped = true ↔ Move.TakesLast (p.journal es)) ∧
    (∀ fs gs, es = fs ++ gs →
      (p.processAll fs).1.expected ≤ done.1.expected) ∧
    (∀ ks m ms f ns,
      p.journal es = ks ++ (m :: ms ++ .apply f :: ns) →
      m.last < f.seq) := by
  intro done
  rcases hBeginning.queued.journal_winds es with ⟨hWinds, _⟩
  refine ⟨?_, ?_, ?_, ?_, ?_⟩
  · intro gap hGap
    rw [Processor.processAll_tally] at hGap
    exact hWinds.gaps_bounds (Processor.mem_of_mem_heard hGap)
  · intro ms m ns hJournal place
    rw [hJournal, Move.winds_append] at hWinds
    rcases hWinds with ⟨_, hHere, _⟩
    split
    · next hLast => exact hHere.eq_nil_of_last hLast
    · next hRoom =>
      rcases hHere.1.last_lt_next hRoom with ⟨hFrom, hBehind⟩
      exact UInt64.lt_of_le_of_lt hFrom hBehind
  · rw [Processor.processAll_stopped,
      hBeginning.blank.2.2.2]
    simp
  · intro fs gs hParts
    rcases hBeginning.queued.journal_winds fs with ⟨_, hQueued⟩
    rcases hQueued.journal_winds gs with ⟨hLater, _⟩
    have hDone :
        done.1 = ((p.processAll fs).1.processAll gs).1 := by
      rw [← congrArg Prod.fst (p.processAll_append fs gs),
        ← hParts]
    rw [hDone, Processor.processAll_expected _ gs]
    exact hLater.le_placeAfter
  · intro ks m ms f ns hJournal
    rw [hJournal, Move.winds_append] at hWinds
    exact hWinds.2.1.last_lt

/-
  Behind a buffer without room, two events are applied as they
  arrive, the second one place before the last.
-/
theorem eventsAt_grow_up_to_the_last :
    let p := Processor.start (some 0) true
    let done :=
      p.processAll (eventsAt [2, 0xFFFFFFFFFFFFFFFE])
    p.Beginning ∧
      done.1.expected = Processor.greatestPlace ∧
      done.1.stopped = false ∧
      (p.processAll (eventsAt [2])).1.expected ≤
        done.1.expected :=
  ⟨.start (some 0) true, by decide, by decide,
    (places_grow_up_to_the_last (Processor.start (some 0) true)
      (eventsAt [2, 0xFFFFFFFFFFFFFFFE])
      (.start (some 0) true)).2.2.2.1
        (eventsAt [2]) (eventsAt [0xFFFFFFFFFFFFFFFE]) rfl⟩

/-
  The event with the greatest place is applied behind a range
  that is given up. The next number is the size of the range of
  places, and the processor stops there.
-/
theorem last_place_overflows :
    let p := Processor.start (some 0) true
    let done := p.processAll (eventsAt [0xFFFFFFFFFFFFFFFF])
    done.2.tally.gaps = [(1, 0xFFFFFFFFFFFFFFFE)] ∧
      done.1.view ≠ p.view ∧
      done.1.stopped = true ∧
      done.1.expected.toNat + 1 = UInt64.size := by
  decide

end AnswerStream
