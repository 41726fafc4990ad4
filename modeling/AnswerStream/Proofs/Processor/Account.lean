import AnswerStream.Proofs.Processor.Places

/-
  This file proves the account that a processor keeps of the
  places of a stream. Whatever arrives in whatever order, what
  waits is ahead, in order and within the bound of the buffer,
  and each place that is behind was applied or given up, once.

  Key definitions include:
    * `Processor.Orderly`
    * `Processor.Tracks`
    * `Accounted`

  One event keeps the account by `Processor.Tracks.process`,
  a run by `Processor.Tracks.processAll`, and what it says of
  a run from the start is proven by `processAll_accounted`.
-/

namespace AnswerStream

namespace Processor

------------------------------------------------------------
-- The Buffer
------------------------------------------------------------

/- What waits is the early event or waited before. -/
theorem mem_of_mem_insertPending
    {e f : Event}
    {es : List Event}
    (hMember : f ∈ insertPending e es) :
    f = e ∨ f ∈ es := by
  induction es with
  | nil =>
      rw [insertPending, List.mem_singleton] at hMember
      exact Or.inl hMember
  | cons g es ih =>
      simp only [insertPending] at hMember
      split at hMember
      · rcases List.mem_cons.mp hMember with hHead | hTail
        · exact Or.inl hHead
        · exact Or.inr (List.mem_cons_of_mem g hTail)
      · split at hMember
        · exact List.mem_cons.mp hMember
        · rcases List.mem_cons.mp hMember with hHead | hTail
          · exact Or.inr (hHead ▸ List.mem_cons_self)
          · rcases ih hTail with hNew | hOld
            · exact Or.inl hNew
            · exact Or.inr (List.mem_cons_of_mem g hOld)

/- The early event waits. -/
theorem mem_insertPending_self
    (e : Event)
    (es : List Event) :
    e ∈ insertPending e es := by
  induction es with
  | nil => simp [insertPending]
  | cons g es ih =>
      simp only [insertPending]
      split
      · exact List.mem_cons_self
      · split
        · exact List.mem_cons_self
        · exact List.mem_cons_of_mem g ih

/- A place at which an event waited is not lost. -/
theorem exists_seq_insertPending
    {e f : Event}
    {es : List Event}
    (hMember : f ∈ es) :
    ∃ g ∈ insertPending e es, g.seq = f.seq := by
  induction es with
  | nil => simp at hMember
  | cons h es ih =>
      simp only [insertPending]
      split
      · next hSame =>
        rcases List.mem_cons.mp hMember with rfl | hTail
        · exact ⟨e, List.mem_cons_self, hSame.symm⟩
        · exact ⟨f, List.mem_cons_of_mem e hTail, rfl⟩
      · split
        · exact ⟨f, List.mem_cons_of_mem e hMember, rfl⟩
        · rcases List.mem_cons.mp hMember with rfl | hTail
          · exact ⟨f, List.mem_cons_self, rfl⟩
          · rcases ih hTail with ⟨g, hWaits, hSeq⟩
            exact ⟨g, List.mem_cons_of_mem h hWaits, hSeq⟩

/- The buffer gets at most one event longer. -/
theorem length_insertPending_le
    (e : Event)
    (es : List Event) :
    (insertPending e es).length ≤ es.length + 1 := by
  induction es with
  | nil => simp [insertPending]
  | cons g es ih =>
      simp only [insertPending]
      split
      · simp
      · split
        · simp
        · simpa using ih

/- Events with increasing places. -/
def Increasing (es : List Event) : Prop :=
  es.Pairwise fun e f => e.seq < f.seq

/- The early event takes its place in the buffer. -/
theorem increasing_insertPending
    {e : Event}
    {es : List Event}
    (hIncreasing : Increasing es) :
    Increasing (insertPending e es) := by
  induction es with
  | nil => exact List.pairwise_singleton _ e
  | cons g es ih =>
      rcases List.pairwise_cons.mp hIncreasing with
        ⟨hHead, hTail⟩
      simp only [insertPending]
      split
      · next hSame =>
        refine List.Pairwise.cons ?_ hTail
        intro f hMember
        rw [← hSame]
        exact hHead f hMember
      · next hOther =>
        split
        · next hBefore =>
          refine List.Pairwise.cons ?_ hIncreasing
          intro f hMember
          rcases List.mem_cons.mp hMember with rfl | hRest
          · exact hBefore
          · exact UInt64.lt_trans hBefore (hHead f hRest)
        · next hNotBefore =>
          refine List.Pairwise.cons ?_ (ih hTail)
          intro f hMember
          rcases mem_of_mem_insertPending hMember with
            rfl | hRest
          · exact UInt64.lt_of_le_of_ne
              (UInt64.not_lt.mp hNotBefore) hOther
          · exact hHead f hRest

/-
  In a buffer in order, the events that are due lead on from
  their first place without a hole, and the others wait ahead.
-/
theorem due_covers
    {place : UInt64}
    {es : List Event}
    (hIncreasing : Increasing es)
    (hFrom : ∀ e ∈ es, place ≤ e.seq)
    (hPlaced : ∀ e ∈ es, e.seq.toNat < lastPlace) :
    Move.Covers place.toNat ((due place es).map .apply)
        (Move.placeAfter place
          ((due place es).map .apply)).toNat ∧
      ∀ f ∈ later place es,
        Move.placeAfter place ((due place es).map .apply) <
          f.seq := by
  induction es generalizing place with
  | nil => exact ⟨rfl, by simp⟩
  | cons e es ih =>
      rcases List.pairwise_cons.mp hIncreasing with
        ⟨hHead, hTail⟩
      have hHere := hPlaced e List.mem_cons_self
      by_cases hSeq : e.seq = place
      · have hRoom := toNat_lt_lastPlace_iff.mp (hSeq ▸ hHere)
        have hNext := toNat_add_one (hSeq ▸ hHere)
        have hBehind : ∀ f ∈ es, place + 1 ≤ f.seq := by
          intro f hMember
          have hLess := hHead f hMember
          rw [hSeq, UInt64.lt_iff_toNat_lt] at hLess
          rw [UInt64.le_iff_toNat_le]
          omega
        have hRest := ih hTail hBehind fun f hMember =>
          hPlaced f (List.mem_cons_of_mem e hMember)
        rw [due_cons_of_eq hSeq hRoom, later_cons_of_eq hSeq hRoom,
          List.map_cons, Move.placeAfter_cons_apply hRoom]
        refine ⟨⟨by rw [hSeq], ?_⟩, hRest.2⟩
        rw [← hNext]
        exact hRest.1
      · rw [due_cons_of_ne hSeq, later_cons_of_ne hSeq]
        refine ⟨rfl, ?_⟩
        intro f hMember
        have hFirst : place < e.seq :=
          UInt64.lt_of_le_of_ne
            (hFrom e List.mem_cons_self) (Ne.symm hSeq)
        rcases List.mem_cons.mp hMember with rfl | hRest
        · exact hFirst
        · exact UInt64.lt_trans hFirst (hHead f hRest)

/- What is not due yet is still in order. -/
theorem later_sublist
    (place : UInt64)
    (es : List Event) :
    (later place es).Sublist es :=
  List.drop_sublist _ es

------------------------------------------------------------
-- What a Processor Keeps
------------------------------------------------------------

/-
  The buffer of a processor is in order: what waits is ahead of
  the next place, and no longer than the bound; and there is a
  next place, so the processor has not stopped.
-/
structure Orderly (p : Processor) : Prop where
  going : p.stopped = false
  increasing : Increasing p.pending
  ahead : ∀ e ∈ p.pending, p.expected < e.seq
  placed : ∀ e ∈ p.pending, e.seq.toNat < lastPlace
  bounded :
    ∀ bound, p.maxPending = some bound →
      p.pending.length ≤ bound

/-
  A processor keeps track of the events that arrived: its moves
  led to the next place without a hole and applied only events
  that arrived, and no place at which an event arrived is lost.
-/
structure Tracks
    (arrived : List Event)
    (ms : List Move)
    (p : Processor) : Prop where
  orderly : p.Orderly
  covers : Move.Covers 1 ms p.expected.toNat
  applied : ∀ e ∈ Move.applied ms, e ∈ arrived
  waiting : ∀ e ∈ p.pending, e ∈ arrived
  kept :
    ∀ e ∈ arrived,
      e.seq < p.expected ∨ ∃ f ∈ p.pending, f.seq = e.seq

/- Before the first event there is nothing to track. -/
theorem tracks_start
    (maxPending : Option Nat)
    (listening : Bool) :
    Tracks [] [] (start maxPending listening) where
  orderly :=
    { going := rfl
      increasing := List.Pairwise.nil
      ahead := by simp [start]
      placed := by simp [start]
      bounded := by simp [start] }
  covers := rfl
  applied := by simp [Move.applied]
  waiting := by simp [start]
  kept := by simp

/- A buffer that is too long has a bound, and a first event. -/
theorem lowestOver?_eq_some
    {p : Processor}
    {held : List Event}
    {lowest : Event}
    (hOver : p.lowestOver? held = some lowest) :
    ∃ bound rest, p.maxPending = some bound ∧
      held = lowest :: rest ∧ bound < held.length := by
  unfold lowestOver? at hOver
  cases hBound : p.maxPending with
  | none => simp [hBound] at hOver
  | some bound =>
      by_cases hLength : held.length ≤ bound
      · simp [hBound, hLength] at hOver
      · simp only [hBound, if_neg hLength] at hOver
        cases held with
        | nil => simp at hOver
        | cons first rest =>
            simp only [List.head?_cons,
              Option.some.injEq] at hOver
            subst hOver
            exact ⟨bound, rest, rfl, rfl,
              Nat.lt_of_not_le hLength⟩

/- A buffer that is not too long is within its bound. -/
theorem lowestOver?_eq_none
    {p : Processor}
    {held : List Event}
    (hFits : p.lowestOver? held = none) :
    ∀ bound, p.maxPending = some bound →
      held.length ≤ bound := by
  intro bound hBound
  cases held with
  | nil => exact Nat.zero_le bound
  | cons first rest => simpa [lowestOver?, hBound] using hFits

/- Moves without a hole do not stop a processor. -/
theorem going_follow
    {p : Processor}
    {c : Course}
    {first : Nat}
    (hGoing : p.stopped = false)
    (hCovers :
      Move.Covers first c.moves (p.follow c).expected.toNat) :
    (p.follow c).stopped = false := by
  simp [follow, hGoing, hCovers.not_takesLast]

/-
  An early event keeps the buffer in order, and the places that
  are given up for it are those before the first one waiting.
-/
theorem Orderly.early
    {p : Processor}
    {e : Event}
    (hOrderly : p.Orderly)
    (hPlaced : e.seq.toNat < lastPlace)
    (hEarly : p.expected < e.seq) :
    (p.follow (p.earlyCourse
        (insertPending e p.pending))).Orderly ∧
      Move.Covers p.expected.toNat
        (p.earlyCourse (insertPending e p.pending)).moves
        (p.follow (p.earlyCourse
          (insertPending e p.pending))).expected.toNat := by
  have hIncreasing :=
    increasing_insertPending (e := e) hOrderly.increasing
  have hAhead :
      ∀ f ∈ insertPending e p.pending,
        p.expected < f.seq := by
    intro f hMember
    rcases mem_of_mem_insertPending hMember with rfl | hOld
    · exact hEarly
    · exact hOrderly.ahead f hOld
  have hPlacedAll :
      ∀ f ∈ insertPending e p.pending,
        f.seq.toNat < lastPlace := by
    intro f hMember
    rcases mem_of_mem_insertPending hMember with rfl | hOld
    · exact hPlaced
    · exact hOrderly.placed f hOld
  cases hOver :
      p.lowestOver? (insertPending e p.pending) with
  | none =>
      have hCourse :
          p.earlyCourse (insertPending e p.pending) =
            ⟨[], insertPending e p.pending⟩ := by
        simp [earlyCourse, hOver]
      rw [hCourse, follow_still]
      exact
        ⟨⟨hOrderly.going, hIncreasing, hAhead, hPlacedAll,
          lowestOver?_eq_none hOver⟩, rfl⟩
  | some lowest =>
      rcases lowestOver?_eq_some hOver with
        ⟨bound, rest, hBound, hHeld, hLong⟩
      let c : Course :=
        { moves :=
            .skip p.expected (lowest.seq - 1) ::
              (due lowest.seq
                (insertPending e p.pending)).map .apply
          waiting :=
            later lowest.seq (insertPending e p.pending) }
      have hCourse :
          p.earlyCourse (insertPending e p.pending) = c := by
        simp [c, earlyCourse, hOver]
      have hLowest : p.expected < lowest.seq :=
        hAhead lowest (hHeld ▸ List.mem_cons_self)
      rw [UInt64.lt_iff_toNat_lt] at hLowest
      have hBefore :
          (lowest.seq - 1).toNat = lowest.seq.toNat - 1 :=
        toNat_sub_one (by omega)
      have hFrom :
          ∀ f ∈ insertPending e p.pending,
            lowest.seq ≤ f.seq := by
        intro f hMember
        rw [hHeld] at hMember hIncreasing
        rcases List.mem_cons.mp hMember with rfl | hRest
        · exact UInt64.le_refl _
        · exact UInt64.le_of_lt
            ((List.pairwise_cons.mp hIncreasing).1 f hRest)
      have hDue := due_covers hIncreasing hFrom hPlacedAll
      have hExpected :
          (p.follow c).expected =
            Move.placeAfter lowest.seq
              ((due lowest.seq
                (insertPending e p.pending)).map .apply) := by
        simp [c, follow, Move.placeAfter, Move.next]
      have hShort :
          (later lowest.seq
            (insertPending e p.pending)).length ≤ bound := by
        have hLength := length_insertPending_le e p.pending
        have hWas := hOrderly.bounded bound hBound
        have hRoom :=
          toNat_lt_lastPlace_iff.mp <|
            hPlacedAll lowest (hHeld ▸ List.mem_cons_self)
        rw [hHeld, later_cons_of_eq rfl hRoom]
        have hRest :=
          (later_sublist (lowest.seq + 1) rest).length_le
        rw [hHeld, List.length_cons] at hLength
        omega
      have hCovers :
          Move.Covers p.expected.toNat c.moves
            (p.follow c).expected.toNat := by
        rw [hExpected]
        refine ⟨rfl, ?_, ?_⟩
        · rw [UInt64.le_iff_toNat_le]
          omega
        · rw [hBefore,
            show lowest.seq.toNat - 1 + 1 =
              lowest.seq.toNat by omega]
          exact hDue.1
      rw [hCourse]
      refine
        ⟨{ going := going_follow hOrderly.going hCovers
           increasing := hIncreasing.sublist (later_sublist _ _)
           ahead := ?_
           placed := ?_
           bounded := ?_ }, hCovers⟩
      · rw [hExpected]
        exact hDue.2
      · intro f hMember
        exact hPlacedAll f
          ((later_sublist _ _).subset hMember)
      · intro other hOther
        rw [show other = bound from
          Option.some.inj (hOther.symm.trans hBound)]
        exact hShort

/- The next event keeps the buffer in order. -/
theorem Orderly.next
    {p : Processor}
    {e : Event}
    (hOrderly : p.Orderly)
    (hPlaced : e.seq.toNat < lastPlace)
    (hNext : e.seq = p.expected) :
    let c : Course :=
      ⟨(due p.expected (e :: p.pending)).map .apply,
        later p.expected (e :: p.pending)⟩
    (p.follow c).Orderly ∧
      Move.Covers p.expected.toNat c.moves
        (p.follow c).expected.toNat := by
  have hIncreasing : Increasing (e :: p.pending) :=
    List.Pairwise.cons
      (fun f hMember => hNext ▸ hOrderly.ahead f hMember)
      hOrderly.increasing
  have hFrom : ∀ f ∈ e :: p.pending, p.expected ≤ f.seq := by
    intro f hMember
    rcases List.mem_cons.mp hMember with rfl | hWaits
    · rw [hNext]
      exact UInt64.le_refl _
    · exact UInt64.le_of_lt (hOrderly.ahead f hWaits)
  have hPlacedAll :
      ∀ f ∈ e :: p.pending, f.seq.toNat < lastPlace := by
    intro f hMember
    rcases List.mem_cons.mp hMember with rfl | hWaits
    · exact hPlaced
    · exact hOrderly.placed f hWaits
  have hRoom : p.expected ≠ greatestPlace :=
    toNat_lt_lastPlace_iff.mp (hNext ▸ hPlaced)
  have hDue := due_covers hIncreasing hFrom hPlacedAll
  intro c
  refine
    ⟨{ going := going_follow hOrderly.going hDue.1
       increasing := hIncreasing.sublist (later_sublist _ _)
       ahead := hDue.2
       placed := ?_
       bounded := ?_ }, hDue.1⟩
  · intro f hMember
    exact hPlacedAll f ((later_sublist _ _).subset hMember)
  · intro bound hBound
    have hWaiting : c.waiting = later (p.expected + 1) p.pending :=
      later_cons_of_eq hNext hRoom p.pending
    change c.waiting.length ≤ bound
    rw [hWaiting]
    exact
      Nat.le_trans (later_sublist _ _).length_le
        (hOrderly.bounded bound hBound)

/- An arriving event keeps the buffer in order. -/
theorem Orderly.follow
    {p : Processor}
    {e : Event}
    (hOrderly : p.Orderly)
    (hPlaced : e.seq.toNat < lastPlace) :
    (p.follow (p.course e)).Orderly ∧
      Move.Covers p.expected.toNat (p.course e).moves
        (p.follow (p.course e)).expected.toNat := by
  unfold course
  rw [if_neg (by simp [hOrderly.going])]
  by_cases hBehind : e.seq < p.expected
  · rw [if_pos hBehind, follow_still]
    exact ⟨hOrderly, rfl⟩
  · rw [if_neg hBehind]
    by_cases hNext : e.seq = p.expected
    · rw [if_pos hNext]
      exact hOrderly.next hPlaced hNext
    · rw [if_neg hNext]
      have hEarly : p.expected < e.seq :=
        UInt64.lt_of_le_of_ne (UInt64.not_lt.mp hBehind)
          (Ne.symm hNext)
      exact hOrderly.early hPlaced hEarly

------------------------------------------------------------
-- Nothing Is Lost
------------------------------------------------------------

/- The events at hand when an event has arrived. -/
def atHand
    (p : Processor)
    (e : Event) : List Event :=
  if p.stopped then p.pending
  else if e.seq < p.expected then p.pending
  else if e.seq = p.expected then e :: p.pending
  else insertPending e p.pending

/- What is at hand arrived now or waited. -/
theorem mem_of_mem_atHand
    {p : Processor}
    {e f : Event}
    (hMember : f ∈ p.atHand e) :
    f = e ∨ f ∈ p.pending := by
  unfold atHand at hMember
  split at hMember
  · exact Or.inr hMember
  · split at hMember
    · exact Or.inr hMember
    · split at hMember
      · exact List.mem_cons.mp hMember
      · exact mem_of_mem_insertPending hMember

/- The place at which an event waits is at hand. -/
theorem exists_seq_atHand
    {p : Processor}
    {f : Event}
    (e : Event)
    (hMember : f ∈ p.pending) :
    ∃ g ∈ p.atHand e, g.seq = f.seq := by
  unfold atHand
  split
  · exact ⟨f, hMember, rfl⟩
  · split
    · exact ⟨f, hMember, rfl⟩
    · split
      · exact ⟨f, List.mem_cons_of_mem e hMember, rfl⟩
      · exact exists_seq_insertPending hMember

/- An event that arrives is at hand, unless it is behind. -/
theorem mem_atHand_self
    {p : Processor}
    {e : Event}
    (hGoing : p.stopped = false)
    (hAhead : ¬e.seq < p.expected) :
    e ∈ p.atHand e := by
  unfold atHand
  rw [if_neg (by simp [hGoing]), if_neg hAhead]
  split
  · exact List.mem_cons_self
  · exact mem_insertPending_self e p.pending

/- What is at hand is applied or goes on waiting. -/
theorem mem_atHand_iff
    {p : Processor}
    {e f : Event} :
    f ∈ p.atHand e ↔
      f ∈ Move.applied (p.course e).moves ∨
        f ∈ (p.course e).waiting := by
  have hSplit :
      ∀ place es,
        f ∈ es ↔ f ∈ due place es ∨ f ∈ later place es := by
    intro place es
    rw [← List.mem_append, due_append_later]
  unfold atHand course
  split
  · simp [Move.applied]
  · split
    · simp [Move.applied]
    · split
      · rw [hSplit p.expected]
        simp
      · unfold earlyCourse
        cases hOver :
            p.lowestOver? (insertPending e p.pending) with
        | none => simp [Move.applied]
        | some lowest =>
            rw [hSplit lowest.seq]
            simp

/- What is applied in a run arrived in it, or waited before. -/
theorem mem_of_mem_journal
    {p : Processor}
    {es : List Event}
    {f : Event}
    (hApplied : f ∈ Move.applied (p.journal es)) :
    f ∈ p.pending ∨ f ∈ es := by
  induction es generalizing p with
  | nil => cases hApplied
  | cons e es ih =>
      have hHere :
          f ∈ p.atHand e → f ∈ p.pending ∨ f ∈ e :: es := by
        intro hHand
        rcases mem_of_mem_atHand hHand with rfl | hWaited
        · exact .inr List.mem_cons_self
        · exact .inl hWaited
      rw [journal, Move.applied_append, List.mem_append]
        at hApplied
      rcases hApplied with hNow | hLater
      · exact hHere (mem_atHand_iff.mpr (.inl hNow))
      · rcases ih hLater with hWaits | hArrives
        · rw [process_fst] at hWaits
          exact hHere (mem_atHand_iff.mpr (.inr hWaits))
        · exact .inr (List.mem_cons_of_mem e hArrives)

------------------------------------------------------------
-- The Account of a Run
------------------------------------------------------------

/- One more event is tracked. -/
theorem Tracks.process
    {arrived : List Event}
    {ms : List Move}
    {p : Processor}
    {e : Event}
    (hTracks : Tracks arrived ms p)
    (hPlaced : e.seq.toNat < lastPlace) :
    Tracks (arrived ++ [e]) (ms ++ (p.course e).moves)
      (p.process e).1 := by
  rw [process_fst]
  rcases hTracks.orderly.follow hPlaced with
    ⟨hOrderly, hCovers⟩
  have hFrom :
      ∀ f ∈ p.atHand e, f ∈ arrived ++ [e] := by
    intro f hMember
    rw [List.mem_append, List.mem_singleton]
    rcases mem_of_mem_atHand hMember with hNew | hOld
    · exact Or.inr hNew
    · exact Or.inl (hTracks.waiting f hOld)
  have hSettled :
      ∀ f ∈ p.atHand e,
        f.seq < (p.follow (p.course e)).expected ∨
          ∃ g ∈ (p.follow (p.course e)).pending,
            g.seq = f.seq := by
    intro f hMember
    rcases mem_atHand_iff.mp hMember with hApplied | hWaits
    · have hBounds := hCovers.applied_bounds hApplied
      exact Or.inl (UInt64.lt_iff_toNat_lt.mpr hBounds.2)
    · exact Or.inr ⟨f, hWaits, rfl⟩
  have hForward :
      p.expected ≤ (p.follow (p.course e)).expected :=
    UInt64.le_iff_toNat_le.mpr hCovers.le
  refine ⟨hOrderly, hTracks.covers.append hCovers, ?_, ?_, ?_⟩
  · intro f hMember
    rw [Move.applied_append, List.mem_append] at hMember
    rcases hMember with hBefore | hNow
    · exact List.mem_append_left [e]
        (hTracks.applied f hBefore)
    · exact hFrom f (mem_atHand_iff.mpr (Or.inl hNow))
  · intro f hMember
    exact hFrom f (mem_atHand_iff.mpr (Or.inr hMember))
  · intro f hMember
    rw [List.mem_append, List.mem_singleton] at hMember
    rcases hMember with hBefore | rfl
    · rcases hTracks.kept f hBefore with
        hBehind | ⟨g, hWaits, hSeq⟩
      · exact Or.inl (UInt64.lt_of_lt_of_le hBehind hForward)
      · rcases exists_seq_atHand e hWaits with
          ⟨h, hHand, hSame⟩
        rw [← hSeq, ← hSame]
        exact hSettled h hHand
    · by_cases hBehind : f.seq < p.expected
      · exact Or.inl (UInt64.lt_of_lt_of_le hBehind hForward)
      · exact
          hSettled f
            (mem_atHand_self hTracks.orderly.going hBehind)

/- All further events are tracked. -/
theorem Tracks.processAll
    {arrived : List Event}
    {ms : List Move}
    {p : Processor}
    {es : List Event}
    (hTracks : Tracks arrived ms p)
    (hPlaced : ∀ e ∈ es, e.seq.toNat < lastPlace) :
    Tracks (arrived ++ es) (ms ++ p.journal es)
      (p.processAll es).1 := by
  induction es generalizing arrived ms p with
  | nil => simpa [journal, Processor.processAll] using hTracks
  | cons e es ih =>
      have hHere := hPlaced e List.mem_cons_self
      have hRest := ih (hTracks.process hHere) fun f hMember =>
        hPlaced f (List.mem_cons_of_mem e hMember)
      rw [List.append_assoc, List.append_assoc] at hRest
      exact hRest

/- A run over places before the last one does not stop. -/
theorem going_of_placed
    {es : List Event}
    (maxPending : Option Nat)
    (listening : Bool)
    (hPlaced : ∀ e ∈ es, e.seq.toNat < lastPlace) :
    ((start maxPending listening).processAll es).1.stopped =
      false :=
  ((tracks_start maxPending listening).processAll
    hPlaced).orderly.going

end Processor

------------------------------------------------------------
-- The Account of a Processor from the Start
------------------------------------------------------------

/-
  The account of a run from the start with a listener: given
  the bound of the buffer, the events that arrived and those
  that were applied, it holds of the processor and of what came
  of all events.
-/
structure Accounted
    (maxPending : Option Nat)
    (arrived applied : List Event)
    (done : Processor × Output) : Prop where
  going : done.1.stopped = false
  ahead : ∀ e ∈ done.1.pending, done.1.expected < e.seq
  bounded :
    ∀ bound, maxPending = some bound →
      done.1.pending.length ≤ bound
  increasing :
    applied.Pairwise fun e f => e.seq < f.seq
  arrived : ∀ e ∈ applied, e ∈ arrived
  ranges : ∀ gap ∈ done.2.tally.gaps, gap.1 ≤ gap.2
  once :
    ∀ place, 1 ≤ place → place < done.1.expected →
      AccountedOnce place applied done.2.tally.gaps
  view : done.1.view = View.empty.replay applied
  changes : done.2.tally.changes = View.empty.changes applied
  failures :
    done.2.tally.failures = View.empty.failures applied

/-
  Whatever arrives in whatever order, each place that is behind
  was applied once or lies in one range that was reported as
  given up, and the view is that of the applied events in the
  order of their places. The places do not run out.
-/
theorem processAll_accounted
    (maxPending : Option Nat)
    (es : List Event)
    (hPlaced : ∀ e ∈ es, e.seq.toNat < lastPlace) :
    Accounted maxPending es
      (Move.applied
        ((Processor.start maxPending true).journal es))
      ((Processor.start maxPending true).processAll es) := by
  have hTracks :=
    (Processor.tracks_start maxPending true).processAll hPlaced
  simp only [List.nil_append] at hTracks
  have hTally :=
    Processor.processAll_tally
      (Processor.start maxPending true) es
  have hGaps :
      ((Processor.start maxPending true).processAll
          es).2.tally.gaps =
        Move.gaps
          ((Processor.start maxPending true).journal es) := by
    rw [hTally]
    rfl
  refine
    { going := hTracks.orderly.going
      ahead := hTracks.orderly.ahead
      bounded := ?_
      increasing := hTracks.covers.applied_increasing
      arrived := hTracks.applied
      ranges := ?_
      once := ?_
      view := Processor.processAll_view _ es
      changes := by
        rw [hTally]
        rfl
      failures := by
        rw [hTally]
        rfl }
  · intro bound hBound
    apply hTracks.orderly.bounded
    rw [(Processor.processAll_config _ es).1]
    exact hBound
  · intro gap hGap
    rw [hGaps] at hGap
    exact (hTracks.covers.gaps_bounds hGap).2
  · intro place hFirst hLast
    rw [hGaps]
    rw [UInt64.le_iff_toNat_le] at hFirst
    exact hTracks.covers.once hFirst
      (UInt64.lt_iff_toNat_lt.mp hLast)

/- Events of one state key with the given places. -/
def eventsAt (places : List UInt64) : List Event :=
  places.map fun seq =>
    { id := "", seq := seq, timestamp := "", path := none
      content := .stateStreaming "k" (.string (toString seq)) }

/-
  A buffer for one event gives up the first two places when the
  third and the fifth wait, and drops what comes late.
-/
theorem eventsAt_accounted :
    (∀ e ∈ eventsAt [3, 5, 3, 1, 4],
        e.seq.toNat < lastPlace) ∧
      ((Processor.start (some 1) true).processAll
          (eventsAt [3, 5, 3, 1, 4])).2.tally.gaps =
        [(1, 2)] ∧
      Accounted (some 1) (eventsAt [3, 5, 3, 1, 4])
        (Move.applied
          ((Processor.start (some 1) true).journal
            (eventsAt [3, 5, 3, 1, 4])))
        ((Processor.start (some 1) true).processAll
          (eventsAt [3, 5, 3, 1, 4])) :=
  ⟨by decide, by decide,
    processAll_accounted (some 1) (eventsAt [3, 5, 3, 1, 4])
      (by decide)⟩

end AnswerStream
