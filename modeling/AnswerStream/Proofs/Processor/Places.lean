import AnswerStream.Proofs.Processor.Course

/-
  This file defines what it means that moves lead from one
  place of a stream to another without a hole, and proves that
  each place on the way is then accounted for once: an event
  with it was applied, or it was given up.

  Key definitions include:
    * `lastPlace`
    * `Move.Covers`
    * `AccountedOnce`

  The account of a place is proven by:
    * `Move.Covers.applied_increasing`
    * `Move.Covers.once`
-/

namespace AnswerStream

------------------------------------------------------------
-- Places
------------------------------------------------------------

/- The greatest place of a stream, behind which there is none. -/
def lastPlace : Nat := UInt64.size - 1

/- No place is behind the last one. -/
theorem toNat_le_lastPlace (place : UInt64) :
    place.toNat ≤ lastPlace :=
  Nat.le_sub_one_of_lt place.toNat_lt_size

/- A place is the greatest, or before the last one. -/
theorem toNat_lt_lastPlace_iff {place : UInt64} :
    place.toNat < lastPlace ↔
      place ≠ Processor.greatestPlace := by
  have hGreatest : Processor.greatestPlace.toNat = lastPlace := rfl
  rw [Ne, ← UInt64.toNat_inj, hGreatest]
  exact
    ⟨Nat.ne_of_lt, Nat.lt_of_le_of_ne (toNat_le_lastPlace place)⟩

/- The last place is the number of the greatest one. -/
theorem ofNat_eq_greatestPlace_iff
    {place : Nat}
    (hPlace : place ≤ lastPlace) :
    UInt64.ofNat place = Processor.greatestPlace ↔
      place = lastPlace := by
  have hSize : place < UInt64.size :=
    Nat.lt_of_le_of_lt hPlace (by decide)
  rw [← UInt64.toNat_inj, UInt64.toNat_ofNat_of_lt' hSize]
  rfl

/- The place behind one that is not the last. -/
theorem toNat_add_one
    {place : UInt64}
    (hPlace : place.toNat < lastPlace) :
    (place + 1).toNat = place.toNat + 1 := by
  unfold lastPlace UInt64.size at hPlace
  rw [UInt64.toNat_add]
  simp only [UInt64.reduceToNat]
  omega

/- The place before another one. -/
theorem toNat_sub_one
    {place : UInt64}
    (hPlace : 0 < place.toNat) :
    (place - 1).toNat = place.toNat - 1 := by
  rw [UInt64.toNat_sub_of_le]
  · rfl
  · rw [UInt64.le_iff_toNat_le]
    exact hPlace

------------------------------------------------------------
-- Moves without a Hole
------------------------------------------------------------

namespace Move

/-
  Moves lead from one place to another without a hole: each
  starts where the one before ended.
-/
def Covers : Nat → List Move → Nat → Prop
  | first, [], last => first = last
  | first, .apply e :: rest, last =>
      e.seq.toNat = first ∧ Covers (first + 1) rest last
  | first, .skip low high :: rest, last =>
      low.toNat = first ∧ low ≤ high ∧
        Covers (high.toNat + 1) rest last

/- Moves one after another lead on without a hole. -/
theorem Covers.append
    {first middle last : Nat}
    {ms ns : List Move}
    (hFront : Covers first ms middle)
    (hBack : Covers middle ns last) :
    Covers first (ms ++ ns) last := by
  induction ms generalizing first with
  | nil =>
      have hEq : first = middle := hFront
      subst hEq
      exact hBack
  | cons m ms ih =>
      cases m with
      | apply e =>
          rcases hFront with ⟨hSeq, hRest⟩
          exact ⟨hSeq, ih hRest⟩
      | skip low high =>
          rcases hFront with ⟨hLow, hRange, hRest⟩
          exact ⟨hLow, hRange, ih hRest⟩

/- Moves lead forward. -/
theorem Covers.le
    {first last : Nat}
    {ms : List Move}
    (hCovers : Covers first ms last) :
    first ≤ last := by
  induction ms generalizing first with
  | nil => exact Nat.le_of_eq hCovers
  | cons m ms ih =>
      cases m with
      | apply e => exact Nat.le_of_succ_le (ih hCovers.2)
      | skip low high =>
          rcases hCovers with ⟨hLow, hRange, hRest⟩
          have hRest := ih hRest
          rw [UInt64.le_iff_toNat_le] at hRange
          omega

/- The events that are applied have places on the way. -/
theorem Covers.applied_bounds
    {first last : Nat}
    {ms : List Move}
    (hCovers : Covers first ms last)
    {e : Event}
    (hEvent : e ∈ applied ms) :
    first ≤ e.seq.toNat ∧ e.seq.toNat < last := by
  induction ms generalizing first with
  | nil => simp [applied] at hEvent
  | cons m ms ih =>
      cases m with
      | apply f =>
          rcases hCovers with ⟨hSeq, hRest⟩
          rw [applied_cons_apply, List.mem_cons] at hEvent
          rcases hEvent with rfl | hEvent
          · exact ⟨Nat.le_of_eq hSeq.symm, hSeq ▸ hRest.le⟩
          · have hBounds := ih hRest hEvent
            exact ⟨Nat.le_of_succ_le hBounds.1, hBounds.2⟩
      | skip low high =>
          rcases hCovers with ⟨hLow, hRange, hRest⟩
          rw [applied_cons_skip] at hEvent
          have hBounds := ih hRest hEvent
          rw [UInt64.le_iff_toNat_le] at hRange
          exact ⟨by omega, hBounds.2⟩

/- The ranges that are given up lie on the way. -/
theorem Covers.gaps_bounds
    {first last : Nat}
    {ms : List Move}
    (hCovers : Covers first ms last)
    {gap : UInt64 × UInt64}
    (hGap : gap ∈ gaps ms) :
    first ≤ gap.1.toNat ∧ gap.1 ≤ gap.2 := by
  induction ms generalizing first with
  | nil => simp [gaps] at hGap
  | cons m ms ih =>
      cases m with
      | apply f =>
          rcases hCovers with ⟨hSeq, hRest⟩
          rw [gaps_cons_apply] at hGap
          have hBounds := ih hRest hGap
          exact ⟨Nat.le_of_succ_le hBounds.1, hBounds.2⟩
      | skip low high =>
          rcases hCovers with ⟨hLow, hRange, hRest⟩
          rw [gaps_cons_skip, List.mem_cons] at hGap
          rcases hGap with rfl | hGap
          · exact ⟨Nat.le_of_eq hLow.symm, hRange⟩
          · have hBounds := ih hRest hGap
            rw [UInt64.le_iff_toNat_le] at hRange
            exact ⟨by omega, hBounds.2⟩

/- On the way to a place, no event has the greatest one. -/
theorem Covers.not_takesLast
    {first : Nat}
    {place : UInt64}
    {ms : List Move}
    (hCovers : Covers first ms place.toNat) :
    ¬ TakesLast ms := by
  rintro ⟨e, hEvent, hLast⟩
  refine toNat_lt_lastPlace_iff.mp ?_ hLast
  exact
    Nat.lt_of_lt_of_le (hCovers.applied_bounds hEvent).2
      (toNat_le_lastPlace place)

/- Events are applied in the order of their places. -/
theorem Covers.applied_increasing
    {first last : Nat}
    {ms : List Move}
    (hCovers : Covers first ms last) :
    (applied ms).Pairwise fun e f => e.seq < f.seq := by
  induction ms generalizing first with
  | nil => exact List.Pairwise.nil
  | cons m ms ih =>
      cases m with
      | apply e =>
          rcases hCovers with ⟨hSeq, hRest⟩
          refine List.Pairwise.cons ?_ (ih hRest)
          intro f hEvent
          have hBounds := hRest.applied_bounds hEvent
          rw [UInt64.lt_iff_toNat_lt]
          omega
      | skip low high => exact ih hCovers.2.2

/- Where nothing is given up, the places count up. -/
theorem Covers.places_of_no_gap
    {first last : Nat}
    {ms : List Move}
    (hCovers : Covers first ms last)
    (hGaps : gaps ms = []) :
    (applied ms).map (fun e => e.seq.toNat) =
      List.range' first (last - first) := by
  induction ms generalizing first with
  | nil =>
      have hEq : first = last := hCovers
      simp [applied, hEq]
  | cons m ms ih =>
      cases m with
      | apply e =>
          rcases hCovers with ⟨hSeq, hRest⟩
          have hLess := hRest.le
          rw [applied_cons_apply, List.map_cons, hSeq,
            ih hRest hGaps,
            show last - first = last - (first + 1) + 1 by omega]
          rfl
      | skip low high => simp at hGaps

end Move

------------------------------------------------------------
-- Counting Places
------------------------------------------------------------

/- How often an event with a place is among the given ones. -/
def timesApplied
    (place : UInt64)
    (es : List Event) : Nat :=
  es.countP fun e => e.seq = place

/- How many of the given ranges hold a place. -/
def timesGivenUp
    (place : UInt64)
    (gaps : List (UInt64 × UInt64)) : Nat :=
  gaps.countP fun gap => gap.1 ≤ place ∧ place ≤ gap.2

theorem timesApplied_cons
    (place : UInt64)
    (e : Event)
    (es : List Event) :
    timesApplied place (e :: es) =
      timesApplied place es + if e.seq = place then 1 else 0 := by
  simp [timesApplied, List.countP_cons]

theorem timesGivenUp_cons
    (place : UInt64)
    (gap : UInt64 × UInt64)
    (gaps : List (UInt64 × UInt64)) :
    timesGivenUp place (gap :: gaps) =
      timesGivenUp place gaps +
        if gap.1 ≤ place ∧ place ≤ gap.2 then 1 else 0 := by
  simp [timesGivenUp, List.countP_cons]

/- A place is accounted for in exactly one way, once. -/
def AccountedOnce
    (place : UInt64)
    (es : List Event)
    (gaps : List (UInt64 × UInt64)) : Prop :=
  timesApplied place es = 1 ∧ timesGivenUp place gaps = 0 ∨
    timesApplied place es = 0 ∧ timesGivenUp place gaps = 1

namespace Move

/- A place before the way is not on it. -/
theorem Covers.none_before
    {first last : Nat}
    {ms : List Move}
    (hCovers : Covers first ms last)
    {place : UInt64}
    (hPlace : place.toNat < first) :
    timesApplied place (applied ms) = 0 ∧
      timesGivenUp place (gaps ms) = 0 := by
  unfold timesApplied timesGivenUp
  rw [List.countP_eq_zero, List.countP_eq_zero]
  constructor
  · intro e hEvent hSeq
    have hBounds := hCovers.applied_bounds hEvent
    have hEq : e.seq = place := by simpa using hSeq
    rw [hEq] at hBounds
    omega
  · intro gap hGap hHolds
    have hBounds := hCovers.gaps_bounds hGap
    have hFirst : gap.1 ≤ place := by
      simp only [decide_eq_true_eq] at hHolds
      exact hHolds.1
    rw [UInt64.le_iff_toNat_le] at hFirst
    omega

/- Each place on the way is accounted for once. -/
theorem Covers.once
    {first last : Nat}
    {ms : List Move}
    (hCovers : Covers first ms last)
    {place : UInt64}
    (hFirst : first ≤ place.toNat)
    (hLast : place.toNat < last) :
    AccountedOnce place (applied ms) (gaps ms) := by
  induction ms generalizing first with
  | nil =>
      have hEq : first = last := hCovers
      omega
  | cons m ms ih =>
      cases m with
      | apply e =>
          rcases hCovers with ⟨hSeq, hRest⟩
          by_cases hHere : place.toNat = first
          · have hEq : e.seq = place := by
              rw [← UInt64.toNat_inj]
              omega
            have hBefore : place.toNat < first + 1 := by
              omega
            have hNone := hRest.none_before hBefore
            refine Or.inl ⟨?_, hNone.2⟩
            rw [applied_cons_apply, timesApplied_cons,
              if_pos hEq, hNone.1]
          · have hNe : e.seq ≠ place := by
              intro hEq
              rw [hEq] at hSeq
              exact hHere hSeq
            unfold AccountedOnce
            rw [applied_cons_apply, timesApplied_cons,
              if_neg hNe]
            exact ih hRest (by omega)
      | skip low high =>
          rcases hCovers with ⟨hLow, hRange, hRest⟩
          by_cases hHere : place ≤ high
          · have hBefore : place.toNat < high.toNat + 1 := by
              rw [UInt64.le_iff_toNat_le] at hHere
              omega
            have hNone := hRest.none_before hBefore
            have hStart : low ≤ place := by
              rw [UInt64.le_iff_toNat_le]
              omega
            refine Or.inr ⟨hNone.1, ?_⟩
            rw [gaps_cons_skip, timesGivenUp_cons,
              if_pos ⟨hStart, hHere⟩, hNone.2]
          · have hBehind : high.toNat + 1 ≤ place.toNat := by
              rw [UInt64.le_iff_toNat_le] at hHere
              omega
            unfold AccountedOnce
            rw [gaps_cons_skip, timesGivenUp_cons,
              if_neg (fun hHolds => hHere hHolds.2)]
            exact ih hRest hBehind

end Move

end AnswerStream
