import AnswerStream.Proofs.Processor.Account
import Mathlib.Data.List.Nodup
import Mathlib.Data.List.Perm.Subperm

/-
  This file proves that a processor forgets the order in which
  events arrive. Events with the places from one on, each of
  them delivered at least once, leave the same processor and
  make the same changes as if they had arrived in order.

  Key definitions include:
    * `Numbered`

  Convergence is proven by:
    * `Processor.journal_of_delivery`
    * `Processor.processAll_of_delivery`
    * `processAll_converges`
-/

namespace AnswerStream

------------------------------------------------------------
-- Numbered Events
------------------------------------------------------------

/- The places of events count up from one. -/
def Numbered (es : List Event) : Prop :=
  es.map (fun e => e.seq.toNat) = List.range' 1 es.length

instance (es : List Event) : Decidable (Numbered es) := by
  unfold Numbered
  infer_instance

namespace Numbered

variable {es : List Event}

/- A numbered event has a place among as many as there are. -/
theorem bounds
    (hNumbered : Numbered es)
    {e : Event}
    (hMember : e ∈ es) :
    1 ≤ e.seq.toNat ∧ e.seq.toNat < 1 + es.length := by
  have hPlace :
      e.seq.toNat ∈ es.map fun e => e.seq.toNat :=
    List.mem_map_of_mem hMember
  unfold Numbered at hNumbered
  rw [hNumbered, List.mem_range'_1] at hPlace
  exact hPlace

/- Each of these places has an event. -/
theorem exists_place
    (hNumbered : Numbered es)
    {place : Nat}
    (hFirst : 1 ≤ place)
    (hLast : place < 1 + es.length) :
    ∃ e ∈ es, e.seq.toNat = place := by
  have hPlace : place ∈ List.range' 1 es.length :=
    List.mem_range'_1.mpr ⟨hFirst, hLast⟩
  unfold Numbered at hNumbered
  rw [← hNumbered, List.mem_map] at hPlace
  exact hPlace

/- Numbered events are told apart by their places. -/
theorem eq_of_seq
    (hNumbered : Numbered es)
    {e f : Event}
    (hE : e ∈ es)
    (hF : f ∈ es)
    (hSeq : e.seq.toNat = f.seq.toNat) :
    e = f := by
  have hNodup : (es.map fun e => e.seq.toNat).Nodup := by
    unfold Numbered at hNumbered
    rw [hNumbered]
    exact List.nodup_range'
  exact List.inj_on_of_nodup_map hNodup hE hF hSeq

/- The events are known from their places. -/
theorem eq_of_places
    (hNumbered : Numbered es)
    {fs gs : List Event}
    (hFs : ∀ e ∈ fs, e ∈ es)
    (hGs : ∀ e ∈ gs, e ∈ es)
    (hPlaces :
      fs.map (fun e => e.seq.toNat) =
        gs.map fun e => e.seq.toNat) :
    fs = gs := by
  induction fs generalizing gs with
  | nil => simpa using hPlaces.symm
  | cons f fs ih =>
      cases gs with
      | nil => simp at hPlaces
      | cons g gs =>
          rw [List.map_cons, List.map_cons,
            List.cons.injEq] at hPlaces
          rcases hPlaces with ⟨hSeq, hRest⟩
          have hHead : f = g :=
            hNumbered.eq_of_seq (hFs f List.mem_cons_self)
              (hGs g List.mem_cons_self) hSeq
          have hTail : fs = gs := by
            refine ih ?_ ?_ hRest
            · intro e hMember
              exact hFs e (List.mem_cons_of_mem f hMember)
            · intro e hMember
              exact hGs e (List.mem_cons_of_mem g hMember)
          rw [hHead, hTail]

/- Numbered events have places before the last one. -/
theorem placed
    (hNumbered : Numbered es)
    (hLength : es.length < lastPlace)
    {e : Event}
    (hMember : e ∈ es) :
    e.seq.toNat < lastPlace := by
  have hBounds := hNumbered.bounds hMember
  omega

end Numbered

------------------------------------------------------------
-- Deliveries
------------------------------------------------------------

/-
  A delivery of numbered events: any order, any repetitions,
  and none of them missing.
-/
structure Delivery (es d : List Event) : Prop where
  only : ∀ e ∈ d, e ∈ es
  all : ∀ e ∈ es, e ∈ d

instance (es d : List Event) : Decidable (Delivery es d) :=
  decidable_of_iff ((∀ e ∈ d, e ∈ es) ∧ ∀ e ∈ es, e ∈ d)
    ⟨fun h => ⟨h.1, h.2⟩, fun h => ⟨h.only, h.all⟩⟩

namespace Processor

variable {es : List Event}

/- Increasing events that are not the first one are fewer. -/
theorem length_lt_of_ahead
    {held : List Event}
    (hNumbered : Numbered es)
    (hIncreasing : Increasing held)
    (hOnly : ∀ e ∈ held, e ∈ es ∧ 1 < e.seq.toNat) :
    held.length ≤ es.length - 1 := by
  have hPlaces :
      (held.map fun e => e.seq.toNat).Nodup := by
    unfold List.Nodup
    rw [List.pairwise_map]
    refine hIncreasing.imp ?_
    intro e f hLess
    rw [UInt64.lt_iff_toNat_lt] at hLess
    exact Nat.ne_of_lt hLess
  have hSubset :
      (held.map fun e => e.seq.toNat) ⊆
        List.range' 2 (es.length - 1) := by
    intro place hPlace
    rcases List.mem_map.mp hPlace with ⟨e, hMember, rfl⟩
    rcases hOnly e hMember with ⟨hEs, hAhead⟩
    have hBounds := hNumbered.bounds hEs
    rw [List.mem_range'_1]
    omega
  have hLength := (hPlaces.subperm hSubset).length_le
  simpa using hLength

/- No place is given up for numbered events. -/
theorem gaps_journal
    {arrived d : List Event}
    {ms : List Move}
    {p : Processor}
    (hNumbered : Numbered es)
    (hLength : es.length < lastPlace)
    (hBound :
      ∀ bound, p.maxPending = some bound →
        es.length - 1 ≤ bound)
    (hTracks : Tracks arrived ms p)
    (hArrived : ∀ e ∈ arrived, e ∈ es)
    (hOnly : ∀ e ∈ d, e ∈ es) :
    Move.gaps (p.journal d) = [] := by
  induction d generalizing arrived ms p with
  | nil => rfl
  | cons e d ih =>
      have hHere := hOnly e List.mem_cons_self
      have hPlaced := hNumbered.placed hLength hHere
      have hFirst : 1 ≤ p.expected.toNat := hTracks.covers.le
      have hNone : Move.gaps (p.course e).moves = [] := by
        unfold course
        rw [if_neg (by simp [hTracks.orderly.going])]
        split
        · rfl
        · next hNotBehind =>
          split
          · simp
          · next hNotNext =>
            have hEarly : p.expected < e.seq :=
              UInt64.lt_of_le_of_ne
                (UInt64.not_lt.mp hNotBehind)
                (Ne.symm hNotNext)
            have hHeld :
                ∀ f ∈ insertPending e p.pending,
                  f ∈ es ∧ 1 < f.seq.toNat := by
              intro f hMember
              rcases mem_of_mem_insertPending hMember with
                rfl | hOld
              · rw [UInt64.lt_iff_toNat_lt] at hEarly
                exact ⟨hHere, by omega⟩
              · have hAhead := hTracks.orderly.ahead f hOld
                rw [UInt64.lt_iff_toNat_lt] at hAhead
                exact
                  ⟨hArrived f (hTracks.waiting f hOld),
                    by omega⟩
            have hShort :=
              length_lt_of_ahead hNumbered
                (increasing_insertPending (e := e)
                  hTracks.orderly.increasing) hHeld
            unfold earlyCourse
            cases hOver :
                p.lowestOver? (insertPending e p.pending) with
            | none => rfl
            | some lowest =>
                rcases lowestOver?_eq_some hOver with
                  ⟨bound, rest, hSome, hEq, hLong⟩
                have hWide := hBound bound hSome
                omega
      have hStep := hTracks.process hPlaced
      rw [journal, Move.gaps_append, hNone, List.nil_append]
      refine ih ?_ hStep ?_ ?_
      · rw [process_fst]
        exact hBound
      · intro f hMember
        rw [List.mem_append, List.mem_singleton] at hMember
        rcases hMember with hOld | rfl
        · exact hArrived f hOld
        · exact hHere
      · intro f hMember
        exact hOnly f (List.mem_cons_of_mem e hMember)

/-
  A delivery is worked off in the order of places, whatever
  the order in which it comes.
-/
theorem journal_of_delivery
    {d : List Event}
    {maxPending : Option Nat}
    (listening : Bool)
    (hNumbered : Numbered es)
    (hLength : es.length < lastPlace)
    (hBound :
      ∀ bound, maxPending = some bound →
        es.length - 1 ≤ bound)
    (hDelivery : Delivery es d) :
    Move.applied ((start maxPending listening).journal d) = es ∧
      Move.gaps ((start maxPending listening).journal d) = [] ∧
      ((start maxPending listening).processAll
          d).1.expected.toNat = es.length + 1 ∧
      ((start maxPending listening).processAll
          d).1.pending = [] := by
  have hPlaced : ∀ e ∈ d, e.seq.toNat < lastPlace := by
    intro e hMember
    exact hNumbered.placed hLength (hDelivery.only e hMember)
  have hStart := tracks_start maxPending listening
  have hTracks := hStart.processAll hPlaced
  simp only [List.nil_append] at hTracks
  have hGaps :
      Move.gaps ((start maxPending listening).journal d) = [] :=
    gaps_journal hNumbered hLength hBound hStart (by simp)
      hDelivery.only
  have hApplied :
      ∀ e ∈ Move.applied
          ((start maxPending listening).journal d),
        e ∈ es := by
    intro e hMember
    exact hDelivery.only e (hTracks.applied e hMember)
  have hPlaces := hTracks.covers.places_of_no_gap hGaps
  have hFirst := hTracks.covers.le
  -- A further place would belong to no event, and a missing
  -- one to an event that neither waits nor was applied.
  have hExpected :
      ((start maxPending listening).processAll
          d).1.expected.toNat = es.length + 1 := by
    apply Nat.le_antisymm
    · rw [← Nat.not_lt]
      intro hBeyond
      have hMember :
          es.length + 1 ∈
            (Move.applied
              ((start maxPending listening).journal d)).map
                fun e => e.seq.toNat := by
        rw [hPlaces, List.mem_range'_1]
        omega
      rcases List.mem_map.mp hMember with ⟨e, hEvent, hSeq⟩
      have hBounds := hNumbered.bounds (hApplied e hEvent)
      omega
    · rw [← Nat.not_lt]
      intro hMissing
      rcases hNumbered.exists_place hFirst (by omega) with
        ⟨e, hEvent, hSeq⟩
      rcases hTracks.kept e (hDelivery.all e hEvent) with
        hBehind | ⟨f, hWaits, hSame⟩
      · rw [UInt64.lt_iff_toNat_lt] at hBehind
        omega
      · have hAhead := hTracks.orderly.ahead f hWaits
        rw [hSame, UInt64.lt_iff_toNat_lt] at hAhead
        omega
  refine ⟨?_, hGaps, hExpected, ?_⟩
  · apply hNumbered.eq_of_places hApplied (fun e hMember => hMember)
    rw [hPlaces, hExpected]
    exact hNumbered.symm
  · cases hPending :
        ((start maxPending listening).processAll d).1.pending with
    | nil => rfl
    | cons f rest =>
        have hWaits :
            f ∈ ((start maxPending listening).processAll
              d).1.pending := by
          rw [hPending]
          exact List.mem_cons_self
        have hAhead := hTracks.orderly.ahead f hWaits
        have hBounds :=
          hNumbered.bounds
            (hDelivery.only f (hTracks.waiting f hWaits))
        rw [UInt64.lt_iff_toNat_lt] at hAhead
        omega

/-
  A delivery leaves a processor with the view of the events in
  order, and it makes their changes.
-/
theorem processAll_of_delivery
    {d : List Event}
    {maxPending : Option Nat}
    (listening : Bool)
    (hNumbered : Numbered es)
    (hLength : es.length < lastPlace)
    (hBound :
      ∀ bound, maxPending = some bound →
        es.length - 1 ≤ bound)
    (hDelivery : Delivery es d) :
    ((start maxPending listening).processAll d).1 =
        { start maxPending listening with
          expected := UInt64.ofNat (es.length + 1)
          view := View.empty.replay es } ∧
      ((start maxPending listening).processAll d).2.tally =
        ⟨View.empty.changes es, [],
          (start maxPending listening).heard
            (View.empty.failures es)⟩ := by
  rcases journal_of_delivery listening hNumbered hLength hBound
      hDelivery with ⟨hApplied, hGaps, hExpected, hPending⟩
  rcases processAll_config (start maxPending listening) d with
    ⟨hMax, hListening, hStream⟩
  have hView :=
    processAll_view (start maxPending listening) d
  rw [hApplied] at hView
  have hGoing :=
    going_of_placed maxPending listening fun e hMember =>
      hNumbered.placed hLength (hDelivery.only e hMember)
  constructor
  · rcases hDone : (start maxPending listening).processAll d with
      ⟨⟨maxPending', listening', streamId', expected', stopped',
        pending', view'⟩, output⟩
    rw [hDone]
      at hExpected hPending hMax hListening hStream hView hGoing
    simp only
      at hExpected hPending hMax hListening hStream hView hGoing
    subst hPending hMax hListening hStream hView hGoing
    rw [← hExpected, UInt64.ofNat_toNat]
    rfl
  · rw [processAll_tally]
    simp only [tally, hApplied, hGaps]
    cases listening <;> rfl

end Processor

------------------------------------------------------------
-- Convergence
------------------------------------------------------------

/- Events in order are a delivery of themselves. -/
theorem Delivery.refl (es : List Event) :
    Delivery es es where
  only := fun _ hMember => hMember
  all := fun _ hMember => hMember

/-
  A processor that may hold all events but one ends the same
  whatever the order and the repetitions in which numbered
  events arrive, and the changes made on the way are the same
  one after another.
-/
theorem processAll_converges
    (maxPending : Option Nat)
    (listening : Bool)
    (es d : List Event)
    (hNumbered : Numbered es)
    (hLength : es.length < lastPlace)
    (hBound :
      ∀ bound, maxPending = some bound →
        es.length - 1 ≤ bound)
    (hDelivery : Delivery es d) :
    let start := Processor.start maxPending listening
    (start.processAll d).1 = (start.processAll es).1 ∧
      (start.processAll d).2.updates =
        (start.processAll es).2.updates ∧
      (start.processAll d).1.expected.toNat =
        es.length + 1 ∧
      (start.processAll d).1.pending = [] := by
  intro start
  have hShuffled :=
    Processor.processAll_of_delivery listening hNumbered
      hLength hBound hDelivery
  have hInOrder :=
    Processor.processAll_of_delivery listening hNumbered
      hLength hBound (Delivery.refl es)
  have hJournal :=
    Processor.journal_of_delivery listening hNumbered hLength
      hBound hDelivery
  refine
    ⟨hShuffled.1.trans hInOrder.1.symm, ?_,
      hJournal.2.2.1, hJournal.2.2.2⟩
  exact congrArg Tally.changes
    (hShuffled.2.trans hInOrder.2.symm)

/- The last of three events comes first, and once more. -/
theorem eventsAt_converges :
    Numbered (eventsAt [1, 2, 3]) ∧
      Delivery (eventsAt [1, 2, 3])
        (eventsAt [3, 1, 3, 2]) ∧
      ((Processor.start (some 2) true).processAll
          (eventsAt [3, 1, 3, 2])).1 =
        ((Processor.start (some 2) true).processAll
          (eventsAt [1, 2, 3])).1 :=
  ⟨by decide, by decide,
    (processAll_converges (some 2) true (eventsAt [1, 2, 3])
      (eventsAt [3, 1, 3, 2]) (by decide) (by decide)
      (by simp [eventsAt]) (by decide)).1⟩

end AnswerStream
