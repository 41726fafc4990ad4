import AnswerStream.Proofs.Processor.Mirroring

/-
  This file proves what a processor makes of events that arrive
  in order and are about state keys and blocks with one index
  each. Each event is applied at once, and what it brings is
  reported as it is, up to the one with the greatest place. Only
  values of a state key without a name are refused, and nothing
  else comes of them.

  Key definitions include:
    * `Event.isUnnamed`
    * `Event.change?`
    * `Acceptable`
    * `View.Accepts`

  Main statements:
    * `Processor.processAll_of_due`
    * `View.accepts_of_acceptable`
    * `Acceptable.processAll`
-/

namespace AnswerStream

open Json

------------------------------------------------------------
-- Events in Order
------------------------------------------------------------

/- Events whose places count up from one are due from there. -/
theorem due_of_places
    {es : List Event}
    {first : Nat}
    (hRoom : first + es.length ≤ lastPlace + 1)
    (hPlaces :
      es.map Event.seq =
        (List.range' first es.length).map UInt64.ofNat) :
    due (UInt64.ofNat first) es = es := by
  induction es generalizing first with
  | nil => rfl
  | cons e es ih =>
      rw [List.length_cons, List.range'_succ, List.map_cons,
        List.map_cons, List.cons.injEq] at hPlaces
      rw [List.length_cons] at hRoom
      by_cases hLast :
          UInt64.ofNat first = Processor.greatestPlace
      · have hFirst : first = lastPlace :=
          (ofNat_eq_greatestPlace_iff (by omega)).mp hLast
        have hNone : es = [] :=
          List.length_eq_zero_iff.mp (by omega)
        rw [due_cons_of_last hPlaces.1 hLast, hNone]
      · have hNext :
            UInt64.ofNat first + 1 = UInt64.ofNat (first + 1) := by
          rw [UInt64.ofNat_add]
          rfl
        rw [due_cons_of_eq hPlaces.1 hLast, hNext,
          ih (by omega) hPlaces.2]

namespace Processor

variable {p : Processor} {e : Event} {es : List Event}

/- The next event is applied as it is if none is waiting. -/
theorem process_of_idle
    (hGoing : p.stopped = false)
    (hIdle : p.pending = [])
    (hNext : e.seq = p.expected) :
    p.process e = p.applyNext e := by
  have hStill : (p.applyNext e).1.pending = [] := by
    rw [applyNext_fst, moveOn_eq]
    exact hIdle
  have hNotBehind : ¬e.seq < p.expected := by
    rw [hNext]
    exact UInt64.lt_irrefl _
  unfold process drain
  rw [if_neg (by simp [hGoing]), if_neg hNotBehind, if_pos hNext]
  rcases hApply : p.applyNext e with ⟨q, done⟩
  rw [hApply] at hStill
  dsimp only at hStill ⊢
  rw [hStill, drainFrom, ← hStill]

/- It makes its changes, and is reported if it fails. -/
theorem applyNext_snd
    (p : Processor)
    (e : Event) :
    (p.applyNext e).2.updates = p.view.changesOf e ∧
      (p.applyNext e).2.calls =
        p.heard
          ((p.view.failureOf e).map fun x => .error x.1 x.2) := by
  unfold applyNext View.changesOf View.failureOf heard calls
  cases p.view.edit e.content e.path with
  | ok _ left => simp [Draft.left]
  | error cause left => simp [Draft.left]

/-
  Events that are due leave none waiting, and those behind the
  first one are due behind it.
-/
theorem next_of_due
    (hIdle : p.pending = [])
    (hGoing : p.stopped = false)
    (hDue : due p.expected (e :: es) = e :: es) :
    p.process e = p.applyNext e ∧ e.seq = p.expected ∧
      (p.applyNext e).1.pending = [] ∧
        (es ≠ [] →
          (p.applyNext e).1.stopped = false ∧
            due (p.applyNext e).1.expected es = es) := by
  have hNext : e.seq = p.expected := by
    by_contra hOther
    rw [due_cons_of_ne hOther] at hDue
    cases hDue
  have hStill : (p.applyNext e).1.pending = [] := by
    rw [applyNext_fst, moveOn_eq]
    exact hIdle
  refine
    ⟨process_of_idle hGoing hIdle hNext, hNext, hStill, ?_⟩
  intro hMore
  by_cases hLast : p.expected = greatestPlace
  · rw [due_cons_of_last hNext hLast, List.cons.injEq] at hDue
    exact absurd hDue.2.symm hMore
  · rw [due_cons_of_eq hNext hLast, List.cons.injEq] at hDue
    rcases going_applyNext e hGoing hLast with ⟨hOn, hPlace⟩
    rw [hPlace]
    exact ⟨hOn, hDue.2⟩

/-
  Events that are due are applied one after another, and the
  listener hears only of those that fail.
-/
theorem processAll_of_due
    (hIdle : p.pending = [])
    (hDue :
      es ≠ [] → p.stopped = false ∧ due p.expected es = es) :
    (p.processAll es).1 = p.follow ⟨es.map .apply, []⟩ ∧
      (p.processAll es).2.updates = p.view.changes es ∧
        (p.processAll es).2.calls =
          p.heard
            ((p.view.failures es).map fun x =>
              .error x.1 x.2) := by
  induction es generalizing p with
  | nil =>
      refine ⟨?_, rfl, ?_⟩
      · rw [List.map_nil, follow_still]
        cases p
        cases hIdle
        rfl
      · unfold heard
        exact (ite_self []).symm
  | cons e es ih =>
      rcases hDue (List.cons_ne_nil e es) with ⟨hGoing, hAll⟩
      rcases next_of_due hIdle hGoing hAll with
        ⟨hNow, hSeq, hStill, hRest⟩
      rcases applyNext_snd p e with ⟨hUpdates, hCalls⟩
      rcases ih hStill hRest with ⟨hLast, hLater, hHeard⟩
      have hView : (p.applyNext e).1.view = p.view.after e := by
        rw [applyNext_fst, moveOn_eq]
      have hListening :
          (p.applyNext e).1.listening = p.listening := by
        rw [applyNext_fst, moveOn_eq]
      rw [hView] at hLater hHeard
      unfold heard at hHeard
      rw [hListening] at hHeard
      rw [processAll, hNow]
      refine ⟨?_, ?_, ?_⟩
      · exact hLast.trans (follow_applyNext hSeq _ _)
      · exact congr (congrArg List.append hUpdates) hLater
      · rw [View.failures, List.map_append, heard_append]
        exact congr (congrArg List.append hCalls) hHeard

/- The place behind one that is given as a number. -/
theorem behind_ofNat
    {place : Nat}
    (hPlace : place ≤ lastPlace) :
    behind (UInt64.ofNat place) =
      UInt64.ofNat (min (place + 1) lastPlace) := by
  unfold behind
  split
  · next hLast =>
    have hSame := (ofNat_eq_greatestPlace_iff hPlace).mp hLast
    rw [hSame, Nat.min_eq_right (Nat.le_succ lastPlace)]
  · next hRoom =>
    have hLess : place ≠ lastPlace := fun hSame =>
      hRoom ((ofNat_eq_greatestPlace_iff hPlace).mpr hSame)
    rw [Nat.min_eq_left (by omega), UInt64.ofNat_add]
    rfl

/- Behind events that are applied is the place behind the last. -/
theorem placeAfter_map_apply
    {place : Nat}
    (hPlace : place ≤ lastPlace)
    (es : List Event) :
    Move.placeAfter (UInt64.ofNat place) (es.map .apply) =
      UInt64.ofNat (min (place + es.length) lastPlace) := by
  induction es generalizing place with
  | nil =>
      rw [List.length_nil, Nat.add_zero, Nat.min_eq_left hPlace]
      rfl
  | cons e es ih =>
      have hHere :
          Move.placeAfter (UInt64.ofNat place)
              ((e :: es).map .apply) =
            Move.placeAfter (behind (UInt64.ofNat place))
              (es.map .apply) :=
        rfl
      rw [hHere, behind_ofNat hPlace,
        ih (Nat.min_le_right _ _), List.length_cons]
      congr 1
      omega

/- Events in order reach the last place if they are that many. -/
theorem takesLast_of_places
    (hLength : es.length ≤ lastPlace)
    (hPlaces :
      es.map Event.seq =
        (List.range' 1 es.length).map UInt64.ofNat) :
    Move.TakesLast (es.map .apply) ↔ lastPlace ≤ es.length := by
  have hMember :
      Move.TakesLast (es.map .apply) ↔
        greatestPlace ∈ es.map Event.seq := by
    simp [Move.TakesLast]
  rw [hMember, hPlaces, List.mem_map]
  constructor
  · rintro ⟨place, hThere, hLast⟩
    rw [List.mem_range'_1] at hThere
    rw [← (ofNat_eq_greatestPlace_iff (by omega)).mp hLast]
    omega
  · intro hAll
    have hSome : 0 < lastPlace := by decide
    refine ⟨lastPlace, List.mem_range'_1.mpr (by omega), ?_⟩
    exact (ofNat_eq_greatestPlace_iff (Nat.le_refl _)).mpr rfl

end Processor

------------------------------------------------------------
-- What Events Bring
------------------------------------------------------------

/- A content that shows a block is about no state key. -/
theorem Content.stateKey?_of_shown
    {c : Content}
    {b : Block}
    (hShown : c.shown? = some b) :
    c.stateKey? = none := by
  cases c with
  | stateStreaming key value => cases hShown
  | stateFinal key value => cases hShown
  | _ => rfl

namespace Event

/- An event of a state key that has no name. -/
def isUnnamed (e : Event) : Bool :=
  e.content.stateKey? == some ""

/-
  The change that an event of a state key or of a block brings:
  the value of the key, or the block as the event shows it.
-/
def change? (e : Event) : Option Update :=
  match e.content with
  | .stateStreaming key value =>
      some (.state key value false e.path)
  | .stateFinal key value => some (.state key value true e.path)
  | content => content.shown?.map Update.block

theorem change?_of_shown
    {e : Event}
    {b : Block}
    (hShown : e.content.shown? = some b) :
    e.change? = some (.block b) := by
  unfold change?
  generalize e.content = content at hShown
  cases content with
  | stateStreaming key value => cases hShown
  | stateFinal key value => cases hShown
  | _ => exact congrArg (Option.map Update.block) hShown

end Event

/- The events but those of a state key that has no name. -/
def namedEvents (es : List Event) : List Event :=
  es.filter fun e => !e.isUnnamed

/- How values of a state key without a name are refused. -/
def refusals (es : List Event) : List (Event × ProcessorError) :=
  (es.filter Event.isUnnamed).map fun e =>
    (e, .missingKey e.content.typeName)

/-
  Events that can be applied one after another: each is about a
  state key or shows a block; the blocks have identities with
  one index each, and there is room behind it; and all that
  comes behind a final event is final.
-/
structure Acceptable (es : List Event) : Prop where
  about :
    ∀ e ∈ es, (∃ key, e.content.stateKey? = some key) ∨
      ∃ b, e.content.shown? = some b
  named : ∀ b ∈ shownBlocks es, b.id ≠ ""
  roomy : ∀ b ∈ shownBlocks es, b.index ≠ View.greatestIndex
  fixed :
    ∀ b ∈ shownBlocks es, ∀ c ∈ shownBlocks es,
      b.id = c.id → b.index = c.index
  ordered :
    es.Pairwise fun e f =>
      e.content.isFinal = true → f.content.isFinal = true

namespace View

variable {v : View} {e : Event} {es : List Event} {b : Block}
  {key : String}

------------------------------------------------------------
-- Values of State Keys
------------------------------------------------------------

/- A value of a key with a name is taken if none was final. -/
theorem taken_of_key
    (v : View)
    (hKey : e.content.stateKey? = some key)
    (hNamed : e.isUnnamed = false)
    (hOpen : e.content.isFinal = false → v.finalized = []) :
    ∃ u, e.change? = some u ∧ v.changesOf e = [u] ∧
      v.failureOf e = [] := by
  have hNotEmpty : key ≠ "" := by
    intro hEmpty
    unfold Event.isUnnamed at hNamed
    rw [hKey, hEmpty] at hNamed
    cases hNamed
  cases hContent : e.content with
  | stateStreaming name value =>
      rw [hContent] at hKey hOpen
      cases hKey
      have hFree : v.isFinalized key = false := by
        unfold isFinalized
        rw [hOpen rfl]
        rfl
      rcases taken_streaming v hNotEmpty hContent with
        ⟨_, hChanges, hFailure⟩
      refine ⟨.state key value false e.path, ?_, ?_, hFailure⟩
      · unfold Event.change?
        rw [hContent]
      · rw [hChanges, hFree]
        rfl
  | stateFinal name value =>
      rw [hContent] at hKey
      cases hKey
      rcases taken_final v hNotEmpty hContent with
        ⟨_, hChanges, hFailure⟩
      refine
        ⟨.state key value true e.path, ?_, hChanges, hFailure⟩
      unfold Event.change?
      rw [hContent]
  | _ =>
      rw [hContent] at hKey
      cases hKey

/- Only final events make keys final. -/
theorem finalized_after_of_open
    (v : View)
    (hOpen : e.content.isFinal = false) :
    (v.after e).finalized = v.finalized := by
  cases hKey : e.content.stateKey? with
  | none => exact (after_of_other v hKey).2
  | some key =>
      by_cases hEmpty : key = ""
      · rw [(refused_of_unnamed v (hEmpty ▸ hKey)).1]
      · cases hContent : e.content with
        | stateStreaming name value =>
            rw [hContent] at hKey
            cases hKey
            rw [(taken_streaming v hEmpty hContent).1]
            split <;> rfl
        | stateFinal name value =>
            rw [hContent] at hOpen
            cases hOpen
        | _ =>
            rw [hContent] at hKey
            cases hKey

------------------------------------------------------------
-- Blocks in Their Own Places
------------------------------------------------------------

/- Each block of a view is where events show it. -/
def StandsAsShown
    (es : List Event)
    (v : View) : Prop :=
  ∀ b ∈ v.blocks, ∃ d ∈ shownBlocks es,
    d.id = b.id ∧ d.index = b.index

theorem standsAsShown_empty (es : List Event) :
    empty.StandsAsShown es :=
  fun _ hMember => nomatch hMember

/- A block that is acceptable is put as it is shown. -/
theorem taken_of_shown
    (hAccept : Acceptable es)
    (hStands : v.StandsAsShown es)
    (hMember : e ∈ es)
    (hShown : e.content.shown? = some b) :
    v.after e = v.withBlock b ∧
      v.changesOf e = [.block b] ∧ v.failureOf e = [] := by
  have hThere := mem_shownBlocks hMember hShown
  have hPlaced : v.placed b = b := by
    cases hOld : v.block? b.id with
    | none => exact placed_of_none hOld
    | some old =>
        rcases mem_of_block? hOld with ⟨hBlock, hId⟩
        rcases hStands old hBlock with
          ⟨d, hOther, hSameId, hSameIndex⟩
        have hIndex : old.index = b.index := by
          rw [← hSameIndex]
          exact
            hAccept.fixed d hOther b hThere (hSameId.trans hId)
        rw [placed_of_some hOld, hIndex]
  have hEdit := edit_shown v hShown e.path
  rw [hPlaced, if_neg (hAccept.named b hThere),
    if_neg (hAccept.roomy b hThere)] at hEdit
  exact after_of_ok hEdit

/- Blocks stand as shown behind an acceptable event. -/
theorem StandsAsShown.after
    (hAccept : Acceptable es)
    (hStands : v.StandsAsShown es)
    (hMember : e ∈ es) :
    (v.after e).StandsAsShown es := by
  rcases hAccept.about e hMember with
    ⟨key, hKey⟩ | ⟨b, hShown⟩
  · unfold StandsAsShown
    rw [(sameShown_after_of_key v hKey).blocks]
    exact hStands
  · rw [(taken_of_shown hAccept hStands hMember hShown).1]
    intro d hBlock
    rcases mem_of_mem_putBlock hBlock with rfl | hOld
    · exact ⟨d, mem_shownBlocks hMember hShown, rfl, rfl⟩
    · exact hStands d hOld

------------------------------------------------------------
-- Acceptable Events
------------------------------------------------------------

/-
  A view accepts events: each is reported with what it brings,
  but for values of a state key without a name. These are
  refused, and the view is as if they were not there.
-/
structure Accepts
    (v : View)
    (es : List Event) : Prop where
  replay : v.replay es = v.replay (namedEvents es)
  changes :
    (v.changes es).map some = (namedEvents es).map Event.change?
  failures : v.failures es = refusals es

theorem accepts_nil (v : View) : v.Accepts [] where
  replay := rfl
  changes := rfl
  failures := rfl

/- An event that is refused may come before others. -/
theorem Accepts.cons_unnamed
    (hAccepts : v.Accepts es)
    (hUnnamed : e.isUnnamed = true) :
    v.Accepts (e :: es) := by
  rcases refused_of_unnamed v (beq_iff_eq.mp hUnnamed) with
    ⟨hAfter, hChanges, hFailure⟩
  have hNamed : namedEvents (e :: es) = namedEvents es := by
    simp [namedEvents, hUnnamed]
  refine ⟨?_, ?_, ?_⟩
  · rw [replay_cons, hAfter, hNamed]
    exact hAccepts.replay
  · rw [View.changes, hAfter, hChanges, hNamed]
    exact hAccepts.changes
  · rw [View.failures, hAfter, hFailure, hAccepts.failures]
    simp [refusals, hUnnamed]

/- So may one that is reported with what it brings. -/
theorem Accepts.cons_named
    {u : Update}
    (hAccepts : (v.after e).Accepts es)
    (hNamed : e.isUnnamed = false)
    (hBrings : e.change? = some u)
    (hChanges : v.changesOf e = [u])
    (hFailure : v.failureOf e = []) :
    v.Accepts (e :: es) := by
  have hFirst : namedEvents (e :: es) = e :: namedEvents es := by
    simp [namedEvents, hNamed]
  refine ⟨?_, ?_, ?_⟩
  · rw [hFirst, replay_cons, replay_cons]
    exact hAccepts.replay
  · rw [View.changes, hChanges, hFirst, List.map_append,
      hAccepts.changes, List.map_singleton, ← hBrings]
    rfl
  · rw [View.failures, hFailure, hAccepts.failures]
    simp [refusals, hNamed]

/-
  Acceptable events are accepted where blocks stand as shown,
  and no key is final before the first final event.
-/
theorem accepts_of_acceptable
    {rest : List Event}
    (hAccept : Acceptable es)
    (hStands : v.StandsAsShown es)
    (hMembers : ∀ e ∈ rest, e ∈ es)
    (hOrdered :
      rest.Pairwise fun e f =>
        e.content.isFinal = true → f.content.isFinal = true)
    (hOpen :
      ∀ e ∈ rest, e.content.isFinal = false →
        v.finalized = []) :
    v.Accepts rest := by
  induction rest generalizing v with
  | nil => exact accepts_nil v
  | cons e rest ih =>
      rcases List.pairwise_cons.mp hOrdered with
        ⟨hBehind, hLater⟩
      have hMember := hMembers e List.mem_cons_self
      have hRest : (v.after e).Accepts rest := by
        refine
          ih (hStands.after hAccept hMember)
            (fun f hThere =>
              hMembers f (List.mem_cons_of_mem e hThere))
            hLater ?_
        intro f hThere hEarly
        have hAlso : e.content.isFinal = false := by
          rw [← Bool.not_eq_true]
          intro hFinal
          rw [hBehind f hThere hFinal] at hEarly
          cases hEarly
        rw [finalized_after_of_open v hAlso]
        exact hOpen e List.mem_cons_self hAlso
      cases hNamed : e.isUnnamed with
      | true =>
          have hKey := beq_iff_eq.mp hNamed
          rw [(refused_of_unnamed v hKey).1] at hRest
          exact hRest.cons_unnamed hNamed
      | false =>
          rcases hAccept.about e hMember with
            ⟨key, hKey⟩ | ⟨b, hShown⟩
          · rcases taken_of_key v hKey hNamed
                (hOpen e List.mem_cons_self) with
              ⟨u, hBrings, hChanges, hFailure⟩
            exact
              hRest.cons_named hNamed hBrings hChanges hFailure
          · rcases taken_of_shown hAccept hStands hMember
                hShown with ⟨_, hChanges, hFailure⟩
            exact
              hRest.cons_named hNamed
                (Event.change?_of_shown hShown) hChanges hFailure

end View

/-
  A new processor that gets acceptable events in order applies
  each of them but those without a name for their state key,
  which its listener hears of. Behind the event with the
  greatest place it has stopped.
-/
theorem Acceptable.processAll
    {es : List Event}
    (hAccept : Acceptable es)
    (hPlaces :
      es.map Event.seq =
        (List.range' 1 es.length).map UInt64.ofNat)
    (maxPending : Option Nat)
    (listening : Bool) :
    let read := es.take lastPlace
    let begun := Processor.start maxPending listening
    let done := begun.processAll es
    done.1 =
        { begun with
          view := View.empty.replay (namedEvents read)
          expected :=
            UInt64.ofNat (min (es.length + 1) lastPlace)
          stopped := decide (lastPlace ≤ es.length) } ∧
      done.2.updates.map some =
        (namedEvents read).map Event.change? ∧
        done.2.calls =
          begun.heard
            ((refusals read).map fun x => .error x.1 x.2) := by
  intro read begun done
  have hLength : read.length = min lastPlace es.length :=
    List.length_take
  have hRead :
      read.map Event.seq =
        (List.range' 1 read.length).map UInt64.ofNat := by
    have hRange :
        (List.range' 1 es.length).take lastPlace =
          List.range' 1 read.length := by
      rcases Nat.le_total lastPlace es.length with hMore | hLess
      · rw [List.take_range'_of_length_ge hMore, hLength,
          Nat.min_eq_left hMore]
      · rw [List.take_range'_of_length_le hLess, hLength,
          Nat.min_eq_right hLess]
    rw [List.map_take, hPlaces, ← List.map_take, hRange]
  have hFirst : begun.expected = UInt64.ofNat 1 := rfl
  have hDue : due begun.expected read = read := by
    rw [hFirst]
    exact due_of_places (by omega) hRead
  rcases Processor.processAll_of_due (p := begun) rfl
      (fun _ => ⟨rfl, hDue⟩) with ⟨hDone, hUpdates, hCalls⟩
  have hTakes :
      Move.TakesLast (read.map .apply) ↔
        lastPlace ≤ es.length := by
    rw [Processor.takesLast_of_places (by omega) hRead, hLength]
    omega
  have hAccepts : View.empty.Accepts read :=
    View.accepts_of_acceptable hAccept
      (View.standsAsShown_empty es)
      (fun _ => List.mem_of_mem_take)
      (hAccept.ordered.sublist (List.take_sublist _ _))
      fun _ _ _ => rfl
  have hLast :
      (begun.processAll read).1 =
        { begun with
          view := View.empty.replay (namedEvents read)
          expected :=
            UInt64.ofNat (min (es.length + 1) lastPlace)
          stopped := decide (lastPlace ≤ es.length) } := by
    have hPlace :
        Move.placeAfter begun.expected (read.map .apply) =
          UInt64.ofNat (min (es.length + 1) lastPlace) := by
      rw [hFirst, Processor.placeAfter_map_apply (by decide),
        hLength]
      congr 1
      omega
    rw [hDone, Processor.follow, Move.applied_map_apply, hPlace,
      ← hAccepts.replay]
    simp only [hTakes]
    rfl
  -- Either all was read, or the processor has stopped behind it.
  have hRest :
      (begun.processAll read).1.processAll (es.drop lastPlace) =
        ((begun.processAll read).1, .empty) := by
    by_cases hAll : lastPlace ≤ es.length
    · refine (Processor.processAll_of_stopped ?_ _).1
      rw [hLast]
      simpa using hAll
    · rw [List.drop_of_length_le (by omega)]
      rfl
  have hAll : done = begun.processAll read := by
    have hParts := begun.processAll_append read (es.drop lastPlace)
    rw [List.take_append_drop, hRest, Output.append_empty]
      at hParts
    exact hParts
  rw [hAll]
  refine ⟨hLast, ?_, ?_⟩
  · rw [hUpdates]
    exact hAccepts.changes
  · rw [← hAccepts.failures]
    exact hCalls

end AnswerStream
