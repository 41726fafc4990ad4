import AnswerStream.Proofs.Processor.Accepting
import AnswerStream.Proofs.Streamer.Talking

/-
  This file proves that a consumer accepts what a stream sends
  it, up to the event with the greatest place. The blocks that a
  stream shows have the index of their place, and all final
  events come last, so that each event is applied and reported
  with what it brings. Only a state key without a name is
  refused: the stream sends its values like those of any other
  key.

  Key definitions include:
    * `Splitter.Placed`

  Main statements:
    * `Splitter.Foretells.placed`
    * `Session.placed_of_mem_closing`
    * `Session.Ended.acceptable`
    * `only_unnamed_keys_are_refused`
    * `unnamed_key_is_refused`
-/

namespace AnswerStream

open Json

------------------------------------------------------------
-- Contents with a Place
------------------------------------------------------------

/-
  A content that a stream may send for a target: it shows a
  block at a place up to the given one, or it is about a state
  key that the target asks for.
-/
inductive Splitter.Placed
    (target : Target)
    (id : String)
    (last : Nat) : Content → Prop where
| block
    {c : Content}
    {b d : Block}
    {i : Nat}
    (hPlace : i ≤ last)
    (hMade : MadeAt id i d)
    (hShown : c.shown? = some b)
    (hId : b.id = d.id)
    (hIndex : b.index = d.index) :
    Placed target id last c
| key
    {c : Content}
    {key : String}
    (hTarget : target = .state)
    (hKey : c.stateKey? = some key) :
    Placed target id last c

namespace Splitter

variable {p : Splitter} {target : Target} {roomy : Prop}
  {id : String} {i last : Nat} {c : Content} {b d : Block}

/- Prose of a block that was made at a place. -/
theorem Placed.text
    (hPlace : i ≤ last)
    (hMade : MadeAt id i d)
    (body : String)
    (isFinal : Bool) :
    Placed target id last (.text d.id d.index body isFinal) :=
  .block hPlace hMade rfl (View.markPartial_id _ isFinal)
    (View.markPartial_index _ isFinal)

/- A fence of a block that was made at a place. -/
theorem Placed.fence
    (hPlace : i ≤ last)
    (hMade : MadeAt id i d)
    (data : Option Value)
    (source : Option String)
    (isFinal : Bool) :
    Placed target id last
      (.structured d.id d.index data source isFinal) :=
  .block hPlace hMade rfl (View.markPartial_id _ isFinal)
    (View.markPartial_index _ isFinal)

/- What is foretold has a place no later than the next one. -/
theorem Foretells.placed
    (hForetells : p.Foretells target roomy c)
    (hLast : p.blocks.length ≤ last) :
    Placed target p.id last c := by
  cases hForetells with
  | text hPlace hSeen body =>
      exact .text (hPlace.trans hLast) (.text body) body false
  | fence hTarget hSeen v =>
      exact
        .fence (hSeen.place_le.trans hLast) (.fence none none)
          (some v) none false
  | key hTarget name v => exact .key hTarget rfl

end Splitter

namespace Session

variable {σ : Type} {plan : Plan σ} {t : Session σ}

/- Final events of blocks in order have their places. -/
theorem placed_of_mem_closing
    {target : Target}
    {id : String}
    {index : UInt32}
    {blocks : List Block}
    {values : Members}
    {c : Content}
    (hListed : Splitter.Listed id index blocks)
    (hMember : c ∈ closing target blocks values) :
    Splitter.Placed target id blocks.length c := by
  have hMade :
      ∀ b ∈ blocks,
        ∃ i ≤ blocks.length, Splitter.MadeAt id i b := by
    intro b hBlock
    rcases List.mem_iff_getElem?.mp hBlock with ⟨i, hAt⟩
    have hPlace := (List.getElem?_eq_some_iff.mp hAt).1
    exact ⟨i, Nat.le_of_lt hPlace, hListed.made i b hAt⟩
  rcases List.mem_append.mp hMember with hText | hRest
  · rcases List.mem_map.mp hText with ⟨b, hBlock, rfl⟩
    rcases hMade b (List.mem_filter.mp hBlock).1 with
      ⟨i, hPlace, hAt⟩
    exact .text hPlace hAt b.textOrEmpty true
  · cases target with
    | messages =>
        rcases List.mem_map.mp hRest with ⟨b, hBlock, rfl⟩
        rcases hMade b (List.mem_filter.mp hBlock).1 with
          ⟨i, hPlace, hAt⟩
        exact .fence hPlace hAt b.data b.sourceText true
    | state =>
        rcases List.mem_map.mp hRest with ⟨m, _, rfl⟩
        exact .key rfl rfl

end Session

------------------------------------------------------------
-- Acceptable Streams
------------------------------------------------------------

/-
  Events with places up to one that leaves room behind it are
  acceptable, if all final ones come last.
-/
theorem acceptable_of_placed
    {target : Target}
    {id : String}
    {last : Nat}
    {es : List Event}
    (hPlaced :
      ∀ e ∈ es, Splitter.Placed target id last e.content)
    (hLast : last < UInt32.size - 1)
    (hOrdered :
      es.Pairwise fun e f =>
        e.content.isFinal = true → f.content.isFinal = true) :
    Acceptable es := by
  have hMade :
      ∀ b ∈ shownBlocks es,
        ∃ i d, i < UInt32.size - 1 ∧ Splitter.MadeAt id i d ∧
          b.id = d.id ∧ b.index = d.index := by
    intro b hBlock
    rcases List.mem_filterMap.mp hBlock with
      ⟨e, hMember, hHere⟩
    cases hPlaced e hMember with
    | @block _ d i hPlace hMade hShown hId hIndex =>
        rw [hHere] at hShown
        cases hShown
        exact ⟨i, d, by omega, hMade, hId, hIndex⟩
    | key hTarget hKey =>
        rw [Content.stateKey?_of_shown hHere] at hKey
        cases hKey
  refine ⟨?_, ?_, ?_, ?_, hOrdered⟩
  · intro e hMember
    cases hPlaced e hMember with
    | block hPlace hMade hShown hId hIndex =>
        exact .inr ⟨_, hShown⟩
    | key hTarget hKey => exact .inl ⟨_, hKey⟩
  · intro b hBlock hEmpty
    rcases hMade b hBlock with ⟨i, d, _, hAt, hId, _⟩
    have hSlot := Splitter.slot_isEmpty id d.kind i
    rw [← hAt.id_eq, ← hId, hEmpty] at hSlot
    cases hSlot
  · intro b hBlock
    rcases hMade b hBlock with ⟨i, d, hPlace, hAt, _, hIndex⟩
    rw [hIndex]
    exact hAt.index_ne_greatest hPlace
  · intro b hBlock c hOther hSame
    rcases hMade b hBlock with ⟨i, d, hI, hAtI, hId, hIndex⟩
    rcases hMade c hOther with ⟨j, f, hJ, hAtJ, hIdJ, hIndexJ⟩
    have hPlaces : i = j := by
      refine
        hAtI.place_inj hAtJ (by omega) (by omega) ?_
      rw [← hId, hSame, hIdJ]
    rw [hIndex, hIndexJ, hAtI.index_eq, hAtJ.index_eq, hPlaces]

namespace Session

variable {σ : Type} {plan : Plan σ} {t : Session σ}
  {messageId : String} {target : Target} {limits : Limits}
  {scope : RunScope} {text : String}

/-
  All that a stream sent has a place among its recorded blocks
  or behind them, and its final events come last.
-/
theorem Ended.acceptable
    {p : Splitter}
    {read : Nat}
    {outcome : Outcome}
    (hEnded :
      Ended plan messageId target limits scope text p outcome t)
    (hTidy : p.Tidy read)
    (hBlocks :
      p.close.value.allBlocks.length < UInt32.size - 1) :
    Acceptable t.outlet.accepted.toList ∧
      ∀ e ∈ t.outlet.accepted.toList,
        e.isUnnamed = true → target = .state := by
  rcases hEnded.sent with
    ⟨previews, values, hSent, hForetold, _⟩
  rcases hTidy.close with ⟨hClosed, hGrows, _⟩
  rcases hClosed.listed_allBlocks with ⟨index, hListed⟩
  rw [hGrows.id] at hListed
  have hLength :
      p.blocks.length ≤ p.close.value.allBlocks.length :=
    hGrows.blocks.length_le.trans
      (Splitter.blocks_prefix_allBlocks _).length_le
  have hPlaced :
      ∀ e ∈ t.outlet.accepted.toList,
        Splitter.Placed target p.id
          p.close.value.allBlocks.length e.content := by
    intro e hMember
    have hContent : e.content ∈ t.sent :=
      List.mem_map_of_mem hMember
    rw [hSent] at hContent
    rcases List.mem_append.mp hContent with hEarly | hLate
    · exact (hForetold _ hEarly).placed hLength
    · exact placed_of_mem_closing hListed hLate
  have hOrdered :
      t.sent.Pairwise fun c d =>
        c.isFinal = true → d.isFinal = true := by
    rw [hSent, List.pairwise_append]
    refine ⟨?_, ?_, ?_⟩
    · refine List.pairwise_of_forall_mem_list ?_
      intro c hFirst d _ hFinal
      rw [(hForetold c hFirst).isFinal] at hFinal
      cases hFinal
    · refine List.pairwise_of_forall_mem_list ?_
      intro c _ d hLast _
      exact isFinal_of_mem_closing hLast
    · intro c _ d hLast _
      exact isFinal_of_mem_closing hLast
  refine
    ⟨acceptable_of_placed hPlaced hBlocks
      (List.pairwise_map.mp hOrdered), ?_⟩
  intro e hMember hUnnamed
  cases hPlaced e hMember with
  | block hPlace hMade hShown hId hIndex =>
      have hKey := beq_iff_eq.mp hUnnamed
      rw [Content.stateKey?_of_shown hShown] at hKey
      cases hKey
  | key hTarget hKey => exact hTarget

end Session

/-
  A consumer that gets the events of a stream in order reads
  them up to the one with the greatest place. It applies each of
  them, and reports it with the value or the block that it
  brings, but for values of a state key without a name. Its
  listener hears of those and of nothing else, and the view is
  as if they had not been sent. A stream for messages sends
  none of them.
-/
theorem only_unnamed_keys_are_refused
    {σ : Type}
    (plan : Plan σ)
    (messageId : String)
    (target : Target)
    (limits : Limits)
    (path : Option String)
    (scope : RunScope)
    (memory : σ)
    (chunks : List String)
    (outcome : Outcome)
    (last : Session σ)
    (maxPending : Option Nat)
    (listening : Bool)
    (hRun :
      Session.run plan chunks
        (Session.start (.start messageId target limits path)
          .unbounded scope memory) = .ok outcome last)
    (hBlocks :
      ∀ blocks, outcome.message.recordedBlocks = some blocks →
        blocks.length < UInt32.size - 1) :
    let es := last.outlet.accepted.toList
    let read := es.take lastPlace
    let begun := Processor.start maxPending listening
    let done := begun.processAll es
    done.1 =
        { begun with
          view := View.empty.replay (namedEvents read)
          expected :=
            UInt64.ofNat (min (es.length + 1) lastPlace)
          stopped := decide (lastPlace ≤ es.length) } ∧
      done.2.updates.map some =
        (namedEvents read).map Event.change? ∧
      done.2.calls =
        begun.heard
          ((refusals read).map fun x => .error x.1 x.2) ∧
      ∀ e ∈ es, e.isUnnamed = true → target = .state := by
  rcases Session.ended_of_run hRun with
    ⟨p, read, hTidy, hEnded⟩
  rcases hEnded.acceptable hTidy
      (hBlocks _ hEnded.recorded) with ⟨hAccept, hUnnamed⟩
  have hPlaces :
      last.outlet.accepted.toList.map Event.seq =
        (List.range' 1 last.outlet.accepted.toList.length).map
          UInt64.ofNat := by
    rw [Array.length_toList]
    exact hEnded.stamped.places
  rcases hAccept.processAll hPlaces maxPending listening with
    ⟨hDone, hUpdates, hCalls⟩
  exact ⟨hDone, hUpdates, hCalls, hUnnamed⟩

/- A stream for state values, with the same mark for all events. -/
def keyStream
    (chunks : List String) :
    EStateM.Result StreamError (Session Unit) Outcome :=
  Session.run ⟨.none, none, fun _ => ⟨"", ""⟩⟩ chunks
    (Session.start (.start "m" .state ⟨64, 64⟩ none)
      .unbounded (.fresh "r") ())

/- A fence of which one key has a name, behind some prose. -/
def partlyNamed : List String :=
  [ "See\n\x60\x60\x60json\n\x7b\x22\x22:1,\x22a\x22:",
    "2\x7d\n\x60\x60\x60" ]

/- Only the values of the key without a name are refused. -/
theorem partlyNamed_is_accepted :
    ∃ outcome last,
      keyStream partlyNamed = .ok outcome last ∧
      0 < last.outlet.accepted.size ∧
      (let es := last.outlet.accepted.toList
      let read := es.take lastPlace
      let done := (Processor.start none true).processAll es
      done.1.view = View.empty.replay (namedEvents read) ∧
        done.2.updates.map some =
          (namedEvents read).map Event.change? ∧
        done.2.calls =
          (refusals read).map fun x => .error x.1 x.2) := by
  have hEnded : endedWell (keyStream partlyNamed) = true := by
    decide +kernel
  cases hRun : keyStream partlyNamed with
  | error e last =>
      rw [hRun] at hEnded
      cases hEnded
  | ok outcome last =>
      rw [hRun] at hEnded
      rcases bounds_of_endedWell hEnded with ⟨hSome, hBlocks⟩
      rcases only_unnamed_keys_are_refused _ "m" .state ⟨64, 64⟩
          none (.fresh "r") () partlyNamed outcome last none
          true hRun hBlocks with ⟨hDone, hUpdates, hCalls, _⟩
      exact
        ⟨outcome, last, rfl, hSome,
          congrArg Processor.view hDone, hUpdates, hCalls⟩

/-
  What a listener hears of the events of a stream that ended
  well, and the state values that are left of them.
-/
def heardOfStream :
    EStateM.Result StreamError (Session Unit) Outcome →
      Option (List Call × Members)
  | .ok _ last =>
      let done :=
        (Processor.start none true).processAll
          last.outlet.accepted.toList
      some (done.2.calls, done.1.view.state)
  | .error _ _ => none

/-
  A fence with nothing but a key without a name: its final value
  is sent, and refused.
-/
theorem unnamed_key_is_refused :
    let r :=
      keyStream
        ["\x60\x60\x60json\n\x7b\x22\x22:1\x7d\n\x60\x60\x60"]
    endedWell r = true ∧
      heardOfStream r =
        some
          ( [ .error
                { id := "", seq := 1, timestamp := "", path := none
                  content := .stateFinal "" (.number (.integer 1)) }
                (.missingKey "state:final") ],
            [] ) := by
  decide +kernel

end AnswerStream
