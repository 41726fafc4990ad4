import AnswerStream.Proofs.Processor.Keys
import AnswerStream.Proofs.Streamer.Talking

/-
  This file proves that the state values of an answer are shown
  live as they are found in history: whatever the chunks of the
  answer and the order in which its events are delivered, the
  final keys of the consumer are those of the recorded message,
  with the same values, and its blocks are the recorded prose.

  Main statements:
    * `View.Shows.replay_told`
    * `Session.Ended.replay_keys`
    * `live_state_matches_history`
-/

namespace AnswerStream

open Json

------------------------------------------------------------
-- Blocks Beside State Keys
------------------------------------------------------------

/- Some blocks of an answer, in order, are an answer. -/
theorem Answer.of_sublist
    {bs cs : List Block}
    (hAnswer : Answer cs)
    (hSub : bs.Sublist cs) :
    Answer bs where
  plain := fun b hMember => hAnswer.plain b (hSub.subset hMember)
  named := fun b hMember => hAnswer.named b (hSub.subset hMember)
  bounded := fun b hMember =>
    hAnswer.bounded b (hSub.subset hMember)
  distinct := hAnswer.distinct.sublist (hSub.map Block.id)
  ordered := hAnswer.ordered.sublist hSub

namespace View.Shows

variable {bs done : List Block} {v : View}

/- An event about a key changes nothing of what is shown. -/
theorem after_key
    (hShows : Shows bs done v)
    {e : Event}
    {key : String}
    (hKey : e.content.stateKey? = some key) :
    Shows bs done (v.after e) := by
  have hBlocks := (sameShown_after_of_key v hKey).1
  exact
    ⟨by rw [hBlocks]; exact hShows.distinct,
      by rw [hBlocks]; exact hShows.known,
      by rw [hBlocks]; exact hShows.shown⟩

/- Previews may be mixed with events about keys. -/
theorem replay_told
    (hShows : Shows bs [] v)
    (hAnswer : Answer bs)
    {es : List Event}
    (hTold :
      ∀ e ∈ es,
        e.content.Previews bs ∨
          e.content.stateKey?.isSome = true) :
    Shows bs [] (v.replay es) := by
  refine replay_induction hShows ?_
  intro w e hMember hBefore
  rcases hTold e hMember with hPreviews | hState
  · exact (hBefore.preview hAnswer hPreviews).1
  · rcases Option.isSome_iff_exists.mp hState with ⟨key, hKey⟩
    exact hBefore.after_key hKey

/- Events about keys may come behind all others. -/
theorem replay_keys
    (hShows : Shows bs done v)
    {es : List Event}
    (hKeys : ∀ e ∈ es, e.content.stateKey?.isSome = true) :
    Shows bs done (v.replay es) := by
  refine replay_induction hShows ?_
  intro w e hMember hBefore
  rcases Option.isSome_iff_exists.mp (hKeys e hMember) with
    ⟨key, hKey⟩
  exact hBefore.after_key hKey

end View.Shows

------------------------------------------------------------
-- Contents for State Values
------------------------------------------------------------

/-
  What is foretold for state values are previews of prose, which
  is among the blocks in the end, and values of keys.
-/
theorem Splitter.Foretells.told
    {p : Splitter}
    {read : Nat}
    {roomy : Prop}
    {c : Content}
    (hTidy : p.Tidy read)
    (hRoomy : roomy)
    (hForetells : p.Foretells .state roomy c) :
    c.Previews
        (p.close.value.allBlocks.filter
          fun b => b.kind == .text) ∨
      c.stateKey?.isSome = true := by
  cases hForetells with
  | text hPlace hSeen body =>
      rcases recorded_of_announced hTidy (hSeen hRoomy) with
        ⟨b, hMember, hKind, hId, hIndex⟩
      rw [← hId, ← hIndex]
      refine .inl (.text (List.mem_filter.mpr ⟨hMember, ?_⟩) body)
      simp [hKind]
  | fence hTarget hSeen v => cases hTarget
  | key hTarget name v => exact .inr rfl

/- For state values the final events are for prose and keys. -/
theorem Session.closing_state
    (blocks : List Block)
    (values : Members) :
    closing .state blocks values =
      (blocks.filter fun b => b.kind == .text).map
          Block.lastContent ++
        values.map fun m => .stateFinal m.1 m.2 := by
  rw [map_lastContent_of_text]
  rfl

/- The final values of an answer are those at its end. -/
theorem Session.finalMembers_closing
    (blocks : List Block)
    (values : Members) :
    finalMembers (closing .state blocks values) = values := by
  have hEnd :
      finalMembers
        (values.map fun m => .stateFinal m.1 m.2) = values := by
    simp [finalMembers]
  have hProse :
      finalMembers
        ((blocks.filter fun b => b.kind == .text).map
          Block.lastContent) = [] := by
    rw [map_lastContent_of_text]
    simp [finalMembers]
  rw [closing_state, finalMembers_append, hProse, hEnd,
    List.nil_append]

------------------------------------------------------------
-- Replays of Streams for State Values
------------------------------------------------------------

/-
  Events that preview prose and set keys, and then are the final
  ones of an answer, leave the prose of the answer.
-/
theorem Answer.replay_prose
    {blocks : List Block}
    {values : Members}
    {previews : List Content}
    {es : List Event}
    (hAnswer : Answer blocks)
    (hTold :
      ∀ c ∈ previews,
        c.Previews (blocks.filter fun b => b.kind == .text) ∨
          c.stateKey?.isSome = true)
    (hContents :
      es.map Event.content =
        previews ++ Session.closing .state blocks values) :
    (View.empty.replay es).sortedBlocks =
      blocks.filter fun b => b.kind == .text := by
  have hProse :
      Answer (blocks.filter fun b => b.kind == .text) :=
    hAnswer.of_sublist List.filter_sublist
  rw [Session.closing_state] at hContents
  generalize (blocks.filter fun b => b.kind == .text) = prose
    at hTold hContents hProse ⊢
  rcases List.map_eq_append_iff.mp hContents with
    ⟨early, final, rfl, hEarly, hFinal⟩
  rcases List.map_eq_append_iff.mp hFinal with
    ⟨last, keys, rfl, hLast, hKeys⟩
  have hTold :
      ∀ e ∈ early,
        e.content.Previews prose ∨
          e.content.stateKey?.isSome = true := by
    intro e hMember
    apply hTold
    rw [← hEarly]
    exact List.mem_map_of_mem hMember
  have hState :
      ∀ e ∈ keys, e.content.stateKey?.isSome = true := by
    intro e hMember
    have hContent : e.content ∈ keys.map Event.content :=
      List.mem_map_of_mem hMember
    rw [hKeys] at hContent
    rcases List.mem_map.mp hContent with ⟨m, _, hSame⟩
    rw [← hSame]
    rfl
  have hShown :=
    (View.shows_empty prose).replay_told hProse hTold
  rcases hShown.replay_last hProse (fun b hMember => hMember)
      (by rw [List.nil_append]; exact hProse.distinct)
      hLast with ⟨hDone, _⟩
  rw [View.replay_append, View.replay_append]
  exact
    (hDone.replay_keys hState).sortedBlocks_eq hProse
      fun b hMember => hMember

section Replays

variable {σ : Type} {plan : Plan σ} {messageId : String}
  {limits : Limits} {scope : RunScope} {text : String}
  {p : Splitter} {outcome : Outcome} {t : Session σ}
  {read : Nat} {es : List Event}

/- The events of a stream leave the prose of its blocks. -/
theorem Session.Ended.replay_blocks
    (hEnded :
      Ended plan messageId .state limits scope text p outcome t)
    (hTidy : p.Tidy read)
    (hFits : text.utf8ByteSize ≤ limits.text)
    (hAnswer : Answer p.close.value.allBlocks)
    (hContents : es.map Event.content = t.sent) :
    (View.empty.replay es).sortedBlocks =
      p.close.value.allBlocks.filter
        fun b => b.kind == .text := by
  rcases hEnded.sent with ⟨previews, values, hSent, hForetold, _⟩
  have hTold := fun c hMember =>
    (hForetold c hMember).told hTidy hFits
  exact hAnswer.replay_prose hTold (hContents.trans hSent)

/-
  The keys with final values are those of the members that are
  ready, and they have these values.
-/
theorem Session.Ended.replay_keys
    (hEnded :
      Ended plan messageId .state limits scope text p outcome t)
    (hPure : plan.transforms.Pure)
    (hUnseen :
      scope.Unseen
        ((mergeState p.close.value.allBlocks).map Prod.fst))
    (hContents : es.map Event.content = t.sent)
    (memory : σ)
    {key : String}
    (hNamed : key ≠ "") :
    let x := (View.empty.replay es).entry key
    let final :=
      Members.last? key
        (plan.transforms.ready memory
          (mergeState p.close.value.allBlocks))
    x.isFinal = final.isSome ∧
      (x.isFinal = true → x.value = final) := by
  intro x final
  rcases hEnded.sent with
    ⟨previews, values, hSent, hForetold, hReady⟩
  have hFinals : finalMembers t.sent = values := by
    rw [hSent, finalMembers_append,
      finalMembers_of_early fun c hMember =>
        (hForetold c hMember).isFinal,
      finalMembers_closing, List.nil_append]
  have hEntry :
      x = t.sent.foldl (Entry.after key) ⟨false, none⟩ := by
    rw [← hContents]
    exact View.entry_replay _ es hNamed
  have hIsFinal :
      x.isFinal =
        (Members.last? key (finalMembers t.sent)).isSome := by
    rw [hEntry, Entry.isFinal_foldl, Bool.false_or]
  have hValue :
      x.isFinal = true →
        x.value = Members.last? key (finalMembers t.sent) := by
    rw [hEntry]
    intro hFinal
    rw [Entry.value_foldl _ _ hFinal, Option.or_none]
  rw [hFinals, hReady hPure hUnseen memory] at hIsFinal hValue
  exact ⟨hIsFinal, hValue⟩

end Replays

------------------------------------------------------------
-- Live and from History
------------------------------------------------------------

/-
  The final state of an answer of which the blocks were recorded
  holds the last values of the members that are ready.
-/
theorem History.get?_finalState
    {σ : Type}
    {history : History σ}
    (hPure : history.transforms.Pure)
    {m : StoredMessage}
    {blocks : List Block}
    (hRole : m.role = .assistant)
    (hRecorded : m.recordedBlocks = some blocks)
    (hAnswer : Answer blocks)
    (runId : String)
    (memory later : σ)
    (key : String) :
    Table.get? key
        (history.finalState m (.fresh runId) memory).value.state =
      Members.last? key
        (history.transforms.ready later (mergeState blocks)) := by
  rw [History.finalState_of_fresh hPure m runId memory later,
    history.message_of_recorded hRole hRecorded,
    hAnswer.sortByIndex, get?_overlay]
  exact Option.or_none

/-
  The state values of an answer whose text fits its buffer are
  shown live as they are found in history. Whatever the order
  and the repetitions in which the events are delivered, a key
  that has a name is final just if it is in the final state of
  the recorded message, in a scope of its own, and then it has
  the value that it has there. The blocks are the recorded
  prose. The events are held in one array, and no array has as
  many entries as there are places of 64 bits.
-/
theorem live_state_matches_history
    {σ : Type}
    (plan : Plan σ)
    (messageId : String)
    (path : Option String)
    (limits : Limits)
    (runId : String)
    (memory : σ)
    (chunks : List String)
    (outcome : Outcome)
    (last : Session σ)
    (history : History σ)
    (otherRunId : String)
    (otherMemory : σ)
    (listening : Bool)
    (delivered : List Event)
    (hPure : plan.transforms.Pure)
    (hTransforms : history.transforms = plan.transforms)
    (hRun :
      Session.run plan chunks
        (Session.start (.start messageId .state limits path)
          .unbounded (.fresh runId) memory) =
        .ok outcome last)
    (hRoom : (String.join chunks).utf8ByteSize ≤ limits.text)
    (hBlocks :
      ∀ blocks, outcome.message.recordedBlocks = some blocks →
        blocks.length < UInt32.size - 1)
    (hPlaces : last.outlet.accepted.size < lastPlace)
    (hDelivery :
      Delivery last.outlet.accepted.toList delivered) :
    let view :=
      ((Processor.start none listening).processAll
        delivered).1.view
    let final :=
      (history.finalState outcome.message (.fresh otherRunId)
        otherMemory).value.state
    (∀ key, key ≠ "" →
      view.isFinalized key = Table.has key final ∧
        (view.isFinalized key = true →
          Table.get? key view.state = Table.get? key final)) ∧
    ∃ blocks,
      outcome.message.recordedBlocks = some blocks ∧
        view.sortedBlocks =
          blocks.filter fun b => b.kind == .text := by
  intro view final
  rcases Session.ended_of_run hRun with
    ⟨p, read, hTidy, hEnded⟩
  have hRecorded := hEnded.recorded
  have hRole : outcome.message.role = .assistant := by
    rw [hEnded.outcome]
    rfl
  have hAnswer : Answer p.close.value.allBlocks :=
    Splitter.answer_allBlocks hTidy.close.1 (hBlocks _ hRecorded)
  have hLength :
      last.outlet.accepted.toList.length < lastPlace := by
    simpa using hPlaces
  have hNumbered : Numbered last.outlet.accepted.toList := by
    refine hEnded.stamped.numbered ?_
    unfold lastPlace at hLength
    omega
  have hBound :
      ∀ bound, none = some bound →
        last.outlet.accepted.toList.length - 1 ≤ bound :=
    nofun
  have hView :
      view = View.empty.replay last.outlet.accepted.toList := by
    have hDone :=
      (Processor.processAll_of_delivery listening hNumbered
        hLength hBound hDelivery).1
    simp only [view, hDone]
  have hSent :
      last.outlet.accepted.toList.map Event.content =
        last.sent :=
    rfl
  refine ⟨?_, _, hRecorded, ?_⟩
  · intro key hNamed
    have hFinal :
        Table.get? key final =
          Members.last? key
            (plan.transforms.ready memory
              (mergeState p.close.value.allBlocks)) := by
      rw [← hTransforms]
      exact
        History.get?_finalState (hTransforms ▸ hPure) hRole
          hRecorded hAnswer otherRunId otherMemory memory key
    rcases hEnded.replay_keys hPure
        (RunScope.unseen_fresh runId _) hSent memory hNamed with
      ⟨hIsFinal, hValue⟩
    rw [← hView, ← hFinal] at hIsFinal hValue
    exact ⟨hIsFinal, hValue⟩
  · rw [hView]
    exact hEnded.replay_blocks hTidy hRoom hAnswer hSent

/- An answer with two fences, of which the first is cut. -/
def twoFences : List String :=
  [ "See\n\x60\x60\x60json\n\x7b\x22a\x22:1,\x22b\x22:",
    "2\x7d\n\x60\x60\x60\nand\n\x60\x60\x60json\n",
    "\x7b\x22a\x22:3\x7d\n\x60\x60\x60" ]

/- A transform of one key, which is never ready. -/
def unready : KeyTransforms Unit :=
  KeyTransforms.none.withKey "b" fun _ memory =>
    (.error ⟨"too early"⟩, memory)

theorem unready_pure : unready.Pure :=
  KeyTransforms.pure_none.withKey (fun _ _ _ => rfl) "b"

/- A stream of the state values of the answer. -/
def stateStream :
    EStateM.Result StreamError (Session Unit) Outcome :=
  Session.run ⟨unready, none, fun _ => ⟨"", ""⟩⟩ twoFences
    (Session.start (.start "m" .state ⟨64, 64⟩ none)
      .unbounded (.fresh "r") ())

/- A stream that ended has room for its events and blocks. -/
def endedSmall
    (r : EStateM.Result StreamError (Session Unit) Outcome) :
    Bool :=
  match r with
  | .ok outcome last =>
      last.outlet.accepted.size < lastPlace &&
        outcome.message.recordedBlocks.all fun blocks =>
          blocks.length < UInt32.size - 1
  | .error _ _ => false

/- Its events may come backwards, and then once more. -/
theorem stateStream_matches_history :
    unready.Pure ∧
    ∃ outcome last,
      stateStream = .ok outcome last ∧
      ∀ key, key ≠ "" →
        (((Processor.start none true).processAll
            (last.outlet.accepted.toList.reverse ++
              last.outlet.accepted.toList)).1.view.isFinalized
                key =
          Table.has key
            ((⟨none, unready⟩ : History Unit).finalState
              outcome.message (.fresh "q") ()).value.state) := by
  have hEnded : endedSmall stateStream = true := by
    decide +kernel
  refine ⟨unready_pure, ?_⟩
  cases hRun : stateStream with
  | error e last =>
      rw [hRun] at hEnded
      cases hEnded
  | ok outcome last =>
      rw [hRun] at hEnded
      have hBoth := Bool.and_eq_true_iff.mp hEnded
      have hBlocks :
          ∀ blocks,
            outcome.message.recordedBlocks = some blocks →
              blocks.length < UInt32.size - 1 := by
        intro blocks hRecorded
        have hAll := hBoth.2
        rw [hRecorded] at hAll
        exact of_decide_eq_true hAll
      have hDelivery :
          Delivery last.outlet.accepted.toList
            (last.outlet.accepted.toList.reverse ++
              last.outlet.accepted.toList) := by
        constructor
        · intro e hMember
          simpa using hMember
        · intro e hMember
          exact List.mem_append_right _ hMember
      have hParity :=
        live_state_matches_history _ "m" none ⟨64, 64⟩ "r" ()
          twoFences outcome last (⟨none, unready⟩ : History Unit)
          "q" () true _ unready_pure rfl hRun
          (by decide +kernel) hBlocks
          (of_decide_eq_true hBoth.1) hDelivery
      exact
        ⟨outcome, last, rfl,
          fun key hNamed => (hParity.1 key hNamed).1⟩

end AnswerStream
