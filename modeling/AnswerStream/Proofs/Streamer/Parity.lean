import AnswerStream.History.Basic
import AnswerStream.Proofs.Processor.Convergence
import AnswerStream.Proofs.Processor.Shown
import AnswerStream.Proofs.Streamer.Underway

/-
  This file proves that an answer is shown live as it is shown
  from history: whatever the chunks of the answer and the order
  in which its events are delivered, the blocks of the consumer
  are those of the recorded message.

  Main statements:
    * `Splitter.answer_allBlocks`
    * `Session.sent_of_run`
    * `live_matches_history`
-/

namespace AnswerStream

open Json

------------------------------------------------------------
-- The Blocks of an Answer
------------------------------------------------------------

namespace Splitter

variable {p : Splitter} {read : Nat}

theorem slot_isEmpty
    (id : String)
    (kind : BlockKind)
    (i : Nat) :
    (slot id kind i).isEmpty = false := by
  unfold slot
  rw [← Bool.not_eq_true, String.isEmpty_iff]
  intro hEmpty
  have hChars := congrArg String.toList hEmpty
  simp at hChars

/- There is room behind the index of a place before the last. -/
theorem MadeAt.index_ne_greatest
    {id : String}
    {i : Nat}
    {b : Block}
    (hMade : MadeAt id i b)
    (hPlace : i < UInt32.size - 1) :
    b.index ≠ View.greatestIndex := by
  intro hGreatest
  rw [hMade.index_eq] at hGreatest
  have hNat := congrArg UInt32.toNat hGreatest
  rw [UInt32.toNat_ofNat_of_lt' (by omega)] at hNat
  change i = UInt32.size - 1 at hNat
  omega

/- The blocks of a tidy splitter are those of an answer. -/
theorem answer_allBlocks
    (hTidy : Tidy p read)
    (hLength : p.allBlocks.length < UInt32.size - 1) :
    Answer p.allBlocks := by
  rcases hTidy.listed_allBlocks with ⟨index, hListed⟩
  have hMade :
      ∀ i (hI : i < p.allBlocks.length),
        MadeAt p.id i p.allBlocks[i] :=
    fun i hI =>
      hListed.made i _ (List.getElem?_eq_getElem hI)
  have hSome :
      ∀ b ∈ p.allBlocks,
        ∃ i, i < UInt32.size - 1 ∧ MadeAt p.id i b := by
    intro b hMember
    rcases List.mem_iff_getElem.mp hMember with ⟨i, hI, rfl⟩
    exact ⟨i, by omega, hMade i hI⟩
  constructor
  · intro b hMember
    rcases hSome b hMember with ⟨i, _, hAt⟩
    cases hAt with
    | text body => exact .text _ _ body
    | fence data source => exact .fence _ _ data source
  · intro b hMember
    rcases hSome b hMember with ⟨i, _, hAt⟩
    rw [hAt.id_eq]
    exact slot_isEmpty p.id b.kind i
  · intro b hMember
    rcases hSome b hMember with ⟨i, hI, hAt⟩
    exact hAt.index_ne_greatest hI
  · exact hListed.nodup (by omega)
  · rw [List.pairwise_iff_getElem]
    intro i j hI hJ hLess
    rw [(hMade i hI).index_eq, (hMade j hJ).index_eq,
      UInt32.lt_iff_toNat_lt,
      UInt32.toNat_ofNat_of_lt' (by omega),
      UInt32.toNat_ofNat_of_lt' (by omega)]
    exact hLess

/- What was previewed is among the blocks in the end. -/
theorem Previews.of_close
    {c : Content}
    (hTidy : Tidy p read)
    (hPreviews : p.Previews c) :
    c.Previews p.close.value.allBlocks := by
  cases hPreviews with
  | text hSeen body =>
      rcases recorded_of_announced hTidy hSeen with
        ⟨b, hMember, _, hId, hIndex⟩
      rw [← hId, ← hIndex]
      exact .text hMember body
  | fence hSeen v =>
      rcases recorded_of_announced hTidy hSeen with
        ⟨b, hMember, _, hId, hIndex⟩
      rw [← hId, ← hIndex]
      exact .fence hMember v

end Splitter

------------------------------------------------------------
-- The Events of a Stream
------------------------------------------------------------

/- The contents that a finished answer sends last. -/
def lastContents (blocks : List Block) : List Content :=
  ((blocks.filter fun b => b.kind == .text) ++
    blocks.filter fun b => b.kind == .structured).map
      Block.lastContent

namespace Session

variable {σ : Type} {plan : Plan σ} {s t : Session σ}
  {messageId : String} {limits : Limits} {read : Nat}

theorem map_lastContent_of_text (blocks : List Block) :
    (blocks.filter fun b => b.kind == .text).map
        Block.lastContent =
      (blocks.filter fun b => b.kind == .text).map fun b =>
        .text b.id b.index b.textOrEmpty true := by
  apply List.map_congr_left
  intro b hMember
  have hKind := (List.mem_filter.mp hMember).2
  unfold Block.lastContent
  rw [beq_iff_eq.mp hKind]

theorem map_lastContent_of_structured (blocks : List Block) :
    (blocks.filter fun b => b.kind == .structured).map
        Block.lastContent =
      (blocks.filter fun b => b.kind == .structured).map fun b =>
        .structured b.id b.index b.data b.sourceText true := by
  apply List.map_congr_left
  intro b hMember
  have hKind := (List.mem_filter.mp hMember).2
  unfold Block.lastContent
  rw [beq_iff_eq.mp hKind]

/-
  The end of an answer sends the last contents of its blocks,
  and records them with the message.
-/
theorem ok_of_finish
    {outcome : Outcome}
    (hUnder : Underway messageId limits read s)
    (hOk : finish plan s = .ok outcome t) :
    let blocks := s.streamer.splitter.close.value.allBlocks
    outcome.message.id = messageId ∧
      outcome.message.role = .assistant ∧
      outcome.message.recordedBlocks = some blocks ∧
      t.sent = s.sent ++ lastContents blocks ∧
      t.Stamped := by
  intro blocks
  have hOk := ok_of_get hOk
  rcases ok_of_bind hOk with ⟨_, _, hHear, hOk⟩
  cases hHear
  rcases ok_of_bind hOk with ⟨_, _, hClose, hOk⟩
  cases hClose
  rcases ok_of_bind hOk with ⟨_, told, hTexts, hOk⟩
  have hOk := ok_of_get hOk
  have hSendTexts := emitFinalTexts_sends hTexts
  have hTarget : told.streamer.target = .messages :=
    hSendTexts.target.trans hUnder.target
  rw [hTarget] at hOk
  rcases ok_of_bind hOk with ⟨_, shown, hFences, hOk⟩
  have hSends :=
    hSendTexts.trans (emitFinalFences_sends hFences)
  have hOk := ok_of_get hOk
  rcases ok_of_bind hOk with ⟨_, _, hHear, hOk⟩
  rcases ok_of_hear hHear with ⟨_, hHeard, hHeardOut⟩
  rcases ok_of_bind hOk with ⟨_, _, hSay, hOk⟩
  rcases ok_of_say hSay with ⟨hSaid, hSaidOut⟩
  cases hOk
  have hStreamer : t.streamer = shown.streamer :=
    hSaid.trans hHeard
  have hOutlet : t.outlet = shown.outlet :=
    hSaidOut.trans hHeardOut
  refine ⟨?_, rfl, rfl, ?_, ?_⟩
  · exact hSends.messageId.trans hUnder.messageId
  · unfold lastContents
    rw [List.map_append, map_lastContent_of_text,
      map_lastContent_of_structured]
    unfold sent
    rw [hOutlet]
    exact hSends.sent
  · apply Stamped.of_same _ (congrArg _ hStreamer) hOutlet
    apply hSends.stamped
    exact hUnder.stamped.of_same rfl rfl

/-
  What a stream that ends well has sent: previews of the
  recorded blocks, at most one for each byte and each block,
  and then their last contents.
-/
theorem sent_of_run
    {path : Option String}
    {scope : RunScope}
    {memory : σ}
    {room : Option Nat}
    {chunks : List String}
    {outcome : Outcome}
    (hFits : (String.join chunks).utf8ByteSize ≤ limits.text)
    (hOk :
      run plan chunks
        (start (.start messageId .messages limits path)
          (.ofRoom room) scope memory) = .ok outcome t) :
    ∃ blocks previews,
      outcome.message.id = messageId ∧
      outcome.message.role = .assistant ∧
      outcome.message.recordedBlocks = some blocks ∧
      (blocks.length < UInt32.size - 1 → Answer blocks) ∧
      t.sent = previews ++ lastContents blocks ∧
      (∀ c ∈ previews, c.Previews blocks) ∧
      previews.length ≤
        (String.join chunks).utf8ByteSize + blocks.length ∧
      t.Stamped := by
  have hOk := ok_of_get hOk
  rcases ok_of_bind hOk with ⟨_, _, hSay, hOk⟩
  rcases ok_of_bind hOk with ⟨_, pushed, hPushes, hFinish⟩
  have hPushes := ok_of_tryCatch hPushes
  have hStart :=
    (Underway.of_start messageId limits path scope memory
      room).of_same (ok_of_say hSay).1 (ok_of_say hSay).2
  have hUnder :=
    hStart.pushAll (by rw [Nat.zero_add]; exact hFits) hPushes
  rw [Nat.zero_add] at hUnder
  rcases ok_of_finish hUnder hFinish with
    ⟨hId, hRole, hRecorded, hSent, hStamped⟩
  rcases hUnder.tidy.close with ⟨hTidy, hGrows, _⟩
  refine
    ⟨_, pushed.sent, hId, hRole, hRecorded,
      Splitter.answer_allBlocks hTidy, hSent, ?_, ?_, hStamped⟩
  · intro c hMember
    exact (hUnder.previews c hMember).of_close hUnder.tidy
  · have hCount := hUnder.count
    have hLooked := hUnder.settled.looked
    have hMore := hGrows.blocks.length_le
    have hAll :=
      (Splitter.blocks_prefix_allBlocks
        pushed.streamer.splitter.close.value).length_le
    omega

/- Stamped events are numbered as long as places do not recur. -/
theorem Stamped.numbered
    (hStamped : s.Stamped)
    (hLength : s.outlet.accepted.toList.length < UInt64.size) :
    Numbered s.outlet.accepted.toList := by
  unfold Numbered
  have hPlaces :
      s.outlet.accepted.toList.map (fun e => e.seq.toNat) =
        (s.outlet.accepted.toList.map Event.seq).map
          UInt64.toNat := by
    rw [List.map_map]
    rfl
  rw [Array.length_toList] at hLength ⊢
  rw [hPlaces, hStamped.places, List.map_map]
  have hSame :
      ∀ place ∈ List.range' 1 s.outlet.accepted.size,
        (UInt64.toNat ∘ UInt64.ofNat) place = id place := by
    intro place hMember
    have hBounds := List.mem_range'_1.mp hMember
    exact UInt64.toNat_ofNat_of_lt' (by omega)
  rw [List.map_congr_left hSame, List.map_id]

end Session

------------------------------------------------------------
-- The Last Contents of an Answer
------------------------------------------------------------

/- The last contents of an answer are those of all its blocks. -/
theorem Answer.perm
    {blocks : List Block}
    (hAnswer : Answer blocks) :
    ((blocks.filter fun b => b.kind == .text) ++
      blocks.filter fun b => b.kind == .structured).Perm
        blocks := by
  have hOther :
      (blocks.filter fun b => b.kind == .structured) =
        blocks.filter fun b => !(b.kind == .text) := by
    apply List.filter_congr
    intro b hMember
    cases hAnswer.plain b hMember with
    | text id index body => rfl
    | fence id index data source => rfl
  rw [hOther]
  exact List.filter_append_perm _ _

/-
  Events that preview an answer and then send its last contents
  can all be applied, and leave the blocks of the answer.
-/
theorem Answer.replay
    {blocks : List Block}
    {es : List Event}
    {previews : List Content}
    (hAnswer : Answer blocks)
    (hPreviews : ∀ c ∈ previews, c.Previews blocks)
    (hContents :
      es.map Event.content = previews ++ lastContents blocks) :
    (View.empty.replay es).sortedBlocks = blocks ∧
      View.empty.failures es = [] := by
  rcases List.map_eq_append_iff.mp hContents with
    ⟨fs, gs, rfl, hFirst, hLast⟩
  have hPerm := hAnswer.perm
  have hEarly :
      ∀ e ∈ fs, e.content.Previews blocks := by
    intro e hMember
    apply hPreviews
    rw [← hFirst]
    exact List.mem_map_of_mem hMember
  rcases (View.shows_empty blocks).replay_previews hAnswer
      hEarly with ⟨hShown, hNone⟩
  have hDistinct := (hPerm.map Block.id).nodup_iff.mpr
    hAnswer.distinct
  rcases hShown.replay_last hAnswer
      (fun b hMember => hPerm.mem_iff.mp hMember)
      (by rw [List.nil_append]; exact hDistinct) hLast with
    ⟨hAll, hNoneLast⟩
  constructor
  · rw [View.replay_append]
    apply hAll.sortedBlocks_eq hAnswer
    intro b hMember
    rw [List.nil_append]
    exact hPerm.mem_iff.mpr hMember
  · rw [View.failures_append, hNone, hNoneLast]
    rfl

/- Recorded blocks are in order as they are. -/
theorem Answer.sortByIndex
    {blocks : List Block}
    (hAnswer : Answer blocks) :
    Block.sortByIndex blocks = blocks := by
  apply List.mergeSort_of_pairwise
  refine hAnswer.ordered.imp ?_
  intro a b hLess
  exact decide_eq_true (UInt32.le_of_lt hLess)

------------------------------------------------------------
-- Live and from History
------------------------------------------------------------

/- A message of the assistant with blocks is shown as recorded. -/
theorem History.message_of_recorded
    {τ : Type}
    (history : History τ)
    {m : StoredMessage}
    {blocks : List Block}
    (hRole : m.role = .assistant)
    (hRecorded : m.recordedBlocks = some blocks) :
    (history.message m).value =
      ⟨m.id, .assistant, Block.sortByIndex blocks⟩ := by
  unfold History.message History.blocks
  rw [hRole, hRecorded]
  rfl

/-
  An answer whose text fits its buffer is shown live as it is
  shown from history. Its events have the places from one on,
  and whatever the order and the repetitions in which they are
  delivered, the processor applies each of them, waits for the
  place behind them, and shows the recorded message, of which
  no block is partial. The stream holds the whole text as one
  string, and every string has less than `2 ^ 63` bytes.
-/
theorem live_matches_history
    {σ τ : Type}
    (plan : Plan σ)
    (messageId : String)
    (path : Option String)
    (limits : Limits)
    (scope : RunScope)
    (memory : σ)
    (room : Option Nat)
    (chunks : List String)
    (outcome : Outcome)
    (last : Session σ)
    (history : History τ)
    (maxPending : Option Nat)
    (listening : Bool)
    (delivered : List Event)
    (hRun :
      Session.run plan chunks
        (Session.start
          (.start messageId .messages limits path)
          (.ofRoom room) scope memory) = .ok outcome last)
    (hRoom : (String.join chunks).utf8ByteSize ≤ limits.text)
    (hSize : (String.join chunks).utf8ByteSize < UInt64.size / 2)
    (hBlocks :
      ∀ blocks, outcome.message.recordedBlocks = some blocks →
        blocks.length < UInt32.size - 1)
    (hDelivery :
      Delivery last.outlet.accepted.toList delivered)
    (hBound :
      ∀ bound, maxPending = some bound →
        last.outlet.accepted.size - 1 ≤ bound) :
    let done :=
      (Processor.start maxPending listening).processAll delivered
    Numbered last.outlet.accepted.toList ∧
      done.1.pending = [] ∧
      done.1.expected.toNat = last.outlet.accepted.size + 1 ∧
      (∀ e cause, Call.error e cause ∉ done.2.calls) ∧
      (∀ b ∈ (done.1.message messageId).blocks,
        b.isPartial = none) ∧
      done.1.message messageId =
        (history.message outcome.message).value := by
  intro done
  rcases Session.sent_of_run hRoom hRun with
    ⟨blocks, previews, hId, hRole, hRecorded, hAnswer, hSent,
      hPreviews, hCount, hStamped⟩
  have hFew := hBlocks blocks hRecorded
  have hAnswer := hAnswer hFew
  have hLast : (lastContents blocks).length = blocks.length := by
    unfold lastContents
    rw [List.length_map]
    exact hAnswer.perm.length_eq
  have hLength : last.outlet.accepted.toList.length < lastPlace := by
    have hAll := congrArg List.length hSent
    unfold Session.sent at hAll
    rw [List.length_map, List.length_append, hLast] at hAll
    unfold lastPlace UInt64.size
    unfold UInt64.size at hSize
    unfold UInt32.size at hFew
    omega
  have hNumbered :=
    hStamped.numbered (by unfold lastPlace at hLength; omega)
  have hJournal :=
    Processor.journal_of_delivery listening hNumbered hLength
      hBound hDelivery
  rcases Processor.processAll_of_delivery listening hNumbered
      hLength hBound hDelivery with ⟨hDone, hTally⟩
  rcases hAnswer.replay hPreviews hSent with ⟨hShown, hNone⟩
  have hBlocksShown :
      (done.1.message messageId).blocks = blocks := by
    unfold Processor.message
    rw [hDone]
    exact hShown
  refine
    ⟨hNumbered, hJournal.2.2.2, hJournal.2.2.1, ?_, ?_, ?_⟩
  · intro e cause hCall
    have hFailures :
        done.2.calls.filterMap Call.failure? = [] := by
      have hHeard := congrArg Tally.failures hTally
      rw [hNone] at hHeard
      refine hHeard.trans ?_
      unfold Processor.heard
      split <;> rfl
    have hNot :=
      List.filterMap_eq_nil_iff.mp hFailures _ hCall
    cases hNot
  · intro b hMember
    rw [hBlocksShown] at hMember
    exact (hAnswer.plain b hMember).isPartial
  · rw [history.message_of_recorded hRole hRecorded, hId,
      hAnswer.sortByIndex, ← hBlocksShown]
    rfl

/- An answer in two chunks, with a fence that the first cuts. -/
def cutAnswer : List String :=
  ["See\n\x60\x60\x60json\n[1", "]\n\x60\x60\x60\nbelow"]

/- A stream of the answer, with the same mark for all events. -/
def cutStream : EStateM.Result StreamError (Session Unit) Outcome :=
  Session.run ⟨.none, none, fun _ => ⟨"", ""⟩⟩ cutAnswer
    (Session.start (.start "m" .messages ⟨64, 8⟩ none)
      (.ofRoom none) (.fresh "r") ())

/- A stream that ended has sent events and recorded blocks. -/
def endedWell
    (r : EStateM.Result StreamError (Session Unit) Outcome) :
    Bool :=
  match r with
  | .ok outcome last =>
      0 < last.outlet.accepted.size &&
        outcome.message.recordedBlocks.all fun blocks =>
          blocks.length < UInt32.size - 1
  | .error _ _ => false

/- It has few blocks, then, and some events. -/
theorem bounds_of_endedWell
    {outcome : Outcome}
    {last : Session Unit}
    (hEnded : endedWell (.ok outcome last) = true) :
    0 < last.outlet.accepted.size ∧
      ∀ blocks, outcome.message.recordedBlocks = some blocks →
        blocks.length < UInt32.size - 1 := by
  rcases Bool.and_eq_true_iff.mp hEnded with ⟨hSent, hFew⟩
  refine ⟨of_decide_eq_true hSent, ?_⟩
  intro blocks hRecorded
  rw [hRecorded] at hFew
  exact of_decide_eq_true hFew

/- Its events may come backwards, and then once more. -/
theorem cutStream_matches_history :
    ∃ outcome last,
      cutStream = .ok outcome last ∧
      0 < last.outlet.accepted.size ∧
      ((Processor.start none true).processAll
          (last.outlet.accepted.toList.reverse ++
            last.outlet.accepted.toList)).1.message "m" =
        ((⟨none, .none⟩ : History Unit).message
          outcome.message).value := by
  have hEnded : endedWell cutStream = true := by
    decide +kernel
  cases hRun : cutStream with
  | error e last =>
      rw [hRun] at hEnded
      cases hEnded
  | ok outcome last =>
      rw [hRun] at hEnded
      have hBoth := (Bool.and_eq_true_iff).mp hEnded
      have hBlocks :
          ∀ blocks,
            outcome.message.recordedBlocks = some blocks →
              blocks.length < UInt32.size - 1 := by
        intro blocks hRecorded
        have hAll := hBoth.2
        rw [hRecorded] at hAll
        exact of_decide_eq_true hAll
      have hDelivery :
          Delivery last.outlet.accepted.toList
            (last.outlet.accepted.toList.reverse ++
              last.outlet.accepted.toList) := by
        constructor
        · intro e hMember
          rcases List.mem_append.mp hMember with hBack | hAgain
          · exact List.mem_reverse.mp hBack
          · exact hAgain
        · intro e hMember
          exact List.mem_append_right _ hMember
      have hParity :=
        live_matches_history _ "m" none ⟨64, 8⟩ (.fresh "r") ()
          none cutAnswer outcome last
          (⟨none, .none⟩ : History Unit) none true _ hRun
          (by decide +kernel) (by decide +kernel) hBlocks
          hDelivery (by intro bound hNone; cases hNone)
      exact
        ⟨outcome, last, rfl, of_decide_eq_true hBoth.1,
          hParity.2.2.2.2.2⟩

end AnswerStream
