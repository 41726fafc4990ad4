import AnswerStream.Proofs.Splitter.Uses
import AnswerStream.Proofs.Streamer.Remembering
import AnswerStream.Proofs.Wire.Messages

/-
  This file proves what is left of the message of a stream that
  is stored and read again. Its blocks come from a splitter, so
  that the value of a block is the best one of its source; if
  this is a null, then the stored block has none, and nothing
  else is lost.

  Key definitions include:
    * `Session.Shaping`

  Main statements:
    * `Session.Shaping.finish`
    * `Session.recorded_of_run`
    * `stored_message_loses_only_nulls`
-/

namespace AnswerStream

open Json

------------------------------------------------------------
-- Nulls in Finished Blocks
------------------------------------------------------------

namespace Splitter

/- Only the value of a finished block can be a null. -/
theorem Finished.withoutNull_eq_self_iff
    {b : Block}
    (hFinished : Finished b) :
    b.withoutNull = b ↔ b.data ≠ some .null := by
  have hOutput : b.output = none := by
    cases hFinished <;> rfl
  rw [Block.withoutNull_eq_self_iff, hOutput]
  simp

/- A null is the value of a fence, and the best one of its source. -/
theorem Finished.of_null
    {b : Block}
    (hFinished : Finished b)
    (hNull : b.data = some .null) :
    b.kind = .structured ∧
      ∃ source, b.sourceText = some source ∧
        Json.partialValue? source = some .null := by
  cases hFinished with
  | text id index hTrimmed hSome => cases hNull
  | @fence id index source hTrimmed hSome =>
      simp only [Block.ofStructured] at hNull
      exact ⟨rfl, source, rfl, hNull⟩

/- All blocks of a formed splitter are finished. -/
theorem Formed.finished_allBlocks
    {id : String}
    {p : Splitter}
    (hFormed : Formed id p) :
    ∀ b ∈ p.allBlocks, Finished b := by
  intro b hMember
  rcases p.allBlocks_cases with
    hSame | ⟨body, hTrimmed, hSome, hMore⟩
  · rw [hSame] at hMember
    exact hFormed.finished b hMember
  · rw [hMore] at hMember
    rcases List.mem_append.mp hMember with hOld | hNew
    · exact hFormed.finished b hOld
    · rw [List.mem_singleton.mp hNew]
      exact .text _ _ hTrimmed hSome

end Splitter

------------------------------------------------------------
-- Recorded Blocks
------------------------------------------------------------

namespace Session

variable {σ : Type} {plan : Plan σ} {s t : Session σ}

/- A session of a message, whose splitter is formed. -/
structure Shaping
    (messageId : String)
    (s : Session σ) : Prop where
  formed : s.streamer.splitter.Formed messageId
  messageId : s.streamer.messageId = messageId

namespace Shaping

variable {messageId : String}

theorem of_start
    (messageId : String)
    (target : Target)
    (limits : Limits)
    (path : Option String)
    (o : Outlet)
    (scope : RunScope)
    (memory : σ) :
    Shaping messageId
      (start (.start messageId target limits path) o scope
        memory) :=
  ⟨Splitter.formed_start messageId limits, rfl⟩

/- It goes on beside the splitter. -/
theorem leads
    (hShaping : Shaping messageId s)
    (hLeads : Leads s t) :
    Shaping messageId t where
  formed := hLeads.splitter ▸ hShaping.formed
  messageId := hLeads.messageId.trans hShaping.messageId

theorem push
    {chunk : String}
    (hShaping : Shaping messageId s)
    (hOk : Session.push plan chunk s = .ok () t) :
    Shaping messageId t := by
  rw [push_eq] at hOk
  rcases ok_of_bind hOk with ⟨_, r, hTake, hLook⟩
  rcases ok_of_take hTake with ⟨q, hAppend, hStreamer, _⟩
  have hNext :=
    Splitter.formed_use hShaping.formed (.append chunk)
  have hTaken : Shaping messageId r := by
    refine ⟨?_, ?_⟩
    · rw [hStreamer]
      change
        (s.streamer.splitter.append
          chunk).value.splitter.Formed messageId at hNext
      rw [hAppend] at hNext
      exact hNext
    · rw [hStreamer]
      exact hShaping.messageId
  exact hTaken.leads (spares_look plan r () t hLook)

theorem pushAll
    {chunks : List String}
    (hShaping : Shaping messageId s)
    (hOk : Session.pushAll plan chunks s = .ok () t) :
    Shaping messageId t :=
  pushAll_induction (fun _ _ _ hHere hPush => hHere.push hPush)
    hShaping hOk

/- The end records the blocks of the closed splitter. -/
theorem finish
    {outcome : Outcome}
    (hShaping : Shaping messageId s)
    (hOk : Session.finish plan s = .ok outcome t) :
    outcome.message.id = messageId ∧
      outcome.message.role = .assistant ∧
      outcome.message.recordedBlocks =
        some s.streamer.splitter.close.value.allBlocks := by
  rcases parts_of_finish hOk with
    ⟨told, shown, notes, hTexts, hFinals, rfl, rfl⟩
  have hProse := spares_emitFinalTexts plan _ _ _ told hTexts
  have hTold : told.streamer.messageId = messageId :=
    hProse.messageId.trans hShaping.messageId
  have hShown :
      shown.streamer.messageId = told.streamer.messageId := by
    have hOk := ok_of_get hFinals
    cases hTarget : told.streamer.target with
    | state =>
        rw [hTarget] at hOk
        rcases ok_of_emitFinalMembers hOk with ⟨_, hMakes⟩
        exact hMakes.messageId
    | messages =>
        rw [hTarget] at hOk
        exact (emitFinalFences_sends hOk).messageId
  exact ⟨hShown.trans hTold, rfl, rfl⟩

end Shaping

/- A stream that ends well records the blocks of a splitter. -/
theorem recorded_of_run
    {messageId : String}
    {target : Target}
    {limits : Limits}
    {path : Option String}
    {room : Option Nat}
    {scope : RunScope}
    {memory : σ}
    {chunks : List String}
    {outcome : Outcome}
    (hOk :
      run plan chunks
        (start (.start messageId target limits path)
          (.ofRoom room) scope memory) = .ok outcome t) :
    ∃ p : Splitter,
      p.Formed messageId ∧
        outcome.message.id = messageId ∧
        outcome.message.role = .assistant ∧
        outcome.message.recordedBlocks = some p.allBlocks := by
  rcases parts_of_run hOk with
    ⟨notes, pushed, hPushes, hFinish⟩
  have hStart :=
    (Shaping.of_start messageId target limits path
      (.ofRoom room) scope memory).leads (leads_notes _ notes)
  have hPushed := hStart.pushAll hPushes
  exact
    ⟨_, Splitter.formed_use hPushed.formed .close,
      hPushed.finish hFinish⟩

end Session

------------------------------------------------------------
-- Stored Messages
------------------------------------------------------------

/-
  The message of a stream that ends well is stored with all that
  it has but the nulls. It is read back as it is just if no
  fence has the value null, which is then the best value of its
  source; and what is shown of the copy from history is what is
  shown of the message, without the nulls.
-/
theorem stored_message_loses_only_nulls
    {σ : Type}
    (plan : Plan σ)
    (messageId : String)
    (target : Target)
    (limits : Limits)
    (path : Option String)
    (room : Option Nat)
    (scope : RunScope)
    (memory : σ)
    (chunks : List String)
    (outcome : Outcome)
    (last : Session σ)
    (hRun :
      Session.run plan chunks
        (Session.start (.start messageId target limits path)
          (.ofRoom room) scope memory) = .ok outcome last) :
    ∃ blocks,
      outcome.message.recordedBlocks = some blocks ∧
      StoredMessage.ofValue? outcome.message.toValue =
        some outcome.message.withoutNull ∧
      (StoredMessage.ofValue? outcome.message.toValue =
          some outcome.message ↔
        ∀ b ∈ blocks, b.data ≠ some .null) ∧
      (∀ b ∈ blocks, b.data = some .null →
        b.kind = .structured ∧
          ∃ source, b.sourceText = some source ∧
            Json.partialValue? source = some .null) ∧
      ∀ (τ : Type) (history : History τ),
        (history.message outcome.message).value =
            ⟨messageId, .assistant, Block.sortByIndex blocks⟩ ∧
          (history.message outcome.message.withoutNull).value =
            ⟨messageId, .assistant,
              (Block.sortByIndex blocks).map
                Block.withoutNull⟩ := by
  rcases Session.recorded_of_run hRun with
    ⟨p, hFormed, hId, hRole, hRecorded⟩
  have hFinished := hFormed.finished_allBlocks
  have hStored := StoredMessage.reads_toValue outcome.message
  have hRoleToo : outcome.message.withoutNull.role = .assistant :=
    hRole
  have hCopied :
      outcome.message.withoutNull.recordedBlocks =
        some (p.allBlocks.map Block.withoutNull) := by
    rw [StoredMessage.recordedBlocks_withoutNull, hRecorded,
      Option.map_some]
  refine
    ⟨p.allBlocks, hRecorded, hStored, ?_,
      fun b hMember => (hFinished b hMember).of_null, ?_⟩
  · rw [hStored, Option.some.injEq,
      StoredMessage.withoutNull_eq_self_iff hRecorded]
    refine forall₂_congr fun b hMember => ?_
    exact (hFinished b hMember).withoutNull_eq_self_iff
  · intro τ history
    rw [history.message_of_recorded hRole hRecorded,
      history.message_of_recorded hRoleToo hCopied,
      Block.sortByIndex_withoutNull, ← hId]
    exact ⟨rfl, rfl⟩

/- A stream of prose and a fence whose value is a null. -/
def nullStream :
    EStateM.Result StreamError (Session Unit) Outcome :=
  Session.run ⟨.none, none, fun _ => ⟨"", ""⟩⟩
    ["See\n\x60\x60\x60json\nnu", "ll\n\x60\x60\x60"]
    (Session.start (.start "m" .messages ⟨64, 64⟩ none)
      (.ofRoom none) (.fresh "r") ())

/- Its blocks. -/
def nullBlocks : List Block :=
  [ .ofText "m:text:0" 0 "See",
    .ofStructured "m:structured:1" 1 (some .null)
      (some "null") ]

/- What a stream recorded, and what is read back of that. -/
def recordedAndRead :
    EStateM.Result StreamError (Session Unit) Outcome →
      Option (List Block) × Option (List Block)
  | .ok outcome _ =>
      ( outcome.message.recordedBlocks,
        (StoredMessage.ofValue? outcome.message.toValue).bind
          StoredMessage.recordedBlocks )
  | .error _ _ => (none, none)

/- The fence is recorded with its value, and read back without. -/
theorem null_is_not_stored :
    recordedAndRead nullStream =
      ( some nullBlocks,
        some
          [ .ofText "m:text:0" 0 "See",
            .ofStructured "m:structured:1" 1 none
              (some "null") ] ) := by
  decide +kernel

/- So history shows the fence of the copy without a value. -/
theorem nullStream_loses_only_null :
    ∃ outcome last,
      nullStream = .ok outcome last ∧
      StoredMessage.ofValue? outcome.message.toValue ≠
        some outcome.message ∧
      ((⟨none, .none⟩ : History Unit).message
          outcome.message.withoutNull).value =
        ⟨"m", .assistant,
          [ .ofText "m:text:0" 0 "See",
            .ofStructured "m:structured:1" 1 none
              (some "null") ]⟩ := by
  have hBlocks :
      (recordedAndRead nullStream).1 = some nullBlocks := by
    decide +kernel
  have hOrder : Block.sortByIndex nullBlocks = nullBlocks :=
    List.mergeSort_of_pairwise (by decide)
  cases hRun : nullStream with
  | error e last =>
      rw [hRun] at hBlocks
      cases hBlocks
  | ok outcome last =>
      rw [hRun] at hBlocks
      change outcome.message.recordedBlocks = _ at hBlocks
      rcases stored_message_loses_only_nulls _ "m" .messages
          ⟨64, 64⟩ none none (.fresh "r") () _ outcome last hRun
        with ⟨blocks, hRecorded, _, hIff, _, hShown⟩
      rw [hBlocks] at hRecorded
      cases hRecorded
      refine ⟨outcome, last, rfl, ?_, ?_⟩
      · intro hSame
        have hFence :
            Block.ofStructured "m:structured:1" 1 (some .null)
              (some "null") ∈ nullBlocks := by
          decide
        exact hIff.mp hSame _ hFence rfl
      · rw [(hShown Unit _).2, hOrder]
        rfl

end AnswerStream
