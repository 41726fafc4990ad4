import AnswerStream.Proofs.Splitter.Growth
import AnswerStream.Proofs.Streamer.Sending

/-
  This file proves what holds of a session between chunks: all
  that was sent previews blocks that its splitter announces, and
  there are no more previews than bytes and finished blocks.

  Key definitions include:
    * `Splitter.Previews`
    * `Session.Settled`
    * `Session.Underway`

  Main statements:
    * `Session.Underway.push`
    * `Session.Underway.pushAll`
-/

namespace AnswerStream

open Json

------------------------------------------------------------
-- Previews of Announced Blocks
------------------------------------------------------------

/- A content previews a block that a splitter announces. -/
inductive Splitter.Previews (p : Splitter) : Content → Prop where
| text
    {i : Nat}
    (hSeen : p.Announced .text i)
    (body : String) :
    Previews p
      (.text (slot p.id .text i) (UInt32.ofNat i) body false)
| fence
    {i : Nat}
    (hSeen : p.Announced .structured i)
    (v : Value) :
    Previews p
      (.structured (slot p.id .structured i) (UInt32.ofNat i)
        (some v) none false)

/- What was a preview is one of the splitter as it grows. -/
theorem Splitter.Grows.previews
    {p q : Splitter}
    {c : Content}
    (hGrows : p.Grows q)
    (hPreviews : p.Previews c) :
    q.Previews c := by
  cases hPreviews with
  | text hSeen body =>
      rw [← hGrows.id]
      exact .text (hGrows.announced _ _ hSeen) body
  | fence hSeen v =>
      rw [← hGrows.id]
      exact .fence (hGrows.announced _ _ hSeen) v

namespace Session

variable {σ : Type} {plan : Plan σ} {s t : Session σ}

/- The blocks of prose that are looked at are announced. -/
theorem previews_textPreviews
    {s : Streamer}
    {read : Nat}
    (hTidy : s.splitter.Tidy read)
    {b : Block}
    (hMember : b ∈ textPreviews s) :
    s.splitter.Previews (textPreview b) := by
  have hFinished :
      ∀ b ∈ (s.splitter.blocks.drop s.announced).filter
          fun b => b.kind == .text,
        s.splitter.Previews (textPreview b) := by
    intro b hMember
    rcases List.mem_filter.mp hMember with ⟨hDrop, hKind⟩
    have hBlock := List.mem_of_mem_drop hDrop
    rcases List.mem_iff_getElem?.mp hBlock with ⟨i, hAt⟩
    have hSeen : s.splitter.Announced b.kind i := .block hAt
    cases hTidy.listed.made i b hAt with
    | text body => exact .text hSeen body
    | fence data source => cases hKind
  unfold textPreviews at hMember
  dsimp only at hMember
  split at hMember
  · exact hFinished b hMember
  · next hText =>
    rcases List.mem_append.mp hMember with hOld | hNew
    · exact hFinished b hOld
    · rw [List.mem_singleton.mp hNew]
      unfold textPreview Block.ofText Block.bare
      dsimp only
      rw [hTidy.listed.pendingTextId_eq, hTidy.listed.index]
      exact .text (.prose (Bool.eq_false_iff.mpr hText)) _

/- A look is at blocks finished since the last one, and prose. -/
theorem length_textPreviews (s : Streamer) :
    (textPreviews s).length ≤
      s.splitter.blocks.length - s.announced +
        if (Text.trim s.splitter.text).isEmpty then 0 else 1 := by
  have hFinished :
      ((s.splitter.blocks.drop s.announced).filter
        fun b => b.kind == .text).length ≤
          s.splitter.blocks.length - s.announced := by
    rw [← List.length_drop]
    exact List.length_filter_le _ _
  unfold textPreviews
  dsimp only
  split
  · exact hFinished
  · rw [List.length_append, List.length_singleton]
    exact Nat.add_le_add_right hFinished 1

------------------------------------------------------------
-- Parts of a Chunk
------------------------------------------------------------

/- A chunk is taken in by the splitter. -/
theorem ok_of_take
    {chunk : String}
    (hOk : take chunk s = .ok () t) :
    ∃ q, (s.streamer.splitter.append chunk).value = .ok q ∧
      t.streamer =
        { s.streamer with
          rawText := s.streamer.rawText ++ chunk
          splitter := q } ∧
      t.outlet = s.outlet := by
  rcases ok_of_bind hOk with ⟨_, _, hText, hOk⟩
  cases hText
  have hOk := ok_of_get hOk
  rcases ok_of_bind hOk with ⟨result, _, hHear, hOk⟩
  cases hHear
  rcases ok_of_bind hOk with ⟨_, _, hSplit, hOk⟩
  cases hSplit
  dsimp only at hOk
  rcases hResult : (s.streamer.splitter.append chunk).value with
    ⟨q, failure⟩
  rw [hResult] at hOk
  cases failure with
  | none =>
      cases hOk
      exact ⟨q, rfl, rfl, rfl⟩
  | some cause => cases hOk

/- The session behind a look at its blocks. -/
def looked (s : Session σ) : Session σ :=
  { s with
    streamer :=
      { s.streamer with
        announced := s.streamer.splitter.blocks.length } }

/- The changed prose goes out behind a look at the blocks. -/
theorem emitTextUpdates_sends
    (hOk : emitTextUpdates plan s = .ok () t) :
    (∃ cs, Sends s.looked t cs ∧
        cs.Sublist
          ((textPreviews s.streamer).map textPreview)) ∧
      (∀ b, (textPreviews s.streamer).getLast? = some b →
        t.Remembers b) ∧
      ((∀ b ∈ textPreviews s.streamer, s.Remembers b) →
        t = s.looked) := by
  have hOk := ok_of_get hOk
  rcases ok_of_bind hOk with ⟨_, _, hLook, hOk⟩
  cases hLook
  exact emitTexts_sends hOk

/- The value of the open fence is remembered as it is. -/
def RemembersFence (s : Session σ) : Prop :=
  ∀ v, s.streamer.splitter.partialValue? = some v →
    Table.get? s.streamer.splitter.pendingStructuredId
      s.streamer.sentBlocks = some v.fingerprint

/- The last part of a chunk: the open fence. -/
def emitFence (plan : Plan σ) : Step σ Unit := do
  let s := (← get).streamer
  match s.splitter.partialValue? with
  | none => pure ()
  | some v =>
      match s.target with
      | .state => emitStatePartial plan v
      | .messages => emitStructuredPartial plan v

theorem push_eq
    (plan : Plan σ)
    (chunk : String) :
    push plan chunk =
      (take chunk >>= fun _ =>
        emitTextUpdates plan >>= fun _ => emitFence plan) :=
  rfl

/- A value of the open fence announces its block. -/
theorem announced_of_partialValue?
    {p : Splitter}
    {v : Value}
    (hValue : p.partialValue? = some v) :
    p.inJson = true ∧
      p.Announced .structured p.blocks.length := by
  unfold Splitter.partialValue? at hValue
  split at hValue
  · next hIn =>
    exact
      ⟨hIn, .fence hIn (trim_isEmpty_of_partialValue? hValue)⟩
  · cases hValue

/-
  The open fence has a preview sent, unless there is none to
  read or it is remembered as it is.
-/
theorem emitFence_sends
    {read : Nat}
    (hTidy : s.streamer.splitter.Tidy read)
    (hTarget : s.streamer.target = .messages)
    (hOk : emitFence plan s = .ok () t) :
    (t = s ∧ s.RemembersFence) ∨
      ∃ c, Sends s t [c] ∧ s.streamer.splitter.Previews c ∧
        s.streamer.splitter.inJson = true ∧
        ¬ s.RemembersFence ∧ t.RemembersFence := by
  have hOk := ok_of_get hOk
  cases hValue : s.streamer.splitter.partialValue? with
  | none =>
      rw [hValue] at hOk
      cases hOk
      refine .inl ⟨rfl, ?_⟩
      intro v hSome
      rw [hValue] at hSome
      cases hSome
  | some v =>
      rw [hValue, hTarget] at hOk
      have hBlock := ok_of_get hOk
      rcases emitBlock_sends hBlock with
        ⟨hSame, hBefore⟩ | ⟨hSends, hBefore, hNow⟩
      · refine .inl ⟨hSame, ?_⟩
        intro w hSome
        rw [hValue] at hSome
        rw [← Option.some.inj hSome]
        exact hBefore
      · rcases announced_of_partialValue? hValue with
          ⟨hIn, hSeen⟩
        refine .inr ⟨_, hSends, ?_, hIn, ?_, ?_⟩
        · rw [hTidy.listed.pendingStructuredId_eq, hTidy.listed.index]
          exact .fence hSeen v
        · intro hAll
          exact hBefore (hAll v hValue)
        · intro w hSome
          rw [hSends.splitter, hValue] at hSome
          rw [hSends.splitter, ← Option.some.inj hSome]
          exact hNow

------------------------------------------------------------
-- A Look at the Blocks
------------------------------------------------------------

/- The last block that is looked at is the present prose. -/
theorem getLast?_textPreviews
    {s : Streamer}
    (hText : (Text.trim s.splitter.text).isEmpty = false) :
    (textPreviews s).getLast? =
      some
        (.ofText s.splitter.pendingTextId s.splitter.nextIndex
          (Text.trim s.splitter.text)) := by
  unfold textPreviews
  dsimp only
  rw [if_neg (by rw [hText]; decide)]
  exact List.getLast?_concat

/- Behind a look there is only the present prose to look at. -/
theorem textPreviews_of_looked
    {s : Streamer}
    (hLooked : s.announced = s.splitter.blocks.length)
    {b : Block}
    (hMember : b ∈ textPreviews s) :
    (Text.trim s.splitter.text).isEmpty = false ∧
      (textPreviews s).getLast? = some b := by
  have hText : (Text.trim s.splitter.text).isEmpty = false := by
    have hLength := length_textPreviews s
    rw [hLooked, Nat.sub_self, Nat.zero_add] at hLength
    have hSome := List.length_pos_of_mem hMember
    rw [← Bool.not_eq_true]
    intro hBlank
    rw [if_pos hBlank] at hLength
    omega
  refine ⟨hText, ?_⟩
  have hLast := getLast?_textPreviews hText
  unfold textPreviews at hMember hLast ⊢
  dsimp only at hMember hLast ⊢
  rw [hLooked, List.drop_length, List.filter_nil,
    if_neg (by rw [hText]; decide), List.nil_append] at *
  rw [List.mem_singleton.mp hMember]
  exact hLast

/-
  Nothing would be sent again: all finished blocks were looked
  at, and the present prose and the open fence are remembered
  as they are.
-/
structure Settled (s : Session σ) : Prop where
  looked :
    s.streamer.announced = s.streamer.splitter.blocks.length
  prose : ∀ b ∈ textPreviews s.streamer, s.Remembers b
  fence : s.RemembersFence

/- The text that was read does not matter for that. -/
theorem Settled.of_rawText
    (hSettled : s.Settled)
    (rawText : String)
    (hStreamer :
      t.streamer = { s.streamer with rawText := rawText }) :
    t.Settled := by
  constructor
  · rw [hStreamer]
    exact hSettled.looked
  · intro b hMember
    unfold Remembers
    rw [hStreamer] at hMember ⊢
    exact hSettled.prose b hMember
  · unfold RemembersFence
    rw [hStreamer]
    exact hSettled.fence

/-
  A look at the blocks and at the open fence sends previews of
  what is announced, at most one more than there are blocks
  finished since the last look, and settles the session.
-/
theorem look_sends
    {read : Nat}
    (hTidy : s.streamer.splitter.Tidy read)
    (hTarget : s.streamer.target = .messages)
    (hOk :
      (emitTextUpdates plan >>= fun _ => emitFence plan) s =
        .ok () t) :
    ∃ cs, Sends s.looked t cs ∧
      (∀ c ∈ cs, s.streamer.splitter.Previews c) ∧
      cs.length ≤
        s.streamer.splitter.blocks.length -
          s.streamer.announced + 1 ∧
      t.Settled ∧
      ((∀ b ∈ textPreviews s.streamer, s.Remembers b) →
        s.RemembersFence → cs = []) := by
  rcases ok_of_bind hOk with ⟨_, r, hTexts, hFence⟩
  rcases emitTextUpdates_sends hTexts with
    ⟨⟨cs, hSends, hSublist⟩, hLast, hQuiet⟩
  have hSplitter : r.streamer.splitter = s.streamer.splitter :=
    hSends.splitter
  have hLooked :
      r.streamer.announced =
        r.streamer.splitter.blocks.length := by
    rw [hSends.announced, hSplitter]
    rfl
  have hPreviews : ∀ c ∈ cs, s.streamer.splitter.Previews c := by
    intro c hMember
    rcases List.mem_map.mp (hSublist.subset hMember) with
      ⟨b, hBlock, rfl⟩
    exact previews_textPreviews hTidy hBlock
  have hLength := hSublist.length_le
  rw [List.length_map] at hLength
  have hCount :=
    Nat.le_trans hLength (length_textPreviews s.streamer)
  -- The prose that is left to look at was the last preview.
  have hProse : ∀ b ∈ textPreviews r.streamer, r.Remembers b := by
    intro b hMember
    rcases textPreviews_of_looked hLooked hMember with
      ⟨hText, hEnd⟩
    rw [getLast?_textPreviews hText, hSplitter] at hEnd
    rw [hSplitter] at hText
    apply hLast
    rw [getLast?_textPreviews hText]
    exact hEnd
  have hRest := emitFence_sends (by rwa [hSplitter])
    (hSends.target.trans hTarget) hFence
  rcases hRest with
    ⟨hSame, hFence⟩ | ⟨c, hSend, hSeen, hIn, hNew, hFence⟩
  · subst hSame
    refine
      ⟨cs, hSends, hPreviews, ?_, ⟨hLooked, hProse, hFence⟩, ?_⟩
    · refine Nat.le_trans hCount (Nat.add_le_add_left ?_ _)
      split <;> decide
    · intro hAll _
      have hSent := hSends.sent
      rw [hQuiet hAll] at hSent
      exact List.self_eq_append_right.mp hSent
  · -- There is no prose beside a fence of JSON.
    have hBlank : (Text.trim s.streamer.splitter.text).isEmpty := by
      rw [hSplitter] at hIn
      rw [hTidy.apart hIn]
      decide
    rw [if_pos hBlank, Nat.add_zero] at hCount
    have hAfter : t.streamer.splitter = s.streamer.splitter :=
      hSend.splitter.trans hSplitter
    have hStill :
        t.streamer.announced =
          t.streamer.splitter.blocks.length := by
      rw [hSend.announced, hSend.splitter]
      exact hLooked
    refine
      ⟨cs ++ [c], hSends.trans hSend, ?_, ?_,
        ⟨hStill, ?_, hFence⟩, ?_⟩
    · intro d hMember
      rcases List.mem_append.mp hMember with hOld | hLast
      · exact hPreviews d hOld
      · rw [List.mem_singleton.mp hLast, ← hSplitter]
        exact hSeen
    · rw [List.length_append, List.length_singleton]
      exact Nat.add_le_add_right hCount 1
    · intro b hMember
      have hText := (textPreviews_of_looked hStill hMember).1
      rw [hAfter, hBlank] at hText
      cases hText
    · intro hAll hBefore
      rw [hQuiet hAll] at hNew
      exact absurd hBefore hNew

------------------------------------------------------------
-- Sessions Underway
------------------------------------------------------------

/-
  A session that has read so many bytes: its splitter is tidy,
  all it sent previews announced blocks, with at most one
  preview for each byte and each finished block, and nothing
  would be sent again.
-/
structure Underway
    (messageId : String)
    (limits : Limits)
    (read : Nat)
    (s : Session σ) : Prop where
  target : s.streamer.target = .messages
  messageId : s.streamer.messageId = messageId
  limits : s.streamer.splitter.limits = limits
  tidy : s.streamer.splitter.Tidy read
  stamped : s.Stamped
  previews : ∀ c ∈ s.sent, s.streamer.splitter.Previews c
  count : s.sent.length ≤ read + s.streamer.announced
  settled : s.Settled

namespace Underway

variable {messageId : String} {limits : Limits} {read : Nat}

/- Only the stream and its events matter. -/
theorem of_same
    (hUnder : Underway messageId limits read s)
    (hStreamer : t.streamer = s.streamer)
    (hOutlet : t.outlet = s.outlet) :
    Underway messageId limits read t := by
  have hSent : t.sent = s.sent := by
    unfold sent
    rw [hOutlet]
  have hSettled : t.Settled :=
    hUnder.settled.of_rawText s.streamer.rawText hStreamer
  have hStamped : t.Stamped :=
    hUnder.stamped.of_same (by rw [hStreamer]) hOutlet
  refine ⟨?_, ?_, ?_, ?_, hStamped, ?_, ?_, hSettled⟩
  all_goals
    rw [hStreamer]
  · exact hUnder.target
  · exact hUnder.messageId
  · exact hUnder.limits
  · exact hUnder.tidy
  · rw [hSent]
    exact hUnder.previews
  · rw [hSent]
    exact hUnder.count

/- A stream that begins has read and sent nothing. -/
theorem of_start
    (messageId : String)
    (limits : Limits)
    (path : Option String)
    (scope : RunScope)
    (memory : σ)
    (room : Option Nat) :
    Underway messageId limits 0
      (start (.start messageId .messages limits path)
        (.ofRoom room) scope memory) where
  target := rfl
  messageId := rfl
  limits := rfl
  tidy := Splitter.tidy_start messageId limits
  stamped := ⟨rfl, rfl⟩
  previews := by
    intro c hMember
    cases hMember
  count := Nat.le_refl 0
  settled := by
    refine ⟨rfl, ?_, ?_⟩
    · intro b hMember
      cases hMember
    · intro v hSome
      cases hSome

/-
  A chunk for which there is room keeps a session underway, by
  the bytes of the chunk. An empty one sends nothing.
-/
theorem push
    {chunk : String}
    (hUnder : Underway messageId limits read s)
    (hFits : read + chunk.utf8ByteSize ≤ limits.text)
    (hOk : Session.push plan chunk s = .ok () t) :
    Underway messageId limits (read + chunk.utf8ByteSize) t := by
  rw [push_eq] at hOk
  rcases ok_of_bind hOk with ⟨_, r, hTake, hLook⟩
  rcases ok_of_take hTake with
    ⟨q, hAppend, hStreamer, hOutlet⟩
  have hSplitter : r.streamer.splitter = q := by
    rw [hStreamer]
  have hBefore : r.sent = s.sent := by
    unfold sent
    rw [hOutlet]
  have hRoom :
      read + byteCount chunk.toList ≤
        s.streamer.splitter.limits.text := by
    rw [hUnder.limits, byteCount_toList]
    exact hFits
  rw [Splitter.append_value] at hAppend
  rcases Splitter.run_grows hUnder.tidy hRoom hAppend with
    ⟨hTidy, hGrows⟩
  rw [byteCount_toList] at hTidy
  rw [← hSplitter] at hTidy hGrows
  rcases look_sends hTidy
      (by rw [hStreamer]; exact hUnder.target) hLook with
    ⟨cs, hSends, hPreviews, hLength, hSettled, hQuiet⟩
  have hAfter : t.streamer.splitter = r.streamer.splitter :=
    hSends.splitter
  have hSent : t.sent = s.sent ++ cs := by
    rw [← hBefore]
    exact hSends.sent
  have hStamped : t.Stamped := by
    apply hSends.stamped
    apply hUnder.stamped.of_same
    · change r.streamer.sequencer = _
      rw [hStreamer]
    · exact hOutlet
  have hAnnounced : r.streamer.announced = s.streamer.announced := by
    rw [hStreamer]
  refine ⟨?_, ?_, ?_, ?_, hStamped, ?_, ?_, hSettled⟩
  · rw [hSends.target]
    change r.streamer.target = _
    rw [hStreamer]
    exact hUnder.target
  · rw [hSends.messageId]
    change r.streamer.messageId = _
    rw [hStreamer]
    exact hUnder.messageId
  · rw [hAfter, hGrows.limits]
    exact hUnder.limits
  · rw [hAfter]
    exact hTidy
  · intro c hMember
    rw [hSent] at hMember
    rw [hAfter]
    rcases List.mem_append.mp hMember with hOld | hNew
    · exact hGrows.previews (hUnder.previews c hOld)
    · exact hPreviews c hNew
  · have hMore := hGrows.blocks.length_le
    have hCount := hUnder.count
    have hLooked := hUnder.settled.looked
    rw [hSent, List.length_append, hSettled.looked, hAfter]
    by_cases hEmpty : chunk.utf8ByteSize = 0
    · -- The splitter is the same, so that nothing is new.
      rw [String.utf8ByteSize_eq_zero_iff] at hEmpty
      subst hEmpty
      have hSame : s.streamer.splitter = q :=
        congrArg Splitter.Result.splitter hAppend
      have hStill : r.Settled := by
        apply hUnder.settled.of_rawText (s.streamer.rawText ++ "")
        rw [hStreamer, ← hSame]
      have hNone : cs = [] := hQuiet hStill.prose hStill.fence
      rw [hNone]
      simp only [List.length_nil]
      omega
    · omega

/- All chunks together keep a session underway. -/
theorem pushAll
    {chunks : List String}
    (hUnder : Underway messageId limits read s)
    (hFits :
      read + (String.join chunks).utf8ByteSize ≤ limits.text)
    (hOk : Session.pushAll plan chunks s = .ok () t) :
    Underway messageId limits
      (read + (String.join chunks).utf8ByteSize) t := by
  induction chunks generalizing s read with
  | nil =>
      cases hOk
      exact hUnder
  | cons chunk rest ih =>
      rcases ok_of_bind hOk with ⟨_, r, hPush, hRest⟩
      rw [String.join_cons, String.utf8ByteSize_append,
        ← Nat.add_assoc] at hFits ⊢
      have hNext :=
        hUnder.push
          (Nat.le_trans (Nat.le_add_right _ _) hFits) hPush
      exact ih hNext hFits hRest

end Underway

end Session

end AnswerStream
