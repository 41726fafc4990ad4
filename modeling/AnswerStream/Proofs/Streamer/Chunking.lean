import AnswerStream.Proofs.Streamer.Talking

/-
  This file proves that a stream forgets how its text was cut
  into chunks: two streams of one text fail alike, or leave the
  same message and send the same final events.

  Main statements:
    * `Session.Ended.finals`
    * `chunks_are_forgotten`
-/

namespace AnswerStream

open Json

------------------------------------------------------------
-- Final Events
------------------------------------------------------------

namespace Session

variable {σ : Type} {plan : Plan σ} {messageId : String}
  {target : Target} {limits : Limits} {scope : RunScope}
  {text : String} {p : Splitter} {outcome : Outcome}
  {t : Session σ}

/- The final contents among those that were sent. -/
def finals (s : Session σ) : List Content :=
  s.sent.filter Content.isFinal

/- The splitter does not fail on the text of a session that ended. -/
theorem Ended.failure
    (hEnded :
      Ended plan messageId target limits scope text p outcome t) :
    ((Splitter.start messageId limits).run
      text.toList).failure = none :=
  congrArg Splitter.Result.failure hEnded.splitter

/-
  The final events of a session that ended depend on the blocks
  of its text alone, if its transforms are pure and its scope
  has not seen their keys.
-/
theorem Ended.finals
    (hEnded :
      Ended plan messageId target limits scope text p outcome t)
    (hPure : plan.transforms.Pure)
    (hUnseen :
      scope.Unseen
        ((mergeState p.close.value.allBlocks).map Prod.fst))
    (memory : σ) :
    t.finals =
      closing target p.close.value.allBlocks
        (plan.transforms.ready memory
          (mergeState p.close.value.allBlocks)) := by
  rcases hEnded.sent with
    ⟨previews, values, hSent, hForetold, hReady⟩
  have hEarly : previews.filter Content.isFinal = [] := by
    refine List.filter_eq_nil_iff.mpr fun c hMember => ?_
    simp [(hForetold c hMember).isFinal]
  have hLate :
      ∀ ms,
        (closing target p.close.value.allBlocks ms).filter
            Content.isFinal =
          closing target p.close.value.allBlocks ms :=
    fun ms =>
      List.filter_eq_self.mpr fun c => isFinal_of_mem_closing
  unfold Session.finals
  rw [hSent, List.filter_append, hEarly, List.nil_append, hLate,
    hReady hPure hUnseen memory]

end Session

------------------------------------------------------------
-- Two Streams of One Text
------------------------------------------------------------

/-
  Two streams of one text with the same settings, in scopes of
  their own, both fail where the splitter fails on the text, or
  both end with the same outcome: the text with the blocks that
  the splitter makes of it, and the same checked value. Then
  they sent the same final events in the same order. Neither
  the chunks matter to this, nor the marks and paths of events,
  the names of the scopes, or the memories of pure transforms.
-/
theorem chunks_are_forgotten
    {σ : Type}
    (transforms : KeyTransforms σ)
    (validator : Option (Value → Bool))
    (messageId : String)
    (target : Target)
    (limits : Limits)
    (text : String)
    (chunks otherChunks : List String)
    (marks otherMarks : UInt64 → Mark)
    (path otherPath : Option String)
    (runId otherRunId : String)
    (memory otherMemory : σ)
    (hPure : transforms.Pure)
    (hChunks : String.join chunks = text)
    (hOtherChunks : String.join otherChunks = text) :
    let whole :=
      ((Splitter.start messageId limits).append text).value
    let run :=
      Session.run ⟨transforms, validator, marks⟩ chunks
        (Session.start (.start messageId target limits path)
          .unbounded (.fresh runId) memory)
    let other :=
      Session.run ⟨transforms, validator, otherMarks⟩ otherChunks
        (Session.start
          (.start messageId target limits otherPath)
          .unbounded (.fresh otherRunId) otherMemory)
    (∃ cause s t,
      whole.failure = some cause ∧
      run = .error (.overflow cause) s ∧
      other = .error (.overflow cause) t) ∨
    (∃ outcome s t,
      whole.failure = none ∧
      run = .ok outcome s ∧
      other = .ok outcome t ∧
      outcome.message.content = text ∧
      outcome.message.recordedBlocks =
        some whole.splitter.close.value.allBlocks ∧
      s.finals = t.finals) := by
  intro whole run other
  have hWhole :
      whole = (Splitter.start messageId limits).run text.toList :=
    Splitter.append_value _ text
  have hRun :=
    Session.run_of_unbounded ⟨transforms, validator, marks⟩
      messageId target limits path (.fresh runId) memory chunks
  have hOther :=
    Session.run_of_unbounded ⟨transforms, validator, otherMarks⟩
      messageId target limits otherPath (.fresh otherRunId)
      otherMemory otherChunks
  rw [hChunks, ← hWhole] at hRun
  rw [hOtherChunks, ← hWhole] at hOther
  rcases hRun with
    ⟨s, cause, hFailure, hFails⟩ | ⟨outcome, s, hEnds, hEnded⟩
  · rcases hOther with
      ⟨t, otherCause, hSame, hFailsToo⟩ | ⟨_, _, _, hEnded⟩
    · rw [hFailure] at hSame
      cases hSame
      exact .inl ⟨cause, s, t, hFailure, hFails, hFailsToo⟩
    · have hNone := hEnded.failure
      rw [← hWhole, hFailure] at hNone
      cases hNone
  · have hNone := hEnded.failure
    rw [← hWhole] at hNone
    rcases hOther with
      ⟨_, cause, hFailure, _⟩ | ⟨again, t, hEndsToo, hEndedToo⟩
    · rw [hNone] at hFailure
      cases hFailure
    · have hCheck :
          (⟨transforms, validator, otherMarks⟩
            : Plan σ).validator =
          (⟨transforms, validator, marks⟩ : Plan σ).validator :=
        rfl
      have hAgain : again = outcome := by
        rw [hEndedToo.outcome, hEnded.outcome]
        exact Session.leaving_congr hCheck messageId text _
      subst hAgain
      refine
        .inr ⟨again, s, t, hNone, hEnds, hEndsToo, ?_, ?_, ?_⟩
      · simp [hEnded.outcome, Session.leaving]
      · exact hEnded.recorded
      · rw [hEnded.finals hPure (RunScope.unseen_fresh _ _) memory,
          hEndedToo.finals hPure (RunScope.unseen_fresh _ _)
            memory]

/- An answer whose fence is cut. -/
def cutFence : List String :=
  [ "See\n\x60\x60\x60json\n\x7b\x22a\x22:1",
    "\x7d\n\x60\x60\x60\nbelow" ]

/- The same answer, cut inside the marks of its fence. -/
def cutMarks : List String :=
  [ "See", "\n\x60", "", "\x60\x60js",
    "on\n\x7b\x22a\x22:1\x7d\n\x60\x60", "\x60\nbelow" ]

/- A transform of one key, which counts how often it is asked. -/
def boxing : KeyTransforms Nat :=
  KeyTransforms.none.withKey "a" fun v asked =>
    (.ok (.array [v]), asked + 1)

theorem boxing_pure : boxing.Pure :=
  KeyTransforms.pure_none.withKey (fun _ _ _ => rfl) "a"

/- Both leave the same, with prose cut to four bytes. -/
theorem cutFence_is_forgotten :
    boxing.Pure ∧
      String.join cutMarks = String.join cutFence ∧
      ∃ outcome s t,
        Session.run ⟨boxing, none, fun _ => ⟨"", ""⟩⟩ cutFence
            (Session.start (.start "m" .state ⟨4, 9⟩ none)
              .unbounded (.fresh "r") 0) = .ok outcome s ∧
        Session.run ⟨boxing, none, fun _ => ⟨"", ""⟩⟩ cutMarks
            (Session.start (.start "m" .state ⟨4, 9⟩ (some "p"))
              .unbounded (.fresh "q") 5) = .ok outcome t ∧
        s.finals = t.finals := by
  have hJoin : String.join cutMarks = String.join cutFence := by
    decide +kernel
  have hNone :
      ((Splitter.start "m" ⟨4, 9⟩).append
        (String.join cutFence)).value.failure = none := by
    decide +kernel
  refine ⟨boxing_pure, hJoin, ?_⟩
  rcases chunks_are_forgotten boxing none "m" .state ⟨4, 9⟩
      (String.join cutFence) cutFence cutMarks
      (fun _ => ⟨"", ""⟩) (fun _ => ⟨"", ""⟩) none (some "p")
      "r" "q" 0 5 boxing_pure rfl hJoin with
    ⟨cause, _, _, hFailure, _⟩ |
      ⟨outcome, s, t, _, hRun, hOther, _, _, hSame⟩
  · rw [hNone] at hFailure
    cases hFailure
  · exact ⟨outcome, s, t, hRun, hOther, hSame⟩

end AnswerStream
