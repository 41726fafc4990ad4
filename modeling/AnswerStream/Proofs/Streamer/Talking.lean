import AnswerStream.Proofs.Splitter.Keeping
import AnswerStream.Proofs.Streamer.Parity
import AnswerStream.Proofs.Streamer.Telling

/-
  This file proves what a whole stream does if its outlet takes
  any number of events. It fails where the splitter fails on the
  text, and only there; otherwise it sends previews of blocks
  that the splitter announces, then the last contents of its
  blocks or state values, and leaves the text with the blocks.
  How the text was cut into chunks does not matter to any of
  this but the previews.

  Key definitions include:
    * `Splitter.Foretells`
    * `Session.Talking`
    * `Session.Ended`

  Main statements:
    * `Session.Talking.pushAll`
    * `Session.Talking.finish`
    * `Session.run_of_unbounded`
-/

namespace AnswerStream

open Json

------------------------------------------------------------
-- Announced Contents
------------------------------------------------------------

/-
  A content that goes out between chunks for a target: a preview
  of a block that the splitter announces, or a value of a state
  key. If prose may be shortened, then its block may be
  announced no more, but its place is not behind the next one.
-/
inductive Splitter.Foretells
    (target : Target)
    (roomy : Prop)
    (p : Splitter) : Content → Prop where
| text
    {i : Nat}
    (hPlace : i ≤ p.blocks.length)
    (hSeen : roomy → p.Announced .text i)
    (body : String) :
    Foretells target roomy p
      (.text (slot p.id .text i) (UInt32.ofNat i) body false)
| fence
    {i : Nat}
    (hTarget : target = .messages)
    (hSeen : p.Announced .structured i)
    (v : Value) :
    Foretells target roomy p
      (.structured (slot p.id .structured i) (UInt32.ofNat i)
        (some v) none false)
| key
    (hTarget : target = .state)
    (name : String)
    (v : Value) :
    Foretells target roomy p (.stateStreaming name v)

namespace Splitter

variable {p q : Splitter} {target : Target} {roomy later : Prop}
  {c : Content}

/- A preview of an announced block is foretold for a target. -/
theorem Previews.foretells
    (hPreviews : p.Previews c)
    (hFence :
      ∀ id index data source,
        c = .structured id index data source false →
          target = .messages) :
    p.Foretells target roomy c := by
  cases hPreviews with
  | text hSeen body =>
      exact .text hSeen.place_le (fun _ => hSeen) body
  | fence hSeen v =>
      exact .fence (hFence _ _ _ _ rfl) hSeen v

/- What is foretold is not final. -/
theorem Foretells.isFinal
    (hForetells : p.Foretells target roomy c) :
    c.isFinal = false := by
  cases hForetells with
  | text hPlace hSeen body => rfl
  | fence hTarget hSeen v => rfl
  | key hTarget name v => rfl

/- What was foretold is so as long as it is kept. -/
theorem Keeps.foretells
    (hKeeps : Keeps later p q)
    (hLater : later → roomy)
    (hForetells : p.Foretells target roomy c) :
    q.Foretells target later c := by
  cases hForetells with
  | text hPlace hSeen body =>
      rw [← hKeeps.id]
      have hStill := hPlace.trans hKeeps.blocks.length_le
      refine .text hStill (fun hRoomy => ?_) body
      exact
        hKeeps.announced _ _ (fun _ => hRoomy)
          (hSeen (hLater hRoomy))
  | fence hTarget hSeen v =>
      rw [← hKeeps.id]
      exact
        .fence hTarget (hKeeps.announced _ _ nofun hSeen) v
  | key hTarget name v => exact .key hTarget name v

end Splitter

namespace Session

variable {σ : Type} {plan : Plan σ} {s : Session σ}

------------------------------------------------------------
-- Parts of a Chunk
------------------------------------------------------------

/-
  A chunk is taken in by the splitter, and fails if the splitter
  does.
-/
theorem take_eq
    (chunk : String)
    (s : Session σ) :
    let result := s.streamer.splitter.run chunk.toList
    ∃ t,
      take chunk s =
        (match result.failure with
        | some cause => .error (.overflow cause) t
        | none => .ok () t) ∧
      t.streamer =
        { s.streamer with
          rawText := s.streamer.rawText ++ chunk
          splitter := result.splitter } ∧
      t.outlet = s.outlet ∧ t.scope = s.scope := by
  intro result
  have hAppend :
      (s.streamer.splitter.append chunk).value = result :=
    Splitter.append_value _ chunk
  let taken : Session σ :=
    { s with
      streamer :=
        { s.streamer with
          rawText := s.streamer.rawText ++ chunk
          splitter :=
            (s.streamer.splitter.append chunk).value.splitter }
      notes :=
        s.notes ++ (s.streamer.splitter.append chunk).notes }
  have hStart :
      take chunk s =
        (match
            (s.streamer.splitter.append chunk).value.failure
          with
        | some cause => throw (.overflow cause)
        | none => pure () : Step σ Unit) taken :=
    rfl
  refine ⟨taken, ?_, by simp [taken, hAppend], rfl, rfl⟩
  rw [hStart, hAppend]
  cases result.failure <;> rfl

/- The changed prose goes out behind a look at the blocks. -/
theorem emitTextUpdates_eq
    (plan : Plan σ)
    (s : Session σ) :
    emitTextUpdates plan s =
      emitTexts plan (textPreviews s.streamer) s.looked := by
  unfold emitTextUpdates
  rw [bind_get]
  have hLook :
      change
          (fun s =>
            { s with announced := s.splitter.blocks.length })
          s =
        .ok () s.looked :=
    rfl
  exact bind_of_ok hLook _

/- A look at the prose and at the open fence sends previews. -/
theorem look_tells
    {read : Nat}
    (plan : Plan σ)
    (hTidy : s.streamer.splitter.Tidy read)
    (hOpen : s.outlet.room = none) :
    ∃ t cs,
      (emitTextUpdates plan >>= fun _ => emitFence plan) s =
        .ok () t ∧
      Tells s.looked t cs ∧
      ∀ roomy : Prop, ∀ c ∈ cs,
        s.streamer.splitter.Foretells s.streamer.target roomy
          c := by
  rcases emitTexts_tells (s := s.looked) plan
      (textPreviews s.streamer) hOpen with
    ⟨r, cs, hTexts, hFirst, hProse⟩
  have hUpdates :=
    (emitTextUpdates_eq plan s).trans hTexts
  have hSplitter : r.streamer.splitter = s.streamer.splitter :=
    hFirst.splitter
  rcases emitFence_tells plan hFirst.room with
    ⟨t, ds, hFence, hSecond, hRest⟩
  refine
    ⟨t, cs ++ ds,
      (bind_of_ok hUpdates _).trans hFence,
      hFirst.trans hSecond, ?_⟩
  intro roomy c hMember
  rcases List.mem_append.mp hMember with hOld | hNew
  · rcases List.mem_map.mp (hProse c hOld) with ⟨b, hBlock, rfl⟩
    exact (previews_textPreviews hTidy hBlock).foretells nofun
  · have hWhere := hRest c hNew
    rw [hSplitter, hFirst.target] at hWhere
    rcases hWhere with
      ⟨hTarget, v, hValue, rfl⟩ | ⟨hTarget, key, v, rfl⟩
    · have hSeen := (announced_of_partialValue? hValue).2
      rw [hTidy.listed.pendingStructuredId_eq, hTidy.listed.index]
      exact .fence hTarget hSeen v
    · exact .key hTarget key v

------------------------------------------------------------
-- Sessions That Took in a Text
------------------------------------------------------------

/-
  A session with an outlet that takes any number of events, and
  that took in a text: its splitter stands behind the text, its
  scope is as it was, and all it sent is foretold.
-/
structure Talking
    (messageId : String)
    (target : Target)
    (limits : Limits)
    (scope : RunScope)
    (text : String)
    (s : Session σ) : Prop where
  splitter :
    (Splitter.start messageId limits).run text.toList =
      .ok s.streamer.splitter
  foretold :
    ∀ c ∈ s.sent,
      s.streamer.splitter.Foretells target
        (text.utf8ByteSize ≤ limits.text) c
  target : s.streamer.target = target
  messageId : s.streamer.messageId = messageId
  rawText : s.streamer.rawText = text
  scope : s.scope = scope
  room : s.outlet.room = none
  stamped : s.Stamped

namespace Talking

variable {messageId : String} {target : Target} {limits : Limits}
  {scope : RunScope} {text : String}

/- A session before the first chunk took in nothing. -/
theorem of_start
    (messageId : String)
    (target : Target)
    (limits : Limits)
    (path : Option String)
    (scope : RunScope)
    (memory : σ) :
    Talking messageId target limits scope ""
      (start (.start messageId target limits path) .unbounded
        scope memory) where
  splitter := rfl
  foretold := nofun
  target := rfl
  messageId := rfl
  rawText := rfl
  scope := rfl
  room := rfl
  stamped := ⟨rfl, rfl⟩

/- Notes do not matter. -/
theorem of_notes
    (hTalking : Talking messageId target limits scope text s)
    (notes : Array Note) :
    Talking messageId target limits scope text
      { s with notes := notes } :=
  { hTalking with stamped := hTalking.stamped.of_same rfl rfl }

/- What is foretold is kept behind a further chunk. -/
theorem foretells
    (hTalking : Talking messageId target limits scope text s)
    {chunk : String}
    {q : Splitter}
    (hRun : s.streamer.splitter.run chunk.toList = .ok q)
    {c : Content}
    (hMember : c ∈ s.sent) :
    q.Foretells target
      ((text ++ chunk).utf8ByteSize ≤ limits.text) c := by
  have hSize :
      (text ++ chunk).utf8ByteSize =
        byteCount text.toList + byteCount chunk.toList := by
    rw [String.utf8ByteSize_append, byteCount_toList,
      byteCount_toList]
  have hText := byteCount_toList text
  have hFits :
      (text ++ chunk).utf8ByteSize ≤ limits.text →
        0 + byteCount text.toList ≤ limits.text := by
    omega
  rcases Splitter.run_keeps
      (Splitter.tidy_start messageId limits) hFits
      hTalking.splitter with
    ⟨⟨read, hTidy, hRead⟩, hFirst⟩
  have hLimits : s.streamer.splitter.limits = limits :=
    hFirst.limits
  have hFitsToo :
      (text ++ chunk).utf8ByteSize ≤ limits.text →
        read + byteCount chunk.toList ≤
          s.streamer.splitter.limits.text := by
    rw [hLimits]
    omega
  rcases Splitter.run_keeps hTidy hFitsToo hRun with ⟨_, hKeeps⟩
  exact
    hKeeps.foretells (fun hRoomy => by omega)
      (hTalking.foretold c hMember)

/-
  A chunk is taken in with previews, or the splitter fails on
  the text with it.
-/
theorem push
    (hTalking : Talking messageId target limits scope text s)
    (plan : Plan σ)
    (chunk : String) :
    let whole :=
      (Splitter.start messageId limits).run
        (text ++ chunk).toList
    (∃ t cause, whole.failure = some cause ∧
      Session.push plan chunk s = .error (.overflow cause) t) ∨
    ∃ t, Session.push plan chunk s = .ok () t ∧
      Talking messageId target limits scope (text ++ chunk)
        t := by
  intro whole
  have hWhole :
      whole = s.streamer.splitter.run chunk.toList := by
    simp only [whole, String.toList_append]
    exact Splitter.run_append_of_ok hTalking.splitter _
  rcases take_eq chunk s with
    ⟨r, hTake, hStreamer, hOutlet, hScope⟩
  rw [← hWhole] at hTake hStreamer
  rw [push_eq]
  cases hFailure : whole.failure with
  | some cause =>
      rw [hFailure] at hTake
      exact .inl ⟨r, cause, rfl, bind_of_error hTake _⟩
  | none =>
      rw [hFailure] at hTake
      have hRun : whole = .ok r.streamer.splitter := by
        simp [Splitter.Result.ok, hStreamer, ← hFailure]
      have hOpen : r.outlet.room = none := by
        simpa [hOutlet] using hTalking.room
      have hTidy : ∃ read, r.streamer.splitter.Tidy read :=
        (Splitter.run_keeps_fences
          (Splitter.tidy_start messageId limits) hRun).1
      rcases hTidy with ⟨read, hTidy⟩
      rcases look_tells plan hTidy hOpen with
        ⟨t, cs, hLook, hTells, hNew⟩
      have hAfter : t.streamer.splitter = r.streamer.splitter :=
        hTells.splitter
      have hSent : t.sent = s.sent ++ cs := by
        simpa [sent, looked, hOutlet] using hTells.sent
      refine .inr ⟨t, (bind_of_ok hTake _).trans hLook, ?_⟩
      refine ⟨?_, ?_, ?_, ?_, ?_, ?_, hTells.room, ?_⟩
      · rw [hAfter]
        exact hRun
      · intro c hMember
        rw [hSent] at hMember
        rw [hAfter]
        rcases List.mem_append.mp hMember with hOld | hFresh
        · exact hTalking.foretells (hWhole.symm.trans hRun) hOld
        · have hTarget : r.streamer.target = target := by
            simpa [hStreamer] using hTalking.target
          rw [← hTarget]
          exact hNew _ c hFresh
      · rw [hTells.target]
        simpa [looked, hStreamer] using hTalking.target
      · rw [hTells.messageId]
        simpa [looked, hStreamer] using hTalking.messageId
      · rw [hTells.rawText]
        simp [looked, hStreamer, hTalking.rawText]
      · rw [hTells.scope]
        exact hScope.trans hTalking.scope
      · apply hTells.stamped
        refine hTalking.stamped.of_same ?_ hOutlet
        simp [looked, hStreamer]

/- All chunks are taken in, or the splitter fails on the text. -/
theorem pushAll
    (hTalking : Talking messageId target limits scope text s)
    (plan : Plan σ)
    (chunks : List String) :
    let whole :=
      (Splitter.start messageId limits).run
        (text ++ String.join chunks).toList
    (∃ t cause, whole.failure = some cause ∧
      Session.pushAll plan chunks s =
        .error (.overflow cause) t) ∨
    ∃ t, Session.pushAll plan chunks s = .ok () t ∧
      Talking messageId target limits scope
        (text ++ String.join chunks) t := by
  induction chunks generalizing s text with
  | nil => exact .inr ⟨s, rfl, by simpa using hTalking⟩
  | cons chunk rest ih =>
      rw [String.join_cons, ← String.append_assoc]
      rcases hTalking.push plan chunk with
        ⟨t, cause, hFailure, hPush⟩ | ⟨r, hPush, hNext⟩
      · have hSame :
            (Splitter.start messageId limits).run
                (text ++ chunk ++ String.join rest).toList =
              (Splitter.start messageId limits).run
                (text ++ chunk).toList := by
          rw [String.toList_append]
          exact
            Splitter.run_append_of_failure
              (Option.isSome_iff_exists.mpr ⟨cause, hFailure⟩) _
        rw [hSame]
        exact .inl ⟨t, cause, hFailure, bind_of_error hPush _⟩
      · have hFirst :
            Session.pushAll plan (chunk :: rest) s =
              Session.pushAll plan rest r :=
          bind_of_ok hPush _
        rw [hFirst]
        exact ih hNext

end Talking

------------------------------------------------------------
-- Parts of an End
------------------------------------------------------------

/- The final events behind the prose. -/
def ending
    (target : Target)
    (fences : List Block)
    (values : Members) : List Content :=
  match target with
  | .messages =>
      fences.map fun b =>
        .structured b.id b.index b.data b.sourceText true
  | .state => values.map fun m => .stateFinal m.1 m.2

/- The final events of an answer. -/
def closing
    (target : Target)
    (blocks : List Block)
    (values : Members) : List Content :=
  ((blocks.filter fun b => b.kind == .text).map fun b =>
      .text b.id b.index b.textOrEmpty true) ++
    ending target
      (blocks.filter fun b => b.kind == .structured) values

/- Final events are final. -/
theorem isFinal_of_mem_closing
    {target : Target}
    {blocks : List Block}
    {values : Members}
    {c : Content}
    (hMember : c ∈ closing target blocks values) :
    c.isFinal = true := by
  rcases List.mem_append.mp hMember with hText | hRest
  · rcases List.mem_map.mp hText with ⟨b, _, rfl⟩
    rfl
  · cases target with
    | messages =>
        rcases List.mem_map.mp hRest with ⟨b, _, rfl⟩
        rfl
    | state =>
        rcases List.mem_map.mp hRest with ⟨m, _, rfl⟩
        rfl

/- The part of an end that depends on the target. -/
def emitFinals
    (plan : Plan σ)
    (fences : List Block) : Step σ Unit := do
  match (← get).streamer.target with
  | .state => emitFinalMembers plan (mergeState fences)
  | .messages => emitFinalFences plan fences

/-
  The final events behind the prose go out. State values are
  those that are ready, if the transforms are pure and the scope
  has not seen their keys.
-/
theorem emitFinals_sends
    (plan : Plan σ)
    (fences : List Block)
    (hOpen : s.outlet.room = none) :
    ∃ t values, emitFinals plan fences s = .ok () t ∧
      Sends s t (ending s.streamer.target fences values) ∧
      t.streamer.rawText = s.streamer.rawText ∧
      (plan.transforms.Pure →
        s.scope.Unseen ((mergeState fences).map Prod.fst) →
        ∀ memory,
          values =
            plan.transforms.ready memory (mergeState fences)) := by
  unfold emitFinals
  rw [bind_get]
  cases s.streamer.target with
  | state =>
      rcases emitFinalMembers_sends plan (mergeState fences)
          hOpen with
        ⟨t, values, hOk, hSends, hText, hReady⟩
      refine ⟨t, values, hOk, hSends, hText, ?_⟩
      intro hPure hUnseen
      exact
        hReady hPure hUnseen (sorted_mergeState fences).nodup
  | messages =>
      rcases emitFinalFences_tells plan fences hOpen with
        ⟨t, hOk, hTells⟩
      exact
        ⟨t, plan.transforms.ready s.memory (mergeState fences),
          hOk, hTells.toSends, hTells.rawText,
          fun hPure _ memory => hPure.ready_eq _ _ _⟩

/- What a stream of a text with the given blocks leaves. -/
def leaving
    (plan : Plan σ)
    (messageId text : String)
    (blocks : List Block) : Outcome where
  message := {
    id := messageId
    role := .assistant
    content := text
    metadata := some ⟨some blocks⟩ }
  parsed :=
    (checked plan messageId
      (lastData
        (blocks.filter fun b => b.kind == .structured))).value

/- Of a plan only the check matters to that. -/
theorem leaving_congr
    {plan other : Plan σ}
    (hCheck : plan.validator = other.validator)
    (messageId text : String)
    (blocks : List Block) :
    leaving plan messageId text blocks =
      leaving other messageId text blocks := by
  unfold leaving checked
  rw [hCheck]

/- The last part of an end. -/
def leave
    (plan : Plan σ)
    (blocks : List Block) : Step σ Outcome := do
  let s := (← get).streamer
  let parsed ←
    hear <| checked plan s.messageId <|
      lastData (blocks.filter fun b => b.kind == .structured)
  say <| Note.debug "stream finalized"
    [ ("message_id", s.messageId),
      ("blocks", toString blocks.length),
      ("events", toString (s.sequencer.nextSeq - 1).toNat),
      ("parsed", toString parsed.isSome) ]
  return {
    message := {
      id := s.messageId
      role := .assistant
      content := s.rawText
      metadata := some ⟨some blocks⟩ }
    parsed := parsed }

theorem leave_eq
    (plan : Plan σ)
    (blocks : List Block)
    (s : Session σ) :
    ∃ notes,
      leave plan blocks s =
        .ok
          (leaving plan s.streamer.messageId s.streamer.rawText
            blocks)
          { s with notes := notes } :=
  ⟨_, rfl⟩

/- The session behind its splitter was closed. -/
def closed (s : Session σ) : Session σ :=
  { s with
    streamer :=
      { s.streamer with
        splitter := s.streamer.splitter.close.value }
    notes := s.notes ++ s.streamer.splitter.close.notes }

/- An end is made of its parts. -/
theorem finish_of_parts
    {told shown : Session σ}
    (hTexts :
      emitFinalTexts plan
          (s.closed.streamer.splitter.allBlocks.filter
            fun b => b.kind == .text) s.closed =
        .ok () told)
    (hFinals :
      emitFinals plan
          (s.closed.streamer.splitter.allBlocks.filter
            fun b => b.kind == .structured) told =
        .ok () shown) :
    finish plan s =
      leave plan s.closed.streamer.splitter.allBlocks shown := by
  have hHear :
      hear s.streamer.splitter.close s =
        .ok s.streamer.splitter.close.value
          { s with
            notes :=
              s.notes ++ s.streamer.splitter.close.notes } :=
    rfl
  have hClose :
      change
          (fun streamer =>
            { streamer with
              splitter := s.streamer.splitter.close.value })
          { s with
            notes :=
              s.notes ++ s.streamer.splitter.close.notes } =
        .ok () s.closed :=
    rfl
  unfold emitFinals at hFinals
  unfold finish
  rw [bind_get] at hFinals ⊢
  rw [bind_of_ok hHear, bind_of_ok hClose]
  unfold closed at hTexts hFinals ⊢
  dsimp only at hTexts hFinals ⊢
  rw [bind_of_ok hTexts, bind_get]
  cases hTarget : told.streamer.target with
  | state =>
      rw [hTarget] at hFinals
      exact bind_of_ok hFinals _
  | messages =>
      rw [hTarget] at hFinals
      exact bind_of_ok hFinals _

/- An end that succeeds does so in its parts. -/
theorem parts_of_finish
    {outcome : Outcome}
    {t : Session σ}
    (hOk : finish plan s = .ok outcome t) :
    ∃ told shown notes,
      emitFinalTexts plan
          (s.closed.streamer.splitter.allBlocks.filter
            fun b => b.kind == .text) s.closed =
        .ok () told ∧
      emitFinals plan
          (s.closed.streamer.splitter.allBlocks.filter
            fun b => b.kind == .structured) told =
        .ok () shown ∧
      outcome =
        leaving plan shown.streamer.messageId
          shown.streamer.rawText
          s.closed.streamer.splitter.allBlocks ∧
      t = { shown with notes := notes } := by
  have hOk := ok_of_get hOk
  rcases ok_of_bind hOk with ⟨_, _, hHear, hOk⟩
  cases hHear
  rcases ok_of_bind hOk with ⟨_, _, hClose, hOk⟩
  cases hClose
  rcases ok_of_bind hOk with ⟨_, told, hTexts, hOk⟩
  have hLeaves :
      ∃ shown,
        emitFinals plan
            (s.closed.streamer.splitter.allBlocks.filter
              fun b => b.kind == .structured) told =
          .ok () shown ∧
        leave plan s.closed.streamer.splitter.allBlocks shown =
          .ok outcome t := by
    have hOk := ok_of_get hOk
    unfold emitFinals
    rw [bind_get]
    cases hTarget : told.streamer.target with
    | state =>
        rw [hTarget] at hOk
        rcases ok_of_bind hOk with ⟨_, shown, hFinals, hLeave⟩
        exact ⟨shown, hFinals, hLeave⟩
    | messages =>
        rw [hTarget] at hOk
        rcases ok_of_bind hOk with ⟨_, shown, hFinals, hLeave⟩
        exact ⟨shown, hFinals, hLeave⟩
  rcases hLeaves with ⟨shown, hFinals, hLeave⟩
  rcases leave_eq plan s.closed.streamer.splitter.allBlocks shown
    with ⟨notes, hNotes⟩
  rw [hNotes] at hLeave
  cases hLeave
  exact ⟨told, shown, notes, hTexts, hFinals, rfl, rfl⟩

------------------------------------------------------------
-- Sessions That Ended
------------------------------------------------------------

/-
  A session that took in a whole text and ended: it sent what
  was foretold, and then the final events. State values are
  those that are ready, if the transforms are pure and the scope
  has not seen their keys.
-/
structure Ended
    (plan : Plan σ)
    (messageId : String)
    (target : Target)
    (limits : Limits)
    (scope : RunScope)
    (text : String)
    (p : Splitter)
    (outcome : Outcome)
    (t : Session σ) : Prop where
  splitter :
    (Splitter.start messageId limits).run text.toList = .ok p
  outcome :
    outcome =
      leaving plan messageId text p.close.value.allBlocks
  sent :
    ∃ previews values,
      t.sent =
        previews ++
          closing target p.close.value.allBlocks values ∧
      (∀ c ∈ previews,
        p.Foretells target
          (text.utf8ByteSize ≤ limits.text) c) ∧
      (plan.transforms.Pure →
        scope.Unseen
          ((mergeState p.close.value.allBlocks).map
            Prod.fst) →
        ∀ memory,
          values =
            plan.transforms.ready memory
              (mergeState p.close.value.allBlocks))
  stamped : t.Stamped

section Ends

variable {messageId : String} {target : Target} {limits : Limits}
  {scope : RunScope} {text : String}

/- The blocks of the text are recorded with the message. -/
theorem Ended.recorded
    {p : Splitter}
    {outcome : Outcome}
    (hEnded :
      Ended plan messageId target limits scope text p outcome t) :
    outcome.message.recordedBlocks =
      some p.close.value.allBlocks := by
  rw [hEnded.outcome]
  rfl

/- The end of an answer sends its final events. -/
theorem Talking.finish
    (hTalking : Talking messageId target limits scope text s)
    (plan : Plan σ) :
    ∃ outcome t,
      Session.finish plan s = .ok outcome t ∧
      Ended plan messageId target limits scope text
        s.streamer.splitter outcome t := by
  let blocks := s.streamer.splitter.close.value.allBlocks
  rcases emitFinalTexts_tells (s := s.closed) plan
      (blocks.filter fun b => b.kind == .text)
      hTalking.room with
    ⟨told, hTexts, hFirst⟩
  rcases emitFinals_sends plan
      (blocks.filter fun b => b.kind == .structured)
      hFirst.room with
    ⟨shown, values, hFinals, hSecond, hText, hReady⟩
  rcases leave_eq plan blocks shown with ⟨notes, hLeave⟩
  have hFinish :=
    (finish_of_parts hTexts hFinals).trans hLeave
  have hTarget : told.streamer.target = target :=
    hFirst.target.trans hTalking.target
  have hScope : told.scope = scope :=
    hFirst.scope.trans hTalking.scope
  rw [hTarget] at hSecond
  rw [hScope, mergeState_fences] at hReady
  have hBoth := hFirst.toSends.trans hSecond
  refine ⟨_, _, hFinish, hTalking.splitter, ?_, ?_, ?_⟩
  · have hId : shown.streamer.messageId = messageId :=
      hBoth.messageId.trans hTalking.messageId
    have hRaw : shown.streamer.rawText = text :=
      (hText.trans hFirst.rawText).trans hTalking.rawText
    rw [hId, hRaw]
  · exact ⟨s.sent, values, hBoth.sent, hTalking.foretold, hReady⟩
  · have hStamped :=
      hBoth.stamped (hTalking.stamped.of_same rfl rfl)
    exact hStamped.of_same rfl rfl

/-
  A stream whose outlet takes any number of events fails where
  the splitter fails on its text, and otherwise ends.
-/
theorem run_of_unbounded
    (plan : Plan σ)
    (messageId : String)
    (target : Target)
    (limits : Limits)
    (path : Option String)
    (scope : RunScope)
    (memory : σ)
    (chunks : List String) :
    let begun : Session σ :=
      start (.start messageId target limits path) .unbounded
        scope memory
    let whole :=
      (Splitter.start messageId limits).run
        (String.join chunks).toList
    (∃ t cause, whole.failure = some cause ∧
      run plan chunks begun = .error (.overflow cause) t) ∨
    ∃ outcome t, run plan chunks begun = .ok outcome t ∧
      Ended plan messageId target limits scope
        (String.join chunks) whole.splitter outcome t := by
  intro begun whole
  let noted : Session σ :=
    { begun with
      notes := begun.notes.push <| Note.debug "stream started"
        [("message_id", messageId), ("target", target.label)] }
  have hStart : Talking messageId target limits scope "" noted :=
    (Talking.of_start messageId target limits path scope
      memory).of_notes _
  let abort (e : StreamError) : Step σ Unit := do
    say <| Note.warn "stream aborted"
      [("message_id", messageId), ("error", e.message)]
    throw e
  have hRun :
      run plan chunks begun =
        (tryCatch (pushAll plan chunks) abort >>=
          fun _ => finish plan) noted :=
    rfl
  have hPushes := hStart.pushAll plan chunks
  rw [String.empty_append] at hPushes
  rw [hRun]
  rcases hPushes with
    ⟨t, cause, hFailure, hPush⟩ | ⟨t, hPush, hTalking⟩
  · have hCaught := tryCatch_of_error hPush abort
    exact .inl ⟨_, cause, hFailure, bind_of_error hCaught _⟩
  · rcases hTalking.finish plan with
      ⟨outcome, last, hFinish, hEnded⟩
    have hWhole : whole.splitter = t.streamer.splitter :=
      congrArg Splitter.Result.splitter hTalking.splitter
    rw [hWhole]
    exact
      .inr ⟨outcome, last,
        (bind_of_ok (tryCatch_of_ok hPush _) _).trans hFinish,
        hEnded⟩

/- A stream that ends well ended behind a tidy splitter. -/
theorem ended_of_run
    {path : Option String}
    {memory : σ}
    {chunks : List String}
    {outcome : Outcome}
    {t : Session σ}
    (hRun :
      run plan chunks
        (start (.start messageId target limits path) .unbounded
          scope memory) = .ok outcome t) :
    ∃ p read, p.Tidy read ∧
      Ended plan messageId target limits scope
        (String.join chunks) p outcome t := by
  rcases run_of_unbounded plan messageId target limits path
      scope memory chunks with
    ⟨_, _, _, hFails⟩ | ⟨_, _, hEnds, hEnded⟩
  · rw [hRun] at hFails
    cases hFails
  · rw [hRun] at hEnds
    cases hEnds
    rcases Splitter.run_keeps_fences
        (Splitter.tidy_start messageId limits)
        hEnded.splitter with
      ⟨⟨read, hTidy⟩, _⟩
    exact ⟨_, read, hTidy, hEnded⟩

end Ends

end Session

end AnswerStream
