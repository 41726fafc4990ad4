import AnswerStream.Proofs.State.Ready
import AnswerStream.Proofs.Streamer.Underway

/-
  This file proves what the steps of a session do if its outlet
  takes any number of events: they cannot fail, and what they
  send between chunks are previews, which leave the text and
  the scope of the session alone.

  Key definitions include:
    * `Session.Tells`

  Each step is described by:
    * `Session.emitTexts_tells`
    * `Session.emitMembers_tells`
    * `Session.emitFence_tells`
    * `Session.emitFinalTexts_tells`
    * `Session.emitFinalFences_tells`
    * `Session.emitFinalMembers_sends`
-/

namespace AnswerStream

open Json

namespace Session

variable {σ α β : Type} {plan : Plan σ} {r s t : Session σ}

------------------------------------------------------------
-- Steps in a Row
------------------------------------------------------------

/- A step goes on with what the one before it gives. -/
theorem bind_of_ok
    {x : Step σ α}
    {a : α}
    (hOk : x s = .ok a t)
    (f : α → Step σ β) :
    (x >>= f) s = f a t := by
  change EStateM.bind x f s = _
  unfold EStateM.bind
  rw [hOk]

/- Nothing is done behind a step that fails. -/
theorem bind_of_error
    {x : Step σ α}
    {e : StreamError}
    (hError : x s = .error e t)
    (f : α → Step σ β) :
    (x >>= f) s = .error e t := by
  change EStateM.bind x f s = _
  unfold EStateM.bind
  rw [hError]

/- Nothing is caught of a step that succeeds. -/
theorem tryCatch_of_ok
    {x : Step σ α}
    {a : α}
    (hOk : x s = .ok a t)
    (f : StreamError → Step σ α) :
    (tryCatch x f) s = .ok a t := by
  change EStateM.tryCatch x f s = _
  unfold EStateM.tryCatch
  rw [hOk]

/- The failure of a step is caught with what the step did. -/
theorem tryCatch_of_error
    {x : Step σ α}
    {e : StreamError}
    (hError : x s = .error e t)
    (f : StreamError → Step σ α) :
    (tryCatch x f) s = f e t := by
  change EStateM.tryCatch x f s = _
  unfold EStateM.tryCatch
  rw [hError]
  rfl

/- A step may begin with a look. -/
theorem bind_get
    (f : Session σ → Step σ β)
    (s : Session σ) :
    (get >>= f) s = f s s :=
  rfl

------------------------------------------------------------
-- Telling
------------------------------------------------------------

/-
  A session with an outlet that takes any number of events
  sends contents, and neither its text nor its scope changes.
-/
structure Tells
    (s t : Session σ)
    (cs : List Content) : Prop extends Sends s t cs where
  rawText : t.streamer.rawText = s.streamer.rawText
  scope : t.scope = s.scope
  room : t.outlet.room = none

namespace Tells

variable {cs ds : List Content}

theorem refl (hOpen : s.outlet.room = none) : Tells s s [] where
  toSends := .refl s
  rawText := rfl
  scope := rfl
  room := hOpen

theorem trans
    (hFirst : Tells r s cs)
    (hSecond : Tells s t ds) :
    Tells r t (cs ++ ds) where
  toSends := hFirst.toSends.trans hSecond.toSends
  rawText := hSecond.rawText.trans hFirst.rawText
  scope := hSecond.scope.trans hFirst.scope
  room := hSecond.room

/- As for what is sent, the rest of the session is no matter. -/
theorem of_remembered
    {blocks keys : Table String String}
    {memory : σ}
    {notes : Array Note}
    (hTells :
      Tells
        { s with
          streamer :=
            { s.streamer with
              sentBlocks := blocks, sentKeys := keys }
          memory := memory
          notes := notes }
        t cs) :
    Tells s t cs where
  toSends := hTells.toSends.of_remembered
  rawText := hTells.rawText
  scope := hTells.scope
  room := hTells.room

end Tells

/- An event goes out. -/
theorem emit_tells
    (plan : Plan σ)
    (content : Content)
    (hOpen : s.outlet.room = none) :
    ∃ t, emit plan content s = .ok () t ∧
      Tells s t [content] := by
  have hOk : ∃ t, emit plan content s = .ok () t ∧
      t.streamer.rawText = s.streamer.rawText ∧
      t.scope = s.scope ∧ t.outlet.room = none := by
    unfold emit
    dsimp only
    rw [accept?_of_endless hOpen]
    exact ⟨_, rfl, rfl, rfl, rfl⟩
  rcases hOk with ⟨t, hEmit, hText, hScope, hRoom⟩
  exact ⟨t, hEmit, ⟨(emit_sends hEmit).1, hText, hScope, hRoom⟩⟩

------------------------------------------------------------
-- Previews
------------------------------------------------------------

/- An event goes out for a block that looks different. -/
theorem emitBlock_tells
    (plan : Plan σ)
    (blockId : String)
    (v : Value)
    (content : Content)
    (hOpen : s.outlet.room = none) :
    ∃ t cs, emitBlock plan blockId v content s = .ok () t ∧
      Tells s t cs ∧ ∀ c ∈ cs, c = content := by
  unfold emitBlock
  rw [bind_get]
  cases refresh s.streamer.sentBlocks blockId v with
  | none => exact ⟨s, [], rfl, .refl hOpen, by simp⟩
  | some sent =>
      let next : Session σ :=
        { s with
          streamer := { s.streamer with sentBlocks := sent } }
      rcases emit_tells (s := next) plan content hOpen with
        ⟨t, hEmit, hTells⟩
      exact ⟨t, [content], hEmit, hTells.of_remembered, by simp⟩

/- An event goes out for a state key that looks different. -/
theorem emitKey_tells
    (plan : Plan σ)
    (key : String)
    (v : Value)
    (hOpen : s.outlet.room = none) :
    ∃ t cs, emitKey plan key v s = .ok () t ∧
      Tells s t cs ∧ ∀ c ∈ cs, c = .stateStreaming key v := by
  unfold emitKey
  rw [bind_get]
  cases refresh s.streamer.sentKeys key v with
  | none => exact ⟨s, [], rfl, .refl hOpen, by simp⟩
  | some sent =>
      let next : Session σ :=
        { s with
          streamer := { s.streamer with sentKeys := sent } }
      rcases emit_tells (s := next) plan (.stateStreaming key v)
          hOpen with
        ⟨t, hEmit, hTells⟩
      exact ⟨t, _, hEmit, hTells.of_remembered, by simp⟩

/- What goes out for blocks of prose are their previews. -/
theorem emitTexts_tells
    (plan : Plan σ)
    (bs : List Block)
    (hOpen : s.outlet.room = none) :
    ∃ t cs, emitTexts plan bs s = .ok () t ∧
      Tells s t cs ∧ ∀ c ∈ cs, c ∈ bs.map textPreview := by
  induction bs generalizing s with
  | nil => exact ⟨s, [], rfl, .refl hOpen, by simp⟩
  | cons b rest ih =>
      rcases emitBlock_tells plan b.id (.string b.textOrEmpty)
          (textPreview b) hOpen with
        ⟨r, cs, hHere, hFirst, hOnly⟩
      rcases ih hFirst.room with ⟨t, ds, hRest, hSecond, hAll⟩
      refine ⟨t, cs ++ ds, ?_, hFirst.trans hSecond, ?_⟩
      · exact (bind_of_ok hHere _).trans hRest
      · intro c hMember
        rcases List.mem_append.mp hMember with hOld | hNew
        · simp [hOnly c hOld]
        · exact List.mem_cons_of_mem _ (hAll c hNew)

/- A member that is ready has its value go out first. -/
theorem emitMembers_of_ready
    {key : String}
    {v output : Value}
    (hReady :
      (plan.transforms.apply key v s.memory).1 = .ok output)
    (rest : Members) :
    emitMembers plan ((key, v) :: rest) s =
      (emitKey plan key output >>= fun _ =>
          emitMembers plan rest)
        { s with
          memory := (plan.transforms.apply key v s.memory).2 } := by
  rw [emitMembers, bind_get]
  generalize plan.transforms.apply key v s.memory = applied
    at hReady ⊢
  rcases applied with ⟨result, memory⟩
  cases hReady
  rfl

/- A member that is not ready is noted and skipped. -/
theorem emitMembers_of_unready
    {key : String}
    {v : Value}
    {e : TransformError}
    (hUnready :
      (plan.transforms.apply key v s.memory).1 = .error e)
    (rest : Members) :
    emitMembers plan ((key, v) :: rest) s =
      (say (Note.debug "transform not ready, key skipped"
            [("key", key), ("error", e.message)]) >>= fun _ =>
          emitMembers plan rest)
        { s with
          memory := (plan.transforms.apply key v s.memory).2 } := by
  rw [emitMembers, bind_get]
  generalize plan.transforms.apply key v s.memory = applied
    at hUnready ⊢
  rcases applied with ⟨result, memory⟩
  cases hUnready
  rfl

/- What goes out for members are values of their keys. -/
theorem emitMembers_tells
    (plan : Plan σ)
    (ms : Members)
    (hOpen : s.outlet.room = none) :
    ∃ t cs, emitMembers plan ms s = .ok () t ∧
      Tells s t cs ∧
      ∀ c ∈ cs, ∃ key v, c = .stateStreaming key v := by
  induction ms generalizing s with
  | nil => exact ⟨s, [], rfl, .refl hOpen, by simp⟩
  | cons m rest ih =>
      rcases m with ⟨key, v⟩
      cases hApplied :
          (plan.transforms.apply key v s.memory).1 with
      | ok output =>
          rw [emitMembers_of_ready hApplied]
          let next : Session σ :=
            { s with
              memory :=
                (plan.transforms.apply key v s.memory).2 }
          rcases emitKey_tells (s := next) plan key output
              hOpen with
            ⟨r, cs, hHere, hFirst, hOnly⟩
          rcases ih hFirst.room with
            ⟨t, ds, hRest, hSecond, hAll⟩
          refine
            ⟨t, cs ++ ds, (bind_of_ok hHere _).trans hRest,
              (hFirst.trans hSecond).of_remembered, ?_⟩
          intro c hMember
          rcases List.mem_append.mp hMember with hOld | hNew
          · exact ⟨key, output, hOnly c hOld⟩
          · exact hAll c hNew
      | error e =>
          rw [emitMembers_of_unready hApplied]
          let noted : Session σ :=
            { s with
              memory := (plan.transforms.apply key v s.memory).2
              notes :=
                s.notes.push <| Note.debug
                  "transform not ready, key skipped"
                  [("key", key), ("error", e.message)] }
          rcases ih (s := noted) hOpen with
            ⟨t, ds, hRest, hTells, hAll⟩
          exact ⟨t, ds, hRest, hTells.of_remembered, hAll⟩

/-
  What goes out for the open fence is a preview of its block, or
  values of state keys, as the target asks for.
-/
theorem emitFence_tells
    (plan : Plan σ)
    (hOpen : s.outlet.room = none) :
    let p := s.streamer.splitter
    ∃ t cs, emitFence plan s = .ok () t ∧
      Tells s t cs ∧
      ∀ c ∈ cs,
        (s.streamer.target = .messages ∧
          ∃ v, p.partialValue? = some v ∧
            c =
              .structured p.pendingStructuredId p.nextIndex
                (some v) none false) ∨
        (s.streamer.target = .state ∧
          ∃ key v, c = .stateStreaming key v) := by
  intro p
  unfold emitFence
  rw [bind_get]
  cases hValue : p.partialValue? with
  | none => exact ⟨s, [], rfl, .refl hOpen, by simp⟩
  | some v =>
      cases hTarget : s.streamer.target with
      | state =>
          cases v with
          | object members =>
              rcases emitMembers_tells plan members hOpen with
                ⟨t, cs, hOk, hTells, hAll⟩
              exact
                ⟨t, cs, hOk, hTells,
                  fun c hMember => .inr ⟨rfl, hAll c hMember⟩⟩
          | _ =>
              exact
                ⟨_, [], rfl,
                  Tells.of_remembered (Tells.refl hOpen), by simp⟩
      | messages =>
          rcases emitBlock_tells plan p.pendingStructuredId v
              (.structured p.pendingStructuredId p.nextIndex
                (some v) none false) hOpen with
            ⟨t, cs, hOk, hTells, hOnly⟩
          exact
            ⟨t, cs, hOk, hTells,
              fun c hMember =>
                .inl ⟨rfl, v, rfl, hOnly c hMember⟩⟩

------------------------------------------------------------
-- Final Events
------------------------------------------------------------

/- The last contents of all blocks of prose go out. -/
theorem emitFinalTexts_tells
    (plan : Plan σ)
    (bs : List Block)
    (hOpen : s.outlet.room = none) :
    ∃ t, emitFinalTexts plan bs s = .ok () t ∧
      Tells s t
        (bs.map fun b =>
          .text b.id b.index b.textOrEmpty true) := by
  induction bs generalizing s with
  | nil => exact ⟨s, rfl, .refl hOpen⟩
  | cons b rest ih =>
      rcases emit_tells plan
          (.text b.id b.index b.textOrEmpty true) hOpen with
        ⟨r, hHere, hFirst⟩
      rcases ih hFirst.room with ⟨t, hRest, hSecond⟩
      exact
        ⟨t, (bind_of_ok hHere _).trans hRest,
          hFirst.trans hSecond⟩

/- The last contents of all fences go out. -/
theorem emitFinalFences_tells
    (plan : Plan σ)
    (bs : List Block)
    (hOpen : s.outlet.room = none) :
    ∃ t, emitFinalFences plan bs s = .ok () t ∧
      Tells s t
        (bs.map fun b =>
          .structured b.id b.index b.data b.sourceText
            true) := by
  induction bs generalizing s with
  | nil => exact ⟨s, rfl, .refl hOpen⟩
  | cons b rest ih =>
      rcases emit_tells plan
          (.structured b.id b.index b.data b.sourceText true)
          hOpen with
        ⟨r, hHere, hFirst⟩
      rcases ih hFirst.room with ⟨t, hRest, hSecond⟩
      exact
        ⟨t, (bind_of_ok hHere _).trans hRest,
          hFirst.trans hSecond⟩

/- A session behind a transform in the scope of the run. -/
def transformed
    (s : Session σ)
    (plan : Plan σ)
    (key : String)
    (v : Value) : Session σ :=
  let done :=
    s.scope.transform plan.transforms s.streamer.messageId key v
      s.memory
  { s with scope := done.scope, memory := done.memory }

/- A member that is ready has its last value go out first. -/
theorem emitFinalMembers_of_ready
    {key : String}
    {v output : Value}
    (hReady :
      (s.scope.transform plan.transforms s.streamer.messageId key
        v s.memory).result = .ok output)
    (rest : Members) :
    emitFinalMembers plan ((key, v) :: rest) s =
      (emit plan (.stateFinal key output) >>= fun _ =>
          emitFinalMembers plan rest)
        (s.transformed plan key v) := by
  have hAsked :
      transformInScope plan key v s =
        .ok (.ok output) (s.transformed plan key v) := by
    rw [← hReady]
    rfl
  rw [emitFinalMembers]
  exact bind_of_ok hAsked _

/- A member that is not ready is noted and skipped. -/
theorem emitFinalMembers_of_unready
    {key : String}
    {v : Value}
    {e : TransformError}
    (hUnready :
      (s.scope.transform plan.transforms s.streamer.messageId key
        v s.memory).result = .error e)
    (rest : Members) :
    emitFinalMembers plan ((key, v) :: rest) s =
      (say (Note.debug "final transform failed, key skipped"
            [("key", key), ("error", e.message)]) >>= fun _ =>
          emitFinalMembers plan rest)
        (s.transformed plan key v) := by
  have hAsked :
      transformInScope plan key v s =
        .ok (.error e) (s.transformed plan key v) := by
    rw [← hUnready]
    rfl
  rw [emitFinalMembers]
  exact bind_of_ok hAsked _

/-
  Last values of state keys go out. If the transforms are pure
  and the scope has not seen the keys, then they are the values
  that are ready.
-/
theorem emitFinalMembers_sends
    (plan : Plan σ)
    (ms : Members)
    (hOpen : s.outlet.room = none) :
    ∃ t values, emitFinalMembers plan ms s = .ok () t ∧
      Sends s t (values.map fun m => .stateFinal m.1 m.2) ∧
      t.streamer.rawText = s.streamer.rawText ∧
      (plan.transforms.Pure →
        s.scope.Unseen (ms.map Prod.fst) →
        (ms.map Prod.fst).Nodup →
        ∀ memory, values = plan.transforms.ready memory ms) := by
  induction ms generalizing s with
  | nil =>
      exact ⟨s, [], rfl, .refl s, rfl, fun _ _ _ _ => rfl⟩
  | cons m rest ih =>
      rcases m with ⟨key, v⟩
      let done :=
        s.scope.transform plan.transforms s.streamer.messageId
          key v s.memory
      have hReady :
          plan.transforms.Pure →
          s.scope.Unseen (((key, v) :: rest).map Prod.fst) →
          (((key, v) :: rest).map Prod.fst).Nodup →
          (∀ memory,
            (plan.transforms.apply key v memory).1 =
              done.result) ∧
            done.scope.Unseen (rest.map Prod.fst) ∧
            (rest.map Prod.fst).Nodup := by
        intro hPure hUnseen hDistinct
        rcases RunScope.transform_of_unseen hUnseen hDistinct
            plan.transforms s.streamer.messageId v s.memory with
          ⟨hResult, hRest⟩
        refine ⟨fun memory => ?_, hRest, ?_⟩
        · exact (hPure key v memory s.memory).trans hResult.symm
        · exact (List.nodup_cons.mp hDistinct).2
      let next := s.transformed plan key v
      cases hResult : done.result with
      | ok output =>
          rw [emitFinalMembers_of_ready hResult]
          rcases emit_tells (s := next) plan
              (.stateFinal key output) hOpen with
            ⟨r, hHere, hFirst⟩
          rcases ih hFirst.room with
            ⟨t, values, hRest, hSends, hText, hAll⟩
          refine
            ⟨t, (key, output) :: values,
              (bind_of_ok hHere _).trans hRest, ?_,
              hText.trans hFirst.rawText, ?_⟩
          · exact (hFirst.toSends.trans hSends).of_remembered
          · intro hPure hUnseen hDistinct memory
            rcases hReady hPure hUnseen hDistinct with
              ⟨hHere, hScope, hLater⟩
            rw [KeyTransforms.ready_cons_of_ok
              ((hHere memory).trans hResult)]
            have hUnseen : r.scope.Unseen (rest.map Prod.fst) := by
              rw [hFirst.scope]
              exact hScope
            rw [hAll hPure hUnseen hLater memory]
      | error e =>
          rw [emitFinalMembers_of_unready hResult]
          let noted : Session σ :=
            { next with
              notes := next.notes.push <| Note.debug
                "final transform failed, key skipped"
                [("key", key), ("error", e.message)] }
          rcases ih (s := noted) hOpen with
            ⟨t, values, hRest, hSends, hText, hAll⟩
          refine
            ⟨t, values, hRest, hSends.of_remembered, hText, ?_⟩
          intro hPure hUnseen hDistinct memory
          rcases hReady hPure hUnseen hDistinct with
            ⟨hHere, hScope, hLater⟩
          rw [KeyTransforms.ready_cons_of_error
            ((hHere memory).trans hResult)]
          exact hAll hPure hScope hLater memory

end Session

end AnswerStream
