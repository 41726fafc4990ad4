import AnswerStream.Proofs.Processor.Keys
import AnswerStream.Proofs.State.Remembered
import AnswerStream.Proofs.Streamer.Talking

/-
  This file proves that the final values of a stream are made
  once. Between chunks a stream asks transforms beside its
  scope, and sends no final value; at the end each final value
  is remembered for the member of which it was made. These
  members are found again in the recorded message, so that its
  final state has the values that were sent, in any scope that
  remembers what this one does, and whatever became of the
  transforms.

  Key definitions include:
    * `Session.Leads`
    * `Session.Spares`
    * `Session.Collecting`
    * `Session.Makes`
    * `Session.Recalled`
    * `Session.FinalsRecalled`

  Main statements:
    * `Session.spares_look`
    * `Session.pushAll_induction`
    * `Session.Collecting.pushAll`
    * `Session.ok_of_emitFinalMembers`
    * `Session.Collecting.finish`
    * `Session.Recalled.finals`
    * `final_values_are_made_once`
-/

namespace AnswerStream

open Json

namespace Session

variable {σ α β : Type} {plan : Plan σ} {r s t : Session σ}

------------------------------------------------------------
-- Steps Beside the Scope
------------------------------------------------------------

/-
  A session leads to another one beside its scope: the text and
  the scope stay as they are, and no final value is sent.
-/
structure Leads (s t : Session σ) : Prop where
  splitter : t.streamer.splitter = s.streamer.splitter
  target : t.streamer.target = s.streamer.target
  messageId : t.streamer.messageId = s.streamer.messageId
  scope : t.scope = s.scope
  finals : finalMembers t.sent = finalMembers s.sent

theorem Leads.refl (s : Session σ) : Leads s s :=
  ⟨rfl, rfl, rfl, rfl, rfl⟩

theorem Leads.trans
    (hFirst : Leads r s)
    (hSecond : Leads s t) :
    Leads r t where
  splitter := hSecond.splitter.trans hFirst.splitter
  target := hSecond.target.trans hFirst.target
  messageId := hSecond.messageId.trans hFirst.messageId
  scope := hSecond.scope.trans hFirst.scope
  finals := hSecond.finals.trans hFirst.finals

/- What is remembered of events is no matter, nor the notes. -/
theorem leads_beside
    (s : Session σ)
    (announced : Nat)
    (blocks keys : Table String String)
    (memory : σ)
    (notes : Array Note) :
    Leads s
      { s with
        streamer :=
          { s.streamer with
            announced := announced
            sentBlocks := blocks
            sentKeys := keys }
        memory := memory
        notes := notes } :=
  ⟨rfl, rfl, rfl, rfl, rfl⟩

theorem leads_notes
    (s : Session σ)
    (notes : Array Note) :
    Leads s { s with notes := notes } :=
  ⟨rfl, rfl, rfl, rfl, rfl⟩

/- A step that spares the scope wherever it ends well. -/
def Spares (x : Step σ α) : Prop :=
  ∀ s a t, x s = .ok a t → Leads s t

theorem spares_pure (a : α) : Spares (pure a : Step σ α) := by
  intro s b t hOk
  cases hOk
  exact .refl s

/- Steps in a row spare the scope if each of them does. -/
theorem Spares.bind
    {x : Step σ α}
    {f : α → Step σ β}
    (hFirst : Spares x)
    (hNext : ∀ a, Spares (f a)) :
    Spares (x >>= f) := by
  intro s b t hOk
  rcases ok_of_bind hOk with ⟨a, r, hHere, hRest⟩
  exact (hFirst s a r hHere).trans (hNext a r b t hRest)

/- A look does not matter. -/
theorem Spares.look
    {f : Session σ → Step σ β}
    (hNext : ∀ s, Spares (f s)) :
    Spares (get >>= f) := by
  intro s b t hOk
  exact hNext s s b t (ok_of_get hOk)

/- A change that leads on, and what comes behind it. -/
theorem Spares.alter
    {f : Session σ → Session σ}
    {x : Step σ β}
    (hLeads : ∀ s, Leads s (f s))
    (hNext : Spares x) :
    Spares (modify f >>= fun _ => x) := by
  intro s b t hOk
  rcases ok_of_bind hOk with ⟨_, r, hHere, hRest⟩
  cases hHere
  exact (hLeads s).trans (hNext _ b t hRest)

theorem spares_say (note : Note) : Spares (say note : Step σ _) := by
  intro s _ t hOk
  cases hOk
  exact leads_beside s _ _ _ _ _

/- The scope is no matter to an event that goes out. -/
theorem scope_of_emit
    {content : Content}
    (hOk : emit plan content s = .ok () t) :
    t.scope = s.scope := by
  unfold emit at hOk
  dsimp only at hOk
  split at hOk
  · cases hOk
    rfl
  · cases hOk

/- An event that has no final value goes out. -/
theorem spares_emit
    {content : Content}
    (hNone : finalMembers [content] = []) :
    Spares (emit plan content) := by
  intro s _ t hOk
  have hSends := (emit_sends hOk).1
  have hFinals :
      finalMembers t.sent = finalMembers s.sent := by
    rw [hSends.sent, finalMembers_append, hNone,
      List.append_nil]
  exact
    ⟨hSends.splitter, hSends.target, hSends.messageId,
      scope_of_emit hOk, hFinals⟩

------------------------------------------------------------
-- Previews
------------------------------------------------------------

theorem spares_emitBlock
    (plan : Plan σ)
    (blockId : String)
    (v : Value)
    {content : Content}
    (hNone : finalMembers [content] = []) :
    Spares (emitBlock plan blockId v content) := by
  refine .look fun s => ?_
  split
  · exact spares_pure ()
  · exact
      .alter (fun s => leads_beside s _ _ _ _ _)
        (spares_emit hNone)

theorem spares_emitKey
    (plan : Plan σ)
    (key : String)
    (v : Value) :
    Spares (emitKey plan key v) := by
  refine .look fun s => ?_
  split
  · exact spares_pure ()
  · exact
      .alter (fun s => leads_beside s _ _ _ _ _)
        (spares_emit rfl)

theorem spares_emitTexts
    (plan : Plan σ)
    (bs : List Block) :
    Spares (emitTexts plan bs) := by
  induction bs with
  | nil => exact spares_pure ()
  | cons b rest ih =>
      exact (spares_emitBlock plan _ _ rfl).bind fun _ => ih

theorem spares_emitTextUpdates (plan : Plan σ) :
    Spares (emitTextUpdates plan) := by
  refine .look fun s => ?_
  exact
    .alter (fun s => leads_beside s _ _ _ _ _)
      (spares_emitTexts plan _)

/- Transforms are asked beside the scope between chunks. -/
theorem spares_emitMembers
    (plan : Plan σ)
    (ms : Members) :
    Spares (emitMembers plan ms) := by
  induction ms with
  | nil => exact spares_pure ()
  | cons m rest ih =>
      rcases m with ⟨key, v⟩
      refine .look fun s => ?_
      refine .alter (fun s => leads_beside s _ _ _ _ _) ?_
      split
      · exact (spares_emitKey plan key _).bind fun _ => ih
      · exact (spares_say _).bind fun _ => ih

/- What goes out for the open fence is not final. -/
theorem spares_emitFence (plan : Plan σ) :
    Spares (emitFence plan) := by
  refine .look fun s => ?_
  dsimp only
  split
  · exact spares_pure ()
  · next v hValue =>
    split
    · unfold emitStatePartial
      split
      · exact spares_emitMembers plan _
      · exact spares_say _
    · exact .look fun s => spares_emitBlock plan _ _ rfl

/- So is what goes out for a look behind a chunk. -/
theorem spares_look (plan : Plan σ) :
    Spares
      (emitTextUpdates plan >>= fun _ => emitFence plan) :=
  (spares_emitTextUpdates plan).bind fun _ =>
    spares_emitFence plan

theorem spares_emitFinalTexts
    (plan : Plan σ)
    (bs : List Block) :
    Spares (emitFinalTexts plan bs) := by
  induction bs with
  | nil => exact spares_pure ()
  | cons b rest ih =>
      exact (spares_emit rfl).bind fun _ => ih

------------------------------------------------------------
-- Sessions Between Chunks
------------------------------------------------------------

/- What each chunk keeps is kept by all of them. -/
theorem pushAll_induction
    {P : Session σ → Prop}
    {chunks : List String}
    (hPush :
      ∀ chunk r t, P r → push plan chunk r = .ok () t → P t)
    (hStart : P s)
    (hOk : pushAll plan chunks s = .ok () t) :
    P t := by
  induction chunks generalizing s with
  | nil =>
      cases hOk
      exact hStart
  | cons chunk rest ih =>
      rcases ok_of_bind hOk with ⟨_, r, hHere, hRest⟩
      exact ih (hPush chunk s r hStart hHere) hRest

/-
  A session for state values between chunks: its splitter is
  tidy, its scope is the one that it began with, and no final
  value was sent.
-/
structure Collecting
    (messageId : String)
    (scope : RunScope)
    (s : Session σ) : Prop where
  tidy : ∃ read, s.streamer.splitter.Tidy read
  target : s.streamer.target = .state
  messageId : s.streamer.messageId = messageId
  scope : s.scope = scope
  finals : finalMembers s.sent = []

namespace Collecting

variable {messageId : String} {scope : RunScope}

theorem of_start
    (messageId : String)
    (limits : Limits)
    (path : Option String)
    (room : Option Nat)
    (scope : RunScope)
    (memory : σ) :
    Collecting messageId scope
      (start (.start messageId .state limits path)
        (.ofRoom room) scope memory) where
  tidy := ⟨_, Splitter.tidy_start messageId limits⟩
  target := rfl
  messageId := rfl
  scope := rfl
  finals := rfl

/- It goes on beside the scope. -/
theorem leads
    (hCollecting : Collecting messageId scope s)
    (hLeads : Leads s t) :
    Collecting messageId scope t where
  tidy := hLeads.splitter ▸ hCollecting.tidy
  target := hLeads.target.trans hCollecting.target
  messageId := hLeads.messageId.trans hCollecting.messageId
  scope := hLeads.scope.trans hCollecting.scope
  finals := hLeads.finals.trans hCollecting.finals

/- A chunk is taken in. -/
theorem take
    {chunk : String}
    (hCollecting : Collecting messageId scope s)
    (hOk : Session.take chunk s = .ok () t) :
    Collecting messageId scope t := by
  rcases take_eq chunk s with
    ⟨r, hTake, hStreamer, hOutlet, hScope⟩
  rw [hOk] at hTake
  cases hFailure :
      (s.streamer.splitter.run chunk.toList).failure with
  | some cause =>
      rw [hFailure] at hTake
      cases hTake
  | none =>
      rw [hFailure] at hTake
      cases hTake
      rcases hCollecting.tidy with ⟨read, hTidy⟩
      have hRun :
          s.streamer.splitter.run chunk.toList =
            .ok t.streamer.splitter := by
        simp [Splitter.Result.ok, hStreamer, ← hFailure]
      have hSent : t.sent = s.sent := by
        unfold sent
        rw [hOutlet]
      refine
        ⟨(Splitter.run_keeps_fences hTidy hRun).1, ?_, ?_,
          hScope.trans hCollecting.scope, ?_⟩
      · rw [hStreamer]
        exact hCollecting.target
      · rw [hStreamer]
        exact hCollecting.messageId
      · rw [hSent]
        exact hCollecting.finals

/- And what goes out for it is not final. -/
theorem push
    {chunk : String}
    (hCollecting : Collecting messageId scope s)
    (hOk : Session.push plan chunk s = .ok () t) :
    Collecting messageId scope t := by
  rw [push_eq] at hOk
  rcases ok_of_bind hOk with ⟨_, r, hTake, hLook⟩
  exact
    (hCollecting.take hTake).leads
      (spares_look plan r () t hLook)

theorem pushAll
    {chunks : List String}
    (hCollecting : Collecting messageId scope s)
    (hOk : Session.pushAll plan chunks s = .ok () t) :
    Collecting messageId scope t :=
  pushAll_induction (fun _ _ _ hHere hPush => hHere.push hPush)
    hCollecting hOk

end Collecting

------------------------------------------------------------
-- Final Values
------------------------------------------------------------

/-
  Final values go out that are remembered for members of their
  keys, and nothing that was remembered changes.
-/
structure Makes
    (ms : Members)
    (s t : Session σ)
    (values : Members) : Prop where
  finals : finalMembers t.sent = finalMembers s.sent ++ values
  messageId : t.streamer.messageId = s.streamer.messageId
  keeps : s.scope.Keeps t.scope
  known :
    ∀ x ∈ values, ∃ v, (x.1, v) ∈ ms ∧
      t.scope.known?
        (.ofInput s.streamer.messageId x.1 v) = some x.2

namespace Makes

variable {ms ns values later : Members}

theorem refl (s : Session σ) : Makes ms s s [] where
  finals := (List.append_nil _).symm
  messageId := rfl
  keeps := .refl s.scope
  known := nofun

/- What is remembered first is kept by what comes behind. -/
theorem trans
    (hFirst : Makes ms r s values)
    (hSecond : Makes ms s t later) :
    Makes ms r t (values ++ later) where
  finals := by
    rw [hSecond.finals, hFirst.finals, List.append_assoc]
  messageId := hSecond.messageId.trans hFirst.messageId
  keeps := hFirst.keeps.trans hSecond.keeps
  known := by
    intro x hMember
    rcases List.mem_append.mp hMember with hOld | hNew
    · rcases hFirst.known x hOld with ⟨v, hThere, hKnown⟩
      exact ⟨v, hThere, hSecond.keeps _ _ hKnown⟩
    · rw [← hFirst.messageId]
      exact hSecond.known x hNew

/- There may be more members. -/
theorem mono
    (hMakes : Makes ms s t values)
    (hSub : ∀ m ∈ ms, m ∈ ns) :
    Makes ns s t values :=
  { hMakes with
    known := fun x hMember => by
      rcases hMakes.known x hMember with ⟨v, hThere, hKnown⟩
      exact ⟨v, hSub _ hThere, hKnown⟩ }

end Makes

/- The value of a member goes out, or the member is skipped. -/
theorem ok_of_emitFinalMembers_cons
    {key : String}
    {v : Value}
    {rest : Members}
    (hOk : emitFinalMembers plan ((key, v) :: rest) s = .ok () t) :
    ∃ r values,
      Makes [(key, v)] s r values ∧
        emitFinalMembers plan rest r = .ok () t := by
  let request : Request σ :=
    ⟨s.streamer.messageId, key, v, s.memory⟩
  let done := s.scope.answer plan.transforms request
  let next := s.transformed plan key v
  have hKeeps : s.scope.Keeps next.scope :=
    RunScope.keeps_answer s.scope plan.transforms request
  cases hResult : done.result with
  | error e =>
      rw [emitFinalMembers_of_unready hResult] at hOk
      rcases ok_of_bind hOk with ⟨_, noted, hSay, hRest⟩
      have hLeads := spares_say _ next _ noted hSay
      have hFinals := hLeads.finals.trans (List.append_nil _).symm
      have hLater : s.scope.Keeps noted.scope := by
        rw [hLeads.scope]
        exact hKeeps
      exact
        ⟨noted, [], ⟨hFinals, hLeads.messageId, hLater, nofun⟩,
          hRest⟩
  | ok output =>
      rw [emitFinalMembers_of_ready hResult] at hOk
      rcases ok_of_bind hOk with ⟨_, told, hEmit, hRest⟩
      have hSends := (emit_sends hEmit).1
      have hFinals :
          finalMembers told.sent =
            finalMembers s.sent ++ [(key, output)] := by
        rw [hSends.sent, finalMembers_append]
        rfl
      have hScope : told.scope = next.scope :=
        scope_of_emit hEmit
      refine
        ⟨told, [(key, output)],
          ⟨hFinals, hSends.messageId, ?_, ?_⟩, hRest⟩
      · rw [hScope]
        exact hKeeps
      · intro x hMember
        rw [List.mem_singleton.mp hMember, hScope]
        exact
          ⟨v, List.mem_singleton_self _,
            RunScope.known?_of_answer (r := request) hResult⟩

theorem ok_of_emitFinalMembers
    {ms : Members}
    (hOk : emitFinalMembers plan ms s = .ok () t) :
    ∃ values, Makes ms s t values := by
  induction ms generalizing s with
  | nil =>
      cases hOk
      exact ⟨[], .refl _⟩
  | cons m rest ih =>
      rcases m with ⟨key, v⟩
      rcases ok_of_emitFinalMembers_cons hOk with
        ⟨r, values, hHere, hRest⟩
      rcases ih hRest with ⟨later, hLater⟩
      have hFirst : Makes ((key, v) :: rest) s r values :=
        hHere.mono (by simp)
      have hSecond : Makes ((key, v) :: rest) r t later :=
        hLater.mono fun m => List.mem_cons_of_mem (key, v)
      exact ⟨values ++ later, hFirst.trans hSecond⟩

------------------------------------------------------------
-- The End of a Stream
------------------------------------------------------------

/-
  A message of the assistant was recorded with blocks that have
  their indices, and each final value that was sent is
  remembered for a member of these blocks.
-/
structure Recalled
    (m : StoredMessage)
    (blocks : List Block)
    (s : Session σ) : Prop where
  role : m.role = .assistant
  recorded : m.recordedBlocks = some blocks
  listed : ∃ id index, Splitter.Listed id index blocks
  final :
    ∀ x ∈ finalMembers s.sent, ∃ v,
      (x.1, v) ∈ mergeState blocks ∧
        s.scope.known? (.ofInput m.id x.1 v) = some x.2

/- The end of a stream leaves its final values remembered. -/
theorem Collecting.finish
    {messageId : String}
    {scope : RunScope}
    {outcome : Outcome}
    (hCollecting : Collecting messageId scope s)
    (hOk : Session.finish plan s = .ok outcome t) :
    Recalled outcome.message
      s.streamer.splitter.close.value.allBlocks t := by
  rcases hCollecting.tidy with ⟨read, hTidy⟩
  have hListed := hTidy.close.1.listed_allBlocks
  rcases parts_of_finish hOk with
    ⟨told, shown, notes, hTexts, hFinals, rfl, rfl⟩
  have hProse := spares_emitFinalTexts plan _ _ _ told hTexts
  have hTarget : told.streamer.target = .state :=
    hProse.target.trans hCollecting.target
  have hValues := ok_of_get hFinals
  rw [hTarget] at hValues
  rcases ok_of_emitFinalMembers hValues with ⟨values, hMakes⟩
  -- All final values went out at the end.
  have hNone : finalMembers told.sent = [] :=
    hProse.finals.trans hCollecting.finals
  refine ⟨rfl, rfl, ⟨_, hListed⟩, ?_⟩
  intro x hMember
  change x ∈ finalMembers shown.sent at hMember
  rw [hMakes.finals, hNone, List.nil_append] at hMember
  rcases hMakes.known x hMember with ⟨v, hThere, hKnown⟩
  rw [mergeState_fences] at hThere
  rw [← hMakes.messageId] at hKnown
  exact ⟨v, hThere, hKnown⟩

/- A stream that ends well takes its chunks and then its end. -/
theorem parts_of_run
    {chunks : List String}
    {outcome : Outcome}
    (hOk : run plan chunks s = .ok outcome t) :
    ∃ notes pushed,
      pushAll plan chunks { s with notes := notes } =
        .ok () pushed ∧
      finish plan pushed = .ok outcome t := by
  have hOk := ok_of_get hOk
  rcases ok_of_bind hOk with ⟨_, noted, hSay, hOk⟩
  cases hSay
  rcases ok_of_bind hOk with ⟨_, pushed, hPushes, hFinish⟩
  exact ⟨_, pushed, ok_of_tryCatch hPushes, hFinish⟩

/- A whole stream leaves its final values remembered. -/
theorem recalled_of_run
    {messageId : String}
    {limits : Limits}
    {path : Option String}
    {room : Option Nat}
    {scope : RunScope}
    {memory : σ}
    {chunks : List String}
    {outcome : Outcome}
    (hOk :
      run plan chunks
        (start (.start messageId .state limits path)
          (.ofRoom room) scope memory) = .ok outcome t) :
    ∃ blocks, Recalled outcome.message blocks t := by
  rcases parts_of_run hOk with
    ⟨notes, pushed, hPushes, hFinish⟩
  have hStart :=
    (Collecting.of_start messageId limits path room scope
      memory).leads (leads_notes _ notes)
  exact ⟨_, (hStart.pushAll hPushes).finish hFinish⟩

end Session

------------------------------------------------------------
-- Final States of the Message
------------------------------------------------------------

namespace Session

variable {σ : Type} {s : Session σ} {m : StoredMessage}
  {blocks : List Block}

/- The members of the message are those of its blocks. -/
theorem Recalled.members
    {τ : Type}
    (hRecalled : Recalled m blocks s)
    (hLength : blocks.length ≤ UInt32.size)
    (h : History τ) :
    h.members m = mergeState blocks := by
  rcases hRecalled.listed with ⟨id, index, hListed⟩
  unfold History.members
  rw [h.message_of_recorded hRecalled.role hRecalled.recorded,
    hListed.sortByIndex hLength]

/-
  The final values that a session sent are found in the final
  state of a message, however often it is asked for, in any
  scope that keeps what the one of the session remembers; and
  the transforms of their keys are not asked for it: if two
  histories differ just in these, then nothing differs.
-/
structure FinalsRecalled
    (m : StoredMessage)
    (s : Session σ) : Prop where
  found :
    ∀ key v, .stateFinal key v ∈ s.sent →
      ∀ (τ : Type) (h : History τ) (scope : RunScope)
          (memories : List τ),
        s.scope.Keeps scope →
        ∀ state ∈ h.finalStates m scope memories,
          Table.get? key state = some v
  unasked :
    ∀ (τ : Type) (h g : History τ) (scope : RunScope)
        (memory : τ),
      s.scope.Keeps scope →
      h.validator = g.validator →
      (∀ key, (∀ v, .stateFinal key v ∉ s.sent) →
        ∀ v later,
          h.transforms.apply key v later =
            g.transforms.apply key v later) →
      h.finalState m scope memory = g.finalState m scope memory

/- A final value is sent with its event. -/
theorem mem_finalMembers
    {key : String}
    {v : Value}
    {cs : List Content} :
    (key, v) ∈ finalMembers cs ↔ .stateFinal key v ∈ cs := by
  unfold finalMembers
  rw [List.mem_filterMap]
  constructor
  · rintro ⟨c, hMember, hValue⟩
    cases c with
    | stateFinal k w =>
        cases hValue
        exact hMember
    | _ => cases hValue
  · intro hMember
    exact ⟨_, hMember, rfl⟩

theorem Recalled.finals
    (hRecalled : Recalled m blocks s)
    (hLength : blocks.length ≤ UInt32.size) :
    FinalsRecalled m s where
  found := by
    intro key v hSent τ h scope memories hKeeps state hAsked
    rcases hRecalled.final _ (mem_finalMembers.mpr hSent) with
      ⟨input, hMember, hKnown⟩
    rw [← hRecalled.members hLength h] at hMember
    exact
      History.get?_of_mem_finalStates hMember
        (hKeeps _ _ hKnown) hAsked
  unasked := by
    intro τ h g scope memory hKeeps hChecks hSame
    refine History.finalState_congr hChecks ?_ memory
    intro x hMember
    rw [hRecalled.members hLength h] at hMember
    by_cases hFinal : ∃ v, .stateFinal x.1 v ∈ s.sent
    · rcases hFinal with ⟨v, hSent⟩
      rcases hRecalled.final _ (mem_finalMembers.mpr hSent) with
        ⟨input, hThere, hKnown⟩
      -- The member of which the value was made is this one.
      have hInput : x = (x.1, input) :=
        List.inj_on_of_nodup_map (sorted_mergeState blocks).nodup
          hMember hThere rfl
      rw [hInput]
      exact .inl ⟨v, hKeeps _ _ hKnown⟩
    · refine .inr fun later => hSame x.1 ?_ x.2 later
      exact fun v hSent => hFinal ⟨v, hSent⟩

end Session

------------------------------------------------------------
-- Values That Are Made Once
------------------------------------------------------------

/-
  A value is made once for each slot of a scope, whatever the
  transforms do from one time to the next. So the final values
  of a stream that ends well are the ones that its message has
  in the final state from history, with the scope of the stream,
  and however often this is asked for. The indices of blocks
  have 32 bits; if there are more blocks, then indices recur,
  and history has the blocks in another order.
-/
theorem final_values_are_made_once
    {σ : Type}
    (plan : Plan σ)
    (scope : RunScope) :
    scope.Remembers plan.transforms ∧
    ∀ (messageId : String) (limits : Limits)
        (path : Option String) (room : Option Nat) (memory : σ)
        (chunks : List String) (outcome : Outcome)
        (last : Session σ),
      Session.run plan chunks
          (Session.start (.start messageId .state limits path)
            (.ofRoom room) scope memory) = .ok outcome last →
      (∀ blocks, outcome.message.recordedBlocks = some blocks →
        blocks.length ≤ UInt32.size) →
      last.FinalsRecalled outcome.message := by
  refine ⟨scope.remembers plan.transforms, ?_⟩
  intro messageId limits path room memory chunks outcome last
    hRun hBlocks
  rcases Session.recalled_of_run hRun with ⟨blocks, hRecalled⟩
  exact hRecalled.finals (hBlocks blocks hRecalled.recorded)

/-
  A transform of one key that is ready every other time, and
  gives another value each time.
-/
def fickle : KeyTransforms Nat :=
  KeyTransforms.none.withKey "a" fun v count =>
    if count % 2 = 0 then
      (.ok (.array (List.replicate count v)), count + 1)
    else (.error ⟨"too early"⟩, count + 1)

/- A plan with it. -/
def ficklePlan : Plan Nat :=
  ⟨fickle, none, fun _ => ⟨"", ""⟩⟩

/- A stream of one fence, of which the transform is asked thrice. -/
def fickleStream :
    EStateM.Result StreamError (Session Nat) Outcome :=
  Session.run ficklePlan
    [ "\x60\x60\x60json\n\x7b\x22a\x22:1", "\x7d\n",
      "\x60\x60\x60" ]
    (Session.start (.start "m" .state ⟨64, 64⟩ none)
      (.ofRoom (some 2)) (.fresh "r") 0)

/- The final values of a stream, and the number of its blocks. -/
def finalsAndCount :
    EStateM.Result StreamError (Session Nat) Outcome →
      Option (Members × Option Nat)
  | .ok outcome last =>
      some
        ( finalMembers last.sent,
          outcome.message.recordedBlocks.map List.length )
  | .error _ _ => none

/- The third value stays, although the next would be none. -/
theorem fickleStream_value_is_made_once :
    ∃ outcome last,
      fickleStream = .ok outcome last ∧
      ∀ memories,
        ∀ state ∈ (⟨none, fickle⟩ : History Nat).finalStates
            outcome.message last.scope memories,
          Table.get? "a" state =
            some
              (.array
                [.number (.integer 1), .number (.integer 1)]) := by
  have hEnded :
      finalsAndCount fickleStream =
        some
          ( [ ( "a",
                .array
                  [ .number (.integer 1),
                    .number (.integer 1) ] ) ],
            some 1 ) := by
    decide +kernel
  cases hRun : fickleStream with
  | error e last =>
      rw [hRun] at hEnded
      cases hEnded
  | ok outcome last =>
      rw [hRun] at hEnded
      simp only [finalsAndCount, Option.some.injEq,
        Prod.mk.injEq] at hEnded
      rcases hEnded with ⟨hValues, hCount⟩
      have hBlocks :
          ∀ blocks,
            outcome.message.recordedBlocks = some blocks →
              blocks.length ≤ UInt32.size := by
        intro blocks hRecorded
        rw [hRecorded] at hCount
        rw [Option.some.inj hCount]
        decide
      have hFinals :=
        (final_values_are_made_once ficklePlan (.fresh "r")).2
          "m" ⟨64, 64⟩ none (some 2) 0 _ outcome last hRun
          hBlocks
      refine ⟨outcome, last, rfl, fun memories => ?_⟩
      refine hFinals.found "a" _ ?_ Nat _ _ memories (.refl _)
      rw [← Session.mem_finalMembers, hValues]
      exact List.mem_cons_self

end AnswerStream
