import AnswerStream.Proofs.Streamer.Chunking

/-
  This file proves that an outlet that takes only so many events
  cuts a stream cleanly. The stream is run twice, once with an
  outlet that takes any number of events and once with one that
  takes so many: both do the same in each step, up to the event
  that is not taken, and there the second one stops.

  Key definitions include:
    * `Payload`
    * `Session.Beside`
    * `Session.Cuts`
    * `Session.Alongside`

  Main statements:
    * `Session.Alongside.bind`
    * `Session.alongside_emit`
    * `Session.alongside_push`
    * `Session.alongside_finish`
    * `Session.alongside_run`
    * `full_outlet_cuts_cleanly`
-/

namespace AnswerStream

open Json

------------------------------------------------------------
-- Payloads
------------------------------------------------------------

/- What there is to an event beside its mark. -/
structure Payload where
  seq : UInt64
  path : Option String
  content : Content
deriving DecidableEq, Repr

def Event.payload (e : Event) : Payload :=
  ⟨e.seq, e.path, e.content⟩

/- The plan, with other marks for its events. -/
def Plan.remarked
    {σ : Type}
    (plan : Plan σ)
    (marks : UInt64 → Mark) : Plan σ :=
  { plan with marks := marks }

namespace Session

variable {σ α β : Type} {plan : Plan σ} {marks : UInt64 → Mark}
  {room : Nat} {s t u v : Session σ}

/- The payloads of the events that were sent. -/
def payloads (s : Session σ) : List Payload :=
  s.outlet.accepted.toList.map Event.payload

/- The session behind a step, whether or not it failed. -/
def reached :
    EStateM.Result StreamError (Session σ) α → Session σ
  | .ok _ s => s
  | .error _ s => s

/- Payloads depend on the outlet alone. -/
theorem payloads_of_outlet
    (hOutlet : t.outlet = s.outlet) :
    t.payloads = s.payloads := by
  unfold payloads
  rw [hOutlet]

------------------------------------------------------------
-- Two Sessions
------------------------------------------------------------

/-
  A session has an outlet that takes any number of events, and
  another one is at the same place with an outlet for so many
  events in all, those that were sent among them. Their marks,
  memories, notes and the names of their scopes may differ.
-/
structure Beside
    (room : Nat)
    (s t : Session σ) : Prop where
  streamer : t.streamer = s.streamer
  cache : t.scope.cache = s.scope.cache
  endless : s.outlet.room = none
  left :
    ∃ left, t.outlet.room = some left ∧
      s.payloads.length + left = room
  payloads : t.payloads = s.payloads

/- There was room for what was sent. -/
theorem Beside.length_le
    (hBeside : Beside room s t) :
    s.payloads.length ≤ room := by
  rcases hBeside.left with ⟨left, _, hRoom⟩
  omega

/- So the other session sent what there was room for. -/
theorem Beside.taken
    (hBeside : Beside room s t) :
    t.payloads = s.payloads.take room := by
  rw [List.take_of_length_le hBeside.length_le]
  exact hBeside.payloads

/- Steps that do not touch the outlets keep them beside. -/
theorem Beside.of_outlets
    (hBeside : Beside room s t)
    (hOutlet : u.outlet = s.outlet)
    (hOther : v.outlet = t.outlet)
    (hStreamer : v.streamer = u.streamer)
    (hCache : v.scope.cache = u.scope.cache) :
    Beside room u v where
  streamer := hStreamer
  cache := hCache
  endless := by
    rw [hOutlet]
    exact hBeside.endless
  left := by
    rw [hOther, payloads_of_outlet hOutlet]
    exact hBeside.left
  payloads := by
    rw [payloads_of_outlet hOutlet, payloads_of_outlet hOther]
    exact hBeside.payloads

/-
  What comes of two such sessions: both succeed alike, both fail
  alike with a fence that outgrew its cap, or the second one is
  stopped, since the first one sent more than there was room
  for; then it sent what there was room for.
-/
inductive Cuts (room : Nat) :
    EStateM.Result StreamError (Session σ) α →
      EStateM.Result StreamError (Session σ) α → Prop where
| ended
    {a : α}
    {s t : Session σ}
    (hBeside : Beside room s t) :
    Cuts room (.ok a s) (.ok a t)
| failed
    {cause : Overflow}
    {s t : Session σ}
    (hBeside : Beside room s t) :
    Cuts room (.error (.overflow cause) s)
      (.error (.overflow cause) t)
| stopped
    {whole : EStateM.Result StreamError (Session σ) α}
    {t : Session σ}
    (hFull : room < (reached whole).payloads.length)
    (hSent :
      t.payloads = (reached whole).payloads.take room) :
    Cuts room whole (.error .closedOutlet t)

/-
  So the second one sent what there was room for, and it is
  stopped if that is not all; otherwise both end alike.
-/
theorem Cuts.parts
    {whole cut : EStateM.Result StreamError (Session σ) α}
    (hCuts : Cuts room whole cut) :
    let sent := (reached whole).payloads
    (reached cut).payloads = sent.take room ∧
      (room < sent.length →
        ∃ t, cut = .error .closedOutlet t) ∧
      (sent.length ≤ room →
        (∃ a s t, whole = .ok a s ∧ cut = .ok a t) ∨
        (∃ cause s t, whole = .error (.overflow cause) s ∧
          cut = .error (.overflow cause) t)) := by
  intro sent
  cases hCuts with
  | ended hBeside =>
      refine ⟨hBeside.taken, fun hFull => ?_, fun _ => ?_⟩
      · exact absurd hBeside.length_le (Nat.not_le_of_lt hFull)
      · exact .inl ⟨_, _, _, rfl, rfl⟩
  | failed hBeside =>
      refine ⟨hBeside.taken, fun hFull => ?_, fun _ => ?_⟩
      · exact absurd hBeside.length_le (Nat.not_le_of_lt hFull)
      · exact .inr ⟨_, _, _, rfl, rfl⟩
  | stopped hFull hSent =>
      refine ⟨hSent, fun _ => ⟨_, rfl⟩, fun hFits => ?_⟩
      exact absurd hFits (Nat.not_le_of_lt hFull)

/- A stream stays stopped if the other one goes on. -/
theorem Cuts.stopped_of_more
    {before : EStateM.Result StreamError (Session σ) α}
    {whole : EStateM.Result StreamError (Session σ) β}
    (hPrefix :
      (reached before).payloads <+: (reached whole).payloads)
    (hFull : room < (reached before).payloads.length)
    (hSent :
      t.payloads = (reached before).payloads.take room) :
    Cuts room whole (.error .closedOutlet t) := by
  rcases hPrefix with ⟨rest, hWhole⟩
  have hLater : room < (reached whole).payloads.length := by
    rw [← hWhole, List.length_append]
    omega
  refine .stopped hLater ?_
  rw [hSent, ← hWhole,
    List.take_append_of_le_length (Nat.le_of_lt hFull)]

/-
  Two steps go alongside if the first one only adds to what was
  sent, and the second one does the same from a session beside
  it until there is no room.
-/
structure Alongside
    (room : Nat)
    (x y : Step σ α) : Prop where
  adds : ∀ s, s.payloads <+: (reached (x s)).payloads
  cuts : ∀ s t, Beside room s t → Cuts room (x s) (y t)

------------------------------------------------------------
-- Steps in a Row
------------------------------------------------------------

/- What comes behind a step only adds to what it sent. -/
theorem prefix_bind
    {f : α → Step σ β}
    (hNext : ∀ a s, s.payloads <+: (reached (f a s)).payloads)
    (x : Step σ α)
    (s : Session σ) :
    (reached (x s)).payloads <+:
      (reached ((x >>= f) s)).payloads := by
  cases hHere : x s with
  | ok a r =>
      rw [bind_of_ok hHere]
      exact hNext a r
  | error e r =>
      rw [bind_of_error hHere]
      exact List.prefix_rfl

/- Steps in a row go alongside if each of them does. -/
theorem Alongside.bind
    {x y : Step σ α}
    {f g : α → Step σ β}
    (hFirst : Alongside room x y)
    (hNext : ∀ a, Alongside room (f a) (g a)) :
    Alongside room (x >>= f) (y >>= g) := by
  have hRest :
      ∀ s, (reached (x s)).payloads <+:
        (reached ((x >>= f) s)).payloads :=
    prefix_bind (fun a => (hNext a).adds) x
  constructor
  · intro s
    exact (hFirst.adds s).trans (hRest s)
  · intro s t hBeside
    have hHere := hFirst.cuts s t hBeside
    have hMore := hRest s
    generalize hWhole : x s = whole at hHere hMore
    generalize hCut : y t = cut at hHere
    cases hHere with
    | ended hNow =>
        rw [bind_of_ok hWhole, bind_of_ok hCut]
        exact (hNext _).cuts _ _ hNow
    | failed hNow =>
        rw [bind_of_error hWhole, bind_of_error hCut]
        exact .failed hNow
    | stopped hFull hSent =>
        -- The first one goes on alone from here.
        rw [bind_of_error hCut]
        exact .stopped_of_more hMore hFull hSent

/-
  A look shows both the same but for the outlets, the memories
  and the notes.
-/
theorem Alongside.look
    {f g : Session σ → Step σ β}
    (hNext :
      ∀ s t : Session σ, t.streamer = s.streamer →
        t.scope.cache = s.scope.cache →
          Alongside room (f s) (g t)) :
    Alongside room (get >>= f) (get >>= g) where
  adds s := (hNext s s rfl rfl).adds s
  cuts s t hBeside :=
    (hNext s t hBeside.streamer hBeside.cache).cuts s t hBeside

/-
  Steps go alongside if they succeed alike and do not touch the
  outlets.
-/
theorem alongside_of_quiet
    {x y : Step σ α}
    (hQuiet :
      ∀ s t : Session σ, t.streamer = s.streamer →
        t.scope.cache = s.scope.cache →
          ∃ a u v, x s = .ok a u ∧ y t = .ok a v ∧
            u.outlet = s.outlet ∧ v.outlet = t.outlet ∧
            v.streamer = u.streamer ∧
            v.scope.cache = u.scope.cache) :
    Alongside room x y := by
  constructor
  · intro s
    rcases hQuiet s s rfl rfl with ⟨a, u, _, hOk, _, hOutlet, _⟩
    rw [hOk]
    exact (payloads_of_outlet hOutlet).symm ▸ List.prefix_rfl
  · intro s t hBeside
    rcases hQuiet s t hBeside.streamer hBeside.cache with
      ⟨a, u, v, hOk, hToo, hOutlet, hOther, hSame⟩
    rw [hOk, hToo]
    exact
      .ended (hBeside.of_outlets hOutlet hOther hSame.1 hSame.2)

theorem alongside_pure (a : α) :
    Alongside room (pure a : Step σ α) (pure a) :=
  alongside_of_quiet fun s t hStreamer hCache =>
    ⟨a, s, t, rfl, rfl, rfl, rfl, hStreamer, hCache⟩

/- Both may change the streamer alike. -/
theorem alongside_change (f : Streamer → Streamer) :
    Alongside room (change f : Step σ Unit) (change f) :=
  alongside_of_quiet fun _ _ hStreamer hCache =>
    ⟨(), _, _, rfl, rfl, rfl, rfl, congrArg f hStreamer, hCache⟩

/- Both may remember what they like. -/
theorem alongside_remember (memory later : σ) :
    Alongside room
      (modify fun s => { s with memory := memory } : Step σ Unit)
      (modify fun s => { s with memory := later }) :=
  alongside_of_quiet fun _ _ hStreamer hCache =>
    ⟨(), _, _, rfl, rfl, rfl, rfl, hStreamer, hCache⟩

theorem alongside_say (note : Note) :
    Alongside room (say note : Step σ Unit) (say note) :=
  alongside_of_quiet fun _ _ hStreamer hCache =>
    ⟨(), _, _, rfl, rfl, rfl, rfl, hStreamer, hCache⟩

theorem alongside_hear (x : Noted α) :
    Alongside room (hear x : Step σ α) (hear x) :=
  alongside_of_quiet fun _ _ hStreamer hCache =>
    ⟨x.value, _, _, rfl, rfl, rfl, rfl, hStreamer, hCache⟩

/- A fence that outgrew its cap ends both. -/
theorem alongside_throw (cause : Overflow) :
    Alongside room
      (throw (.overflow cause) : Step σ α)
      (throw (.overflow cause)) where
  adds _ := List.prefix_rfl
  cuts _ _ hBeside := .failed hBeside

/- What is noted of a failure does not add to what was sent. -/
theorem payloads_of_caught
    (note : StreamError → Note)
    (x : Step σ α)
    (s : Session σ) :
    (reached
        ((tryCatch x fun e => do
          say (note e)
          throw e : Step σ α) s)).payloads =
      (reached (x s)).payloads := by
  cases hHere : x s with
  | ok a r => rw [tryCatch_of_ok hHere]
  | error e r =>
      rw [tryCatch_of_error hHere]
      rfl

/- Failures may be noted before they are passed on. -/
theorem Alongside.caught
    {x y : Step σ α}
    (hHere : Alongside room x y)
    (note : StreamError → Note) :
    Alongside room
      (tryCatch x fun e => do
        say (note e)
        throw e)
      (tryCatch y fun e => do
        say (note e)
        throw e) := by
  constructor
  · intro s
    rw [payloads_of_caught]
    exact hHere.adds s
  · intro s t hBeside
    have hNow := hHere.cuts s t hBeside
    have hSame := payloads_of_caught note x s
    generalize hWhole : x s = whole at hNow hSame
    generalize hCut : y t = cut at hNow
    cases hNow with
    | ended hNow =>
        rw [tryCatch_of_ok hWhole, tryCatch_of_ok hCut]
        exact .ended hNow
    | failed hNow =>
        rw [tryCatch_of_error hWhole, tryCatch_of_error hCut]
        exact
          .failed
            (hNow.of_outlets rfl rfl hNow.streamer hNow.cache)
    | stopped hFull hSent =>
        rw [tryCatch_of_error hCut]
        exact
          .stopped_of_more (hSame ▸ List.prefix_rfl) hFull hSent

------------------------------------------------------------
-- Events
------------------------------------------------------------

/- The next event with a content. -/
def nextEvent
    (s : Session σ)
    (plan : Plan σ)
    (content : Content) : Event :=
  s.streamer.sequencer.event
    (plan.marks s.streamer.sequencer.nextSeq) content

/- The session behind the next place, with another outlet. -/
def numbered
    (s : Session σ)
    (outlet : Outlet) : Session σ :=
  { s with
    streamer :=
      { s.streamer with
        sequencer := s.streamer.sequencer.next }
    outlet := outlet }

/- An event goes out if the outlet takes it. -/
theorem emit_of_taken
    {content : Content}
    {outlet : Outlet}
    (hTaken :
      s.outlet.accept? (s.nextEvent plan content) =
        some outlet) :
    emit plan content s = .ok () (s.numbered outlet) := by
  unfold emit
  unfold nextEvent at hTaken
  dsimp only
  rw [hTaken]
  rfl

/- It fails otherwise, and the outlet stays as it is. -/
theorem emit_of_full
    {content : Content}
    (hFull :
      s.outlet.accept? (s.nextEvent plan content) = none) :
    emit plan content s =
      .error .closedOutlet (s.numbered s.outlet) := by
  unfold emit
  unfold nextEvent at hFull
  dsimp only
  rw [hFull]
  rfl

/- An event that is taken adds its payload to what was sent. -/
theorem payloads_numbered
    (plan : Plan σ)
    (content : Content)
    (left : Option Nat) :
    (s.numbered
      ⟨s.outlet.accepted.push (s.nextEvent plan content),
        left⟩).payloads =
      s.payloads ++ [(s.nextEvent plan content).payload] := by
  unfold payloads numbered
  rw [Array.toList_push, List.map_append]
  rfl

/- An event adds to what was sent, if anything. -/
theorem prefix_emit
    (plan : Plan σ)
    (content : Content)
    (s : Session σ) :
    s.payloads <+: (reached (emit plan content s)).payloads := by
  cases hTaken : s.outlet.accept? (s.nextEvent plan content) with
  | none =>
      rw [emit_of_full hTaken]
      exact List.prefix_rfl
  | some outlet =>
      have hAccepted := accepted_of_accept? hTaken
      rcases outlet with ⟨accepted, left⟩
      cases hAccepted
      rw [emit_of_taken hTaken]
      exact ⟨_, (payloads_numbered plan content left).symm⟩

/- The next events have the same payload. -/
theorem Beside.nextEvent
    (hBeside : Beside room s t)
    (content : Content) :
    (t.nextEvent (plan.remarked marks) content).payload =
      (s.nextEvent plan content).payload := by
  unfold Session.nextEvent
  rw [hBeside.streamer]
  rfl

/- An event that both take leaves them beside each other. -/
theorem Beside.taking
    {left : Nat}
    (hBeside : Beside room s t)
    (hRoom : s.payloads.length + (left + 1) = room)
    (content : Content) :
    Beside room
      (s.numbered
        ⟨s.outlet.accepted.push (s.nextEvent plan content),
          none⟩)
      (t.numbered
        ⟨t.outlet.accepted.push
          (t.nextEvent (plan.remarked marks) content),
          some left⟩) := by
  have hSent := payloads_numbered (s := s) plan content none
  refine ⟨?_, hBeside.cache, rfl, ⟨left, rfl, ?_⟩, ?_⟩
  · unfold numbered
    rw [hBeside.streamer]
  · rw [hSent, List.length_append, List.length_singleton]
    omega
  · rw [hSent, payloads_numbered, hBeside.payloads,
      hBeside.nextEvent]

/- An event for which there is no room stops the second one. -/
theorem Beside.stopping
    (hBeside : Beside room s t)
    (hRoom : s.payloads.length = room)
    (content : Content) :
    Cuts room
      (.ok () <| s.numbered
        ⟨s.outlet.accepted.push (s.nextEvent plan content),
          none⟩)
      (.error .closedOutlet (t.numbered t.outlet)) := by
  have hSent := payloads_numbered (s := s) plan content none
  refine .stopped ?_ ?_
  · unfold reached
    rw [hSent, List.length_append, List.length_singleton]
    omega
  · unfold reached
    rw [hSent,
      List.take_append_of_le_length (Nat.le_of_eq hRoom.symm)]
    exact hBeside.taken

/- An event is taken by both, or there is no room for it. -/
theorem alongside_emit (content : Content) :
    Alongside room (emit plan content)
      (emit (plan.remarked marks) content) := by
  refine ⟨prefix_emit plan content, ?_⟩
  intro s t hBeside
  rw [emit_of_taken (accept?_of_endless hBeside.endless _)]
  rcases hBeside.left with ⟨left, hLeft, hRoom⟩
  cases left with
  | zero =>
      rw [emit_of_full (accept?_of_full hLeft _)]
      exact hBeside.stopping hRoom content
  | succ left =>
      rw [emit_of_taken (accept?_of_room hLeft _)]
      exact .ended (hBeside.taking hRoom content)

------------------------------------------------------------
-- Previews
------------------------------------------------------------

theorem alongside_emitBlock
    (blockId : String)
    (v : Value)
    (content : Content) :
    Alongside room (emitBlock plan blockId v content)
      (emitBlock (plan.remarked marks) blockId v content) := by
  refine .look fun s t hStreamer _ => ?_
  rw [hStreamer]
  cases refresh s.streamer.sentBlocks blockId v with
  | none => exact alongside_pure ()
  | some sent =>
      exact
        (alongside_change _).bind fun _ => alongside_emit content

theorem alongside_emitKey
    (key : String)
    (v : Value) :
    Alongside room (emitKey plan key v)
      (emitKey (plan.remarked marks) key v) := by
  refine .look fun s t hStreamer _ => ?_
  rw [hStreamer]
  cases refresh s.streamer.sentKeys key v with
  | none => exact alongside_pure ()
  | some sent =>
      exact (alongside_change _).bind fun _ => alongside_emit _

theorem alongside_emitTexts (bs : List Block) :
    Alongside room (emitTexts plan bs)
      (emitTexts (plan.remarked marks) bs) := by
  induction bs with
  | nil => exact alongside_pure ()
  | cons b rest ih =>
      exact (alongside_emitBlock _ _ _).bind fun _ => ih

theorem alongside_emitTextUpdates :
    Alongside room (emitTextUpdates plan)
      (emitTextUpdates (plan.remarked marks)) := by
  refine .look fun s t hStreamer _ => ?_
  rw [hStreamer]
  exact
    (alongside_change _).bind fun _ => alongside_emitTexts _

/- Both find a member ready, or both do not. -/
theorem alongside_emitMembers
    (hPure : plan.transforms.Pure)
    (ms : Members) :
    Alongside room (emitMembers plan ms)
      (emitMembers (plan.remarked marks) ms) := by
  induction ms with
  | nil => exact alongside_pure ()
  | cons m rest ih =>
      rcases m with ⟨key, v⟩
      refine .look fun s t _ _ => ?_
      have hTransforms :
          (plan.remarked marks).transforms = plan.transforms :=
        rfl
      have hResult := hPure key v t.memory s.memory
      rw [hTransforms]
      generalize plan.transforms.apply key v s.memory = applied
        at hResult ⊢
      generalize plan.transforms.apply key v t.memory = again
        at hResult ⊢
      rcases applied with ⟨result, memory⟩
      rcases again with ⟨_, later⟩
      cases hResult
      refine (alongside_remember memory later).bind fun _ => ?_
      cases result with
      | ok output =>
          exact (alongside_emitKey key output).bind fun _ => ih
      | error e => exact (alongside_say _).bind fun _ => ih

theorem alongside_emitStatePartial
    (hPure : plan.transforms.Pure)
    (v : Value) :
    Alongside room (emitStatePartial plan v)
      (emitStatePartial (plan.remarked marks) v) := by
  cases v with
  | object members => exact alongside_emitMembers hPure members
  | _ => exact alongside_say _

theorem alongside_emitStructuredPartial (v : Value) :
    Alongside room (emitStructuredPartial plan v)
      (emitStructuredPartial (plan.remarked marks) v) := by
  refine .look fun s t hStreamer _ => ?_
  rw [hStreamer]
  exact alongside_emitBlock _ _ _

------------------------------------------------------------
-- Chunks
------------------------------------------------------------

/- A chunk that is too much for a fence is so for both. -/
theorem alongside_take (chunk : String) :
    Alongside room (take chunk : Step σ Unit) (take chunk) := by
  refine (alongside_change _).bind fun _ => ?_
  refine .look fun s t hStreamer _ => ?_
  rw [hStreamer]
  refine (alongside_hear _).bind fun result => ?_
  refine (alongside_change _).bind fun _ => ?_
  cases result.failure with
  | some cause => exact alongside_throw cause
  | none => exact alongside_pure ()

theorem alongside_emitFence
    (hPure : plan.transforms.Pure) :
    Alongside room (emitFence plan)
      (emitFence (plan.remarked marks)) := by
  refine .look fun s t hStreamer _ => ?_
  rw [hStreamer]
  dsimp only
  cases s.streamer.splitter.partialValue? with
  | none => exact alongside_pure ()
  | some v =>
      cases s.streamer.target with
      | state => exact alongside_emitStatePartial hPure v
      | messages => exact alongside_emitStructuredPartial v

theorem alongside_push
    (hPure : plan.transforms.Pure)
    (chunk : String) :
    Alongside room (push plan chunk)
      (push (plan.remarked marks) chunk) := by
  rw [push_eq, push_eq]
  refine (alongside_take chunk).bind fun _ => ?_
  exact
    alongside_emitTextUpdates.bind
      fun _ => alongside_emitFence hPure

theorem alongside_pushAll
    (hPure : plan.transforms.Pure)
    (chunks : List String) :
    Alongside room (pushAll plan chunks)
      (pushAll (plan.remarked marks) chunks) := by
  induction chunks with
  | nil => exact alongside_pure ()
  | cons chunk rest ih =>
      exact (alongside_push hPure chunk).bind fun _ => ih

------------------------------------------------------------
-- The End of a Stream
------------------------------------------------------------

theorem alongside_emitFinalTexts (bs : List Block) :
    Alongside room (emitFinalTexts plan bs)
      (emitFinalTexts (plan.remarked marks) bs) := by
  induction bs with
  | nil => exact alongside_pure ()
  | cons b rest ih => exact (alongside_emit _).bind fun _ => ih

theorem alongside_emitFinalFences (bs : List Block) :
    Alongside room (emitFinalFences plan bs)
      (emitFinalFences (plan.remarked marks) bs) := by
  induction bs with
  | nil => exact alongside_pure ()
  | cons b rest ih => exact (alongside_emit _).bind fun _ => ih

/- Both scopes answer alike, and go on to remember the same. -/
theorem alongside_transformInScope
    (hPure : plan.transforms.Pure)
    (key : String)
    (v : Value) :
    Alongside room (transformInScope plan key v)
      (transformInScope (plan.remarked marks) key v) := by
  refine alongside_of_quiet fun s t hStreamer hCache => ?_
  have hSame :=
    RunScope.transform_of_same_cache hPure hCache
      s.streamer.messageId key v s.memory t.memory
  rw [← hStreamer] at hSame
  refine
    ⟨_, s.transformed plan key v,
      t.transformed (plan.remarked marks) key v, rfl, ?_, rfl,
      rfl, hStreamer, ?_⟩
  · rw [← hStreamer, ← hSame.1]
    rfl
  · unfold transformed
    rw [← hStreamer]
    exact hSame.2

theorem alongside_emitFinalMembers
    (hPure : plan.transforms.Pure)
    (ms : Members) :
    Alongside room (emitFinalMembers plan ms)
      (emitFinalMembers (plan.remarked marks) ms) := by
  induction ms with
  | nil => exact alongside_pure ()
  | cons m rest ih =>
      rcases m with ⟨key, v⟩
      refine
        (alongside_transformInScope hPure key v).bind
          fun result => ?_
      cases result with
      | ok output => exact (alongside_emit _).bind fun _ => ih
      | error e => exact (alongside_say _).bind fun _ => ih

/- Both leave the same. -/
theorem alongside_leave (blocks : List Block) :
    Alongside room (leave plan blocks)
      (leave (plan.remarked marks) blocks) := by
  refine .look fun s t hStreamer _ => ?_
  rw [hStreamer]
  refine (alongside_hear _).bind fun parsed => ?_
  exact (alongside_say _).bind fun _ => alongside_pure _

theorem alongside_finish
    (hPure : plan.transforms.Pure) :
    Alongside room (finish plan)
      (finish (plan.remarked marks)) := by
  refine .look fun s t hStreamer _ => ?_
  rw [hStreamer]
  refine (alongside_hear _).bind fun closed => ?_
  refine (alongside_change _).bind fun _ => ?_
  refine (alongside_emitFinalTexts _).bind fun _ => ?_
  refine .look fun s t hStreamer _ => ?_
  rw [hStreamer]
  cases s.streamer.target with
  | state =>
      exact
        (alongside_emitFinalMembers hPure _).bind
          fun _ => alongside_leave _
  | messages =>
      exact
        (alongside_emitFinalFences _).bind
          fun _ => alongside_leave _

------------------------------------------------------------
-- Whole Streams
------------------------------------------------------------

theorem alongside_run
    (hPure : plan.transforms.Pure)
    (chunks : List String) :
    Alongside room (run plan chunks)
      (run (plan.remarked marks) chunks) := by
  refine .look fun s t hStreamer _ => ?_
  rw [hStreamer]
  refine (alongside_say _).bind fun _ => ?_
  exact
    ((alongside_pushAll hPure chunks).caught _).bind
      fun _ => alongside_finish hPure

/- Sessions begin beside each other. -/
theorem beside_start
    (streamer : Streamer)
    (room : Nat)
    (runId otherRunId : String)
    (memory otherMemory : σ) :
    Beside room
      (start streamer .unbounded (.fresh runId) memory)
      (start streamer (.ofRoom (some room)) (.fresh otherRunId)
        otherMemory) where
  streamer := rfl
  cache := rfl
  endless := rfl
  left := ⟨room, rfl, Nat.zero_add room⟩
  payloads := rfl

end Session

/-
  A stream whose outlet takes only so many events is cut
  cleanly. Compared with the same stream whose outlet takes any
  number of events, it sends the same contents with the same
  places, as many as there is room for. If that is not all of
  them, then it fails because the outlet is closed; otherwise it
  ends as the other one does, with the same outcome or with the
  same fence that outgrew its cap. The two are in scopes of
  their own; neither the marks of events matter to this nor the
  memories of pure transforms.
-/
theorem full_outlet_cuts_cleanly
    {σ : Type}
    (transforms : KeyTransforms σ)
    (validator : Option (Value → Bool))
    (messageId : String)
    (target : Target)
    (limits : Limits)
    (path : Option String)
    (chunks : List String)
    (marks otherMarks : UInt64 → Mark)
    (runId otherRunId : String)
    (memory otherMemory : σ)
    (room : Nat)
    (hPure : transforms.Pure) :
    let whole :=
      Session.run ⟨transforms, validator, marks⟩ chunks
        (Session.start (.start messageId target limits path)
          .unbounded (.fresh runId) memory)
    let cut :=
      Session.run ⟨transforms, validator, otherMarks⟩ chunks
        (Session.start (.start messageId target limits path)
          (.ofRoom (some room)) (.fresh otherRunId) otherMemory)
    let sent := (Session.reached whole).payloads
    (Session.reached cut).payloads = sent.take room ∧
      (room < sent.length →
        ∃ t, cut = .error .closedOutlet t) ∧
      (sent.length ≤ room →
        (∃ outcome s t,
          whole = .ok outcome s ∧ cut = .ok outcome t) ∨
        (∃ cause s t,
          whole = .error (.overflow cause) s ∧
          cut = .error (.overflow cause) t)) := by
  intro whole cut
  let plan : Plan σ := ⟨transforms, validator, marks⟩
  have hRuns :
      Session.Alongside room (Session.run plan chunks)
        (Session.run (plan.remarked otherMarks) chunks) :=
    Session.alongside_run hPure chunks
  have hCuts : Session.Cuts room whole cut :=
    hRuns.cuts _ _
      (Session.beside_start _ room runId otherRunId memory
        otherMemory)
  exact hCuts.parts

/- A stream of an answer in pieces, with room for some events. -/
def cutMarksStream
    (cap : Nat)
    (room : Option Nat)
    (runId : String)
    (memory : Nat) :
    EStateM.Result StreamError (Session Nat) Outcome :=
  Session.run ⟨boxing, none, fun _ => ⟨"", ""⟩⟩ cutMarks
    (Session.start (.start "m" .state ⟨64, cap⟩ none)
      (.ofRoom room) (.fresh runId) memory)

/- The number of its events, and whether it ended well. -/
def countAndOutcome
    (r : EStateM.Result StreamError (Session Nat) Outcome) :
    Nat × Bool :=
  match r with
  | .ok _ s => (s.payloads.length, true)
  | .error _ s => (s.payloads.length, false)

theorem length_of_countAndOutcome
    {r : EStateM.Result StreamError (Session Nat) Outcome}
    {n : Nat}
    {isWell : Bool}
    (hCount : countAndOutcome r = (n, isWell)) :
    (Session.reached r).payloads.length = n := by
  cases r with
  | ok outcome s => exact congrArg Prod.fst hCount
  | error e s => exact congrArg Prod.fst hCount

/-
  With room for all but the last event, the final value is
  missing; with room for all of them, nothing is. If the fence
  outgrows its cap behind the first event, then the stream
  fails for that reason if there is room for the event.
-/
theorem cutMarks_is_cut_cleanly :
    boxing.Pure ∧
      countAndOutcome (cutMarksStream 9 none "r" 0) = (6, true) ∧
      (∃ t,
        cutMarksStream 9 (some 5) "q" 3 =
          .error .closedOutlet t ∧
        t.payloads =
          (Session.reached
            (cutMarksStream 9 none "r" 0)).payloads.take 5) ∧
      (∃ outcome s t,
        cutMarksStream 9 none "r" 0 = .ok outcome s ∧
        cutMarksStream 9 (some 6) "q" 3 = .ok outcome t) ∧
      countAndOutcome (cutMarksStream 3 none "r" 0) =
        (1, false) ∧
      (∃ t,
        cutMarksStream 3 (some 0) "q" 3 =
          .error .closedOutlet t) ∧
      (∃ cause s t,
        cutMarksStream 3 none "r" 0 =
          .error (.overflow cause) s ∧
        cutMarksStream 3 (some 1) "q" 3 =
          .error (.overflow cause) t) := by
  have hWell :
      countAndOutcome (cutMarksStream 9 none "r" 0) =
        (6, true) := by
    decide +kernel
  have hFails :
      countAndOutcome (cutMarksStream 3 none "r" 0) =
        (1, false) := by
    decide +kernel
  have hSix := length_of_countAndOutcome hWell
  have hOne := length_of_countAndOutcome hFails
  have hCut :=
    fun cap room =>
      full_outlet_cuts_cleanly boxing none "m" .state ⟨64, cap⟩
        none cutMarks (fun _ => ⟨"", ""⟩) (fun _ => ⟨"", ""⟩)
        "r" "q" 0 3 room boxing_pure
  refine ⟨boxing_pure, hWell, ?_, ?_, hFails, ?_, ?_⟩
  · rcases hCut 9 5 with ⟨hSent, hStopped, _⟩
    rcases hStopped (hSix ▸ by decide) with ⟨t, hCut⟩
    rw [hCut] at hSent
    exact ⟨t, hCut, hSent⟩
  · rcases (hCut 9 6).2.2 (Nat.le_of_eq hSix) with
      hEnds | ⟨cause, s, t, hError, _⟩
    · exact hEnds
    · have hHere :=
        hWell.symm.trans (congrArg countAndOutcome hError)
      cases congrArg Prod.snd hHere
  · exact (hCut 3 0).2.1 (hOne ▸ by decide)
  · rcases (hCut 3 1).2.2 (Nat.le_of_eq hOne) with
      ⟨outcome, s, t, hOk, _⟩ | hEnds
    · have hHere :=
        hFails.symm.trans (congrArg countAndOutcome hOk)
      cases congrArg Prod.snd hHere
    · exact hEnds

end AnswerStream
