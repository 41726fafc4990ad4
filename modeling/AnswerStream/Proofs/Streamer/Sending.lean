import AnswerStream.Streamer.Basic

/-
  This file proves what the steps of a session send. A step that
  succeeds adds contents to those that were sent, in order and
  with the next places, and nothing else about the stream
  changes but what it remembers of them.

  Key definitions include:
    * `Session.sent`
    * `Session.Stamped`
    * `Session.Sends`

  Each step is described by:
    * `Session.emit_sends`
    * `Session.emitBlock_sends`
    * `Session.emitTexts_sends`
    * `Session.emitFinalTexts_sends`
    * `Session.emitFinalFences_sends`
-/

namespace AnswerStream

open Json

namespace Session

variable {σ α β : Type}

------------------------------------------------------------
-- Steps in a Row
------------------------------------------------------------

/- Steps in a row succeed if each of them does. -/
theorem ok_of_bind
    {x : Step σ α}
    {f : α → Step σ β}
    {s t : Session σ}
    {b : β}
    (hOk : (x >>= f) s = .ok b t) :
    ∃ a r, x s = .ok a r ∧ f a r = .ok b t := by
  change EStateM.bind x f s = _ at hOk
  unfold EStateM.bind at hOk
  cases hFirst : x s with
  | ok a r =>
      rw [hFirst] at hOk
      exact ⟨a, r, rfl, hOk⟩
  | error e r =>
      rw [hFirst] at hOk
      cases hOk

/- A step that begins with a look goes on with what it sees. -/
theorem ok_of_get
    {f : Session σ → Step σ β}
    {s t : Session σ}
    {b : β}
    (hOk : (get >>= f) s = .ok b t) :
    f s s = .ok b t := by
  rcases ok_of_bind hOk with ⟨_, r, hGet, hRest⟩
  cases hGet
  exact hRest

/- Hearing a value leaves the stream and its events alone. -/
theorem ok_of_hear
    {x : Noted α}
    {s t : Session σ}
    {a : α}
    (hOk : hear x s = .ok a t) :
    a = x.value ∧ t.streamer = s.streamer ∧
      t.outlet = s.outlet := by
  rcases ok_of_bind hOk with ⟨_, r, hNotes, hValue⟩
  cases hNotes
  cases hValue
  exact ⟨rfl, rfl, rfl⟩

/- A note leaves the stream and its events alone. -/
theorem ok_of_say
    {note : Note}
    {s t : Session σ}
    (hOk : say note s = .ok () t) :
    t.streamer = s.streamer ∧ t.outlet = s.outlet := by
  cases hOk
  exact ⟨rfl, rfl⟩

/- A step whose failure is passed on succeeds if it does. -/
theorem ok_of_tryCatch
    {x : Step σ α}
    {note : StreamError → Note}
    {s t : Session σ}
    {a : α}
    (hOk :
      (tryCatch x fun e => do
        say (note e)
        throw e : Step σ α) s = .ok a t) :
    x s = .ok a t := by
  change EStateM.tryCatch x _ s = _ at hOk
  unfold EStateM.tryCatch at hOk
  cases hFirst : x s with
  | ok b r =>
      rw [hFirst] at hOk
      exact hOk
  | error e r =>
      rw [hFirst] at hOk
      cases hOk

------------------------------------------------------------
-- Sending
------------------------------------------------------------

/- The contents that were sent. -/
def sent (s : Session σ) : List Content :=
  s.outlet.accepted.toList.map Event.content

/-
  The events that were sent have the places from one on, and
  the next one has the next place.
-/
structure Stamped (s : Session σ) : Prop where
  next :
    s.streamer.sequencer.nextSeq =
      UInt64.ofNat (s.outlet.accepted.size + 1)
  places :
    s.outlet.accepted.toList.map Event.seq =
      (List.range' 1 s.outlet.accepted.size).map UInt64.ofNat

/-
  A session becomes another one by sending contents: the text
  and what was made of it stay as they are.
-/
structure Sends
    (s t : Session σ)
    (cs : List Content) : Prop where
  splitter : t.streamer.splitter = s.streamer.splitter
  target : t.streamer.target = s.streamer.target
  messageId : t.streamer.messageId = s.streamer.messageId
  announced : t.streamer.announced = s.streamer.announced
  sent : t.sent = s.sent ++ cs
  stamped : s.Stamped → t.Stamped

namespace Sends

variable {r s t : Session σ} {cs ds : List Content}

theorem refl (s : Session σ) : Sends s s [] where
  splitter := rfl
  target := rfl
  messageId := rfl
  announced := rfl
  sent := (List.append_nil _).symm
  stamped := fun hStamped => hStamped

theorem trans
    (hFirst : Sends r s cs)
    (hSecond : Sends s t ds) :
    Sends r t (cs ++ ds) where
  splitter := hSecond.splitter.trans hFirst.splitter
  target := hSecond.target.trans hFirst.target
  messageId := hSecond.messageId.trans hFirst.messageId
  announced := hSecond.announced.trans hFirst.announced
  sent := by
    rw [hSecond.sent, hFirst.sent, List.append_assoc]
  stamped := fun hStamped =>
    hSecond.stamped (hFirst.stamped hStamped)

end Sends

/- An outlet keeps the events that it takes. -/
theorem accepted_of_accept?
    {o p : Outlet}
    {e : Event}
    (hTaken : o.accept? e = some p) :
    p.accepted = o.accepted.push e := by
  unfold Outlet.accept? at hTaken
  split at hTaken
  · exact Option.some.inj hTaken ▸ rfl
  · cases hTaken
  · exact Option.some.inj hTaken ▸ rfl

/- An outlet without a bound takes any event. -/
theorem accept?_of_endless
    {o : Outlet}
    (hRoom : o.room = none)
    (e : Event) :
    o.accept? e = some ⟨o.accepted.push e, none⟩ := by
  unfold Outlet.accept?
  rw [hRoom]

/- An outlet with room takes an event, and has less room then. -/
theorem accept?_of_room
    {o : Outlet}
    {left : Nat}
    (hRoom : o.room = some (left + 1))
    (e : Event) :
    o.accept? e = some ⟨o.accepted.push e, some left⟩ := by
  unfold Outlet.accept?
  rw [hRoom]

/- An outlet that is full takes no event. -/
theorem accept?_of_full
    {o : Outlet}
    (hRoom : o.room = some 0)
    (e : Event) :
    o.accept? e = none := by
  unfold Outlet.accept?
  rw [hRoom]

/- Only the events and the next place matter. -/
theorem Stamped.of_same
    {s t : Session σ}
    (hStamped : s.Stamped)
    (hNext : t.streamer.sequencer = s.streamer.sequencer)
    (hOutlet : t.outlet = s.outlet) :
    t.Stamped := by
  constructor
  · rw [hNext, hOutlet]
    exact hStamped.next
  · rw [hOutlet]
    exact hStamped.places

/- One more event has the next place. -/
theorem Stamped.push
    {s t : Session σ}
    {e : Event}
    (hStamped : s.Stamped)
    (hSeq : e.seq = s.streamer.sequencer.nextSeq)
    (hAccepted : t.outlet.accepted = s.outlet.accepted.push e)
    (hNext :
      t.streamer.sequencer.nextSeq =
        s.streamer.sequencer.nextSeq + 1) :
    t.Stamped := by
  constructor
  · rw [hNext, hStamped.next, hAccepted, Array.size_push,
      UInt64.ofNat_add (s.outlet.accepted.size + 1)]
    rfl
  · rw [hAccepted, Array.size_push, Array.toList_push,
      List.map_append, hStamped.places, List.range'_1_concat,
      List.map_append, List.map_singleton, List.map_singleton,
      hSeq, hStamped.next, Nat.add_comm 1]

/- What is remembered or noted beside the events is no matter. -/
theorem Sends.of_remembered
    {s t : Session σ}
    {cs : List Content}
    {blocks keys : Table String String}
    {memory : σ}
    {scope : RunScope}
    {notes : Array Note}
    (hSends :
      Sends
        { s with
          streamer :=
            { s.streamer with
              sentBlocks := blocks, sentKeys := keys }
          memory := memory
          scope := scope
          notes := notes }
        t cs) :
    Sends s t cs where
  splitter := hSends.splitter
  target := hSends.target
  messageId := hSends.messageId
  announced := hSends.announced
  sent := hSends.sent
  stamped := fun hStamped =>
    hSends.stamped (hStamped.of_same rfl rfl)

/- An event that goes out has its content sent. -/
theorem emit_sends
    {plan : Plan σ}
    {content : Content}
    {s t : Session σ}
    (hOk : emit plan content s = .ok () t) :
    Sends s t [content] ∧
      t.streamer.sentBlocks = s.streamer.sentBlocks := by
  unfold emit at hOk
  dsimp only at hOk
  split at hOk
  · next outlet hTaken =>
    have hAccepted := accepted_of_accept? hTaken
    cases hOk
    refine ⟨⟨rfl, rfl, rfl, rfl, ?_, ?_⟩, rfl⟩
    · unfold sent
      dsimp only
      rw [hAccepted, Array.toList_push, List.map_append]
      rfl
    · intro hStamped
      exact hStamped.push rfl hAccepted rfl
  · cases hOk

------------------------------------------------------------
-- Previews
------------------------------------------------------------

/-
  A block is remembered as it was sent, unless it was so
  before; then nothing happens.
-/
theorem emitBlock_sends
    {plan : Plan σ}
    {blockId : String}
    {v : Value}
    {content : Content}
    {s t : Session σ}
    (hOk : emitBlock plan blockId v content s = .ok () t) :
    (t = s ∧
      Table.get? blockId s.streamer.sentBlocks =
        some v.fingerprint) ∨
    (Sends s t [content] ∧
      Table.get? blockId s.streamer.sentBlocks ≠
        some v.fingerprint ∧
      Table.get? blockId t.streamer.sentBlocks =
        some v.fingerprint) := by
  have hRest := ok_of_get hOk
  unfold refresh at hRest
  dsimp only at hRest
  by_cases hSame :
      Table.get? blockId s.streamer.sentBlocks =
        some v.fingerprint
  · rw [if_pos hSame] at hRest
    cases hRest
    exact .inl ⟨rfl, hSame⟩
  · rw [if_neg hSame] at hRest
    rcases ok_of_bind hRest with ⟨_, r, hChange, hEmit⟩
    cases hChange
    rcases emit_sends hEmit with ⟨hSends, hSent⟩
    have hNow :
        Table.get? blockId t.streamer.sentBlocks =
          some v.fingerprint := by
      rw [hSent]
      dsimp only
      rw [Table.get?_put, if_pos rfl]
    exact .inr ⟨hSends.of_remembered, hSame, hNow⟩

/- The preview of a block of prose. -/
def textPreview (b : Block) : Content :=
  .text b.id b.index b.textOrEmpty false

/- A block of prose is remembered as it is. -/
def Remembers
    (s : Session σ)
    (b : Block) : Prop :=
  Table.get? b.id s.streamer.sentBlocks =
    some (Value.string b.textOrEmpty).fingerprint

/-
  Some of the blocks have previews sent, and the last one is
  remembered. If all of them are remembered before, then
  nothing happens.
-/
theorem emitTexts_sends
    {plan : Plan σ}
    {bs : List Block}
    {s t : Session σ}
    (hOk : emitTexts plan bs s = .ok () t) :
    (∃ cs, Sends s t cs ∧ cs.Sublist (bs.map textPreview)) ∧
      (∀ b, bs.getLast? = some b → t.Remembers b) ∧
      ((∀ b ∈ bs, s.Remembers b) → t = s) := by
  induction bs generalizing s with
  | nil =>
      cases hOk
      refine
        ⟨⟨[], .refl _, List.Sublist.refl _⟩, ?_, fun _ => rfl⟩
      intro b hLast
      cases hLast
  | cons b rest ih =>
      rcases ok_of_bind hOk with ⟨_, r, hHere, hRest⟩
      rcases ih hRest with
        ⟨⟨cs, hSends, hSublist⟩, hLast, hQuiet⟩
      have hBlock := emitBlock_sends hHere
      have hRemembers : r.Remembers b := by
        rcases hBlock with ⟨hSame, hBefore⟩ | ⟨_, _, hNow⟩
        · rw [hSame]
          exact hBefore
        · exact hNow
      refine ⟨?_, ?_, ?_⟩
      · rcases hBlock with ⟨hSame, _⟩ | ⟨hSent, _, _⟩
        · subst hSame
          exact ⟨cs, hSends, hSublist.cons _⟩
        · exact
            ⟨_, hSent.trans hSends, hSublist.cons_cons _⟩
      · intro c hEnd
        cases hTail : rest.getLast? with
        | none =>
            rw [List.getLast?_eq_none_iff] at hTail
            subst hTail
            cases hRest
            cases hEnd
            exact hRemembers
        | some d =>
            rw [List.getLast?_cons, hTail] at hEnd
            cases hEnd
            exact hLast d hTail
      · intro hAll
        have hSame : r = s := by
          rcases hBlock with ⟨hSame, _⟩ | ⟨_, hBefore, _⟩
          · exact hSame
          · exact absurd (hAll b List.mem_cons_self) hBefore
        subst hSame
        apply hQuiet
        intro c hMember
        exact hAll c (List.mem_cons_of_mem b hMember)

------------------------------------------------------------
-- Final Events
------------------------------------------------------------

/- The blocks of prose have their last contents sent. -/
theorem emitFinalTexts_sends
    {plan : Plan σ}
    {bs : List Block}
    {s t : Session σ}
    (hOk : emitFinalTexts plan bs s = .ok () t) :
    Sends s t
      (bs.map fun b =>
        .text b.id b.index b.textOrEmpty true) := by
  induction bs generalizing s with
  | nil =>
      cases hOk
      exact .refl _
  | cons b rest ih =>
      rcases ok_of_bind hOk with ⟨_, r, hHere, hRest⟩
      exact (emit_sends hHere).1.trans (ih hRest)

/- The fences have their last contents sent. -/
theorem emitFinalFences_sends
    {plan : Plan σ}
    {bs : List Block}
    {s t : Session σ}
    (hOk : emitFinalFences plan bs s = .ok () t) :
    Sends s t
      (bs.map fun b =>
        .structured b.id b.index b.data b.sourceText true) := by
  induction bs generalizing s with
  | nil =>
      cases hOk
      exact .refl _
  | cons b rest ih =>
      rcases ok_of_bind hOk with ⟨_, r, hHere, hRest⟩
      exact (emit_sends hHere).1.trans (ih hRest)

end Session

end AnswerStream
