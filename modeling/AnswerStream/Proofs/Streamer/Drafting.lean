import AnswerStream.Proofs.Streamer.Remembering
import Mathlib.Data.List.Chain

/-
  This file proves what a session remembers of its drafts, the
  contents that may be followed by others about the same block
  or state key. What is remembered of each of these is the
  fingerprint of the last draft about it, and no draft has the
  fingerprint of the one before it.

  Key definitions include:
    * `Subject`
    * `Content.draft?`
    * `draftsAbout`
    * `Session.Mirrors`
    * `Session.Shows`
    * `KeyTransforms.answers`

  Each step is described by:
    * `Session.emitBlock_shows`
    * `Session.emitTexts_shows`
    * `Session.emitMembers_shows`
    * `Session.emitFence_shows`
-/

namespace AnswerStream

open Json

------------------------------------------------------------
-- Drafts
------------------------------------------------------------

/- What a draft is about: a block, or a state key. -/
inductive Subject where
| block (id : String)
| key (name : String)
deriving DecidableEq, Repr

namespace Content

/- What a draft is about, and the value that it shows. -/
def draft? : Content → Option (Subject × Value)
  | .stateStreaming key v => some (.key key, v)
  | .text id _ body false => some (.block id, .string body)
  | .structured id _ (some v) _ false => some (.block id, v)
  | _ => none

/- The fingerprint of the value that a draft shows. -/
def fingerprint? (c : Content) : Option String :=
  c.draft?.map fun d => d.2.fingerprint

/- A content is a draft about a subject. -/
def isAbout
    (x : Subject)
    (c : Content) : Bool :=
  c.draft?.any fun d => d.1 == x

variable {c : Content} {x : Subject} {v : Value}

theorem fingerprint?_of_draft
    (hDraft : c.draft? = some (x, v)) :
    c.fingerprint? = some v.fingerprint := by
  rw [fingerprint?, hDraft, Option.map_some]

theorem isAbout_of_draft
    (hDraft : c.draft? = some (x, v))
    (y : Subject) :
    c.isAbout y = (x == y) := by
  rw [isAbout, hDraft, Option.any_some]

/- A draft is about one subject. -/
theorem draft?_of_isAbout
    (hAbout : c.isAbout x = true) :
    ∃ v, c.draft? = some (x, v) := by
  unfold isAbout at hAbout
  cases hDraft : c.draft? with
  | none =>
      rw [hDraft] at hAbout
      cases hAbout
  | some d =>
      rw [hDraft, Option.any_some] at hAbout
      exact ⟨d.2, by rw [← eq_of_beq hAbout]⟩

end Content

/- The drafts about a subject, in order. -/
def draftsAbout
    (x : Subject)
    (cs : List Content) : List Content :=
  cs.filter (Content.isAbout x)

/- One more draft is the last one about its subject. -/
theorem draftsAbout_concat
    {c : Content}
    {x : Subject}
    {v : Value}
    (hDraft : c.draft? = some (x, v))
    (y : Subject)
    (cs : List Content) :
    draftsAbout y (cs ++ [c]) =
      if x = y then draftsAbout y cs ++ [c]
      else draftsAbout y cs := by
  unfold draftsAbout
  rw [List.filter_append, List.filter_singleton,
    Content.isAbout_of_draft hDraft]
  by_cases hSame : x = y
  · rw [if_pos hSame, beq_iff_eq.mpr hSame, cond_true]
  · rw [if_neg hSame, beq_eq_false_iff_ne.mpr hSame, cond_false,
      List.append_nil]

/- The draft about a subject that went out last. -/
def lastDraft
    (x : Subject)
    (cs : List Content) : Option Content :=
  (draftsAbout x cs).getLast?

/- It is a draft about the subject, and it went out. -/
theorem mem_of_lastDraft
    {x : Subject}
    {cs : List Content}
    {c : Content}
    (hLast : lastDraft x cs = some c) :
    c ∈ cs ∧ ∃ v, c.draft? = some (x, v) := by
  rcases List.mem_filter.mp (List.mem_of_getLast? hLast) with
    ⟨hMember, hAbout⟩
  exact ⟨hMember, Content.draft?_of_isAbout hAbout⟩

namespace Session

variable {σ : Type} {plan : Plan σ} {r s t : Session σ}

------------------------------------------------------------
-- What Is Remembered
------------------------------------------------------------

/- The fingerprint that is remembered for a subject. -/
def remembered (s : Session σ) : Subject → Option String
  | .block id => Table.get? id s.streamer.sentBlocks
  | .key name => Table.get? name s.streamer.sentKeys

/-
  The memory of a session mirrors its drafts: it has the
  fingerprint of the last one about each subject, and each of
  them looks different from the one before.
-/
structure Mirrors (s : Session σ) : Prop where
  last :
    ∀ x, s.remembered x =
      (lastDraft x s.sent).bind Content.fingerprint?
  changing :
    ∀ x, (draftsAbout x s.sent).IsChain fun c d =>
      c.fingerprint? ≠ d.fingerprint?

/-
  A session goes on to show values of subjects: each of them
  is remembered as it was shown, unless it was shown twice,
  and nothing changes about other subjects.
-/
structure Shows
    (shown : List (Subject × Value))
    (s t : Session σ) : Prop where
  now :
    (shown.map Prod.fst).Nodup →
      ∀ d ∈ shown, t.remembered d.1 = some d.2.fingerprint
  others :
    ∀ x, x ∉ shown.map Prod.fst →
      t.remembered x = s.remembered x
  mirrors : s.Mirrors → t.Mirrors

namespace Shows

variable {shown later : List (Subject × Value)}
  {x : Subject} {v : Value} {c : Content}

/- What is neither sent nor remembered does not matter. -/
theorem of_same
    (hRemembered : t.remembered = s.remembered)
    (hSent : t.sent = s.sent) :
    Shows [] s t where
  now := nofun
  others := fun x _ => congrFun hRemembered x
  mirrors := by
    rintro ⟨hLast, hChanging⟩
    rw [← hRemembered, ← hSent] at hLast
    rw [← hSent] at hChanging
    exact ⟨hLast, hChanging⟩

theorem trans
    (hFirst : Shows shown r s)
    (hSecond : Shows later s t) :
    Shows (shown ++ later) r t where
  now := by
    intro hDistinct d hMember
    rw [List.map_append, List.nodup_append] at hDistinct
    rcases hDistinct with ⟨hOnce, hOnceToo, hApart⟩
    rcases List.mem_append.mp hMember with hOld | hNew
    · rw [hSecond.others, hFirst.now hOnce d hOld]
      intro hAgain
      exact hApart _ (List.mem_map_of_mem hOld) _ hAgain rfl
    · exact hSecond.now hOnceToo d hNew
  others := by
    intro x hOther
    rw [List.map_append, List.mem_append, not_or] at hOther
    rw [hSecond.others x hOther.2, hFirst.others x hOther.1]
  mirrors := fun hMirrors =>
    hSecond.mirrors (hFirst.mirrors hMirrors)

theorem behind
    (hShows : Shows shown s t)
    (hRemembered : s.remembered = r.remembered)
    (hSent : s.sent = r.sent) :
    Shows shown r t :=
  (of_same hRemembered hSent).trans hShows

/- A value that looks as it did before is shown already. -/
theorem of_known
    (hKnown : s.remembered x = some v.fingerprint) :
    Shows [(x, v)] s s where
  now := by
    intro _ d hMember
    rw [List.mem_singleton.mp hMember]
    exact hKnown
  others := fun _ _ => rfl
  mirrors := fun hMirrors => hMirrors

/- Any other value goes out in a draft, and is put in place. -/
theorem of_new
    (hDraft : c.draft? = some (x, v))
    (hNew : s.remembered x ≠ some v.fingerprint)
    (hSent : t.sent = s.sent ++ [c])
    (hRemembered :
      ∀ y, t.remembered y =
        if x = y then some v.fingerprint
        else s.remembered y) :
    Shows [(x, v)] s t where
  now := by
    intro _ d hMember
    rw [List.mem_singleton.mp hMember, hRemembered, if_pos rfl]
  others := by
    intro y hOther
    rw [hRemembered, if_neg]
    rintro rfl
    exact hOther (List.mem_singleton_self _)
  mirrors := by
    intro hMirrors
    constructor
    · intro y
      rw [hRemembered, hSent, lastDraft, draftsAbout_concat hDraft]
      split
      · rw [List.getLast?_concat, Option.bind_some,
          Content.fingerprint?_of_draft hDraft]
      · exact hMirrors.last y
    · intro y
      rw [hSent, draftsAbout_concat hDraft]
      split
      · next hSame =>
        subst hSame
        rw [List.isChain_append]
        refine
          ⟨hMirrors.changing x, List.isChain_singleton c, ?_⟩
        -- The draft before this one is the one remembered.
        intro d hLast e hFirst hEqual
        cases hFirst
        apply hNew
        rw [hMirrors.last, lastDraft, hLast, Option.bind_some,
          hEqual, Content.fingerprint?_of_draft hDraft]
      · exact hMirrors.changing y

end Shows

/- An event that goes out does not change what is remembered. -/
theorem remembered_of_emit
    {content : Content}
    (hOk : emit plan content s = .ok () t) :
    t.remembered = s.remembered ∧ t.memory = s.memory := by
  unfold emit at hOk
  dsimp only at hOk
  split at hOk
  · cases hOk
    exact ⟨rfl, rfl⟩
  · cases hOk

------------------------------------------------------------
-- Blocks
------------------------------------------------------------

/- A value of a block is shown in a draft. -/
theorem emitBlock_shows
    {blockId : String}
    {v : Value}
    {content : Content}
    (hDraft : content.draft? = some (.block blockId, v))
    (hOk : emitBlock plan blockId v content s = .ok () t) :
    Shows [(.block blockId, v)] s t ∧ t.memory = s.memory := by
  have hRest := ok_of_get hOk
  unfold refresh at hRest
  dsimp only at hRest
  by_cases hKnown :
      Table.get? blockId s.streamer.sentBlocks =
        some v.fingerprint
  · rw [if_pos hKnown] at hRest
    cases hRest
    exact ⟨.of_known hKnown, rfl⟩
  · rw [if_neg hKnown] at hRest
    rcases ok_of_bind hRest with ⟨_, r, hChange, hEmit⟩
    cases hChange
    rcases remembered_of_emit hEmit with ⟨hSame, hMemory⟩
    have hSent := (emit_sends hEmit).1.of_remembered.sent
    refine ⟨.of_new hDraft hKnown hSent fun y => ?_, hMemory⟩
    rw [hSame]
    cases y with
    | block id => simp [remembered, Table.get?_put]
    | key name => simp [remembered]

/- The value of a block of prose that a preview shows. -/
def proseShown (b : Block) : Subject × Value :=
  (.block b.id, .string b.textOrEmpty)

theorem emitTexts_shows
    {bs : List Block}
    (hOk : emitTexts plan bs s = .ok () t) :
    Shows (bs.map proseShown) s t ∧ t.memory = s.memory := by
  induction bs generalizing s with
  | nil =>
      cases hOk
      exact ⟨.of_same rfl rfl, rfl⟩
  | cons b rest ih =>
      rcases ok_of_bind hOk with ⟨_, r, hHere, hRest⟩
      rcases emitBlock_shows rfl hHere with ⟨hFirst, hMemory⟩
      rcases ih hRest with ⟨hLater, hStill⟩
      exact ⟨hFirst.trans hLater, hStill.trans hMemory⟩

------------------------------------------------------------
-- State Keys
------------------------------------------------------------

/- A value of a state key is shown in a draft. -/
theorem emitKey_shows
    {key : String}
    {v : Value}
    (hOk : emitKey plan key v s = .ok () t) :
    Shows [(.key key, v)] s t ∧ t.memory = s.memory := by
  have hRest := ok_of_get hOk
  unfold refresh at hRest
  dsimp only at hRest
  by_cases hKnown :
      Table.get? key s.streamer.sentKeys = some v.fingerprint
  · rw [if_pos hKnown] at hRest
    cases hRest
    exact ⟨.of_known hKnown, rfl⟩
  · rw [if_neg hKnown] at hRest
    rcases ok_of_bind hRest with ⟨_, r, hChange, hEmit⟩
    cases hChange
    rcases remembered_of_emit hEmit with ⟨hSame, hMemory⟩
    have hSent := (emit_sends hEmit).1.of_remembered.sent
    refine ⟨.of_new rfl hKnown hSent fun y => ?_, hMemory⟩
    rw [hSame]
    cases y with
    | block id => simp [remembered]
    | key name => simp [remembered, Table.get?_put]

end Session

/-
  The members after their transforms, which are asked one after
  the other, those that are ready.
-/
def KeyTransforms.answers
    {σ : Type}
    (ts : KeyTransforms σ) : σ → Members → Members
  | _, [] => []
  | memory, (key, v) :: rest =>
      let (result, later) := ts.apply key v memory
      match result with
      | .ok u => (key, u) :: ts.answers later rest
      | .error _ => ts.answers later rest

/- No key is answered that was not asked, nor in another order. -/
theorem KeyTransforms.answers_sublist
    {σ : Type}
    (ts : KeyTransforms σ)
    (memory : σ)
    (ms : Members) :
    ((ts.answers memory ms).map Prod.fst).Sublist
      (ms.map Prod.fst) := by
  induction ms generalizing memory with
  | nil => exact .slnil
  | cons m rest ih =>
      rcases m with ⟨key, v⟩
      unfold KeyTransforms.answers
      rcases ts.apply key v memory with ⟨result, later⟩
      cases result with
      | ok u => exact (ih later).cons_cons key
      | error e => exact (ih later).cons key

namespace Session

variable {σ : Type} {plan : Plan σ} {r s t : Session σ}

/- The value of a state key that a draft shows. -/
def memberShown (m : String × Value) : Subject × Value :=
  (.key m.1, m.2)

/- The members that are ready are shown in drafts. -/
theorem emitMembers_shows
    {ms : Members}
    (hOk : emitMembers plan ms s = .ok () t) :
    Shows
      ((plan.transforms.answers s.memory ms).map memberShown)
      s t := by
  induction ms generalizing s with
  | nil =>
      cases hOk
      exact .of_same rfl rfl
  | cons m rest ih =>
      rcases m with ⟨key, v⟩
      unfold KeyTransforms.answers
      cases hApplied :
          (plan.transforms.apply key v s.memory).1 with
      | ok output =>
          rw [emitMembers_of_ready hApplied] at hOk
          rcases ok_of_bind hOk with ⟨_, r, hHere, hRest⟩
          rcases emitKey_shows hHere with ⟨hFirst, hMemory⟩
          have hLater := ih hRest
          rw [hMemory] at hLater
          have hBoth := hFirst.trans hLater
          simp only [hApplied]
          exact hBoth.behind rfl rfl
      | error e =>
          rw [emitMembers_of_unready hApplied] at hOk
          rcases ok_of_bind hOk with ⟨_, r, hSay, hRest⟩
          cases hSay
          simp only [hApplied]
          exact (ih hRest).behind rfl rfl

------------------------------------------------------------
-- The Open Fence
------------------------------------------------------------

/- What is shown of the open fence, as the target asks for. -/
def fenceShown
    (plan : Plan σ)
    (target : Target)
    (p : Splitter)
    (memory : σ) : List (Subject × Value) :=
  match target, p.partialValue? with
  | .messages, some v => [(.block p.pendingStructuredId, v)]
  | .state, some (.object ms) =>
      (plan.transforms.answers memory ms).map memberShown
  | _, _ => []

theorem emitFence_shows
    (hOk : emitFence plan s = .ok () t) :
    Shows
      (fenceShown plan s.streamer.target s.streamer.splitter
        s.memory) s t := by
  have hOk := ok_of_get hOk
  unfold fenceShown
  cases hTarget : s.streamer.target with
  | messages =>
      cases hValue : s.streamer.splitter.partialValue? with
      | none =>
          rw [hValue] at hOk
          cases hOk
          exact .of_same rfl rfl
      | some v =>
          rw [hValue, hTarget] at hOk
          exact (emitBlock_shows rfl (ok_of_get hOk)).1
  | state =>
      cases hValue : s.streamer.splitter.partialValue? with
      | none =>
          rw [hValue] at hOk
          cases hOk
          exact .of_same rfl rfl
      | some v =>
          rw [hValue, hTarget] at hOk
          cases v with
          | object ms => exact emitMembers_shows hOk
          | _ =>
              cases hOk
              exact .of_same rfl rfl

end Session

end AnswerStream
