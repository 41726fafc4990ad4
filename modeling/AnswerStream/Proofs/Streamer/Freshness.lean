import AnswerStream.Proofs.Streamer.Drafting

/-
  This file proves that drafts are fresh and never repeated.
  Behind each chunk, the last draft about a finished block of
  prose, about the present prose, about the open fence and
  about each state key that is ready has the fingerprint of
  what is there, and no draft has that of the one before it
  about the same block or key.

  Key definitions include:
    * `Session.Caught`
    * `Session.Fresh`

  Main statements:
    * `Session.Caught.push`
    * `drafts_stay_fresh`
-/

namespace AnswerStream

open Json

------------------------------------------------------------
-- Keys of an Unfinished Object
------------------------------------------------------------

/- The members of an object that is read are in order. -/
theorem Json.sorted_of_value?
    {s : String}
    {ms : Members}
    (hValue : value? s = some (.object ms)) :
    Members.Sorted ms := by
  unfold value? at hValue
  rcases Option.bind_eq_some_iff.mp hValue with ⟨tree, _, hTree⟩
  cases tree with
  | object members =>
      rcases Option.map_eq_some_iff.mp hTree with
        ⟨written, _, hObject⟩
      rw [← Value.object.inj hObject]
      exact Members.sorted_ofList written
  | null => cases hTree
  | bool b => cases hTree
  | number n =>
      rcases Option.map_eq_some_iff.mp hTree with ⟨_, _, hOther⟩
      cases hOther
  | string text =>
      rcases Option.map_eq_some_iff.mp hTree with ⟨_, _, hOther⟩
      cases hOther
  | array items =>
      rcases Option.map_eq_some_iff.mp hTree with ⟨_, _, hOther⟩
      cases hOther

/- So they are if the text may be cut off. -/
theorem Splitter.sorted_of_partialValue?
    {p : Splitter}
    {ms : Members}
    (hValue : p.partialValue? = some (.object ms)) :
    Members.Sorted ms := by
  unfold Splitter.partialValue? Json.partialValue? at hValue
  split at hValue
  · dsimp only at hValue
    split at hValue
    · cases hValue
    · split at hValue
      · next hWhole =>
        rw [hValue] at hWhole
        exact sorted_of_value? hWhole
      · exact sorted_of_value? hValue
  · cases hValue

------------------------------------------------------------
-- Drafts That Are Foretold
------------------------------------------------------------

namespace Splitter

variable {p : Splitter} {target : Target} {roomy : Prop}
  {c : Content} {i : Nat} {v : Value}

/- All that is foretold are drafts. -/
theorem Foretells.draft
    (hForetells : p.Foretells target roomy c) :
    ∃ d, c.draft? = some d := by
  cases hForetells with
  | text hPlace hSeen body => exact ⟨_, rfl⟩
  | fence hTarget hSeen v => exact ⟨_, rfl⟩
  | key hTarget name v => exact ⟨_, rfl⟩

/- A draft about a block of prose is a preview of it. -/
theorem Foretells.eq_text
    (hForetells : p.Foretells target roomy c)
    (hDraft : c.draft? = some (.block (slot p.id .text i), v)) :
    ∃ body, v = .string body ∧
      c =
        .text (slot p.id .text i) (UInt32.ofNat i) body
          false := by
  cases hForetells with
  | text hPlace hSeen body =>
      simp only [Content.draft?, Option.some.injEq,
        Prod.mk.injEq, Subject.block.injEq] at hDraft
      rcases hDraft with ⟨hSlot, rfl⟩
      rw [hSlot, (slot_inj hSlot).2]
      exact ⟨body, rfl, rfl⟩
  | fence hTarget hSeen v =>
      simp only [Content.draft?, Option.some.injEq,
        Prod.mk.injEq, Subject.block.injEq] at hDraft
      cases (slot_inj hDraft.1).1
  | key hTarget name v => cases hDraft

/- A draft about a fence has a value and no source. -/
theorem Foretells.eq_structured
    (hForetells : p.Foretells target roomy c)
    (hDraft :
      c.draft? = some (.block (slot p.id .structured i), v)) :
    c =
      .structured (slot p.id .structured i) (UInt32.ofNat i)
        (some v) none false := by
  cases hForetells with
  | text hPlace hSeen body =>
      simp only [Content.draft?, Option.some.injEq,
        Prod.mk.injEq, Subject.block.injEq] at hDraft
      cases (slot_inj hDraft.1).1
  | fence hTarget hSeen w =>
      simp only [Content.draft?, Option.some.injEq,
        Prod.mk.injEq, Subject.block.injEq] at hDraft
      rcases hDraft with ⟨hSlot, rfl⟩
      rw [hSlot, (slot_inj hSlot).2]
  | key hTarget name v => cases hDraft

/- A draft about a state key is an event of this key. -/
theorem Foretells.eq_streaming
    {name : String}
    (hForetells : p.Foretells target roomy c)
    (hDraft : c.draft? = some (.key name, v)) :
    c = .stateStreaming name v := by
  cases hForetells with
  | text hPlace hSeen body => cases hDraft
  | fence hTarget hSeen v => cases hDraft
  | key hTarget name v =>
      cases hDraft
      rfl

end Splitter

namespace Session

variable {σ : Type} {plan : Plan σ} {s t : Session σ}

------------------------------------------------------------
-- What a Look Shows
------------------------------------------------------------

/- The block that the present prose would become. -/
def pendingProse (p : Splitter) : Block :=
  .ofText p.pendingTextId p.nextIndex (Text.trim p.text)

/-
  The finished blocks with the present prose have identities of
  their own, as long as the indices do not recur.
-/
theorem nodup_pending
    {p : Splitter}
    {read : Nat}
    (hTidy : p.Tidy read)
    (hLength : p.blocks.length < UInt32.size) :
    ((p.blocks ++ [pendingProse p]).map Block.id).Nodup := by
  have hMade := hTidy.listed.made_text (Text.trim p.text)
  refine (hTidy.listed.push hMade).nodup ?_
  rw [List.length_append, List.length_singleton]
  exact hLength

/- A look is at blocks that were not looked at, and at prose. -/
theorem textPreviews_sublist (s : Streamer) :
    (textPreviews s).Sublist
      (s.splitter.blocks.drop s.announced ++
        [pendingProse s.splitter]) := by
  unfold textPreviews
  dsimp only
  split
  · exact
      List.filter_sublist.trans (List.sublist_append_left _ _)
  · exact List.filter_sublist.append (List.Sublist.refl _)

/- What is shown of the open fence has subjects of its own. -/
theorem nodup_fenceShown
    (plan : Plan σ)
    (target : Target)
    (p : Splitter)
    (memory : σ) :
    ((fenceShown plan target p memory).map Prod.fst).Nodup := by
  unfold fenceShown
  split
  · exact List.nodup_singleton _
  · next ms hValue =>
    have hKeys := (Splitter.sorted_of_partialValue? hValue).nodup
    have hAnswered :=
      (plan.transforms.answers_sublist memory ms).nodup hKeys
    have hSubjects :=
      hAnswered.map fun a b => Subject.key.inj
    rw [List.map_map] at hSubjects ⊢
    exact hSubjects
  · exact List.nodup_nil

/- It does not show any prose. -/
theorem not_mem_fenceShown
    {p : Splitter}
    {read : Nat}
    (hTidy : p.Tidy read)
    (plan : Plan σ)
    (target : Target)
    (memory : σ)
    (i : Nat) :
    .block (Splitter.slot p.id .text i) ∉
      (fenceShown plan target p memory).map Prod.fst := by
  unfold fenceShown
  split
  · rw [hTidy.listed.pendingStructuredId_eq]
    intro hMember
    have hSame := Subject.block.inj (List.mem_singleton.mp hMember)
    cases (Splitter.slot_inj hSame).1
  · intro hMember
    simp [memberShown] at hMember
  · exact List.not_mem_nil

------------------------------------------------------------
-- Sessions That Are Caught Up
------------------------------------------------------------

/-
  A session is caught up with its splitter: all finished blocks
  were looked at, the memory mirrors the drafts, and it has the
  finished blocks of prose, as long as the indices do not
  recur, and the present prose.
-/
structure Caught (s : Session σ) : Prop where
  looked :
    s.streamer.announced = s.streamer.splitter.blocks.length
  finished :
    s.streamer.splitter.blocks.length < UInt32.size →
      ∀ b ∈ s.streamer.splitter.blocks, b.kind = .text →
        s.Remembers b
  prose :
    (Text.trim s.streamer.splitter.text).isEmpty = false →
      s.Remembers (pendingProse s.streamer.splitter)
  mirrors : s.Mirrors

theorem caught_start
    (messageId : String)
    (target : Target)
    (limits : Limits)
    (path : Option String)
    (scope : RunScope)
    (memory : σ) :
    Caught
      (start (.start messageId target limits path) .unbounded
        scope memory) where
  looked := rfl
  finished := by
    intro _ b hMember
    cases hMember
  prose := by
    intro hText
    cases hText
  mirrors :=
    ⟨fun x => by cases x <;> rfl, fun x => List.isChain_nil⟩

/- Notes do not matter. -/
theorem Caught.of_notes
    (hCaught : Caught s)
    (notes : Array Note) :
    Caught { s with notes := notes } :=
  ⟨hCaught.looked, hCaught.finished, hCaught.prose,
    hCaught.mirrors.last, hCaught.mirrors.changing⟩

/- What a look at a fence does not show stays as it is. -/
theorem remembers_of_fence
    {read : Nat}
    {b : Block}
    {i : Nat}
    (hTidy : s.streamer.splitter.Tidy read)
    (hShows :
      Shows
        (fenceShown plan s.streamer.target s.streamer.splitter
          s.memory) s t)
    (hMade : Splitter.MadeAt s.streamer.splitter.id i b)
    (hKind : b.kind = .text)
    (hRemembers : s.Remembers b) :
    t.Remembers b := by
  have hId := hMade.id_eq
  rw [hKind] at hId
  have hOther := hShows.others (.block b.id) (by
    rw [hId]
    exact not_mem_fenceShown hTidy plan _ _ i)
  exact hOther.trans hRemembers

/- A block that was finished since the last look is looked at. -/
theorem mem_textPreviews
    {streamer : Streamer}
    {b : Block}
    (hFinished :
      b ∈ streamer.splitter.blocks.drop streamer.announced)
    (hKind : b.kind = .text) :
    b ∈ textPreviews streamer := by
  have hProse :
      b ∈ (streamer.splitter.blocks.drop
          streamer.announced).filter fun b => b.kind == .text :=
    List.mem_filter.mpr ⟨hFinished, beq_iff_eq.mpr hKind⟩
  unfold textPreviews
  dsimp only
  split
  · exact hProse
  · exact List.mem_append_left _ hProse

/-
  A look at prose catches up with the finished blocks of it, if
  the ones that were finished before the last look are
  remembered.
-/
theorem remembers_of_texts
    {read : Nat}
    (hTidy : s.streamer.splitter.Tidy read)
    (hLength :
      s.streamer.splitter.blocks.length < UInt32.size)
    (hBefore :
      ∀ b ∈ s.streamer.splitter.blocks.take s.streamer.announced,
        b.kind = .text → s.Remembers b)
    (hShows :
      Shows ((textPreviews s.streamer).map proseShown) s t) :
    ∀ b ∈ s.streamer.splitter.blocks, b.kind = .text →
      t.Remembers b := by
  intro b hMember hKind
  have hNodup := nodup_pending hTidy hLength
  rw [← List.take_append_drop s.streamer.announced
      s.streamer.splitter.blocks, List.append_assoc,
    List.map_append, List.nodup_append] at hNodup
  rcases hNodup with ⟨_, hLater, hApart⟩
  have hSublist :=
    (textPreviews_sublist s.streamer).map Block.id
  have hSubjects :
      ((textPreviews s.streamer).map proseShown).map Prod.fst =
        ((textPreviews s.streamer).map Block.id).map
          Subject.block := by
    rw [List.map_map, List.map_map]
    rfl
  have hDistinct :
      (((textPreviews s.streamer).map proseShown).map
        Prod.fst).Nodup := by
    rw [hSubjects]
    exact
      (hSublist.nodup hLater).map fun a b => Subject.block.inj
  rw [← List.take_append_drop s.streamer.announced
    s.streamer.splitter.blocks] at hMember
  rcases List.mem_append.mp hMember with hOld | hNew
  · have hOther := hShows.others (.block b.id) (by
      rw [hSubjects]
      intro hAgain
      rcases List.mem_map.mp hAgain with ⟨id, hId, hSame⟩
      cases hSame
      exact
        hApart _ (List.mem_map_of_mem hOld) _
          (hSublist.subset hId) rfl)
    exact hOther.trans (hBefore b hOld hKind)
  · have hPreview := mem_textPreviews hNew hKind
    exact hShows.now hDistinct _ (List.mem_map_of_mem hPreview)

------------------------------------------------------------
-- Chunks
------------------------------------------------------------

/- The text of a chunk is no matter to the transforms. -/
theorem memory_of_take
    {chunk : String}
    (hOk : take chunk s = .ok () t) :
    t.memory = s.memory := by
  rcases ok_of_bind hOk with ⟨_, _, hText, hOk⟩
  cases hText
  have hOk := ok_of_get hOk
  rcases ok_of_bind hOk with ⟨result, _, hHear, hOk⟩
  cases hHear
  rcases ok_of_bind hOk with ⟨_, _, hSplit, hOk⟩
  cases hSplit
  dsimp only at hOk
  cases hFailure :
      (s.streamer.splitter.append chunk).value.failure with
  | none =>
      rw [hFailure] at hOk
      cases hOk
      rfl
  | some cause =>
      rw [hFailure] at hOk
      cases hOk

section Chunks

variable {messageId : String} {target : Target} {limits : Limits}
  {scope : RunScope} {text chunk : String}

/- The splitter of a session that took in a text is tidy. -/
theorem Talking.tidy
    (hTalking : Talking messageId target limits scope text s) :
    ∃ read, s.streamer.splitter.Tidy read :=
  (Splitter.run_keeps_fences
    (Splitter.tidy_start messageId limits)
    hTalking.splitter).1

/- A chunk that does not fail is taken in. -/
theorem Talking.of_push
    (hTalking : Talking messageId target limits scope text s)
    (hOk : Session.push plan chunk s = .ok () t) :
    Talking messageId target limits scope (text ++ chunk) t := by
  rcases hTalking.push plan chunk with
    ⟨_, _, _, hFails⟩ | ⟨_, hEnds, hNext⟩
  · rw [hOk] at hFails
    cases hFails
  · rw [hOk] at hEnds
    cases hEnds
    exact hNext

/-
  A chunk that is taken in leaves what was caught up as it is,
  and the blocks before it are those that were looked at.
-/
theorem Caught.take
    (hTalking : Talking messageId target limits scope text s)
    (hCaught : Caught s)
    (hOk : Session.take chunk s = .ok () t) :
    (∃ read, t.streamer.splitter.Tidy read) ∧
      t.streamer.splitter.blocks.take t.streamer.announced =
        s.streamer.splitter.blocks ∧
      t.remembered = s.remembered ∧ t.sent = s.sent ∧
      t.outlet.room = none := by
  rcases hTalking.tidy with ⟨read, hTidy⟩
  rcases ok_of_take hOk with ⟨q, hAppend, hStreamer, hOutlet⟩
  rw [Splitter.append_value] at hAppend
  rcases Splitter.run_keeps_fences hTidy hAppend with
    ⟨hLater, hKeeps⟩
  refine ⟨?_, ?_, ?_, ?_, ?_⟩
  · rw [hStreamer]
    exact hLater
  · rw [hStreamer]
    dsimp only
    rw [hCaught.looked]
    exact (List.prefix_iff_eq_take.mp hKeeps.blocks).symm
  · funext x
    cases x <;> simp [remembered, hStreamer]
  · unfold sent
    rw [hOutlet]
  · rw [hOutlet]
    exact hTalking.room

/- So the blocks that were looked at are remembered. -/
theorem Caught.finished_of_take
    {r : Session σ}
    (hCaught : Caught s)
    (hBlocks :
      r.streamer.splitter.blocks.take r.streamer.announced =
        s.streamer.splitter.blocks)
    (hRemembered : r.remembered = s.remembered)
    (hLength :
      r.streamer.splitter.blocks.length < UInt32.size) :
    ∀ b ∈ r.streamer.splitter.blocks.take r.streamer.announced,
      b.kind = .text → r.Remembers b := by
  have hFewer :=
    List.length_take_le' r.streamer.announced
      r.streamer.splitter.blocks
  rw [hBlocks] at hFewer ⊢
  intro b hMember hKind
  have hBefore : s.Remembers b :=
    hCaught.finished (Nat.lt_of_le_of_lt hFewer hLength) b
      hMember hKind
  exact (congrFun hRemembered (.block b.id)).trans hBefore

/-
  Behind a chunk a session is caught up again, and the value of
  the open fence is remembered as it is shown.
-/
theorem Caught.push
    (hTalking : Talking messageId target limits scope text s)
    (hCaught : Caught s)
    (hOk : Session.push plan chunk s = .ok () t) :
    Caught t ∧
      ∀ d ∈ fenceShown plan t.streamer.target
          t.streamer.splitter s.memory,
        t.remembered d.1 = some d.2.fingerprint := by
  rw [push_eq] at hOk
  rcases ok_of_bind hOk with ⟨_, r, hTake, hLook⟩
  rcases hCaught.take hTalking hTake with
    ⟨⟨read, hTidy⟩, hBlocks, hRemembered, hSent, hOpen⟩
  rcases look_tells plan hTidy hOpen with
    ⟨_, cs, hSame, hTells, _⟩
  rw [hLook] at hSame
  cases hSame
  have hSplitter : t.streamer.splitter = r.streamer.splitter :=
    hTells.splitter
  rcases ok_of_bind hLook with ⟨_, u, hTexts, hFence⟩
  rcases emitTextUpdates_sends hTexts with
    ⟨⟨ds, hSends, _⟩, hLast, _⟩
  have hBetween : u.streamer.splitter = r.streamer.splitter :=
    hSends.splitter
  rw [emitTextUpdates_eq] at hTexts
  rcases emitTexts_shows hTexts with ⟨hProse, hMemory⟩
  replace hProse := hProse.behind (r := r) rfl rfl
  replace hFence := emitFence_shows hFence
  have hStill :
      ∀ i b,
        Splitter.MadeAt r.streamer.splitter.id i b →
        b.kind = .text → u.Remembers b → t.Remembers b := by
    intro i b hMade hKind
    rw [← hBetween] at hTidy hMade
    exact remembers_of_fence hTidy hFence hMade hKind
  refine ⟨⟨?_, ?_, ?_, ?_⟩, ?_⟩
  · rw [hTells.announced, hSplitter]
    rfl
  · intro hLength b hMember hKind
    rw [hSplitter] at hLength hMember
    have hBefore :=
      hCaught.finished_of_take hBlocks hRemembered hLength
    rcases List.mem_iff_getElem?.mp hMember with ⟨i, hAt⟩
    exact
      hStill i b (hTidy.listed.made i b hAt) hKind <|
        remembers_of_texts hTidy hLength hBefore hProse b
          hMember hKind
  · intro hText
    rw [hSplitter] at hText ⊢
    exact
      hStill _ _ (hTidy.listed.made_text _) rfl <|
        hLast _ (getLast?_textPreviews hText)
  · apply hFence.mirrors
    apply hProse.mirrors
    exact (Shows.of_same hRemembered hSent).mirrors hCaught.mirrors
  · have hNow := hFence.now (nodup_fenceShown plan _ _ _)
    have hTarget : u.streamer.target = t.streamer.target :=
      hSends.target.trans hTells.target.symm
    have hKept : r.memory = s.memory := memory_of_take hTake
    have hAsked : u.memory = s.memory := hMemory.trans hKept
    rw [hTarget, hBetween, hAsked, ← hSplitter] at hNow
    exact hNow

end Chunks

------------------------------------------------------------
-- Fresh Drafts
------------------------------------------------------------

/-
  The drafts of a session between chunks are fresh: nothing but
  drafts was sent; the last one about each finished block of
  prose, unless there are so many blocks that identities recur,
  about the present prose, about the open fence, and about each
  state key that was ready when the transforms were asked from
  the given memory on, has the fingerprint of the value that is
  there; and none has the fingerprint of the one before it
  about the same subject.
-/
structure Fresh
    (plan : Plan σ)
    (target : Target)
    (memory : σ)
    (t : Session σ) : Prop where
  drafts : ∀ c ∈ t.sent, ∃ d, c.draft? = some d
  finished :
    t.streamer.splitter.blocks.length < UInt32.size →
      ∀ b ∈ t.streamer.splitter.blocks, b.kind = .text →
        ∃ body,
          lastDraft (.block b.id) t.sent =
            some (.text b.id b.index body false) ∧
          (Value.string body).fingerprint =
            (Value.string b.textOrEmpty).fingerprint
  prose :
    let p := t.streamer.splitter
    (Text.trim p.text).isEmpty = false →
      ∃ body,
        lastDraft (.block p.pendingTextId) t.sent =
          some (.text p.pendingTextId p.nextIndex body false) ∧
        (Value.string body).fingerprint =
          (Value.string (Text.trim p.text)).fingerprint
  fence :
    let p := t.streamer.splitter
    target = .messages →
      ∀ v, p.partialValue? = some v →
        ∃ w,
          lastDraft (.block p.pendingStructuredId) t.sent =
            some
              (.structured p.pendingStructuredId p.nextIndex
                (some w) none false) ∧
          w.fingerprint = v.fingerprint
  keys :
    let p := t.streamer.splitter
    target = .state →
      ∀ ms, p.partialValue? = some (.object ms) →
        ∀ m ∈ plan.transforms.answers memory ms,
          ∃ w,
            lastDraft (.key m.1) t.sent =
              some (.stateStreaming m.1 w) ∧
            w.fingerprint = m.2.fingerprint
  changing :
    ∀ x, (draftsAbout x t.sent).IsChain fun c d =>
      c.fingerprint? ≠ d.fingerprint?

/- The last draft about a subject is the one remembered. -/
theorem Mirrors.exists_lastDraft
    {x : Subject}
    {fingerprint : String}
    (hMirrors : Mirrors t)
    (hRemembered : t.remembered x = some fingerprint) :
    ∃ c ∈ t.sent, lastDraft x t.sent = some c ∧
      ∃ v, c.draft? = some (x, v) ∧
        v.fingerprint = fingerprint := by
  rw [hMirrors.last] at hRemembered
  rcases Option.bind_eq_some_iff.mp hRemembered with
    ⟨c, hLast, hFingerprint⟩
  rcases mem_of_lastDraft hLast with ⟨hMember, v, hDraft⟩
  rw [Content.fingerprint?_of_draft hDraft] at hFingerprint
  exact
    ⟨c, hMember, hLast, v, hDraft, Option.some.inj hFingerprint⟩

section Drafts

variable {messageId : String} {target : Target} {limits : Limits}
  {scope : RunScope} {text : String}

/- The last draft about a block of prose that is remembered. -/
theorem Talking.exists_lastText
    {b : Block}
    {i : Nat}
    (hTalking : Talking messageId target limits scope text t)
    (hMirrors : Mirrors t)
    (hMade : Splitter.MadeAt t.streamer.splitter.id i b)
    (hKind : b.kind = .text)
    (hRemembers : t.Remembers b) :
    ∃ body,
      lastDraft (.block b.id) t.sent =
        some (.text b.id b.index body false) ∧
      (Value.string body).fingerprint =
        (Value.string b.textOrEmpty).fingerprint := by
  rcases hMirrors.exists_lastDraft (x := .block b.id) hRemembers
    with ⟨c, hMember, hLast, v, hDraft, hSame⟩
  have hId := hMade.id_eq
  rw [hKind] at hId
  rw [hId] at hDraft hLast
  rcases (hTalking.foretold c hMember).eq_text hDraft with
    ⟨body, rfl, rfl⟩
  rw [hId, hMade.index_eq]
  exact ⟨body, hLast, hSame⟩

/- A session that is caught up has fresh drafts. -/
theorem Caught.fresh
    {memory : σ}
    (hTalking : Talking messageId target limits scope text t)
    (hCaught : Caught t)
    (hFence :
      ∀ d ∈ fenceShown plan t.streamer.target
          t.streamer.splitter memory,
        t.remembered d.1 = some d.2.fingerprint) :
    Fresh plan target memory t := by
  rcases hTalking.tidy with ⟨read, hTidy⟩
  have hListed := hTidy.listed
  have hForetold := hTalking.foretold
  rw [hTalking.target] at hFence
  refine ⟨?_, ?_, ?_, ?_, ?_, hCaught.mirrors.changing⟩
  · exact fun c hMember => (hForetold c hMember).draft
  · intro hLength b hMember hKind
    rcases List.mem_iff_getElem?.mp hMember with ⟨i, hAt⟩
    exact
      hTalking.exists_lastText hCaught.mirrors
        (hListed.made i b hAt) hKind
        (hCaught.finished hLength b hMember hKind)
  · intro p hText
    exact
      hTalking.exists_lastText hCaught.mirrors
        (hListed.made_text _) rfl (hCaught.prose hText)
  · intro p hTarget v hValue
    have hShown :
        (.block p.pendingStructuredId, v) ∈
          fenceShown plan target p memory := by
      unfold fenceShown
      rw [hTarget, hValue]
      exact List.mem_singleton_self _
    rcases hCaught.mirrors.exists_lastDraft (hFence _ hShown)
      with ⟨c, hMember, hLast, w, hDraft, hSame⟩
    dsimp only at hLast hDraft
    rw [hListed.pendingStructuredId_eq] at hLast hDraft ⊢
    rw [hListed.index]
    rw [(hForetold c hMember).eq_structured hDraft] at hLast
    exact ⟨w, hLast, hSame⟩
  · intro p hTarget ms hValue m hAnswer
    have hShown :
        memberShown m ∈ fenceShown plan target p memory := by
      unfold fenceShown
      rw [hTarget, hValue]
      exact List.mem_map_of_mem hAnswer
    rcases hCaught.mirrors.exists_lastDraft (hFence _ hShown)
      with ⟨c, hMember, hLast, w, hDraft, hSame⟩
    rw [(hForetold c hMember).eq_streaming hDraft] at hLast
    exact ⟨w, hLast, hSame⟩

/- All chunks leave a session that took them in caught up. -/
theorem caught_of_pushAll
    {path : Option String}
    {memory : σ}
    {chunks : List String}
    (hOk :
      Session.pushAll plan chunks
        (start (.start messageId target limits path) .unbounded
          scope memory) = .ok () t) :
    ∃ text, Talking messageId target limits scope text t ∧
      Caught t := by
  refine
    pushAll_induction
      (P := fun t =>
        ∃ text, Talking messageId target limits scope text t ∧
          Caught t)
      ?_ ?_ hOk
  · rintro chunk r t ⟨text, hTalking, hCaught⟩ hPush
    exact
      ⟨_, hTalking.of_push hPush,
        (hCaught.push hTalking hPush).1⟩
  · exact
      ⟨"", .of_start messageId target limits path scope memory,
        caught_start messageId target limits path scope memory⟩

end Drafts

end Session

------------------------------------------------------------
-- Drafts That Stay Fresh
------------------------------------------------------------

/-
  Behind each chunk that a stream takes in, its drafts are
  fresh, however its text was cut into chunks, and whatever the
  transforms of state values do from one time to the next.
-/
theorem drafts_stay_fresh
    {σ : Type}
    (plan : Plan σ)
    (messageId : String)
    (target : Target)
    (limits : Limits)
    (path : Option String)
    (scope : RunScope)
    (memory : σ)
    (chunks : List String)
    (chunk : String)
    (s t : Session σ)
    (hBefore :
      Session.pushAll plan chunks
        (Session.start (.start messageId target limits path)
          .unbounded scope memory) = .ok () s)
    (hPush : Session.push plan chunk s = .ok () t) :
    t.Fresh plan target s.memory := by
  rcases Session.caught_of_pushAll hBefore with
    ⟨text, hTalking, hCaught⟩
  rcases hCaught.push hTalking hPush with ⟨hBehind, hFence⟩
  exact hBehind.fresh (hTalking.of_push hPush) hFence

/-
  The sessions before and behind the last chunk of a stream
  whose key is not ready the second time it is asked for.
-/
def fickleDrafts : Option (Session Nat × Session Nat) :=
  match
    Session.pushAll ficklePlan
      ["Sum", ": \x60\x60\x60json\n\x7b\x22a\x22:1"]
      (Session.start (.start "m" .state ⟨64, 64⟩ none)
        .unbounded (.fresh "r") 0)
  with
  | .error _ _ => none
  | .ok _ s =>
      match Session.push ficklePlan "2,\x22b\x22:3" s with
      | .error _ _ => none
      | .ok _ t => some (s, t)

/- The prose, and the keys as they were ready, are shown once. -/
theorem fickleDrafts_stay_fresh :
    ∃ s t, fickleDrafts = some (s, t) ∧
      t.Fresh ficklePlan .state s.memory ∧
      t.sent =
        [ .text "m:text:0" 0 "Sum" false,
          .text "m:text:0" 0 "Sum:" false,
          .stateStreaming "a" (.array []),
          .stateStreaming "b" (.number (.integer 3)) ] := by
  have hDrafts :
      fickleDrafts.map (fun drafts => drafts.2.sent) =
        some
          [ .text "m:text:0" 0 "Sum" false,
            .text "m:text:0" 0 "Sum:" false,
            .stateStreaming "a" (.array []),
            .stateStreaming "b" (.number (.integer 3)) ] := by
    decide +kernel
  unfold fickleDrafts at hDrafts ⊢
  split at hDrafts
  · cases hDrafts
  · next s hBefore =>
    split at hDrafts
    · cases hDrafts
    · next t hPush =>
      refine ⟨s, t, rfl, ?_, ?_⟩
      · exact
          drafts_stay_fresh ficklePlan "m" .state ⟨64, 64⟩ none
            (.fresh "r") 0 _ _ s t hBefore hPush
      · exact Option.some.inj hDrafts

end AnswerStream
