import AnswerStream.Proofs.Splitter.Lengthening
import AnswerStream.Proofs.Streamer.Finishing
import AnswerStream.Proofs.Streamer.Freshness
import Mathlib.Data.Set.List

/-
  This file proves that the text of a block of prose only grows.
  If there is room for the whole text, then all that a stream
  sends of such a block has its index, each draft is a prefix
  of what is sent of the block behind it and shorter than the
  next draft, and the last of it is the recorded block.

  Key definitions include:
    * `Splitter.Lags`
    * `Session.Growing`

  Main statements:
    * `Session.Growing.push`
    * `Session.Talking.sent_of_finish`
    * `prose_only_grows`
-/

namespace AnswerStream

open Json

------------------------------------------------------------
-- Drafts of Prose
------------------------------------------------------------

namespace Splitter

variable {p q : Splitter} {c d : Content}

/-
  A draft of prose has a prefix of what a splitter has at the
  place.
-/
inductive Lags (p : Splitter) : Content → Prop where
| intro
    {i : Nat}
    {x y : String}
    (hReads : p.Reads i y)
    (hPrefix : x.toList <+: y.toList) :
    Lags p
      (.text (slot p.id .text i) (UInt32.ofNat i) x false)

/- What lags goes on to do so where prose gets longer. -/
theorem Lengthens.lags
    (hLengthens : Lengthens p q)
    (hId : q.id = p.id)
    (hLags : p.Lags c) :
    q.Lags c := by
  cases hLags with
  | intro hReads hPrefix =>
      rcases hLengthens _ _ hReads with ⟨z, hThere, hLonger⟩
      rw [← hId]
      exact .intro hThere (hPrefix.trans hLonger)

/- No two places with prose have the same index. -/
def Narrow (p : Splitter) : Prop :=
  ∀ i x, p.Reads i x → i < UInt32.size

/- There were no more places before. -/
theorem Lengthens.narrow
    (hLengthens : Lengthens p q)
    (hNarrow : q.Narrow) :
    p.Narrow := by
  intro i x hReads
  rcases hLengthens i x hReads with ⟨y, hThere, _⟩
  exact hNarrow i y hThere

/- Where an index does not recur, identities tell places. -/
theorem Narrow.place_inj
    {i j : Nat}
    {x y : String}
    (hNarrow : p.Narrow)
    (hI : p.Reads i x)
    (hJ : p.Reads j y)
    (hSlot : slot p.id .text i = slot p.id .text j) :
    i = j := by
  have hSame := congrArg UInt32.toNat (slot_inj hSlot).2
  rw [UInt32.toNat_ofNat_of_lt' (hNarrow i x hI),
    UInt32.toNat_ofNat_of_lt' (hNarrow j y hJ)] at hSame
  exact hSame

/-
  A draft of prose has just what a splitter has at the place.
-/
inductive Meets (p : Splitter) : Content → Prop where
| intro
    {i : Nat}
    {x : String}
    (hReads : p.Reads i x) :
    Meets p
      (.text (slot p.id .text i) (UInt32.ofNat i) x false)

theorem Meets.lags (hMeets : p.Meets c) : p.Lags c := by
  cases hMeets with
  | intro hReads => exact .intro hReads (List.prefix_refl _)

end Splitter

/-
  Of two drafts of one block of prose the first has a prefix
  of what the second has.
-/
def Content.Precedes (c d : Content) : Prop :=
  ∀ id index x y,
    c = .text id index x false → d = .text id index y false →
      x.toList <+: y.toList

/- What lags comes before what does not. -/
theorem Splitter.Lags.precedes
    {p : Splitter}
    {c d : Content}
    (hNarrow : p.Narrow)
    (hLags : p.Lags c)
    (hMeets : p.Meets d) :
    c.Precedes d := by
  intro id index x y hX hY
  cases hLags with
  | intro hReads hPrefix =>
      cases hMeets with
      | intro hThere =>
          cases hX
          simp only [Content.text.injEq] at hY
          rcases hY with ⟨hSlot, _, rfl, _⟩
          cases hNarrow.place_inj hThere hReads hSlot
          rw [hReads.unique hThere] at hPrefix
          exact hPrefix

namespace Session

variable {σ : Type} {plan : Plan σ} {r s t : Session σ}

/- What is looked at of the prose is there to be read. -/
theorem meets_textPreviews
    {s : Streamer}
    {read : Nat}
    {b : Block}
    (hTidy : s.splitter.Tidy read)
    (hMember : b ∈ textPreviews s) :
    s.splitter.Meets (textPreview b) := by
  unfold textPreviews at hMember
  dsimp only at hMember
  have hFinished :
      ∀ b ∈ (s.splitter.blocks.drop s.announced).filter
          fun b => b.kind == .text,
        s.splitter.Meets (textPreview b) := by
    intro b hMember
    rcases List.mem_filter.mp hMember with ⟨hDrop, hKind⟩
    have hBlock := List.mem_of_mem_drop hDrop
    rcases List.mem_iff_getElem?.mp hBlock with ⟨i, hAt⟩
    have hReads : s.splitter.Reads i b.textOrEmpty :=
      .block hAt (eq_of_beq hKind)
    have hMade := hTidy.listed.made i b hAt
    have hId := hMade.id_eq
    rw [eq_of_beq hKind] at hId
    unfold textPreview
    rw [hId, hMade.index_eq]
    exact .intro hReads
  split at hMember
  · exact hFinished b hMember
  · next hText =>
    rcases List.mem_append.mp hMember with hOld | hNew
    · exact hFinished b hOld
    · rw [List.mem_singleton.mp hNew]
      have hReads :=
        Splitter.Reads.prose (Bool.eq_false_iff.mpr hText)
      unfold textPreview Block.ofText Block.bare
      dsimp only
      rw [hTidy.listed.pendingTextId_eq, hTidy.listed.index]
      exact .intro hReads

/-
  A look at the blocks sends no other drafts of prose than what
  is there to be read.
-/
theorem look_meets
    {read : Nat}
    (hTidy : s.streamer.splitter.Tidy read)
    (hOpen : s.outlet.room = none)
    (hOk :
      (emitTextUpdates plan >>= fun _ => emitFence plan) s =
        .ok () t) :
    ∃ cs, t.sent = s.sent ++ cs ∧
      t.streamer.splitter = s.streamer.splitter ∧
      ∀ c ∈ cs, ∀ id, c.block? = some (.text, id) →
        s.streamer.splitter.Meets c := by
  rcases ok_of_bind hOk with ⟨_, u, hTexts, hFence⟩
  rw [emitTextUpdates_eq] at hTexts
  rcases emitTexts_tells (s := s.looked) plan
      (textPreviews s.streamer) hOpen with
    ⟨_, cs, hSame, hFirst, hProse⟩
  rw [hTexts] at hSame
  cases hSame
  rcases emitFence_tells plan hFirst.room with
    ⟨_, ds, hSame, hSecond, hRest⟩
  rw [hFence] at hSame
  cases hSame
  have hBoth := hFirst.trans hSecond
  refine ⟨cs ++ ds, hBoth.sent, hBoth.splitter, ?_⟩
  intro c hMember id hText
  rcases List.mem_append.mp hMember with hOld | hNew
  · rcases List.mem_map.mp (hProse c hOld) with ⟨b, hBlock, rfl⟩
    exact meets_textPreviews hTidy hBlock
  · rcases hRest c hNew with
      ⟨_, v, _, rfl⟩ | ⟨_, key, v, rfl⟩
    · cases hText
    · cases hText

------------------------------------------------------------
-- Sessions with Growing Prose
------------------------------------------------------------

/-
  The prose that a session sent grows: all of it lags behind
  the splitter, and of two drafts of one block the first has a
  prefix of what the second has, unless an index recurs.
-/
structure Growing (s : Session σ) : Prop where
  lags :
    ∀ c ∈ s.sent, ∀ id, c.block? = some (.text, id) →
      s.streamer.splitter.Lags c
  grown :
    s.streamer.splitter.Narrow →
      s.sent.Pairwise Content.Precedes

/- It goes on to grow where a splitter has longer prose. -/
theorem Growing.lengthens
    (hGrowing : Growing s)
    (hLengthens :
      s.streamer.splitter.Lengthens t.streamer.splitter)
    (hId : t.streamer.splitter.id = s.streamer.splitter.id)
    (hSent : t.sent = s.sent) :
    Growing t where
  lags := by
    intro c hMember id hText
    rw [hSent] at hMember
    exact hLengthens.lags hId (hGrowing.lags c hMember id hText)
  grown := by
    intro hNarrow
    rw [hSent]
    exact hGrowing.grown (hLengthens.narrow hNarrow)

/- So it does behind a look, which sends all that is there. -/
theorem Growing.look
    {read : Nat}
    (hGrowing : Growing s)
    (hTidy : s.streamer.splitter.Tidy read)
    (hOpen : s.outlet.room = none)
    (hOk :
      (emitTextUpdates plan >>= fun _ => emitFence plan) s =
        .ok () t) :
    Growing t := by
  rcases look_meets hTidy hOpen hOk with
    ⟨cs, hSent, hAfter, hMeets⟩
  constructor
  · intro c hMember id hText
    rw [hSent] at hMember
    rw [hAfter]
    rcases List.mem_append.mp hMember with hOld | hNew
    · exact hGrowing.lags c hOld id hText
    · exact (hMeets c hNew id hText).lags
  · intro hNarrow
    rw [hAfter] at hNarrow
    -- All that was sent before lags behind what is sent now.
    have hBehind :
        ∀ c d,
          (∀ id, c.block? = some (.text, id) →
            s.streamer.splitter.Lags c) →
          d ∈ cs → c.Precedes d := by
      intro c d hLags hNew id index x y hX hY
      have hFirst := hLags id (by rw [hX]; rfl)
      have hSecond := hMeets d hNew id (by rw [hY]; rfl)
      exact hFirst.precedes hNarrow hSecond id index x y hX hY
    rw [hSent, List.pairwise_append]
    refine ⟨hGrowing.grown hNarrow, ?_, ?_⟩
    · refine List.pairwise_of_forall_mem_list fun c hC d hD => ?_
      exact
        hBehind c d (fun id hText => (hMeets c hC id hText).lags)
          hD
    · intro c hC d hD
      exact hBehind c d (hGrowing.lags c hC) hD

section Chunks

variable {messageId : String} {target : Target} {limits : Limits}
  {scope : RunScope} {text chunk : String}

/- A chunk that is taken in makes prose longer if it has room. -/
theorem Talking.lengthens_take
    (hTalking : Talking messageId target limits scope text s)
    (hFits : (text ++ chunk).utf8ByteSize ≤ limits.text)
    (hOk : Session.take chunk s = .ok () t) :
    (∃ read, t.streamer.splitter.Tidy read) ∧
      s.streamer.splitter.Lengthens t.streamer.splitter ∧
      t.streamer.splitter.id = s.streamer.splitter.id ∧
      t.sent = s.sent ∧ t.outlet.room = none := by
  rw [String.utf8ByteSize_append, ← byteCount_toList text,
    ← byteCount_toList chunk] at hFits
  have hStart :=
    Splitter.run_grows (Splitter.tidy_start messageId limits)
      (by
        rw [Nat.zero_add]
        exact Nat.le_trans (Nat.le_add_right _ _) hFits)
      hTalking.splitter
  rcases hStart with ⟨hTidy, hGrown⟩
  rcases ok_of_take hOk with ⟨q, hAppend, hStreamer, hOutlet⟩
  rw [Splitter.append_value] at hAppend
  have hSplitter : t.streamer.splitter = q := by
    rw [hStreamer]
  rw [← hSplitter] at hAppend
  have hRoom :
      0 + byteCount text.toList + byteCount chunk.toList ≤
        s.streamer.splitter.limits.text := by
    rw [hGrown.limits, Nat.zero_add]
    exact hFits
  rcases Splitter.run_lengthens hTidy hRoom hAppend with
    ⟨hLater, hLengthens⟩
  have hId := (Splitter.run_grows hTidy hRoom hAppend).2.id
  refine ⟨⟨_, hLater⟩, hLengthens, hId, ?_, ?_⟩
  · unfold sent
    rw [hOutlet]
  · rw [hOutlet]
    exact hTalking.room

/- A chunk for which there is room makes the prose grow. -/
theorem Growing.push
    (hTalking : Talking messageId target limits scope text s)
    (hGrowing : Growing s)
    (hFits : (text ++ chunk).utf8ByteSize ≤ limits.text)
    (hOk : Session.push plan chunk s = .ok () t) :
    Growing t := by
  rw [push_eq] at hOk
  rcases ok_of_bind hOk with ⟨_, r, hTake, hLook⟩
  rcases hTalking.lengthens_take hFits hTake with
    ⟨⟨read, hTidy⟩, hLengthens, hId, hSent, hOpen⟩
  exact
    (hGrowing.lengthens hLengthens hId hSent).look hTidy hOpen
      hLook

/- All chunks make the prose grow if there is room for them. -/
theorem Growing.pushAll
    {chunks : List String}
    (hTalking : Talking messageId target limits scope text s)
    (hCaught : Caught s)
    (hGrowing : Growing s)
    (hFits :
      (text ++ String.join chunks).utf8ByteSize ≤ limits.text)
    (hOk : Session.pushAll plan chunks s = .ok () t) :
    Talking messageId target limits scope
        (text ++ String.join chunks) t ∧
      Caught t ∧ Growing t := by
  induction chunks generalizing s text with
  | nil =>
      cases hOk
      rw [String.join_nil, String.append_empty]
      exact ⟨hTalking, hCaught, hGrowing⟩
  | cons chunk rest ih =>
      rcases ok_of_bind hOk with ⟨_, r, hPush, hRest⟩
      rw [String.join_cons, ← String.append_assoc] at hFits ⊢
      have hHere : (text ++ chunk).utf8ByteSize ≤ limits.text := by
        rw [String.utf8ByteSize_append] at hFits
        omega
      exact
        ih (hTalking.of_push hPush) (hCaught.push hTalking hPush).1
          (hGrowing.push hTalking hHere hPush) hFits hRest

------------------------------------------------------------
-- The End of a Stream
------------------------------------------------------------

/-
  The end of an answer sends its final events and no others,
  and all blocks are recorded.
-/
theorem Talking.sent_of_finish
    {outcome : Outcome}
    (hTalking : Talking messageId target limits scope text s)
    (hOk : Session.finish plan s = .ok outcome t) :
    let blocks := s.streamer.splitter.close.value.allBlocks
    outcome.message.recordedBlocks = some blocks ∧
      ∃ values,
        t.sent = s.sent ++ closing target blocks values := by
  rcases parts_of_finish hOk with
    ⟨told, shown, notes, hTexts, hFinals, rfl, rfl⟩
  rcases emitFinalTexts_tells (s := s.closed) plan _
      hTalking.room with
    ⟨_, hSame, hFirst⟩
  rw [hTexts] at hSame
  cases hSame
  rcases emitFinals_sends plan _ hFirst.room with
    ⟨_, values, hSame, hSecond, _⟩
  rw [hFinals] at hSame
  cases hSame
  have hTarget : told.streamer.target = target :=
    hFirst.target.trans hTalking.target
  rw [hTarget] at hSecond
  exact ⟨rfl, values, (hFirst.toSends.trans hSecond).sent⟩

end Chunks

------------------------------------------------------------
-- All That Is Sent of a Block
------------------------------------------------------------

/- What tells of a block of prose, in order. -/
def proseOf
    (id : String)
    (cs : List Content) : List Content :=
  cs.filter fun c => c.block? == some (.text, id)

/- The final events tell once of a block of prose. -/
theorem proseOf_closing
    {blocks : List Block}
    {b : Block}
    (hDistinct : (blocks.map Block.id).Nodup)
    (hMember : b ∈ blocks)
    (hKind : b.kind = .text)
    (target : Target)
    (values : Members) :
    proseOf b.id (closing target blocks values) =
      [.text b.id b.index b.textOrEmpty true] := by
  have hFinal :
      .text b.id b.index b.textOrEmpty true ∈
        proseOf b.id (closing target blocks values) := by
    have hProse :
        b ∈ blocks.filter fun b => b.kind == .text :=
      List.mem_filter.mpr ⟨hMember, beq_iff_eq.mpr hKind⟩
    exact
      List.mem_filter.mpr
        ⟨List.mem_append_left _ (List.mem_map_of_mem hProse),
          beq_iff_eq.mpr rfl⟩
  have hOnce :
      (proseOf b.id (closing target blocks values)).length ≤
        1 := by
    unfold proseOf
    rw [← List.countP_eq_length_filter]
    exact
      (countContents_closing (.inl rfl) b.id blocks values).le.trans
        (countBlocks_le_one hDistinct .text b.id)
  rcases hList : proseOf b.id (closing target blocks values) with
    _ | ⟨c, rest⟩
  · rw [hList] at hFinal
    cases hFinal
  · rw [hList] at hFinal hOnce
    have hRest : rest = [] :=
      List.length_eq_zero_iff.mp (by simpa using hOnce)
    rw [hRest] at hFinal ⊢
    rw [List.mem_singleton.mp hFinal]

/- Final events that tell of prose are of blocks of prose. -/
theorem prose_of_closing
    {target : Target}
    {blocks : List Block}
    {values : Members}
    {c : Content}
    {id : String}
    (hMember : c ∈ closing target blocks values)
    (hText : c.block? = some (.text, id)) :
    ∃ b ∈ blocks, b.kind = .text ∧ b.id = id := by
  rcases List.mem_append.mp hMember with hProse | hRest
  · rcases List.mem_map.mp hProse with ⟨b, hBlock, rfl⟩
    rcases List.mem_filter.mp hBlock with ⟨hThere, hKind⟩
    cases hText
    exact ⟨b, hThere, eq_of_beq hKind, rfl⟩
  · cases target with
    | messages =>
        rcases List.mem_map.mp hRest with ⟨b, _, rfl⟩
        cases hText
    | state =>
        rcases List.mem_map.mp hRest with ⟨m, _, rfl⟩
        cases hText

section Blocks

variable {messageId : String} {target : Target} {limits : Limits}
  {scope : RunScope} {text : String} {b : Block} {i : Nat}

/- The drafts about a block of prose are what tells of it. -/
theorem Talking.draftsAbout_eq
    {id : String}
    (hTalking : Talking messageId target limits scope text s)
    (hId : id = Splitter.slot s.streamer.splitter.id .text i) :
    draftsAbout (.block id) s.sent = proseOf id s.sent := by
  subst hId
  refine List.filter_congr fun c hMember => ?_
  rw [Bool.eq_iff_iff, beq_iff_eq]
  constructor
  · intro hAbout
    rcases Content.draft?_of_isAbout hAbout with ⟨v, hDraft⟩
    rcases (hTalking.foretold c hMember).eq_text hDraft with
      ⟨body, _, rfl⟩
    rfl
  · intro hText
    cases hTalking.foretold c hMember with
    | text hPlace hSeen body =>
        have hSlot := congrArg Prod.snd (Option.some.inj hText)
        exact beq_iff_eq.mpr (congrArg Subject.block hSlot)
    | fence hTarget hSeen v => cases hText
    | key hTarget name v => cases hText

/- What lags and tells of a block has its index. -/
theorem Growing.exists_drafts
    (hGrowing : Growing s)
    (hMade : Splitter.MadeAt s.streamer.splitter.id i b)
    (hKind : b.kind = .text) :
    ∃ drafts : List String,
      proseOf b.id s.sent =
        drafts.map fun x => .text b.id b.index x false := by
  have hEach :
      proseOf b.id s.sent ∈
        Set.range
          (List.map fun x =>
            Content.text b.id b.index x false) := by
    rw [Set.range_list_map]
    intro c hMember
    rcases List.mem_filter.mp hMember with ⟨hSent, hText⟩
    have hBlock := eq_of_beq hText
    have hId := hMade.id_eq
    rw [hKind] at hId
    cases hGrowing.lags c hSent b.id hBlock with
    | @intro j x y hReads hPrefix =>
        simp only [Content.block?, Option.some.injEq,
          Prod.mk.injEq, true_and] at hBlock
        refine ⟨x, ?_⟩
        rw [hMade.index_eq, hBlock,
          (Splitter.slot_inj (hBlock.trans hId)).2]
  rcases hEach with ⟨drafts, hDrafts⟩
  exact ⟨drafts, hDrafts.symm⟩

/- What is sent of prose is of a block that is recorded. -/
theorem Growing.recorded
    {read : Nat}
    {index : UInt32}
    {c : Content}
    {id : String}
    (hGrowing : Growing s)
    (hTidy : s.streamer.splitter.Tidy read)
    (hListed :
      Splitter.Listed s.streamer.splitter.id index
        s.streamer.splitter.close.value.allBlocks)
    (hMember : c ∈ s.sent)
    (hText : c.block? = some (.text, id)) :
    ∃ b ∈ s.streamer.splitter.close.value.allBlocks,
      b.kind = .text ∧ b.id = id := by
  cases hGrowing.lags c hMember id hText with
  | @intro i x y hReads hPrefix =>
      cases hText
      rcases Splitter.finished_of_reads hTidy hReads with
        ⟨b, hAt, hKind, _⟩
      have hId := (hListed.made i b hAt).id_eq
      rw [hKind] at hId
      exact ⟨b, List.mem_of_getElem? hAt, hKind, hId⟩

/- Texts that go on and change get longer. -/
theorem isChain_length_lt
    {xs : List String}
    (hPrefix :
      xs.IsChain fun x y => x.toList <+: y.toList)
    (hChanging : xs.IsChain (· ≠ ·)) :
    xs.IsChain fun x y => x.length < y.length := by
  rw [List.isChain_iff_getElem] at hPrefix hChanging ⊢
  intro i hI
  have hLonger := hPrefix i hI
  have hLength := hLonger.length_le
  rw [String.length_toList, String.length_toList] at hLength
  refine Nat.lt_of_le_of_ne hLength fun hSame => ?_
  rw [← String.length_toList, ← String.length_toList] at hSame
  exact
    hChanging i hI <|
      String.toList_injective (hLonger.eq_of_length hSame)

/- Prose of which there is no end yet has a place of its own. -/
theorem narrow_of_length
    {p : Splitter}
    {read : Nat}
    (hTidy : p.Tidy read)
    (hLength :
      p.close.value.allBlocks.length ≤ UInt32.size) :
    p.Narrow := by
  intro i x hReads
  rcases Splitter.finished_of_reads hTidy hReads with
    ⟨b, hAt, _, _⟩
  have hPlace := (List.getElem?_eq_some_iff.mp hAt).1
  exact Nat.lt_of_lt_of_le hPlace hLength

/-
  What is sent of a block that is recorded in the end has a
  prefix of its text.
-/
theorem Growing.prefix_of_block
    {read : Nat}
    {index : UInt32}
    {x : String}
    (hGrowing : Growing s)
    (hTidy : s.streamer.splitter.Tidy read)
    (hListed :
      Splitter.Listed s.streamer.splitter.id index
        s.streamer.splitter.close.value.allBlocks)
    (hLength :
      s.streamer.splitter.close.value.allBlocks.length ≤
        UInt32.size)
    (hAt :
      s.streamer.splitter.close.value.allBlocks[i]? = some b)
    (hSent : .text b.id b.index x false ∈ s.sent) :
    x.toList <+: b.textOrEmpty.toList := by
  generalize hDraft : Content.text b.id b.index x false = c
    at hSent
  cases hGrowing.lags c hSent b.id (by rw [← hDraft]; rfl) with
  | @intro j z y hReads hPrefix =>
      simp only [Content.text.injEq] at hDraft
      rcases hDraft with ⟨hSlot, _, rfl, _⟩
      rcases Splitter.finished_of_reads hTidy hReads with
        ⟨d, hThere, hText, hLonger⟩
      have hB := hListed.made i b hAt
      have hD := hListed.made j d hThere
      have hI := (List.getElem?_eq_some_iff.mp hAt).1
      have hJ := (List.getElem?_eq_some_iff.mp hThere).1
      have hId := hD.id_eq
      rw [hText, ← hSlot] at hId
      cases hD.place_inj hB (by omega) (by omega) hId
      rw [hAt] at hThere
      rw [Option.some.inj hThere]
      exact hPrefix.trans hLonger

/-
  What was sent of a block that is recorded in the end: drafts
  with its index, each of which is a prefix of the next one and
  of the block, and shorter than the next one.
-/
theorem Growing.drafts_of_block
    {read : Nat}
    {index : UInt32}
    (hTalking : Talking messageId target limits scope text s)
    (hCaught : Caught s)
    (hGrowing : Growing s)
    (hTidy : s.streamer.splitter.Tidy read)
    (hListed :
      Splitter.Listed s.streamer.splitter.id index
        s.streamer.splitter.close.value.allBlocks)
    (hLength :
      s.streamer.splitter.close.value.allBlocks.length ≤
        UInt32.size)
    (hAt :
      s.streamer.splitter.close.value.allBlocks[i]? = some b)
    (hKind : b.kind = .text) :
    ∃ drafts : List String,
      (proseOf b.id s.sent =
        drafts.map fun x => .text b.id b.index x false) ∧
      ((drafts ++ [b.textOrEmpty]).IsChain fun x y =>
        x.toList <+: y.toList) ∧
      drafts.IsChain fun x y => x.length < y.length := by
  have hMade := hListed.made i b hAt
  rcases hGrowing.exists_drafts hMade hKind with
    ⟨drafts, hDrafts⟩
  have hGrown :
      drafts.Pairwise fun x y => x.toList <+: y.toList := by
    have hNarrow := narrow_of_length hTidy hLength
    have hSent :
        (proseOf b.id s.sent).Pairwise Content.Precedes :=
      (hGrowing.grown hNarrow).sublist List.filter_sublist
    rw [hDrafts, List.pairwise_map] at hSent
    exact hSent.imp fun hPrecedes =>
      hPrecedes b.id b.index _ _ rfl rfl
  have hLast :
      ∀ x ∈ drafts, x.toList <+: b.textOrEmpty.toList := by
    intro x hMember
    have hProse :
        .text b.id b.index x false ∈ proseOf b.id s.sent := by
      rw [hDrafts]
      exact List.mem_map_of_mem hMember
    exact
      hGrowing.prefix_of_block hTidy hListed hLength hAt
        (List.mem_filter.mp hProse).1
  have hChanging : drafts.IsChain (· ≠ ·) := by
    have hId := hMade.id_eq
    rw [hKind] at hId
    have hAll := hCaught.mirrors.changing (.block b.id)
    rw [hTalking.draftsAbout_eq hId, hDrafts,
      List.isChain_map] at hAll
    refine hAll.imp fun x y hDiffer hSame => hDiffer ?_
    rw [hSame]
  refine ⟨drafts, hDrafts, ?_, ?_⟩
  · refine List.Pairwise.isChain ?_
    rw [List.pairwise_append]
    refine ⟨hGrown, List.pairwise_singleton _ _, ?_⟩
    intro x hX y hY
    rw [List.mem_singleton.mp hY]
    exact hLast x hX
  · exact isChain_length_lt hGrown.isChain hChanging

end Blocks

end Session

------------------------------------------------------------
-- Prose That Only Grows
------------------------------------------------------------

/-
  All that a stream sends of prose is of blocks of prose that
  it records. Of each of these it sends drafts and then one
  final event, all with its index: each text is a prefix of the
  next one, drafts get longer, and the final text is that of
  the block. There is room for the whole text in the buffer;
  indices have 32 bits, and if there are more blocks, then
  identities recur.
-/
theorem prose_only_grows
    {σ : Type}
    (plan : Plan σ)
    (messageId : String)
    (target : Target)
    (limits : Limits)
    (path : Option String)
    (scope : RunScope)
    (memory : σ)
    (chunks : List String)
    (outcome : Outcome)
    (last : Session σ)
    (hRun :
      Session.run plan chunks
        (Session.start (.start messageId target limits path)
          .unbounded scope memory) = .ok outcome last)
    (hFits : (String.join chunks).utf8ByteSize ≤ limits.text)
    (hBlocks :
      ∀ blocks, outcome.message.recordedBlocks = some blocks →
        blocks.length ≤ UInt32.size) :
    ∃ blocks,
      outcome.message.recordedBlocks = some blocks ∧
      (∀ c ∈ last.sent, ∀ id, c.block? = some (.text, id) →
        ∃ b ∈ blocks, b.kind = .text ∧ b.id = id) ∧
      ∀ b ∈ blocks, b.kind = .text →
        ∃ drafts : List String,
          (last.sent.filter fun c =>
              c.block? == some (.text, b.id)) =
            (drafts.map fun x =>
              .text b.id b.index x false) ++
              [.text b.id b.index b.textOrEmpty true] ∧
          ((drafts ++ [b.textOrEmpty]).IsChain fun x y =>
            x.toList <+: y.toList) ∧
          drafts.IsChain fun x y => x.length < y.length := by
  rcases Session.parts_of_run hRun with
    ⟨notes, pushed, hPushes, hFinish⟩
  rcases Session.Growing.pushAll
      ((Session.Talking.of_start messageId target limits path
        scope memory).of_notes notes)
      ((Session.caught_start messageId target limits path scope
        memory).of_notes notes)
      ⟨nofun, fun _ => List.Pairwise.nil⟩
      (by rwa [String.empty_append]) hPushes with
    ⟨hTalking, hCaught, hGrowing⟩
  rcases hTalking.sent_of_finish hFinish with
    ⟨hRecorded, values, hSent⟩
  rcases hTalking.tidy with ⟨read, hTidy⟩
  rcases hTidy.close with ⟨hClosed, hGrows, _⟩
  rcases hClosed.listed_allBlocks with ⟨index, hListed⟩
  rw [hGrows.id] at hListed
  have hLength := hBlocks _ hRecorded
  refine ⟨_, hRecorded, ?_, ?_⟩
  · intro c hMember id hText
    rw [hSent] at hMember
    rcases List.mem_append.mp hMember with hDraft | hFinal
    · exact hGrowing.recorded hTidy hListed hDraft hText
    · exact Session.prose_of_closing hFinal hText
  · intro b hMember hKind
    rcases List.mem_iff_getElem?.mp hMember with ⟨i, hAt⟩
    rcases hGrowing.drafts_of_block hTalking hCaught hTidy
        hListed hLength hAt hKind with
      ⟨drafts, hDrafts, hPrefix, hLonger⟩
    refine ⟨drafts, ?_, hPrefix, hLonger⟩
    rw [hSent, List.filter_append]
    exact
      congrArg₂ (· ++ ·) hDrafts <|
        Session.proseOf_closing (hListed.nodup hLength) hMember
          hKind target values

/-
  Prose with backticks that open no fence, with a fence of code
  that is left out, and with backticks at its end.
-/
def heldStream :
    EStateM.Result StreamError (Session Unit) Outcome :=
  Session.run ⟨.none, none, fun _ => ⟨"", ""⟩⟩
    [ "Use \x60a", "\x60\x60 now ", "\x60\x60\x60py\nx\x60\x60\x60",
      "ok\n\x60\x60\x60json\n1", "\n\x60\x60\x60", " End \x60" ]
    (Session.start (.start "m" .messages ⟨64, 64⟩ none)
      .unbounded (.fresh "r") ())

theorem heldStream_only_grows :
    ∃ outcome last blocks,
      heldStream = .ok outcome last ∧
      outcome.message.recordedBlocks = some blocks ∧
      Session.proseOf "m:text:0" last.sent =
        [ .text "m:text:0" 0 "Use \x60a" false,
          .text "m:text:0" 0 "Use \x60a\x60\x60 now" false,
          .text "m:text:0" 0 "Use \x60a\x60\x60 now ok" false,
          .text "m:text:0" 0 "Use \x60a\x60\x60 now ok" true ] ∧
      ∀ b ∈ blocks, b.kind = .text →
        ∃ drafts : List String,
          (last.sent.filter fun c =>
              c.block? == some (.text, b.id)) =
            (drafts.map fun x =>
              .text b.id b.index x false) ++
              [.text b.id b.index b.textOrEmpty true] ∧
          ((drafts ++ [b.textOrEmpty]).IsChain fun x y =>
            x.toList <+: y.toList) ∧
          drafts.IsChain fun x y => x.length < y.length := by
  have hEnded :
      (sentAndRecorded heldStream).map (fun ended =>
          ( Session.proseOf "m:text:0" ended.1,
            ended.2.map List.length )) =
        some
          ( [ .text "m:text:0" 0 "Use \x60a" false,
              .text "m:text:0" 0 "Use \x60a\x60\x60 now" false,
              .text "m:text:0" 0 "Use \x60a\x60\x60 now ok" false,
              .text "m:text:0" 0 "Use \x60a\x60\x60 now ok" true ],
            some 3 ) := by
    decide +kernel
  cases hRun : heldStream with
  | error e last =>
      rw [hRun] at hEnded
      cases hEnded
  | ok outcome last =>
      rw [hRun] at hEnded
      simp only [sentAndRecorded, Option.map_some,
        Option.some.injEq, Prod.mk.injEq] at hEnded
      rcases hEnded with ⟨hProse, hCount⟩
      have hBlocks :
          ∀ blocks,
            outcome.message.recordedBlocks = some blocks →
              blocks.length ≤ UInt32.size := by
        intro blocks hRecorded
        rw [hRecorded, Option.map_some] at hCount
        rw [Option.some.inj hCount]
        decide
      rcases prose_only_grows _ "m" .messages ⟨64, 64⟩ none
          (.fresh "r") () _ outcome last hRun (by decide +kernel)
          hBlocks with
        ⟨blocks, hRecorded, _, hGrows⟩
      exact
        ⟨outcome, last, blocks, rfl, hRecorded, hProse, hGrows⟩

end AnswerStream
