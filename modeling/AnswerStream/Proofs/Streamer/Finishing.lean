import AnswerStream.Proofs.Streamer.Talking

/-
  This file proves which previews of a stream are finished. A
  previewed block has a final event just if it is recorded, and
  then it has one. All previewed fences are recorded, and all
  previewed prose if the text fits its buffer; prose that is
  shortened may become blank, and then nothing is left of it.

  Key definitions include:
    * `Content.block?`

  Main statements:
    * `Session.countContents_closing`
    * `Splitter.Foretells.recorded`
    * `previews_are_finished`
    * `blanked_prose_is_orphaned`
-/

namespace AnswerStream

open Json

/- The block of which a content tells: its kind and identity. -/
def Content.block? : Content → Option (BlockKind × String)
  | .text blockId .. => some (.text, blockId)
  | .structured blockId .. => some (.structured, blockId)
  | .reasoning blockId .. => some (.reasoning, blockId)
  | _ => none

/- The number of blocks with a kind and an identity. -/
def countBlocks
    (kind : BlockKind)
    (id : String)
    (blocks : List Block) : Nat :=
  blocks.countP fun b => b.kind == kind && b.id == id

/- The number of contents that tell of a block. -/
def countContents
    (kind : BlockKind)
    (id : String)
    (cs : List Content) : Nat :=
  cs.countP fun c => c.block? == some (kind, id)

/- Blocks with identities of their own are there once. -/
theorem countBlocks_le_one
    {blocks : List Block}
    (hDistinct : (blocks.map Block.id).Nodup)
    (kind : BlockKind)
    (id : String) :
    countBlocks kind id blocks ≤ 1 := by
  have hOnce := List.nodup_iff_count.mp hDistinct id
  have hLess :
      countBlocks kind id blocks ≤
        blocks.countP fun b => b.id == id :=
    List.countP_mono_left fun b _ hBoth =>
      (Bool.and_eq_true_iff.mp hBoth).2
  simp only [List.count, List.countP_map] at hOnce
  exact Nat.le_trans hLess hOnce

namespace Session

/- A part of final events tells of blocks as they are. -/
theorem countContents_map
    (kind : BlockKind)
    (final : Block → Content)
    (hBlock :
      ∀ b : Block, (final b).block? = some (kind, b.id))
    (id : String)
    (blocks : List Block) :
    countContents kind id
        ((blocks.filter fun b => b.kind == kind).map final) =
      countBlocks kind id blocks := by
  unfold countContents countBlocks
  rw [List.countP_map, List.countP_filter]
  refine List.countP_congr fun b _ => ?_
  simp [hBlock, and_comm]

/- Contents that tell of no block of a kind do not count. -/
theorem countContents_of_other
    {kind : BlockKind}
    {cs : List Content}
    (hOther :
      ∀ c ∈ cs, ∀ id, c.block? ≠ some (kind, id))
    (id : String) :
    countContents kind id cs = 0 := by
  refine List.countP_eq_zero.mpr fun c hMember => ?_
  simpa using hOther c hMember id

/-
  The final events tell once of each block of prose, and for
  messages once of each fence.
-/
theorem countContents_closing
    {target : Target}
    {kind : BlockKind}
    (hKind :
      kind = .text ∨ kind = .structured ∧ target = .messages)
    (id : String)
    (blocks : List Block)
    (values : Members) :
    countContents kind id (closing target blocks values) =
      countBlocks kind id blocks := by
  have hSplit :
      countContents kind id (closing target blocks values) =
        countContents kind id
            ((blocks.filter fun b => b.kind == .text).map
              fun b =>
                .text b.id b.index b.textOrEmpty true) +
          countContents kind id
            (ending target
              (blocks.filter fun b => b.kind == .structured)
              values) :=
    List.countP_append
  rw [hSplit]
  rcases hKind with rfl | ⟨rfl, rfl⟩
  · have hProse :=
      countContents_map .text
        (fun b => .text b.id b.index b.textOrEmpty true)
        (fun b => rfl) id blocks
    have hRest :
        countContents .text id
          (ending target
            (blocks.filter fun b => b.kind == .structured)
            values) = 0 := by
      refine countContents_of_other ?_ id
      intro c hMember other
      cases target with
      | messages =>
          rcases List.mem_map.mp hMember with ⟨b, _, rfl⟩
          simp [Content.block?]
      | state =>
          rcases List.mem_map.mp hMember with ⟨m, _, rfl⟩
          simp [Content.block?]
    omega
  · have hProse :
        countContents .structured id
          ((blocks.filter fun b => b.kind == .text).map
            fun b =>
              .text b.id b.index b.textOrEmpty true) = 0 := by
      refine countContents_of_other ?_ id
      intro c hMember other
      rcases List.mem_map.mp hMember with ⟨b, _, rfl⟩
      simp [Content.block?]
    have hRest :=
      countContents_map .structured
        (fun b =>
          .structured b.id b.index b.data b.sourceText true)
        (fun b => rfl) id blocks
    rw [hProse, Nat.zero_add]
    exact hRest

end Session

------------------------------------------------------------
-- Previewed Blocks
------------------------------------------------------------

/-
  What was foretold of a block is foretold of a kind that the
  target sends, and the block is recorded unless it is prose
  that was shortened.
-/
theorem Splitter.Foretells.recorded
    {p : Splitter}
    {target : Target}
    {roomy : Prop}
    {read : Nat}
    {c : Content}
    {kind : BlockKind}
    {id : String}
    (hTidy : p.Tidy read)
    (hForetells : p.Foretells target roomy c)
    (hBlock : c.block? = some (kind, id)) :
    (kind = .text ∨ kind = .structured ∧ target = .messages) ∧
      (kind = .structured ∨ roomy →
        1 ≤ countBlocks kind id p.close.value.allBlocks) := by
  have hCount :
      ∀ i, p.Announced kind i → id = slot p.id kind i →
        1 ≤ countBlocks kind id p.close.value.allBlocks := by
    intro i hSeen hId
    rcases recorded_of_announced hTidy hSeen with
      ⟨b, hMember, hKind, hSlot, _⟩
    refine List.countP_pos_iff.mpr ⟨b, hMember, ?_⟩
    simp [hKind, hSlot, hId]
  cases hForetells with
  | @text i hPlace hSeen body =>
      cases hBlock
      refine ⟨.inl rfl, ?_⟩
      rintro (hFence | hRoomy)
      · cases hFence
      · exact hCount i (hSeen hRoomy) rfl
  | @fence i hTarget hSeen v =>
      cases hBlock
      exact ⟨.inr ⟨rfl, hTarget⟩, fun _ => hCount i hSeen rfl⟩
  | key hTarget name v => cases hBlock

/-
  A stream sends previews and then final events. A block that
  was previewed has a final event just if it is recorded, and
  then one. A fence that was previewed is always recorded, and
  prose is if the whole text fits the buffer.
-/
theorem previews_are_finished
    {σ : Type}
    (plan : Plan σ)
    (messageId : String)
    (target : Target)
    (limits : Limits)
    (path : Option String)
    (scope : RunScope)
    (memory : σ)
    (chunks : List String)
    (outcome : Outcome)
    (last : Session σ)
    (hRun :
      Session.run plan chunks
        (Session.start (.start messageId target limits path)
          .unbounded scope memory) = .ok outcome last)
    (hBlocks :
      ∀ blocks, outcome.message.recordedBlocks = some blocks →
        blocks.length ≤ UInt32.size) :
    ∃ blocks previews finals,
      outcome.message.recordedBlocks = some blocks ∧
      last.sent = previews ++ finals ∧
      (∀ c ∈ previews, c.isFinal = false) ∧
      (∀ c ∈ finals, c.isFinal = true) ∧
      ∀ c ∈ previews, ∀ kind id,
        c.block? = some (kind, id) →
          countContents kind id finals =
            countBlocks kind id blocks ∧
          countBlocks kind id blocks ≤ 1 ∧
          (kind = .structured ∨
              (String.join chunks).utf8ByteSize ≤ limits.text →
            countBlocks kind id blocks = 1) := by
  rcases Session.ended_of_run hRun with
    ⟨p, read, hTidy, hEnded⟩
  rcases hEnded.sent with ⟨previews, values, hSent, hForetold, _⟩
  have hRecorded := hEnded.recorded
  rcases hTidy.close with ⟨hClosed, _, _⟩
  rcases hClosed.listed_allBlocks with ⟨index, hListed⟩
  have hDistinct := hListed.nodup (hBlocks _ hRecorded)
  refine
    ⟨p.close.value.allBlocks, previews, _, hRecorded, hSent,
      fun c hMember => (hForetold c hMember).isFinal,
      fun c hMember => Session.isFinal_of_mem_closing hMember,
      ?_⟩
  intro c hMember kind id hBlock
  rcases (hForetold c hMember).recorded hTidy hBlock with
    ⟨hKind, hSome⟩
  have hOnce := countBlocks_le_one hDistinct kind id
  refine
    ⟨Session.countContents_closing hKind id _ values, hOnce, ?_⟩
  intro hKept
  exact Nat.le_antisymm hOnce (hSome hKept)

/- Prose that is shortened between its previews, and a fence. -/
def shortenedStream :
    EStateM.Result StreamError (Session Unit) Outcome :=
  Session.run ⟨.none, none, fun _ => ⟨"", ""⟩⟩
    ["ab ", "cd ef", "\n\x60\x60\x60json\n[1", "]\n\x60\x60\x60"]
    (Session.start (.start "m" .messages ⟨4, 64⟩ none)
      .unbounded (.fresh "r") ())

theorem shortenedStream_is_finished :
    ∃ outcome last blocks previews finals,
      shortenedStream = .ok outcome last ∧
      0 < last.outlet.accepted.size ∧
      outcome.message.recordedBlocks = some blocks ∧
      last.sent = previews ++ finals ∧
      ∀ c ∈ previews, ∀ kind id,
        c.block? = some (kind, id) →
          countContents kind id finals =
            countBlocks kind id blocks := by
  have hEnded : endedWell shortenedStream = true := by
    decide +kernel
  cases hRun : shortenedStream with
  | error e last =>
      rw [hRun] at hEnded
      cases hEnded
  | ok outcome last =>
      rw [hRun] at hEnded
      have hBoth := Bool.and_eq_true_iff.mp hEnded
      have hBlocks :
          ∀ blocks,
            outcome.message.recordedBlocks = some blocks →
              blocks.length ≤ UInt32.size := by
        intro blocks hRecorded
        have hAll := hBoth.2
        rw [hRecorded] at hAll
        have hLess : blocks.length < UInt32.size - 1 :=
          of_decide_eq_true hAll
        omega
      rcases previews_are_finished _ "m" .messages ⟨4, 64⟩ none
          (.fresh "r") () _ outcome last hRun hBlocks with
        ⟨blocks, previews, finals, hRecorded, hSent, _, _, hAll⟩
      refine
        ⟨outcome, last, blocks, previews, finals, rfl,
          of_decide_eq_true hBoth.1, hRecorded, hSent, ?_⟩
      intro c hMember kind id hBlock
      exact (hAll c hMember kind id hBlock).1

/- Prose of which only blanks are left in its buffer. -/
def blankedStream :
    EStateM.Result StreamError (Session Unit) Outcome :=
  Session.run ⟨.none, none, fun _ => ⟨"", ""⟩⟩ ["ab", "   "]
    (Session.start (.start "m" .messages ⟨4, 64⟩ none)
      .unbounded (.fresh "r") ())

/- What a stream that ended well has sent and recorded. -/
def sentAndRecorded :
    EStateM.Result StreamError (Session Unit) Outcome →
      Option (List Content × Option (List Block))
  | .ok outcome last =>
      some (last.sent, outcome.message.recordedBlocks)
  | .error _ _ => none

/- Its preview has no final event, and nothing is recorded. -/
theorem blanked_prose_is_orphaned :
    ∃ outcome last,
      blankedStream = .ok outcome last ∧
      Content.text "m:text:0" 0 "ab" false ∈ last.sent ∧
      (∀ c ∈ last.sent,
        c.isFinal = true →
          c.block? ≠ some (.text, "m:text:0")) ∧
      outcome.message.recordedBlocks = some [] := by
  have hBoth :
      sentAndRecorded blankedStream =
        some ([.text "m:text:0" 0 "ab" false], some []) := by
    decide +kernel
  cases hRun : blankedStream with
  | error e last =>
      rw [hRun] at hBoth
      cases hBoth
  | ok outcome last =>
      rw [hRun] at hBoth
      simp only [sentAndRecorded, Option.some.injEq,
        Prod.mk.injEq] at hBoth
      refine ⟨outcome, last, rfl, ?_, ?_, hBoth.2⟩
      · simp [hBoth.1]
      · intro c hMember hFinal
        rw [hBoth.1, List.mem_singleton] at hMember
        subst hMember
        cases hFinal

end AnswerStream
