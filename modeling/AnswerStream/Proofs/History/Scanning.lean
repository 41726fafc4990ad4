import AnswerStream.History.Basic
import AnswerStream.Proofs.Splitter.Closing
import AnswerStream.Proofs.Text.Casing

/-
  This file proves that the blocks found again in the text of
  an older message are those that the splitter makes from this
  text, up to their identities: if all fences are closed and
  those of JSON can be read, the search for closed fences finds
  the parts of the text.

  Key definitions include:
    * `Block.body`
    * `Layout.Part.body?`
    * `Placed`
    * `Finds`

  Main statements:
    * `Legacy.build_finds`
    * `found_blocks_match_splitter`
-/

namespace AnswerStream

open Json
open Layout (Part parts number)
open Legacy (splitTicks? splitLine? nextFence? Builder)

------------------------------------------------------------
-- Bodies and Places of Blocks
------------------------------------------------------------

/- A block without its identity and its place. -/
def Block.body (b : Block) : Block :=
  { b with id := "", index := 0 }

/- The body of the block of a part, if it has one. -/
def Layout.Part.body? (part : Part) : Option Block :=
  (part.block? "" 0).map Block.body

/-
  Blocks that carry their places, as far as an index of 32 bits
  can tell them apart.
-/
def Placed (blocks : List Block) : Prop :=
  ∀ i b, blocks[i]? = some b → i < UInt32.size →
    b.index = UInt32.ofNat i

theorem placed_nil : Placed [] := by
  intro i b hPlace
  cases hPlace

theorem Placed.append
    {blocks : List Block}
    {b : Block}
    (hBlocks : Placed blocks)
    (hIndex :
      blocks.length < UInt32.size →
        b.index = UInt32.ofNat blocks.length) :
    Placed (blocks ++ [b]) := by
  intro i c hPlace hSmall
  rcases Nat.lt_or_ge i blocks.length with hBefore | hBehind
  · rw [List.getElem?_append_left hBefore] at hPlace
    exact hBlocks i c hPlace hSmall
  · rw [List.getElem?_append_right hBehind,
      List.getElem?_singleton] at hPlace
    split at hPlace
    · next hLast =>
      have hEnd : i = blocks.length := by omega
      subst hEnd
      cases hPlace
      exact hIndex hSmall
    · cases hPlace

@[simp] theorem Block.body_ofText
    (id : String)
    (index : UInt32)
    (text : String) :
    (Block.ofText id index text).body = Block.ofText "" 0 text :=
  rfl

@[simp] theorem Block.body_ofStructured
    (id : String)
    (index : UInt32)
    (data : Option Value)
    (source : Option String) :
    (Block.ofStructured id index data source).body =
      Block.ofStructured "" 0 data source :=
  rfl

namespace Layout

/- The body of the block of prose. -/
theorem Part.body?_of_prose
    (text : String) :
    (Part.prose text.toList).body? =
      if (Text.trim text).isEmpty then none
      else some (.ofText "" 0 (Text.trim text)) := by
  unfold Part.body?
  simp only [Part.block?, String.ofList_toList]
  split
  · rfl
  · rfl

/- The body of a block depends on the part only. -/
theorem Part.map_body_block?
    (part : Part)
    (id : String)
    (index : UInt32) :
    (part.block? id index).map Block.body = part.body? := by
  cases part with
  | prose cs =>
      by_cases hBlank : (Text.trim (String.ofList cs)).isEmpty
      · simp [Part.body?, Part.block?, hBlank]
      · simp [Part.body?, Part.block?, hBlank]
  | fence interior =>
      by_cases hBlank :
          (Text.trim (String.ofList interior)).isEmpty
      · simp [Part.body?, Part.block?, hBlank]
      · simp [Part.body?, Part.block?, hBlank]
  | openFence interior => rfl

theorem Part.index_of_block?
    {part : Part}
    {id : String}
    {index : UInt32}
    {b : Block}
    (hBlock : part.block? id index = some b) :
    b.index = index := by
  cases part with
  | prose cs =>
      simp only [Part.block?, Option.ite_none_left_eq_some,
        Option.some.injEq] at hBlock
      rw [← hBlock.2]
      rfl
  | fence interior =>
      simp only [Part.block?, Option.ite_none_left_eq_some,
        Option.some.injEq] at hBlock
      rw [← hBlock.2]
      rfl
  | openFence interior => cases hBlock

/- The bodies of the blocks of parts. -/
theorem map_body_number
    (id : String)
    (index : UInt32)
    (ps : List Part) :
    (number id index ps).map Block.body =
      ps.filterMap Part.body? := by
  induction ps generalizing index with
  | nil => rfl
  | cons part ps ih =>
      have hBody := part.map_body_block? id index
      cases hBlock : part.block? id index with
      | none =>
          rw [hBlock, Option.map_none] at hBody
          rw [number_cons_of_none hBlock, ih,
            List.filterMap_cons_none hBody.symm]
      | some b =>
          rw [hBlock, Option.map_some] at hBody
          rw [number_cons_of_some hBlock, List.map_cons, ih,
            List.filterMap_cons_some hBody.symm]

/- The blocks of parts are counted from the given index on. -/
theorem index_of_number
    {id : String}
    {index : UInt32}
    {ps : List Part}
    {i : Nat}
    {b : Block}
    (hPlace : (number id index ps)[i]? = some b) :
    b.index = index + UInt32.ofNat i := by
  induction ps generalizing index i with
  | nil => cases hPlace
  | cons part ps ih =>
      cases hBlock : part.block? id index with
      | none =>
          rw [number_cons_of_none hBlock] at hPlace
          exact ih hPlace
      | some c =>
          rw [number_cons_of_some hBlock] at hPlace
          cases i with
          | zero =>
              cases hPlace
              rw [Part.index_of_block? hBlock]
              exact (UInt32.add_zero index).symm
          | succ i =>
              have hLater := ih hPlace
              rw [hLater, UInt32.ofNat_add, UInt32.add_assoc,
                UInt32.add_comm 1]
              rfl

theorem placed_blocks
    (id : String)
    (ps : List Part) :
    Placed (blocks id ps) := by
  intro i b hPlace _
  have hIndex := index_of_number hPlace
  rwa [UInt32.zero_add] at hIndex

end Layout

------------------------------------------------------------
-- Fences that Can Be Read
------------------------------------------------------------

/- The block of a fence that can be read. -/
theorem Layout.Part.body?_of_value?
    {interior : List Char}
    {v : Value}
    (hValue :
      value? (Text.trim (String.ofList interior)) = some v) :
    (Part.fence interior).body? =
      some (Block.ofStructured "" 0 (some v)
        (some (Text.trim (String.ofList interior)))) := by
  have hRead := partialValue?_of_value? hValue
  have hSome := trim_isEmpty_of_partialValue? hRead
  simp [Part.body?, Part.block?, hSome, hRead]

------------------------------------------------------------
-- Building Blocks
------------------------------------------------------------

/-
  Blocks are found for parts: their bodies stand behind those
  there were, and each has its place.
-/
structure Finds
    (before : List Block)
    (ps : List Part)
    (after : List Block) : Prop where
  bodies :
    after.map Block.body =
      before.map Block.body ++ ps.filterMap Part.body?
  placed : Placed before → Placed after

namespace Finds

variable {before among after : List Block} {part : Part}
  {ps qs : List Part}

theorem trans
    (hFirst : Finds before ps among)
    (hSecond : Finds among qs after) :
    Finds before (ps ++ qs) after := by
  constructor
  · rw [hSecond.bodies, hFirst.bodies, List.filterMap_append,
      List.append_assoc]
  · intro hBefore
    exact hSecond.placed (hFirst.placed hBefore)

/- Nothing is found for a part without a block. -/
theorem of_none
    (hBody : part.body? = none) :
    Finds before [part] before := by
  constructor
  · rw [List.filterMap_cons_none hBody, List.filterMap_nil,
      List.append_nil]
  · exact id

/- A block for a part stands behind the others. -/
theorem of_some
    {b : Block}
    (hBody : part.body? = some b.body)
    (hIndex :
      before.length < UInt32.size →
        b.index = UInt32.ofNat before.length) :
    Finds before [part] (before ++ [b]) := by
  constructor
  · rw [List.map_append, List.filterMap_cons_some hBody]
    rfl
  · intro hBefore
    exact hBefore.append hIndex

end Finds

namespace Legacy

namespace Builder

theorem toList_addProse
    (b : Builder)
    (cs : List Char) :
    (b.addProse cs).prose.toList = b.prose.toList ++ cs := by
  unfold addProse
  rw [String.toList_append, String.toList_ofList]

/- The next index is the place of the next block. -/
theorem nextIndex_of_lt
    (b : Builder)
    (hSmall : b.blocks.length < UInt32.size) :
    b.nextIndex = UInt32.ofNat b.blocks.length :=
  if_pos hSmall

theorem flush_prose
    (messageId : String)
    (b : Builder) :
    (b.flush messageId).prose = "" := by
  unfold flush
  dsimp only
  split
  · rfl
  · rfl

/- The prose so far is a part. -/
theorem flush_finds
    (messageId : String)
    (b : Builder) :
    Finds b.blocks [.prose b.prose.toList]
      (b.flush messageId).blocks := by
  have hBody := Part.body?_of_prose b.prose
  unfold flush
  dsimp only
  split
  · next hBlank =>
    rw [if_pos hBlank] at hBody
    exact .of_none hBody
  · next hSome =>
    rw [if_neg hSome] at hBody
    exact .of_some hBody b.nextIndex_of_lt

theorem addFence_blocks
    (messageId : String)
    (b : Builder)
    (source : String)
    (v : Value) :
    (b.addFence messageId source v).blocks =
      (b.flush messageId).blocks ++
        [ .ofStructured
            ((b.flush messageId).freshId messageId .structured v)
            (b.flush messageId).nextIndex (some v)
            (some source) ] :=
  rfl

/- A fence that can be read is a part behind the prose. -/
theorem addFence_finds
    (messageId : String)
    (b : Builder)
    {interior : List Char}
    {v : Value}
    (hValue :
      value? (Text.trim (String.ofList interior)) = some v) :
    Finds b.blocks [.prose b.prose.toList, .fence interior]
      (b.addFence messageId
        (Text.trim (String.ofList interior)) v).blocks := by
  have hProse := flush_finds messageId b
  have hBody := Part.body?_of_value? hValue
  rw [addFence_blocks]
  generalize b.flush messageId = flushed at hProse ⊢
  exact hProse.trans (.of_some hBody flushed.nextIndex_of_lt)

theorem addFence_prose
    (messageId : String)
    (b : Builder)
    (source : String)
    (v : Value) :
    (b.addFence messageId source v).prose = "" := by
  have hProse := flush_prose messageId b
  unfold addFence addBlock
  generalize b.flush messageId = flushed at hProse ⊢
  exact hProse

end Builder

------------------------------------------------------------
-- Searching for Fences
------------------------------------------------------------

section Search

variable {cs prose line tag body interior rest : List Char}

/- The search ends where no closed fence is left. -/
theorem build_of_nextFence?_none
    (messageId : String)
    (b : Builder)
    (hNext : nextFence? cs = none) :
    (build messageId b cs).value =
      (b.addProse cs).flush messageId := by
  unfold build
  split
  · exact Noted.value_pure _
  · next f hFound =>
    rw [hNext] at hFound
    cases hFound

/- It goes on behind the next closed fence. -/
theorem build_of_nextFence?_some
    {f : Fence}
    (messageId : String)
    (b : Builder)
    (hNext : nextFence? cs = some f) :
    (build messageId b cs).value =
      (build messageId (addFence messageId b f).value
        f.rest).value := by
  rw [build]
  split
  · next hFound =>
    rw [hNext] at hFound
    cases hFound
  · next g hFound =>
    rw [hNext] at hFound
    cases hFound
    rfl

/- Text without a mark is prose. -/
theorem build_of_none
    (messageId : String)
    (b : Builder)
    (hOpen : splitTicks? cs = none) :
    (build messageId b cs).value =
      (b.addProse cs).flush messageId := by
  refine build_of_nextFence?_none messageId b ?_
  simp [nextFence?, hOpen]

/- A closed fence is followed by the search behind it. -/
theorem build_of_fence
    (messageId : String)
    (b : Builder)
    (hOpen : splitTicks? cs = some (prose, line))
    (hTag : splitLine? line = some (tag, body))
    (hClose : splitTicks? body = some (interior, rest)) :
    (build messageId b cs).value =
      (build messageId
        (addFence messageId b ⟨prose, tag, interior, rest⟩).value
        rest).value := by
  refine build_of_nextFence?_some messageId b ?_
  simp [nextFence?, hOpen, hTag, hClose]

/- A fence of JSON that can be read is added. -/
theorem addFence_of_json
    (messageId : String)
    (b : Builder)
    {v : Value}
    (hJson : Layout.isJsonTag tag = true)
    (hValue :
      value? (Text.trim (String.ofList interior)) = some v) :
    (addFence messageId b ⟨prose, tag, interior, rest⟩).value =
      (b.addProse prose).addFence messageId
        (Text.trim (String.ofList interior)) v := by
  rw [Layout.isJsonTag_eq] at hJson
  simp [addFence, hJson, hValue]

/- Any other fence is left out. -/
theorem addFence_of_other
    (messageId : String)
    (b : Builder)
    (hOther : ¬ Layout.isJsonTag tag = true) :
    (addFence messageId b ⟨prose, tag, interior, rest⟩).value =
      b.addProse prose := by
  rw [Layout.isJsonTag_eq] at hOther
  simp [addFence, hOther]

end Search

end Legacy

------------------------------------------------------------
-- Agreement
------------------------------------------------------------

/- All closed fences of JSON among parts can be read. -/
def Layout.Readable (ps : List Part) : Prop :=
  ∀ interior, Part.fence interior ∈ ps →
    (value? (Text.trim (String.ofList interior))).isSome = true

/-
  The search for closed fences finds the parts of a text of
  which all fences are closed.
-/
theorem Legacy.build_finds
    (messageId : String)
    {cs : List Char}
    (hClosed : Layout.Closed cs)
    (b : Builder)
    (hReadable : Layout.Readable (parts b.prose.toList cs)) :
    Finds b.blocks (parts b.prose.toList cs)
      (build messageId b cs).value.blocks := by
  induction hClosed generalizing b with
  | @prose cs hOpen =>
      have hFinds :=
        Builder.flush_finds messageId (b.addProse cs)
      rw [Builder.toList_addProse] at hFinds
      rw [build_of_none messageId b hOpen,
        Layout.parts_of_none _ hOpen]
      exact hFinds
  | @fence cs prose line tag body interior rest hOpen hTag hClose
      hRest ih =>
      rw [Layout.parts_of_fence _ hOpen hTag hClose]
        at hReadable ⊢
      rw [build_of_fence messageId b hOpen hTag hClose]
      by_cases hJson : Layout.isJsonTag tag = true
      · rw [if_pos hJson] at hReadable ⊢
        have hValue :=
          hReadable interior
            (List.mem_cons_of_mem _ List.mem_cons_self)
        rcases Option.isSome_iff_exists.mp hValue with ⟨v, hValue⟩
        have hFinds :=
          (b.addProse prose).addFence_finds messageId hValue
        rw [Builder.toList_addProse] at hFinds
        rw [addFence_of_json messageId b hJson hValue]
        have hBehind :=
          ih ((b.addProse prose).addFence messageId
            (Text.trim (String.ofList interior)) v)
        -- The builder begins without prose again, as the parts do.
        rw [Builder.addFence_prose, String.toList_empty] at hBehind
        have hLater : Layout.Readable (parts [] rest) := by
          intro later hMember
          exact hReadable later
            (List.mem_cons_of_mem _
              (List.mem_cons_of_mem _ hMember))
        exact hFinds.trans (hBehind hLater)
      · rw [if_neg hJson] at hReadable ⊢
        rw [addFence_of_other messageId b hJson]
        -- The prose before the fence goes on behind it.
        rw [← Builder.toList_addProse] at hReadable ⊢
        exact ih (b.addProse prose) hReadable

/- The blocks of a message without recorded blocks are found. -/
theorem History.blocks_of_unrecorded
    {σ : Type}
    (h : History σ)
    {m : StoredMessage}
    (hRole : m.role = .assistant)
    (hRecorded : m.recordedBlocks = none) :
    (h.message m).value.blocks =
      (Legacy.build m.id .empty m.content.toList).value.blocks := by
  unfold History.message History.blocks
  rw [hRole, hRecorded]
  rfl

/-
  The blocks found in the text of a message of the assistant
  without recorded blocks are those that a splitter makes from
  this text, one by one, if the text fits both caps, ends in
  prose, and all its fences of JSON are valid. The indices of
  blocks have 32 bits, and so they agree up to the last one
  that these can tell.
-/
theorem found_blocks_match_splitter
    {σ : Type}
    (history : History σ)
    (m : StoredMessage)
    (id : String)
    (limits : Limits)
    (hRole : m.role = .assistant)
    (hRecorded : m.recordedBlocks = none)
    (hText : m.content.utf8ByteSize ≤ limits.text)
    (hStructured : m.content.utf8ByteSize ≤ limits.structured)
    (hClosed :
      ((Splitter.start id limits).append
        m.content).value.splitter.mode.isProse = true)
    (hReadable : Layout.Readable (Layout.ofText m.content)) :
    let done := ((Splitter.start id limits).append m.content).value
    let found := (history.message m).value.blocks
    let split := done.splitter.allBlocks
    done.failure = none ∧
    found.length = split.length ∧
    ∀ (i : Nat) (a b : Block),
      found[i]? = some a →
      split[i]? = some b →
      a.kind = b.kind ∧
      a.text = b.text ∧
      a.data = b.data ∧
      a.sourceText = b.sourceText ∧
      (i < UInt32.size → a.index = b.index) := by
  intro done found split
  have hDone :
      done.failure = none ∧
        split = Layout.blocks id (Layout.ofText m.content) :=
    Splitter.append_of_fits id hText hStructured
  rcases hDone with ⟨hFailure, hSplit⟩
  have hMarks :=
    Splitter.closed_of_append id hText hFailure hClosed
  have hFound : Finds [] (Layout.ofText m.content) found := by
    have hFinds :=
      Legacy.build_finds m.id hMarks .empty hReadable
    rwa [← history.blocks_of_unrecorded hRole hRecorded] at hFinds
  -- Each side is compared with the parts of the text.
  have hBodies :
      found.map Block.body = split.map Block.body := by
    rw [hFound.bodies, hSplit]
    exact (Layout.map_body_number id 0 _).symm
  refine ⟨hFailure, ?_, ?_⟩
  · simpa using congrArg List.length hBodies
  · intro i a b hA hB
    have hBody : a.body = b.body := by
      have hSame := congrArg (fun bodies => bodies[i]?) hBodies
      simpa [hA, hB] using hSame
    have hKind : a.body.kind = b.body.kind :=
      congrArg Block.kind hBody
    have hProse : a.body.text = b.body.text :=
      congrArg Block.text hBody
    have hData : a.body.data = b.body.data :=
      congrArg Block.data hBody
    have hSource : a.body.sourceText = b.body.sourceText :=
      congrArg Block.sourceText hBody
    refine ⟨hKind, hProse, hData, hSource, ?_⟩
    intro hSmall
    rw [hSplit] at hB
    have hLeft := hFound.placed placed_nil i a hA hSmall
    have hRight := Layout.placed_blocks id _ i b hB hSmall
    rw [hLeft, hRight]

/- An older message with both kinds of fences in its text. -/
def olderAnswer : StoredMessage where
  id := "m"
  role := .assistant
  content :=
    "See\n\x60\x60\x60sh\nls\n\x60\x60\x60\n" ++
      "\x60\x60\x60 JSON\n[1]\n\x60\x60\x60\nbelow \x60\x60"
  metadata := none

theorem olderAnswer_parts :
    Layout.ofText olderAnswer.content =
      [ .prose "See\n\n".toList, .fence "[1]\n".toList,
        .prose "\nbelow \x60\x60".toList ] := by
  decide +kernel

theorem olderAnswer_readable :
    Layout.Readable (Layout.ofText olderAnswer.content) := by
  rw [olderAnswer_parts]
  intro interior hMember
  simp at hMember
  subst hMember
  decide +kernel

/- Its three blocks are those of the splitter. -/
theorem olderAnswer_matches_splitter :
    olderAnswer.role = .assistant ∧
    olderAnswer.recordedBlocks = none ∧
    olderAnswer.content.utf8ByteSize ≤ 64 ∧
    ((Splitter.start "m" ⟨64, 64⟩).append
      olderAnswer.content).value.splitter.mode.isProse = true ∧
    Layout.Readable (Layout.ofText olderAnswer.content) ∧
    ((Splitter.start "m" ⟨64, 64⟩).append
      olderAnswer.content).value.failure = none ∧
    ((⟨none, .none⟩ : History Unit).message
      olderAnswer).value.blocks.length = 3 := by
  have hText : olderAnswer.content.utf8ByteSize ≤ 64 := by
    decide
  have hClosed :
      ((Splitter.start "m" ⟨64, 64⟩).append
        olderAnswer.content).value.splitter.mode.isProse =
          true := by
    decide +kernel
  have hThree :
      ((Splitter.start "m" ⟨64, 64⟩).append
        olderAnswer.content).value.splitter.allBlocks.length =
          3 := by
    decide +kernel
  have hMatches :=
    found_blocks_match_splitter (⟨none, .none⟩ : History Unit)
      olderAnswer "m" ⟨64, 64⟩ rfl rfl hText hText hClosed
      olderAnswer_readable
  refine
    ⟨rfl, rfl, hText, hClosed, olderAnswer_readable,
      hMatches.1, ?_⟩
  rw [← hThree]
  exact hMatches.2.1

end AnswerStream
