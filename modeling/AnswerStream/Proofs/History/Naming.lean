import AnswerStream.Proofs.History.Scanning
import AnswerStream.Proofs.Splitter.Growth
import Mathlib.Data.List.Chain
import Mathlib.Data.List.Nodup
import Mathlib.Data.Nat.Digits.Defs

/-
  This file proves that the blocks found again in the text of
  an older message can be told apart. Their identities are made
  from their contents, so contents that repeat or share a
  fingerprint get the place of the block as a suffix. No such
  identity is that of another block, since a fingerprint always
  has eight digits and no two blocks have the same place.

  Key definitions include:
    * `Legacy.NamedAt`
    * `Legacy.Found`
    * `Legacy.Builder.Ready`

  Main statements:
    * `Legacy.contentId_append_inj`
    * `Legacy.Builder.freshId_not_mem`
    * `Legacy.Builder.Ready.build_found`
    * `found_blocks_are_told_apart`
-/

namespace AnswerStream

open Json
open Legacy (nextFence?)

------------------------------------------------------------
-- Identities Made from Contents
------------------------------------------------------------

/- A fingerprint has eight digits. -/
theorem Json.Value.length_fingerprint (v : Value) :
    v.fingerprint.toList.length = 8 := by
  unfold Value.fingerprint Fingerprint.hex
  have hWord := (Fingerprint.ofText v.canonical).toNat_lt
  have hDigits :=
    Nat.toDigits_length 16 _ 8 (by decide) hWord
  simp only [String.toList_ofList, List.length_append,
    List.length_replicate]
  omega

namespace Legacy

/-
  Where two identities of a message are made from contents,
  what stands behind them is the same if the whole is.
-/
theorem contentId_append_inj
    {messageId : String}
    {kind other : BlockKind}
    {v w : Value}
    {s t : String}
    (hSame :
      contentId messageId kind v ++ s =
        contentId messageId other w ++ t) :
    s = t := by
  have hChars := congrArg String.toList hSame
  have hColon : ":".toList = [':'] := rfl
  simp only [contentId, String.toList_append, hColon,
    List.append_assoc, List.append_cancel_left_eq,
    List.cons_append, List.nil_append, List.cons.injEq,
    true_and] at hChars
  rcases BlockKind.name_append_inj hChars with ⟨-, hBehind⟩
  have hLength :
      v.fingerprint.toList.length =
        w.fingerprint.toList.length := by
    rw [v.length_fingerprint, w.length_fingerprint]
  exact
    String.toList_injective (List.append_inj hBehind hLength).2

/-
  The identities that a block at a place may have: the one made
  from its content, or this one with the place behind it.
-/
inductive NamedAt
    (messageId : String)
    (i : Nat) : String → Prop where
| content
    (kind : BlockKind)
    (content : Value) :
    NamedAt messageId i (contentId messageId kind content)
| place
    (kind : BlockKind)
    (content : Value) :
    NamedAt messageId i
      (contentId messageId kind content ++ ":" ++ toString i)

/- An identity with a place behind it belongs to this place. -/
theorem NamedAt.place_eq
    {messageId id : String}
    {i j : Nat}
    {kind : BlockKind}
    {content : Value}
    (hNamed : NamedAt messageId i id)
    (hSame :
      id = contentId messageId kind content ++ ":" ++ toString j) :
    i = j := by
  cases hNamed with
  | content other v =>
      have hNone :
          contentId messageId other v ++ "" =
            contentId messageId kind content ++
              (":" ++ toString j) := by
        rw [String.append_empty, hSame, String.append_assoc]
      have hEmpty :=
        congrArg String.toList (contentId_append_inj hNone)
      simp at hEmpty
  | place other v =>
      rw [String.append_assoc, String.append_assoc] at hSame
      have hSuffix :=
        congrArg String.toList (contentId_append_inj hSame)
      rw [String.toList_append, String.toList_append,
        List.append_cancel_left_eq] at hSuffix
      exact Splitter.eq_of_toString hSuffix

------------------------------------------------------------
-- Blocks That Were Found
------------------------------------------------------------

/-
  Blocks as they are found in the text of a message: in order,
  told apart by their identities, with trimmed prose that is
  not cut in two. Indices have 32 bits, so that the last index
  is the last that can tell a place.
-/
structure Found
    (messageId : String)
    (blocks : List Block) : Prop where
  placed : Placed blocks
  named :
    ∀ i b, blocks[i]? = some b → i < UInt32.size →
      NamedAt messageId i b.id
  nodup :
    blocks.length ≤ UInt32.size →
      (blocks.map Block.id).Nodup
  prose :
    ∀ b ∈ blocks, b.kind = .text →
      ∃ text,
        b.text = some text ∧ text ≠ "" ∧ Text.trim text = text
  apart :
    blocks.IsChain fun a b => a.kind = .text → b.kind ≠ .text

theorem found_nil (messageId : String) : Found messageId [] where
  placed := placed_nil
  named := by
    intro i b hPlace
    cases hPlace
  nodup := fun _ => List.nodup_nil
  prose := by
    intro b hMember
    cases hMember
  apart := List.isChain_nil

namespace Builder

variable {messageId : String} {b : Builder}

/- A fresh identity is one for the next place. -/
theorem freshId_namedAt
    (hSmall : b.blocks.length < UInt32.size)
    (kind : BlockKind)
    (content : Value) :
    NamedAt messageId b.blocks.length
      (b.freshId messageId kind content) := by
  unfold freshId
  dsimp only
  split
  · rw [b.nextIndex_of_lt hSmall,
      UInt32.toNat_ofNat_of_lt' hSmall]
    exact .place kind content
  · exact .content kind content

/- A fresh identity is that of no block. -/
theorem freshId_not_mem
    (hFound : Found messageId b.blocks)
    (hSmall : b.blocks.length < UInt32.size)
    (kind : BlockKind)
    (content : Value) :
    b.freshId messageId kind content ∉
      b.blocks.map Block.id := by
  intro hMember
  rcases List.mem_map.mp hMember with ⟨c, hBlock, hId⟩
  unfold freshId at hId
  dsimp only at hId
  split at hId
  · -- The suffix is the place of a block that is not there yet.
    rw [b.nextIndex_of_lt hSmall,
      UInt32.toNat_ofNat_of_lt' hSmall] at hId
    rcases List.mem_iff_getElem?.mp hBlock with ⟨i, hPlace⟩
    rcases List.getElem?_eq_some_iff.mp hPlace with ⟨hThere, -⟩
    have hNamed :=
      hFound.named i c hPlace (Nat.lt_trans hThere hSmall)
    exact absurd (hNamed.place_eq hId) (Nat.ne_of_lt hThere)
  · next hFree =>
    apply hFree
    rw [List.any_eq_true]
    exact ⟨c, hBlock, beq_iff_eq.mpr hId⟩

/- The builder can take a block of any kind. -/
structure Ready
    (messageId : String)
    (b : Builder) : Prop where
  found : Found messageId b.blocks
  settled : ∀ last ∈ b.blocks.getLast?, last.kind ≠ .text

end Builder

/- One more block with a fresh identity and the next index. -/
theorem Found.concat
    {messageId : String}
    {b : Builder}
    {block : Block}
    (kind : BlockKind)
    (content : Value)
    (hFound : Found messageId b.blocks)
    (hId : block.id = b.freshId messageId kind content)
    (hIndex : block.index = b.nextIndex)
    (hProse :
      block.kind = .text →
        ∃ text,
          block.text = some text ∧ text ≠ "" ∧
            Text.trim text = text)
    (hApart :
      ∀ last ∈ b.blocks.getLast?,
        last.kind = .text → block.kind ≠ .text) :
    Found messageId (b.blocks ++ [block]) where
  placed :=
    hFound.placed.append fun hSmall =>
      hIndex.trans (b.nextIndex_of_lt hSmall)
  named := by
    intro i c hPlace hSmall
    rcases Nat.lt_or_ge i b.blocks.length with hBefore | hBehind
    · rw [List.getElem?_append_left hBefore] at hPlace
      exact hFound.named i c hPlace hSmall
    · rw [List.getElem?_append_right hBehind,
        List.getElem?_singleton] at hPlace
      split at hPlace
      · next hLast =>
        have hEnd : i = b.blocks.length := by omega
        subst hEnd
        cases hPlace
        rw [hId]
        exact Builder.freshId_namedAt hSmall kind content
      · cases hPlace
  nodup := by
    intro hLength
    rw [List.length_append, List.length_singleton] at hLength
    rw [List.map_append, List.map_singleton,
      ← List.concat_eq_append, List.nodup_concat]
    refine ⟨?_, hFound.nodup (Nat.le_of_lt hLength)⟩
    rw [hId]
    exact Builder.freshId_not_mem hFound hLength kind content
  prose := by
    intro c hMember hKind
    rcases List.mem_append.mp hMember with hOld | hNew
    · exact hFound.prose c hOld hKind
    · rw [List.mem_singleton.mp hNew] at hKind ⊢
      exact hProse hKind
  apart := by
    refine List.isChain_append.mpr
      ⟨hFound.apart, List.isChain_singleton _, ?_⟩
    intro last hLast next hNext
    cases hNext
    exact hApart last hLast

namespace Builder

variable {messageId : String} {b : Builder}

theorem empty_ready (messageId : String) :
    Ready messageId .empty where
  found := found_nil messageId
  settled := by
    intro last hLast
    cases hLast

/- Prose that is not cut off yet does not matter. -/
theorem Ready.addProse
    (hReady : Ready messageId b)
    (cs : List Char) :
    Ready messageId (b.addProse cs) :=
  ⟨hReady.found, hReady.settled⟩

/- Prose that is not blank becomes a block. -/
theorem flush_blocks_of_some
    (messageId : String)
    (hSome : ¬ (Text.trim b.prose).isEmpty = true) :
    (b.flush messageId).blocks =
      b.blocks ++
        [ .ofText
            (b.freshId messageId .text
              (.string (Text.trim b.prose)))
            b.nextIndex (Text.trim b.prose) ] := by
  unfold Builder.flush
  dsimp only
  rw [if_neg hSome]
  rfl

/- The prose so far is found behind a block of another kind. -/
theorem Ready.flush
    (hReady : Ready messageId b) :
    Found messageId (b.flush messageId).blocks := by
  by_cases hBlank : (Text.trim b.prose).isEmpty = true
  · have hSame : (b.flush messageId).blocks = b.blocks := by
      unfold Builder.flush
      dsimp only
      rw [if_pos hBlank]
    rw [hSame]
    exact hReady.found
  · rw [flush_blocks_of_some messageId hBlank]
    refine
      hReady.found.concat .text (.string (Text.trim b.prose))
        rfl rfl (fun _ => ⟨_, rfl, ?_, ?_⟩) ?_
    · exact fun hEmpty => hBlank (String.isEmpty_iff.mpr hEmpty)
    · exact Text.trim_trim b.prose
    · intro last hLast hText
      exact absurd hText (hReady.settled last hLast)

/- A fence is found behind the prose, and ends it. -/
theorem Ready.addFence
    (hReady : Ready messageId b)
    (source : String)
    (v : Value) :
    Ready messageId (b.addFence messageId source v) := by
  have hFlushed := hReady.flush
  have hBlocks := b.addFence_blocks messageId source v
  generalize b.flush messageId = flushed at hFlushed hBlocks
  constructor
  · rw [hBlocks]
    refine hFlushed.concat .structured v rfl rfl ?_ ?_
    · intro hText
      cases hText
    · intro last _ _ hText
      cases hText
  · rw [hBlocks, List.getLast?_concat]
    intro last hLast hText
    cases hLast
    cases hText

/- Whatever becomes of a fence, the search can go on. -/
theorem Ready.legacyFence
    (hReady : Ready messageId b)
    (f : Fence) :
    Ready messageId (Legacy.addFence messageId b f).value := by
  unfold Legacy.addFence
  dsimp only
  split
  · split
    · exact (hReady.addProse f.before).addFence _ _
    · exact (hReady.addProse f.before).addProse f.whole
  · exact hReady.addProse f.before

/- The whole search keeps the blocks apart. -/
theorem Ready.build_found
    (hReady : Ready messageId b)
    (cs : List Char) :
    Found messageId (build messageId b cs).value.blocks := by
  induction hLength : cs.length using Nat.strongRecOn
    generalizing b cs with
  | ind n ih =>
      cases hNext : nextFence? cs with
      | none =>
          rw [build_of_nextFence?_none messageId b hNext]
          exact (hReady.addProse cs).flush
      | some f =>
          rw [build_of_nextFence?_some messageId b hNext]
          have hShorter := length_of_nextFence? hNext
          exact
            ih f.rest.length (hLength ▸ hShorter)
              (hReady.legacyFence f) f.rest rfl

end Builder

end Legacy

/-
  The blocks found in a text have the indices from zero on, in
  order, and no two of them have the same identity, whatever
  the identity of the message is and whether or not contents
  repeat or share a fingerprint. Prose is trimmed and not
  empty, and no two blocks of prose follow each other.
-/
theorem found_blocks_are_told_apart
    (messageId content : String) :
    let blocks := (Legacy.blocksOf messageId content).value
    blocks.length ≤ UInt32.size →
      (∀ (i : Nat) (b : Block),
        blocks[i]? = some b → b.index.toNat = i) ∧
      (blocks.map Block.id).Nodup ∧
      (∀ b ∈ blocks, b.kind = .text →
        ∃ text,
          b.text = some text ∧ text ≠ "" ∧
            Text.trim text = text) ∧
      blocks.IsChain fun a b => a.kind = .text → b.kind ≠ .text := by
  intro blocks hLength
  have hFound : Legacy.Found messageId blocks :=
    (Legacy.Builder.empty_ready messageId).build_found
      content.toList
  refine ⟨?_, hFound.nodup hLength, hFound.prose, hFound.apart⟩
  intro i b hPlace
  rcases List.getElem?_eq_some_iff.mp hPlace with ⟨hThere, -⟩
  have hSmall : i < UInt32.size := Nat.lt_of_lt_of_le hThere hLength
  rw [hFound.placed i b hPlace hSmall,
    UInt32.toNat_ofNat_of_lt' hSmall]

/-
  Prose that repeats around two fences that share a
  fingerprint.
-/
def repeatingText : String :=
  "x\n\x60\x60\x60json\n\"ab\"\n\x60\x60\x60\nx\n" ++
    "\x60\x60\x60json\n\"bA\"\n\x60\x60\x60"

/- The later blocks have their places behind their contents. -/
theorem repeatingText_ids :
    (Legacy.blocksOf "m" repeatingText).value.map Block.id =
      [ "m:text:0b875321", "m:structured:7c715dcc",
        "m:text:0b875321:2", "m:structured:7c715dcc:3" ] := by
  have hFirst :
      nextFence? repeatingText.toList =
        some
          ⟨"x\n".toList, "json".toList, "\"ab\"\n".toList,
            "\nx\n\x60\x60\x60json\n\"bA\"\n\x60\x60\x60".toList⟩ := by
    decide +kernel
  have hSecond :
      nextFence?
          "\nx\n\x60\x60\x60json\n\"bA\"\n\x60\x60\x60".toList =
        some
          ⟨"\nx\n".toList, "json".toList, "\"bA\"\n".toList,
            []⟩ := by
    decide +kernel
  change
    (Legacy.build "m" .empty repeatingText.toList).value.blocks.map
      Block.id = _
  rw [Legacy.build_of_nextFence?_some _ _ hFirst,
    Legacy.build_of_nextFence?_some _ _ hSecond,
    Legacy.build_of_nextFence?_none _ _ rfl]
  decide +kernel

/- Its four blocks are told apart. -/
theorem repeatingText_told_apart :
    (Legacy.blocksOf "m" repeatingText).value.length ≤
        UInt32.size ∧
      (Legacy.blocksOf "m" repeatingText).value.map Block.id =
        [ "m:text:0b875321", "m:structured:7c715dcc",
          "m:text:0b875321:2", "m:structured:7c715dcc:3" ] ∧
      ((Legacy.blocksOf "m" repeatingText).value.map
        Block.id).Nodup := by
  have hFour :
      (Legacy.blocksOf "m" repeatingText).value.length ≤
        UInt32.size := by
    have hLength := congrArg List.length repeatingText_ids
    rw [List.length_map] at hLength
    rw [hLength]
    decide
  exact
    ⟨hFour, repeatingText_ids,
      (found_blocks_are_told_apart "m" repeatingText hFour).2.1⟩

end AnswerStream
