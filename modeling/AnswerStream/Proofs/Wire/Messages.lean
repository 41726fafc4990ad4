import AnswerStream.Message
import AnswerStream.Proofs.Wire.Records

/-
  This file proves what is left of a stored message that is
  written and read again: all of it, except that a block whose
  value or output is a null is read back without one.

  Key definitions include:
    * `Block.withoutNull`
    * `Metadata.withoutNull`
    * `StoredMessage.withoutNull`

  Main statements:
    * `Block.reads_toValue`
    * `StoredMessage.reads_toValue`
    * `StoredMessage.withoutNull_eq_self_iff`
-/

namespace AnswerStream

open Json

------------------------------------------------------------
-- Blocks
------------------------------------------------------------

namespace Block

/- The block, whose value and output are as good as none if null. -/
def withoutNull (b : Block) : Block :=
  { b with
    data := Wire.withoutNull b.data
    output := Wire.withoutNull b.output }

/- This concerns just the blocks that have a null. -/
theorem withoutNull_eq_self_iff (b : Block) :
    b.withoutNull = b ↔
      b.data ≠ some .null ∧ b.output ≠ some .null := by
  rw [← Wire.withoutNull_eq_self_iff,
    ← Wire.withoutNull_eq_self_iff]
  constructor
  · exact fun hSame => ⟨congrArg data hSame, congrArg output hSame⟩
  · rintro ⟨hData, hOutput⟩
    rw [withoutNull, hData, hOutput]

/- A block is read back from its wire form without its nulls. -/
theorem reads_toValue :
    Wire.Reads Block.ofValue? Block.toValue withoutNull := by
  intro b
  have hDistinct : keys.Nodup := by decide
  rcases Wire.fields?_record (v := b.toValue) rfl hDistinct keys
    with ⟨field, hField, hFields⟩
  simp only [List.forall_mem_cons] at hFields
  have hState :=
    Wire.optional_write ToolState.reads_toValue nofun b.state
  simp [ofValue?, hField, hFields, Wire.required,
    BlockKind.reads_toValue _, Wire.string, Wire.reads_word32 _,
    Wire.optional_write Wire.reads_string,
    Wire.optional_write Wire.reads_bool, hState,
    Wire.optional_any, withoutNull]

/- Blocks without nulls come in the same order. -/
theorem sortByIndex_withoutNull (blocks : List Block) :
    sortByIndex (blocks.map withoutNull) =
      (sortByIndex blocks).map withoutNull := by
  refine Eq.symm (List.map_mergeSort ?_)
  exact fun _ _ _ _ => rfl

end Block

------------------------------------------------------------
-- Messages
------------------------------------------------------------

namespace Metadata

/- The metadata, of which the blocks are without nulls. -/
def withoutNull (m : Metadata) : Metadata :=
  ⟨m.blocks.map (List.map Block.withoutNull)⟩

/- Metadata are read back from their wire form without nulls. -/
theorem reads_toValue :
    Wire.Reads Metadata.ofValue? Metadata.toValue
      withoutNull := by
  intro m
  have hDistinct : keys.Nodup := by decide
  rcases Wire.fields?_record (v := m.toValue) rfl hDistinct keys
    with ⟨field, hField, hFields⟩
  simp only [List.forall_mem_cons] at hFields
  have hBlocks :
      Wire.optional (Wire.list Block.ofValue?)
          (m.blocks.map blocksValue) =
        some (m.blocks.map (List.map Block.withoutNull)) :=
    Wire.optional_write Block.reads_toValue.list nofun m.blocks
  simp [ofValue?, hField, hFields, hBlocks, withoutNull]

end Metadata

namespace StoredMessage

/- The message, of which the blocks are without nulls. -/
def withoutNull (m : StoredMessage) : StoredMessage :=
  { m with metadata := m.metadata.map Metadata.withoutNull }

/- A message is read back from its wire form without nulls. -/
theorem reads_toValue :
    Wire.Reads StoredMessage.ofValue? StoredMessage.toValue
      withoutNull := by
  intro m
  have hDistinct : keys.Nodup := by decide
  rcases Wire.fields?_record (v := m.toValue) rfl hDistinct keys
    with ⟨field, hField, hFields⟩
  simp only [List.forall_mem_cons] at hFields
  have hMetadata :=
    Wire.optional_write Metadata.reads_toValue nofun m.metadata
  simp [ofValue?, hField, hFields, Wire.required,
    Role.reads_toValue _, Wire.string, hMetadata, withoutNull]

/- Recorded blocks are read back without nulls. -/
theorem recordedBlocks_withoutNull (m : StoredMessage) :
    m.withoutNull.recordedBlocks =
      m.recordedBlocks.map (List.map Block.withoutNull) := by
  rcases m with ⟨id, role, content, metadata⟩
  cases metadata <;> rfl

/- This concerns just the messages with a null in a block. -/
theorem withoutNull_eq_self_iff
    {m : StoredMessage}
    {blocks : List Block}
    (hRecorded : m.recordedBlocks = some blocks) :
    m.withoutNull = m ↔ ∀ b ∈ blocks, b.withoutNull = b := by
  have hEach :
      blocks.map Block.withoutNull = blocks.map (fun b => b) ↔
        ∀ b ∈ blocks, b.withoutNull = b :=
    List.map_inj_left
  rw [← hEach, List.map_id']
  constructor
  · intro hSame
    have hBlocks := recordedBlocks_withoutNull m
    rw [hSame, hRecorded, Option.map_some] at hBlocks
    exact (Option.some.inj hBlocks).symm
  · intro hSame
    rcases m with ⟨id, role, content, metadata⟩
    cases metadata with
    | none => cases hRecorded
    | some m =>
        rcases m with ⟨recorded⟩
        cases hRecorded
        simp [withoutNull, Metadata.withoutNull, hSame]

end StoredMessage

end AnswerStream
