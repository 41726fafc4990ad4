import AnswerStream.Processor.View
import Mathlib.Data.List.Nodup

/-
  This file proves what becomes of blocks and tool calls that
  are put into a view. A block takes the place and the index of
  the one whose identity it has, or comes behind all others, and
  the indices go on behind it. A tool call takes the place of
  the one whose identity it has, and goes on with its block.
  Others stay as they are.

  Key definitions include:
    * `View.withBlock`
    * `View.withRecord`
    * `View.withStarted`
    * `View.withTool`
    * `View.toolBlock`

  Main statements:
    * `View.nodup_putBlock`
    * `View.find?_putBlock`
    * `View.block?_withTool`
-/

namespace AnswerStream

namespace View

variable {v : View} {b : Block} {id : String}

------------------------------------------------------------
-- Putting Blocks
------------------------------------------------------------

/- A block that is put is there. -/
theorem mem_putBlock_self
    (b : Block)
    (bs : List Block) :
    b ∈ putBlock b bs := by
  induction bs with
  | nil => exact List.mem_singleton_self b
  | cons c rest ih =>
      rw [putBlock]
      split
      · exact List.mem_cons_self
      · exact List.mem_cons_of_mem c ih

/- A block with another identity stays. -/
theorem mem_putBlock_of_ne
    {b c : Block}
    {bs : List Block}
    (hMember : c ∈ bs)
    (hOther : c.id ≠ b.id) :
    c ∈ putBlock b bs := by
  induction bs with
  | nil => cases hMember
  | cons d rest ih =>
      rw [putBlock]
      rcases List.mem_cons.mp hMember with hHere | hLater
      · rw [← hHere, if_neg hOther]
        exact List.mem_cons_self
      · split
        · exact List.mem_cons_of_mem b hLater
        · exact List.mem_cons_of_mem d (ih hLater)

/- Nothing else is put. -/
theorem mem_of_mem_putBlock
    {b c : Block}
    {bs : List Block}
    (hMember : c ∈ putBlock b bs) :
    c = b ∨ c ∈ bs := by
  induction bs with
  | nil => exact .inl (List.mem_singleton.mp hMember)
  | cons d rest ih =>
      rw [putBlock] at hMember
      split at hMember
      · rcases List.mem_cons.mp hMember with hHere | hLater
        · exact .inl hHere
        · exact .inr (List.mem_cons_of_mem d hLater)
      · rcases List.mem_cons.mp hMember with hHere | hLater
        · exact .inr (hHere ▸ List.mem_cons_self)
        · rcases ih hLater with hNew | hOld
          · exact .inl hNew
          · exact .inr (List.mem_cons_of_mem d hOld)

/- Distinct identities stay distinct. -/
theorem nodup_putBlock
    {b : Block}
    {bs : List Block}
    (hDistinct : (bs.map Block.id).Nodup) :
    ((putBlock b bs).map Block.id).Nodup := by
  induction bs with
  | nil => exact List.nodup_singleton _
  | cons c rest ih =>
      rw [List.map_cons, List.nodup_cons] at hDistinct
      rcases hDistinct with ⟨hFresh, hRest⟩
      rw [putBlock]
      split
      · next hSame =>
        rw [List.map_cons, List.nodup_cons, ← hSame]
        exact ⟨hFresh, hRest⟩
      · next hOther =>
        rw [List.map_cons, List.nodup_cons]
        refine ⟨?_, ih hRest⟩
        intro hAgain
        rcases List.mem_map.mp hAgain with ⟨d, hMember, hId⟩
        rcases mem_of_mem_putBlock hMember with hNew | hOld
        · rw [hNew] at hId
          exact hOther hId.symm
        · exact hFresh (hId ▸ List.mem_map_of_mem hOld)

------------------------------------------------------------
-- Blocks by Identity
------------------------------------------------------------

/- A block that is found is there, with its identity. -/
theorem mem_of_block?
    (hBlock : v.block? id = some b) :
    b ∈ v.blocks ∧ b.id = id := by
  refine ⟨List.mem_of_find?_eq_some hBlock, ?_⟩
  simpa using List.find?_some hBlock

/- An identity that is not found is that of no block. -/
theorem block?_eq_none_iff :
    v.block? id = none ↔ ∀ b ∈ v.blocks, b.id ≠ id := by
  simp [block?]

/- A block is found by an identity of its own. -/
theorem block?_of_mem
    (hDistinct : (v.blocks.map Block.id).Nodup)
    (hMember : b ∈ v.blocks) :
    v.block? b.id = some b := by
  cases hBlock : v.block? b.id with
  | none => exact absurd rfl (block?_eq_none_iff.mp hBlock b hMember)
  | some d =>
      rcases mem_of_block? hBlock with ⟨hFound, hId⟩
      rw [List.inj_on_of_nodup_map hDistinct hFound hMember hId]

/- The block that was put is found, and others as before. -/
theorem find?_putBlock
    (b : Block)
    (bs : List Block)
    (id : String) :
    (putBlock b bs).find? (fun c => c.id == id) =
      if b.id = id then some b
      else bs.find? fun c => c.id == id := by
  induction bs with
  | nil => by_cases hId : b.id = id <;> simp [putBlock, hId]
  | cons c rest ih =>
      by_cases hSame : c.id = b.id
      · by_cases hId : b.id = id <;>
          simp [putBlock, hSame, hId]
      · by_cases hHere : c.id = id
        · have hId : b.id ≠ id := fun hBlock =>
            hSame (hHere.trans hBlock.symm)
          simp [putBlock, hHere, hId, Ne.symm hId]
        · simp [putBlock, hSame, hHere, ih]

/- A block with a new identity is put at the end. -/
theorem putBlock_of_new
    {bs : List Block}
    (hNew : ∀ c ∈ bs, c.id ≠ b.id) :
    putBlock b bs = bs ++ [b] := by
  induction bs with
  | nil => rfl
  | cons c rest ih =>
      rw [putBlock, if_neg (hNew c List.mem_cons_self),
        ih fun d hD => hNew d (List.mem_cons_of_mem c hD)]
      rfl

/- A block that is put in place of a like one changes no more. -/
theorem map_putBlock_of_some
    {α : Type}
    {bs : List Block}
    {old : Block}
    (f : Block → α)
    (hOld : (bs.find? fun c => c.id == b.id) = some old)
    (hLike : f b = f old) :
    (putBlock b bs).map f = bs.map f := by
  induction bs with
  | nil => cases hOld
  | cons c rest ih =>
      rw [putBlock]
      by_cases hSame : c.id = b.id
      · have hHere : c = old := by simpa [hSame] using hOld
        rw [if_pos hSame, List.map_cons, List.map_cons, hLike,
          hHere]
      · have hLater :
            (rest.find? fun c => c.id == b.id) = some old := by
          simpa [hSame] using hOld
        rw [if_neg hSame, List.map_cons, List.map_cons,
          ih hLater]

------------------------------------------------------------
-- Blocks in Their Places
------------------------------------------------------------

/- The view with a block in it, behind which indices go on. -/
def withBlock
    (v : View)
    (b : Block) : View :=
  { v with
    blocks := putBlock b v.blocks
    nextIndex := max v.nextIndex (b.index + 1) }

theorem placed_of_some
    {old : Block}
    (hOld : v.block? b.id = some old) :
    v.placed b = { b with index := old.index } := by
  rw [placed, hOld]

theorem placed_of_none
    (hNew : v.block? b.id = none) :
    v.placed b = b := by
  rw [placed, hNew]

@[simp] theorem placed_id
    (v : View)
    (b : Block) :
    (v.placed b).id = b.id := by
  unfold placed
  split <;> rfl

@[simp] theorem placed_kind
    (v : View)
    (b : Block) :
    (v.placed b).kind = b.kind := by
  unfold placed
  split <;> rfl

@[simp] theorem placed_isPartial
    (v : View)
    (b : Block) :
    (v.placed b).isPartial = b.isPartial := by
  unfold placed
  split <;> rfl

/- A mark changes neither the identity of a block nor its index. -/
@[simp] theorem markPartial_id
    (b : Block)
    (isFinal : Bool) :
    (markPartial b isFinal).id = b.id := by
  cases isFinal <;> rfl

@[simp] theorem markPartial_index
    (b : Block)
    (isFinal : Bool) :
    (markPartial b isFinal).index = b.index := by
  cases isFinal <;> rfl

/- Behind a block that was put, it is found, and others are. -/
theorem block?_withBlock
    (v : View)
    (b : Block)
    (id : String) :
    (v.withBlock b).block? id =
      if b.id = id then some b else v.block? id :=
  find?_putBlock b v.blocks id

------------------------------------------------------------
-- Tool Calls and Their Blocks
------------------------------------------------------------

/- The view with the record of a tool call. -/
def withRecord
    (v : View)
    (id : String)
    (r : ToolRecord) : View :=
  { v with tools := Table.put id r v.tools }

/-
  The view with a tool call that has started, or has started
  again: then the order of the tool calls stays as it is.
-/
def withStarted
    (v : View)
    (id : String)
    (r : ToolRecord) : View :=
  { v.withRecord id r with
    toolOrder :=
      if Table.has id v.tools then v.toolOrder
      else v.toolOrder ++ [id] }

/- The view with a tool call that went on, and so did its block. -/
def withTool
    (v : View)
    (id : String)
    (r : ToolRecord) : View :=
  { v.withRecord id r with
    blocks :=
      match v.block? id with
      | none => v.blocks
      | some b => putBlock (b.applyTool r) v.blocks }

/- The block with which a tool call starts, or starts again. -/
def toolBlock
    (v : View)
    (r : ToolRecord) : Block :=
  v.placed (.ofTool r.id v.nextIndex r)

@[simp] theorem toolBlock_id
    (v : View)
    (r : ToolRecord) :
    (v.toolBlock r).id = r.id :=
  placed_id v _

/- The block of a tool call that starts is found, and others are. -/
theorem block?_started
    (v : View)
    (r : ToolRecord)
    (id : String) :
    ((v.withBlock (v.toolBlock r)).withStarted r.id r).block? id =
      if r.id = id then some (v.toolBlock r)
      else v.block? id := by
  have hBlock := block?_withBlock v (v.toolBlock r) id
  rwa [toolBlock_id] at hBlock

/- Behind a tool call that started, it is found, and others are. -/
theorem tool?_withStarted
    (v : View)
    (name : String)
    (r : ToolRecord)
    (id : String) :
    (v.withStarted name r).tool? id =
      if name = id then some r else v.tool? id :=
  Table.get?_put name id r v.tools

/- The tool call that went on is found, and others as before. -/
theorem tool?_withTool
    (v : View)
    (name : String)
    (r : ToolRecord)
    (id : String) :
    (v.withTool name r).tool? id =
      if name = id then some r else v.tool? id :=
  Table.get?_put name id r v.tools

/- The view of a tool call whose block is there. -/
theorem blocks_withTool_of_some
    (r : ToolRecord)
    (hBlock : v.block? id = some b) :
    (v.withTool id r).blocks = putBlock (b.applyTool r) v.blocks := by
  unfold withTool
  rw [hBlock]

/- The view of a tool call whose block is missing. -/
theorem blocks_withTool_of_none
    (r : ToolRecord)
    (hBlock : v.block? id = none) :
    (v.withTool id r).blocks = v.blocks := by
  unfold withTool
  rw [hBlock]

/- The block of a tool call goes on with it, others do not. -/
theorem block?_withTool
    (v : View)
    (name : String)
    (r : ToolRecord)
    (id : String) :
    (v.withTool name r).block? id =
      if name = id then
        (v.block? id).map fun b => b.applyTool r
      else v.block? id := by
  rw [block?]
  cases hBlock : v.block? name with
  | none =>
      rw [blocks_withTool_of_none r hBlock]
      split
      · next hId =>
        subst hId
        rw [hBlock]
        exact hBlock
      · rfl
  | some b =>
      have hFound : (b.applyTool r).id = name :=
        (mem_of_block? hBlock).2
      rw [blocks_withTool_of_some r hBlock, find?_putBlock, hFound]
      split
      · next hId =>
        subst hId
        rw [hBlock]
        rfl
      · rfl

end View

end AnswerStream
