import AnswerStream.Proofs.Processor.Feed
import AnswerStream.Proofs.Processor.Turns

/-
  This file proves that blocks keep their identities and their
  indices for as long as a stream is followed. No block goes
  away, none gets another index, and the next index is behind
  all of them. A tool call that is new therefore gets a block
  behind all others, unless no index is left for it.

  Key definitions include:
    * `View.Grounded`
    * `View.Stands`
    * `Processor.KeepsIndices`

  Main statements:
    * `View.Grounded.replay`
    * `View.stands_replay`
    * `blocks_keep_their_indices`
    * `full_stream_starts_no_tool`
-/

namespace AnswerStream

namespace View

variable {v w : View} {b : Block} {c : Content} {r : ToolRecord}

------------------------------------------------------------
-- The Index Behind All Blocks
------------------------------------------------------------

/-
  The blocks of a view have identities of their own, and the
  next index is behind all of them.
-/
structure Grounded (v : View) : Prop where
  distinct : (v.blocks.map Block.id).Nodup
  bounded : ∀ b ∈ v.blocks, b.index < v.nextIndex

theorem grounded_empty : Grounded empty where
  distinct := List.nodup_nil
  bounded := fun _ hMember => nomatch hMember

/- Behind an index that is not the greatest there is one more. -/
theorem lt_add_one
    {index : UInt32}
    (hRoom : index ≠ greatestIndex) :
    index < index + 1 := by
  have hBound := UInt32.toNat_lt index
  have hLess : index.toNat ≠ 4294967295 := fun hLast =>
    hRoom (UInt32.toNat_inj.mp hLast)
  rw [UInt32.lt_iff_toNat_lt, UInt32.toNat_add]
  simp only [UInt32.reduceToNat]
  omega

/- The next index never falls, and is behind what is put. -/
theorem nextIndex_withBlock
    (v : View)
    (b : Block) :
    v.nextIndex ≤ (v.withBlock b).nextIndex ∧
      b.index + 1 ≤ (v.withBlock b).nextIndex := by
  have hMax :
      (v.withBlock b).nextIndex =
        if v.nextIndex ≤ b.index + 1 then b.index + 1
        else v.nextIndex :=
    rfl
  rw [hMax]
  split
  · next hLe => exact ⟨hLe, UInt32.le_refl _⟩
  · next hNot =>
    exact
      ⟨UInt32.le_refl _, UInt32.le_of_lt (UInt32.not_le.mp hNot)⟩

/- Another block may be put where there is room behind it. -/
theorem Grounded.withBlock
    (hGrounded : v.Grounded)
    (hRoom : b.index ≠ greatestIndex) :
    (v.withBlock b).Grounded := by
  rcases nextIndex_withBlock v b with ⟨hNext, hBehind⟩
  refine ⟨nodup_putBlock hGrounded.distinct, ?_⟩
  intro d hMember
  rcases mem_of_mem_putBlock hMember with rfl | hOld
  · exact UInt32.lt_of_lt_of_le (lt_add_one hRoom) hBehind
  · exact
      UInt32.lt_of_lt_of_le (hGrounded.bounded d hOld) hNext

/- A tool call may go on with its block. -/
theorem Grounded.withTool
    (hGrounded : v.Grounded)
    (id : String)
    (r : ToolRecord) :
    (v.withTool id r).Grounded := by
  cases hBlock : v.block? id with
  | none =>
      constructor
      · rw [blocks_withTool_of_none r hBlock]
        exact hGrounded.distinct
      · rw [blocks_withTool_of_none r hBlock]
        exact hGrounded.bounded
  | some b =>
      have hFound := (mem_of_block? hBlock).1
      constructor
      · rw [blocks_withTool_of_some r hBlock]
        exact nodup_putBlock hGrounded.distinct
      · rw [blocks_withTool_of_some r hBlock]
        intro d hMember
        rcases mem_of_mem_putBlock hMember with rfl | hOld
        · exact hGrounded.bounded b hFound
        · exact hGrounded.bounded d hOld

/- Each turn leaves the next index behind all blocks. -/
theorem Grounded.turn
    (hGrounded : v.Grounded)
    (hTurn : v.Turn c w) :
    w.Grounded := by
  cases hTurn with
  | still hSame =>
      constructor
      · rw [hSame.blocks]
        exact hGrounded.distinct
      · rw [hSame.blocks, hSame.nextIndex]
        exact hGrounded.bounded
  | shows hShown hNamed hRoom => exact hGrounded.withBlock hRoom
  | starts hStarted hNamed hRoom =>
      have hPut := hGrounded.withBlock hRoom
      exact ⟨hPut.distinct, hPut.bounded⟩
  | goesOn hProgress hTool => exact hGrounded.withTool _ _

/- So do events in a row. -/
theorem Grounded.replay
    (hGrounded : v.Grounded)
    (es : List Event) :
    (v.replay es).Grounded := by
  refine replay_induction hGrounded ?_
  intro u e _ hBefore
  exact hBefore.turn (u.turn_after e)

------------------------------------------------------------
-- Indices That Stay
------------------------------------------------------------

/-
  What is in a view stays in another one: a block with the same
  identity is there, and has the same index.
-/
def Stands (v w : View) : Prop :=
  ∀ id b, v.block? id = some b →
    ∃ d, w.block? id = some d ∧ d.index = b.index

theorem Stands.refl (v : View) :
    v.Stands v :=
  fun _ b hBlock => ⟨b, hBlock, rfl⟩

theorem Stands.trans
    {u : View}
    (hFirst : u.Stands v)
    (hSecond : v.Stands w) :
    u.Stands w := by
  intro id b hBlock
  rcases hFirst id b hBlock with ⟨d, hMiddle, hIndex⟩
  rcases hSecond id d hMiddle with ⟨f, hLast, hSame⟩
  exact ⟨f, hLast, hSame.trans hIndex⟩

/- A block in its place takes the index of the one before it. -/
theorem placed_index
    {old : Block}
    (hOld : v.block? b.id = some old) :
    (v.placed b).index = old.index := by
  rw [placed_of_some hOld]

/- What is put in its place replaces none with another index. -/
theorem stands_withBlock
    (v : View)
    (b : Block) :
    v.Stands (v.withBlock (v.placed b)) := by
  intro id old hOld
  rw [block?_withBlock, placed_id]
  split
  · next hId =>
    subst hId
    exact ⟨v.placed b, rfl, placed_index hOld⟩
  · exact ⟨old, hOld, rfl⟩

/- A tool call that goes on leaves all indices as they are. -/
theorem stands_withTool
    (v : View)
    (id : String)
    (r : ToolRecord) :
    v.Stands (v.withTool id r) := by
  intro other old hOld
  rw [block?_withTool, hOld]
  split
  · exact ⟨old.applyTool r, rfl, rfl⟩
  · exact ⟨old, rfl, rfl⟩

/- Each turn leaves all blocks at their indices. -/
theorem Turn.stands
    (hTurn : v.Turn c w) :
    v.Stands w := by
  cases hTurn with
  | still hSame =>
      intro id b hBlock
      exact ⟨b, (hSame.block?_eq id).trans hBlock, rfl⟩
  | shows hShown hNamed hRoom => exact stands_withBlock v _
  | starts hStarted hNamed hRoom => exact stands_withBlock v _
  | goesOn hProgress hTool => exact stands_withTool v _ _

/- So do events in a row. -/
theorem stands_replay
    (v : View)
    (es : List Event) :
    v.Stands (v.replay es) := by
  refine replay_induction (.refl v) ?_
  intro u e _ hBefore
  exact hBefore.trans (u.turn_after e).stands

------------------------------------------------------------
-- Tool Calls That Are New
------------------------------------------------------------

/- The block of a new tool call gets the next index. -/
theorem toolBlock_of_new
    (hNew : v.block? r.id = none) :
    v.toolBlock r = .ofTool r.id v.nextIndex r :=
  placed_of_none hNew

/- The block of a new tool call is put behind all others. -/
theorem after_started_of_new
    {e : Event}
    (hStarted : e.content.started? = some r)
    (hNamed : r.id ≠ "")
    (hNew : v.block? r.id = none)
    (hRoom : v.nextIndex ≠ greatestIndex) :
    (v.after e).blocks =
      v.blocks ++ [.ofTool r.id v.nextIndex r] := by
  have hEdit := edit_started v hStarted e.path
  have hIndex :
      (Block.ofTool r.id v.nextIndex r).index ≠ greatestIndex :=
    hRoom
  rw [toolBlock_of_new hNew, if_neg hNamed, if_neg hIndex]
    at hEdit
  rw [(after_of_ok hEdit).1]
  exact putBlock_of_new (block?_eq_none_iff.mp hNew)

/- Where no index is left, a new tool call is reported. -/
theorem after_started_of_full
    {e : Event}
    (hStarted : e.content.started? = some r)
    (hNamed : r.id ≠ "")
    (hNew : v.block? r.id = none)
    (hFull : v.nextIndex = greatestIndex) :
    v.after e = v ∧
      v.failureOf e =
        [(e, .indexOverflow e.content.typeName
          greatestIndex)] := by
  have hEdit := edit_started v hStarted e.path
  have hIndex :
      (Block.ofTool r.id v.nextIndex r).index = greatestIndex :=
    hFull
  rw [toolBlock_of_new hNew, if_neg hNamed, if_pos hIndex, hIndex]
    at hEdit
  rcases after_of_error hEdit with ⟨hSame, _, hFailure⟩
  exact ⟨hSame, hFailure⟩

end View

------------------------------------------------------------
-- Runs
------------------------------------------------------------

/-
  A run keeps the indices of blocks, given the events that were
  applied, in their order. Whatever was applied so far, blocks
  have identities of their own and are before the next index,
  and they are there in the end and behind further events, with
  the same indices. A named tool call that has no block gets one
  behind all others, unless the next index is the greatest: then
  it is reported, and changes nothing.
-/
structure Processor.KeepsIndices
    (applied : List Event)
    (done : Processor × Output) : Prop where
  view : done.1.view = View.empty.replay applied
  grounded :
    ∀ before after, applied = before ++ after →
      (View.empty.replay before).Grounded
  stays :
    ∀ before next after, applied = before ++ next ++ after →
      (View.empty.replay before).Stands
        (View.empty.replay (before ++ next))
  later :
    ∀ es, done.1.view.Stands (done.1.processAll es).1.view
  behind :
    ∀ before e after r, applied = before ++ e :: after →
      e.content.started? = some r →
      r.id ≠ "" →
      (View.empty.replay before).block? r.id = none →
      (View.empty.replay before).nextIndex ≠
        View.greatestIndex →
      ∃ b, ((View.empty.replay before).after e).blocks =
          (View.empty.replay before).blocks ++ [b] ∧
        b.id = r.id ∧ b.kind = .toolCall ∧
        b.index = (View.empty.replay before).nextIndex ∧
        ∀ d ∈ (View.empty.replay before).blocks,
          d.index < b.index
  full :
    ∀ before e after r, applied = before ++ e :: after →
      e.content.started? = some r →
      r.id ≠ "" →
      (View.empty.replay before).block? r.id = none →
      (View.empty.replay before).nextIndex =
        View.greatestIndex →
      (View.empty.replay before).after e =
          View.empty.replay before ∧
        (View.empty.replay before).failureOf e =
          [(e, .indexOverflow e.content.typeName
            View.greatestIndex)]

/-
  Whatever arrives in whatever order, blocks keep their indices
  from the beginning of a stream on until the next reset.
-/
theorem blocks_keep_their_indices
    (p : Processor)
    (es : List Event)
    (hBeginning : p.Beginning) :
    Processor.KeepsIndices (Move.applied (p.journal es))
      (p.processAll es) := by
  have hView := hBeginning.processAll_view es
  have hGrounded :
      ∀ before, (View.empty.replay before).Grounded :=
    View.grounded_empty.replay
  refine
    { view := hView
      grounded := fun before _ _ => hGrounded before
      stays := ?_
      later := ?_
      behind := ?_
      full := ?_ }
  · intro before next after _
    rw [View.replay_append]
    exact View.stands_replay _ next
  · intro further
    rw [Processor.processAll_view (p.processAll es).1]
    exact View.stands_replay _ _
  · intro before e after r _ hStarted hNamed hNew hRoom
    refine
      ⟨.ofTool r.id (View.empty.replay before).nextIndex r,
        View.after_started_of_new hStarted hNamed hNew hRoom,
        rfl, rfl, rfl, ?_⟩
    exact (hGrounded before).bounded
  · intro before e after r _ hStarted hNamed hNew hFull
    exact
      View.after_started_of_full hStarted hNamed hNew hFull

/- Blocks with several indices, and a tool call among them. -/
def movedEvents : List Event :=
  [ (3, .text "b" 1 "moved" true),
    (1, .text "b" 7 "first" false),
    (2, .toolStart "t" "search" none),
    (6, .toolStart "b" "search" none),
    (5, .reasoning "t" 0 "thought" true) ].map
    fun (seq, content) =>
      { id := "", seq := seq, timestamp := "", path := none
        content := content }

/-
  Behind a buffer for one event the fourth place is given up. The
  blocks change their kinds, and keep the indices they had first.
-/
theorem movedEvents_keep_indices :
    (Processor.start (some 1) true).Beginning ∧
      (let p := Processor.start (some 1) true
      (Move.applied (p.journal movedEvents)).map Event.seq =
          [1, 2, 3, 5, 6] ∧
        (p.processAll movedEvents).1.view.blocks.map
            (fun b => (b.id, b.index)) =
          [("b", 7), ("t", 8)] ∧
        Processor.KeepsIndices
          (Move.applied (p.journal movedEvents))
          (p.processAll movedEvents)) :=
  ⟨.start (some 1) true, by decide, by decide,
    blocks_keep_their_indices (Processor.start (some 1) true)
      movedEvents (.start (some 1) true)⟩

/- A block with the last index but one, and a tool call. -/
def edgeEvents : List Event :=
  [ (1, .text "b" 4294967294 "prose" true),
    (2, .toolStart "t" "search" none) ].map
    fun (seq, content) =>
      { id := "", seq := seq, timestamp := "", path := none
        content := content }

/-
  The tool call has no block before it starts, and none behind:
  the view stays as it is, and the start is reported.
-/
theorem full_stream_starts_no_tool :
    let p := Processor.start none true
    let before := (p.processAll (edgeEvents.take 1)).1.view
    let done := p.processAll edgeEvents
    before.blocks.map Block.id = ["b"] ∧
      before.block? "t" = none ∧
      (Move.applied (p.journal edgeEvents)).map Event.content =
        edgeEvents.map Event.content ∧
      done.1.view.block? "t" = none ∧
      done.1.view = before ∧
      done.2.calls.map Call.failure? =
        (edgeEvents.drop 1).map fun e =>
          some (e, .indexOverflow "tool:start" 4294967295) := by
  decide

end AnswerStream
