import AnswerStream.Proofs.Processor.Mirroring
import AnswerStream.Proofs.Processor.Shown

/-
  This file proves how far the order of blocks is determined.
  The contents of a stream may lay out its blocks without a
  clash, each at an index of its own. A tool call takes the next
  index when it starts, however, and a content that comes later
  may bring the same one. Blocks clash in no other way, and
  without such a clash there is one order.

  Key definitions include:
    * `View.Arranges`
    * `LaidOut`
    * `Block.role`
    * `View.Laid`

  Main statements:
    * `View.Arranges.eq_sortedBlocks`
    * `View.Laid.turn`
    * `blocks_clash_with_earlier_tools`
    * `early_tool_shares_its_index`
-/

namespace AnswerStream

------------------------------------------------------------
-- Orders of Blocks
------------------------------------------------------------

/-
  Blocks are in an order in which a view may show them: all of
  its blocks by their indices, those of one index anyhow.
-/
structure View.Arranges
    (v : View)
    (bs : List Block) : Prop where
  perm : bs.Perm v.blocks
  ordered : bs.Pairwise fun a b => a.index ≤ b.index

namespace View

variable {es : List Event} {v w : View} {a b old : Block}
  {bs : List Block}

/- A view shows its blocks in such an order. -/
theorem arranges_sortedBlocks (v : View) :
    v.Arranges v.sortedBlocks where
  perm := List.mergeSort_perm _ _
  ordered := by
    refine v.pairwise_sortedBlocks.imp fun {a b} hBefore => ?_
    rcases (before_iff a b).mp hBefore with hLess | ⟨hSame, _⟩
    · exact UInt32.le_of_lt hLess
    · exact hSame ▸ UInt32.le_refl _

/- Blocks with indices of their own have no other order. -/
theorem Arranges.eq_sortedBlocks
    (hArranges : v.Arranges bs)
    (hDistinct : (v.blocks.map Block.index).Nodup) :
    bs = v.sortedBlocks := by
  have hSorted := v.arranges_sortedBlocks
  refine
    List.Perm.eq_of_pairwise ?_ hArranges.ordered
      hSorted.ordered (hArranges.perm.trans hSorted.perm.symm)
  intro a b hA hB hLe hGe
  exact
    List.inj_on_of_nodup_map hDistinct
      (hArranges.perm.mem_iff.mp hA) (hSorted.perm.mem_iff.mp hB)
      (UInt32.le_antisymm hLe hGe)

end View

------------------------------------------------------------
-- Blocks Laid Out by Contents
------------------------------------------------------------

/-
  The contents of a stream lay out its blocks: those of one
  identity have one index and no others have it, and none has
  the identity of a tool call.
-/
structure LaidOut (es : List Event) : Prop where
  indexed :
    ∀ b ∈ shownBlocks es, ∀ c ∈ shownBlocks es,
      b.id = c.id ↔ b.index = c.index
  apart : KeptApart es

/-
  What counts for the order of a block: its index, and whether
  it is that of a tool call.
-/
def Block.role (b : Block) : UInt32 × Bool :=
  (b.index, b.kind == .toolCall)

/-
  A block may come behind another one: they have two indices, or
  the first is that of a tool call and the second is not.
-/
def Block.Follows (x y : UInt32 × Bool) : Prop :=
  x.1 = y.1 → x.2 = true ∧ y.2 = false

theorem Block.role_of_call
    {b : Block}
    (hCall : b.kind = .toolCall) :
    b.role = (b.index, true) := by
  simp [role, hCall]

theorem Block.role_of_other
    {b : Block}
    (hOther : b.kind ≠ .toolCall) :
    b.role = (b.index, false) := by
  simp [role, hOther]

namespace View

variable {es : List Event} {v w : View} {a b old : Block}

/-
  The blocks of a view are laid out by the contents of a stream:
  each that is not of a tool call has its identity and its index
  from one of them, and blocks share an index only if the first
  is that of a tool call and the second is not.
-/
structure Laid
    (es : List Event)
    (v : View) : Prop where
  shown :
    ∀ b ∈ v.blocks, b.kind ≠ .toolCall →
      ∃ d ∈ shownBlocks es, d.id = b.id ∧ d.index = b.index
  clashes : (v.blocks.map Block.role).Pairwise Block.Follows

theorem laid_empty (es : List Event) :
    Laid es empty where
  shown := fun _ hMember => nomatch hMember
  clashes := List.Pairwise.nil

namespace Laid

/- A block may take the place of one with the same role. -/
theorem replace
    (hLaid : Laid es v)
    (hOld : v.block? b.id = some old)
    (hRole : b.role = old.role)
    (hBlocks : w.blocks = putBlock b v.blocks) :
    Laid es w := by
  rcases mem_of_block? hOld with ⟨hThere, hId⟩
  rcases Prod.mk.inj hRole with ⟨hIndex, hCall⟩
  constructor
  · rw [hBlocks]
    intro d hMember hOther
    rcases mem_of_mem_putBlock hMember with rfl | hStays
    · have hOldOther : old.kind ≠ .toolCall := fun hOldCall =>
        hOther (by simpa [hOldCall] using hCall)
      rcases hLaid.shown old hThere hOldOther with
        ⟨f, hShown, hSameId, hSameIndex⟩
      exact
        ⟨f, hShown, hSameId.trans hId,
          hSameIndex.trans hIndex.symm⟩
    · exact hLaid.shown d hStays hOther
  · rw [hBlocks, map_putBlock_of_some Block.role hOld hRole]
    exact hLaid.clashes

/- A block may come behind all others. -/
theorem add
    (hLaid : Laid es v)
    (hShown :
      b.kind ≠ .toolCall →
        ∃ d ∈ shownBlocks es, d.id = b.id ∧ d.index = b.index)
    (hFollows : ∀ a ∈ v.blocks, Block.Follows a.role b.role)
    (hBlocks : w.blocks = v.blocks ++ [b]) :
    Laid es w := by
  constructor
  · rw [hBlocks]
    intro d hMember hOther
    rcases List.mem_append.mp hMember with hOld | hNew
    · exact hLaid.shown d hOld hOther
    · rw [List.mem_singleton.mp hNew] at hOther ⊢
      exact hShown hOther
  · rw [hBlocks, List.map_append, List.pairwise_append]
    refine ⟨hLaid.clashes, List.pairwise_singleton _ _, ?_⟩
    intro x hOld y hNew
    rcases List.mem_map.mp hOld with ⟨a, hMember, rfl⟩
    rw [List.map_singleton, List.mem_singleton] at hNew
    exact hNew ▸ hFollows a hMember

/- A content may show its block in its place. -/
theorem place
    (hLaid : Laid es v)
    (hInStep : InStep es v)
    (hLaidOut : LaidOut es)
    (hShown : b ∈ shownBlocks es)
    (hOther : b.kind ≠ .toolCall) :
    Laid es (v.withBlock (v.placed b)) := by
  cases hBlock : v.block? b.id with
  | none =>
      rw [placed_of_none hBlock]
      have hNew := block?_eq_none_iff.mp hBlock
      refine
        hLaid.add (fun _ => ⟨b, hShown, rfl, rfl⟩) ?_
          (putBlock_of_new hNew)
      intro a hMember hSame
      rw [Block.role_of_other hOther] at hSame ⊢
      by_cases hCall : a.kind = .toolCall
      · rw [Block.role_of_call hCall]
        exact ⟨rfl, rfl⟩
      · -- Two contents with one index show one block.
        rcases hLaid.shown a hMember hCall with
          ⟨d, hD, hId, hIndex⟩
        have hSameId :=
          (hLaidOut.indexed d hD b hShown).mpr
            (hIndex.trans hSame)
        exact absurd (hId.symm.trans hSameId) (hNew a hMember)
  | some old =>
      have hKept : old.kind ≠ .toolCall := by
        intro hCall
        rcases hInStep.recorded b.id old hBlock hCall with
          ⟨r, hTool⟩
        rcases hInStep.started b.id r hTool with
          ⟨s, hStarted, hId⟩
        exact hLaidOut.apart b hShown s hStarted hId.symm
      have hRole : (v.placed b).role = old.role := by
        rw [Block.role_of_other hKept, Block.role_of_other]
        · rw [placed_index hBlock]
        · rw [placed_kind]
          exact hOther
      refine hLaid.replace ?_ hRole rfl
      rw [placed_id]
      exact hBlock

/- A tool call may start with its block, or start again. -/
theorem start
    {r : ToolRecord}
    (hLaid : Laid es v)
    (hGrounded : v.Grounded)
    (hApart : KeptApart es)
    (hStarted : r ∈ startedTools es) :
    Laid es
      ((v.withBlock (v.toolBlock r)).withStarted r.id r) := by
  have hMirrors := mirrors_toolBlock v r
  cases hBlock : v.block? r.id with
  | none =>
      rw [toolBlock_of_new hBlock] at hMirrors ⊢
      refine
        hLaid.add (fun hOther => absurd hMirrors.kind hOther) ?_
          (putBlock_of_new (block?_eq_none_iff.mp hBlock))
      intro a hMember hSame
      have hLess := hGrounded.bounded a hMember
      rw [show a.index = v.nextIndex from hSame] at hLess
      exact absurd hLess (UInt32.lt_irrefl _)
  | some old =>
      have hCall : old.kind = .toolCall := by
        refine Decidable.byContradiction fun hOther => ?_
        rcases mem_of_block? hBlock with ⟨hMember, hId⟩
        rcases hLaid.shown old hMember hOther with
          ⟨d, hShown, hSameId, _⟩
        exact hApart d hShown r hStarted (hSameId.trans hId)
      have hRole : (v.toolBlock r).role = old.role := by
        rw [Block.role_of_call hCall,
          Block.role_of_call hMirrors.kind, toolBlock,
          placed_index hBlock]
      refine hLaid.replace ?_ hRole rfl
      rw [hMirrors.id]
      exact hBlock

/- A tool call may go on with its block. -/
theorem withTool
    (hLaid : Laid es v)
    (id : String)
    (r : ToolRecord) :
    Laid es (v.withTool id r) := by
  cases hBlock : v.block? id with
  | none =>
      have hBlocks := blocks_withTool_of_none r hBlock
      exact
        ⟨hBlocks ▸ hLaid.shown, hBlocks ▸ hLaid.clashes⟩
  | some b =>
      have hId : (b.applyTool r).id = id :=
        (mem_of_block? hBlock).2
      have hOld : v.block? (b.applyTool r).id = some b :=
        hId ▸ hBlock
      exact
        hLaid.replace hOld rfl (blocks_withTool_of_some r hBlock)

/- Each turn of an event of the stream keeps the blocks laid out. -/
theorem turn
    {e : Event}
    (hLaid : Laid es v)
    (hInStep : InStep es v)
    (hGrounded : v.Grounded)
    (hLaidOut : LaidOut es)
    (hMember : e ∈ es)
    (hTurn : v.Turn e.content w) :
    Laid es w := by
  cases hTurn with
  | still hSame =>
      exact
        ⟨hSame.blocks ▸ hLaid.shown, hSame.blocks ▸ hLaid.clashes⟩
  | shows hShown hNamed hRoom =>
      exact
        hLaid.place hInStep hLaidOut
          (mem_shownBlocks hMember hShown)
          (Content.kind_of_shown hShown)
  | starts hStarted hNamed hRoom =>
      exact
        hLaid.start hGrounded hLaidOut.apart
          (mem_startedTools hMember hStarted)
  | goesOn hProgress hTool => exact hLaid.withTool _ _

/- So do several events of the stream in a row. -/
theorem replay
    {fs : List Event}
    (hLaid : Laid es v)
    (hInStep : InStep es v)
    (hGrounded : v.Grounded)
    (hLaidOut : LaidOut es)
    (hMembers : ∀ f ∈ fs, f ∈ es) :
    Laid es (v.replay fs) := by
  have hAll :
      Laid es (v.replay fs) ∧ InStep es (v.replay fs) ∧
        (v.replay fs).Grounded := by
    refine
      replay_induction
        (P := fun w => Laid es w ∧ InStep es w ∧ w.Grounded)
        ⟨hLaid, hInStep, hGrounded⟩ ?_
    rintro u f hMember ⟨hLaid, hInStep, hGrounded⟩
    have hHere := hMembers f hMember
    have hTurn := u.turn_after f
    exact
      ⟨hLaid.turn hInStep hGrounded hLaidOut hHere hTurn,
        hInStep.turn hLaidOut.apart hHere hTurn,
        hGrounded.turn hTurn⟩
  exact hAll.1

/- Where no content brings the index of a tool call, none clash. -/
theorem nodup_index
    (hLaid : Laid es v)
    (hFree :
      ∀ a ∈ v.blocks, a.kind = .toolCall →
        ∀ d ∈ shownBlocks es, d.index ≠ a.index) :
    (v.blocks.map Block.index).Nodup := by
  have hPairs :
      v.blocks.Pairwise fun a b =>
        Block.Follows a.role b.role :=
    List.pairwise_map.mp hLaid.clashes
  rw [List.Nodup, List.pairwise_map]
  refine hPairs.imp_of_mem ?_
  intro a b hA hB hFollows hSame
  rcases hFollows hSame with ⟨hCall, hOther⟩
  have hBOther : b.kind ≠ .toolCall := by
    simpa [Block.role] using hOther
  rcases hLaid.shown b hB hBOther with
    ⟨d, hShown, _, hIndex⟩
  exact
    hFree a hA (by simpa [Block.role] using hCall) d hShown
      (hIndex.trans hSame.symm)

end Laid

end View

------------------------------------------------------------
-- Runs
------------------------------------------------------------

/-
  Whatever arrives in whatever order, if the contents lay out
  the blocks of a stream, two blocks share an index only if one
  is that of a tool call, and the other came later and is that
  of a content. If no content brings the index of a tool call,
  all blocks have indices of their own, and they can be shown in
  no order but one.
-/
theorem blocks_clash_with_earlier_tools
    (p : Processor)
    (es : List Event)
    (hBeginning : p.Beginning)
    (hLaidOut : LaidOut es) :
    let v := (p.processAll es).1.view
    v.Arranges v.sortedBlocks ∧
      (v.blocks.Pairwise fun a b =>
        a.index = b.index →
          a.kind = .toolCall ∧ b.kind ≠ .toolCall) ∧
      ((∀ a ∈ v.blocks, a.kind = .toolCall →
          ∀ d ∈ shownBlocks es, d.index ≠ a.index) →
        (v.blocks.map Block.index).Nodup ∧
          ∀ bs, v.Arranges bs → bs = v.sortedBlocks) := by
  intro v
  have hLaid : View.Laid es (p.processAll es).1.view := by
    rw [hBeginning.processAll_view]
    exact
      (View.laid_empty es).replay (View.inStep_empty es)
        View.grounded_empty hLaidOut fun _ hApplied =>
          hBeginning.mem_of_mem_journal hApplied
  refine ⟨v.arranges_sortedBlocks, ?_, ?_⟩
  · refine (List.pairwise_map.mp hLaid.clashes).imp ?_
    intro a b hFollows hSame
    simpa [Block.role] using hFollows hSame
  · intro hFree
    have hDistinct := hLaid.nodup_index hFree
    exact
      ⟨hDistinct, fun bs hArranges =>
        hArranges.eq_sortedBlocks hDistinct⟩

/- A tool call between two blocks, behind which an index is free. -/
def spacedEvents : List Event :=
  [ (2, .toolStart "t" "search" none),
    (1, .text "m:text:0" 0 "Loo" false),
    (4, .structured "m:structured:2" 2 none (some "{}") true),
    (3, .text "m:text:0" 0 "Look" true) ].map
    fun (seq, content) =>
      { id := "", seq := seq, timestamp := "", path := none
        content := content }

/- Such a stream is shown in one order. -/
theorem spacedEvents_have_one_order :
    (Processor.start none true).Beginning ∧
      LaidOut spacedEvents ∧
      (let v :=
        ((Processor.start none true).processAll
          spacedEvents).1.view
      (v.blocks.map fun b => (b.id, b.index)) =
          [("m:text:0", 0), ("t", 1), ("m:structured:2", 2)] ∧
        ∀ bs, v.Arranges bs → bs = v.sortedBlocks) := by
  have hLaidOut : LaidOut spacedEvents :=
    ⟨by decide, by unfold KeptApart; decide⟩
  have hOrder :=
    blocks_clash_with_earlier_tools (Processor.start none true)
      spacedEvents (.start none true) hLaidOut
  exact
    ⟨.start none true, hLaidOut, by decide,
      (hOrder.2.2 (by decide)).2⟩

/- A tool call that starts before the first block of a stream. -/
def earlyToolEvents : List Event :=
  [ (1, .toolStart "t" "search" none),
    (2, .text "m:text:0" 0 "Look" true) ].map
    fun (seq, content) =>
      { id := "", seq := seq, timestamp := "", path := none
        content := content }

/- Both blocks have the first index, and either may come first. -/
theorem early_tool_shares_its_index :
    LaidOut earlyToolEvents ∧
      (let v :=
        ((Processor.start none true).processAll
          earlyToolEvents).1.view
      (v.blocks.map fun b => (b.id, b.index)) =
          [("t", 0), ("m:text:0", 0)] ∧
        ∃ bs cs, v.Arranges bs ∧ v.Arranges cs ∧ bs ≠ cs) := by
  let v :=
    ((Processor.start none true).processAll
      earlyToolEvents).1.view
  refine
    ⟨⟨by decide, by unfold KeptApart; decide⟩, by decide,
      v.blocks, v.blocks.reverse, ⟨.refl _, ?_⟩,
      ⟨List.reverse_perm _, ?_⟩, ?_⟩ <;>
    decide

end AnswerStream
