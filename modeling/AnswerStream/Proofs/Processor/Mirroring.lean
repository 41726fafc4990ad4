import AnswerStream.Proofs.Processor.Account
import AnswerStream.Proofs.Processor.Identity
import AnswerStream.Proofs.Processor.Listing

/-
  This file proves that tool calls and their blocks stay in
  step, as long as no content takes the identity of a tool call
  for a block. Each tool call has one place in the order, one
  record and one block, which shows the record and nothing
  besides, however often the call starts again and in whatever
  order it goes on.

  Key definitions include:
    * `shownBlocks`
    * `startedTools`
    * `KeptApart`
    * `Block.Mirrors`
    * `View.InStep`
    * `View.Coherent`

  Main statements:
    * `View.InStep.replay`
    * `View.InStep.coherent`
    * `tools_mirror_their_blocks`
-/

namespace AnswerStream

------------------------------------------------------------
-- Identities Kept Apart
------------------------------------------------------------

/- The blocks that events show. -/
def shownBlocks (es : List Event) : List Block :=
  es.filterMap fun e => e.content.shown?

/- The tool calls that events start. -/
def startedTools (es : List Event) : List ToolRecord :=
  es.filterMap fun e => e.content.started?

theorem mem_shownBlocks
    {es : List Event}
    {e : Event}
    {b : Block}
    (hMember : e ∈ es)
    (hShown : e.content.shown? = some b) :
    b ∈ shownBlocks es :=
  List.mem_filterMap.mpr ⟨e, hMember, hShown⟩

theorem mem_startedTools
    {es : List Event}
    {e : Event}
    {r : ToolRecord}
    (hMember : e ∈ es)
    (hStarted : e.content.started? = some r) :
    r ∈ startedTools es :=
  List.mem_filterMap.mpr ⟨e, hMember, hStarted⟩

/- No block that is shown has the identity of a tool call. -/
def KeptApart (es : List Event) : Prop :=
  ∀ b ∈ shownBlocks es, ∀ r ∈ startedTools es, b.id ≠ r.id

------------------------------------------------------------
-- Blocks of Tool Calls
------------------------------------------------------------

/- A block shows the record of a tool call, and no more. -/
structure Block.Mirrors
    (b : Block)
    (r : ToolRecord) : Prop where
  id : b.id = r.id
  kind : b.kind = .toolCall
  toolId : b.toolId = some r.id
  name : b.name = some r.name
  state : b.state = some r.state
  data : b.data = r.input
  output : b.output = r.output
  error : b.error = r.error
  text : b.text = none
  sourceText : b.sourceText = none
  isPartial : b.isPartial = none

/- A block that goes on with its tool call goes on showing it. -/
theorem Block.Mirrors.applyTool
    {b : Block}
    {old r : ToolRecord}
    (hMirrors : b.Mirrors old)
    (hSame : r.id = old.id) :
    (b.applyTool r).Mirrors r where
  id := hMirrors.id.trans hSame.symm
  kind := hMirrors.kind
  toolId := rfl
  name := rfl
  state := rfl
  data := rfl
  output := rfl
  error := rfl
  text := hMirrors.text
  sourceText := hMirrors.sourceText
  isPartial := hMirrors.isPartial

namespace View

variable {es : List Event} {v w : View} {b : Block}
  {r old : ToolRecord} {id : String}

/- The block with which a tool call starts shows the call. -/
theorem mirrors_toolBlock
    (v : View)
    (r : ToolRecord) :
    (v.toolBlock r).Mirrors r := by
  unfold toolBlock placed
  split <;>
    exact ⟨rfl, rfl, rfl, rfl, rfl, rfl, rfl, rfl, rfl, rfl, rfl⟩

------------------------------------------------------------
-- Tool Calls in Step
------------------------------------------------------------

/-
  The tool calls of a view are in step with its blocks, given
  the events of a stream: they are listed, each was started by
  one of the events and has a block that shows its record, and
  no other block is that of a tool call.
-/
structure InStep
    (es : List Event)
    (v : View) : Prop where
  listed : v.Listed
  started :
    ∀ id r, v.tool? id = some r → ∃ s ∈ startedTools es, s.id = id
  mirrored :
    ∀ id r, v.tool? id = some r →
      ∃ b, v.block? id = some b ∧ b.Mirrors r
  recorded :
    ∀ id b, v.block? id = some b → b.kind = .toolCall →
      ∃ r, v.tool? id = some r

theorem inStep_empty (es : List Event) :
    InStep es empty where
  listed := listed_empty
  started := fun _ _ hTool => nomatch hTool
  mirrored := fun _ _ hTool => nomatch hTool
  recorded := fun _ _ hBlock => nomatch hBlock

namespace InStep

/- A block that is not that of a tool call may be put. -/
theorem withBlock
    (hInStep : InStep es v)
    (hApart : v.tool? b.id = none)
    (hKind : b.kind ≠ .toolCall) :
    InStep es (v.withBlock b) := by
  refine
    ⟨hInStep.listed.of_same_tools rfl rfl, hInStep.started, ?_,
      ?_⟩
  · intro id r hTool
    have hOther : b.id ≠ id := by
      rintro rfl
      exact nomatch hApart.symm.trans hTool
    rw [block?_withBlock, if_neg hOther]
    exact hInStep.mirrored id r hTool
  · intro id d hBlock hCall
    rw [block?_withBlock] at hBlock
    split at hBlock
    · cases hBlock
      exact absurd hCall hKind
    · exact hInStep.recorded id d hBlock hCall

/- A tool call may start with its block, or start again. -/
theorem start
    (hInStep : InStep es v)
    (hStarted : r ∈ startedTools es) :
    InStep es
      ((v.withBlock (v.toolBlock r)).withStarted r.id r) := by
  have hMirrors := mirrors_toolBlock v r
  have hPut : (v.withBlock (v.toolBlock r)).Listed :=
    hInStep.listed.of_same_tools rfl rfl
  have hTool :
      ∀ id,
        ((v.withBlock (v.toolBlock r)).withStarted r.id r).tool?
            id =
          if r.id = id then some r else v.tool? id :=
    tool?_withStarted _ r.id r
  refine ⟨hPut.withStarted r, ?_, ?_, ?_⟩
  · intro id s hFound
    rw [hTool] at hFound
    split at hFound
    · next hId => exact ⟨r, hStarted, hId⟩
    · exact hInStep.started id s hFound
  · intro id s hFound
    rw [hTool] at hFound
    rw [block?_started]
    split at hFound
    · next hId =>
      cases hFound
      exact ⟨v.toolBlock r, if_pos hId, hMirrors⟩
    · next hOther =>
      rw [if_neg hOther]
      exact hInStep.mirrored id s hFound
  · intro id d hFound hCall
    rw [block?_started] at hFound
    rw [hTool]
    split at hFound
    · next hId => exact ⟨r, if_pos hId⟩
    · next hOther =>
      rw [if_neg hOther]
      exact hInStep.recorded id d hFound hCall

/- A tool call that was started may go on with its block. -/
theorem withTool
    (hInStep : InStep es v)
    (hOld : v.tool? id = some old)
    (hId : r.id = id) :
    InStep es (v.withTool id r) := by
  subst hId
  refine ⟨hInStep.listed.withTool hOld rfl, ?_, ?_, ?_⟩
  · intro id s hFound
    rw [tool?_withTool] at hFound
    split at hFound
    · next hId =>
      subst hId
      exact hInStep.started r.id old hOld
    · exact hInStep.started id s hFound
  · intro id s hFound
    rw [tool?_withTool] at hFound
    rw [block?_withTool]
    split at hFound
    · next hId =>
      subst hId
      cases hFound
      rcases hInStep.mirrored r.id old hOld with
        ⟨b, hBlock, hMirrors⟩
      refine ⟨b.applyTool r, ?_, ?_⟩
      · rw [if_pos rfl, hBlock]
        rfl
      · exact
          hMirrors.applyTool
            (hInStep.listed.named r.id old hOld).symm
    · next hOther =>
      rw [if_neg hOther]
      exact hInStep.mirrored id s hFound
  · intro id d hFound hCall
    rw [block?_withTool] at hFound
    rw [tool?_withTool]
    split at hFound
    · next hId => exact ⟨r, if_pos hId⟩
    · next hOther =>
      rw [if_neg hOther]
      exact hInStep.recorded id d hFound hCall

/- A view with the same blocks and tool calls is in step. -/
theorem of_sameShown
    (hInStep : InStep es v)
    (hSame : SameShown v w) :
    InStep es w := by
  have hBlock : w.block? = v.block? := funext hSame.block?_eq
  have hTool : w.tool? = v.tool? := funext hSame.tool?_eq
  constructor
  · exact
      hInStep.listed.of_same_tools hSame.tools hSame.toolOrder
  · rw [hTool]
    exact hInStep.started
  · rw [hTool, hBlock]
    exact hInStep.mirrored
  · rw [hTool, hBlock]
    exact hInStep.recorded

/- Each turn of an event of the stream keeps them in step. -/
theorem turn
    {e : Event}
    (hInStep : InStep es v)
    (hApart : KeptApart es)
    (hMember : e ∈ es)
    (hTurn : v.Turn e.content w) :
    InStep es w := by
  cases hTurn with
  | still hSame => exact hInStep.of_sameShown hSame
  | @shows b hShown hNamed hRoom =>
      refine hInStep.withBlock ?_ ?_
      · rw [placed_id]
        refine Option.eq_none_iff_forall_ne_some.mpr ?_
        intro r hTool
        rcases hInStep.started b.id r hTool with
          ⟨s, hStarted, hId⟩
        exact
          hApart b (mem_shownBlocks hMember hShown) s hStarted
            hId.symm
      · rw [placed_kind]
        exact Content.kind_of_shown hShown
  | starts hStarted hNamed hRoom =>
      exact hInStep.start (mem_startedTools hMember hStarted)
  | goesOn hProgress hTool =>
      exact
        hInStep.withTool hTool
          (hInStep.listed.id_of_goesOn hProgress hTool)

/- So do several events of the stream in a row. -/
theorem replay
    {fs : List Event}
    (hInStep : InStep es v)
    (hApart : KeptApart es)
    (hMembers : ∀ f ∈ fs, f ∈ es) :
    InStep es (v.replay fs) := by
  refine replay_induction hInStep ?_
  intro u f hMember hBefore
  exact
    hBefore.turn hApart (hMembers f hMember) (u.turn_after f)

end InStep

------------------------------------------------------------
-- Tool Calls and Their Blocks
------------------------------------------------------------

/-
  The tool calls of a view are coherent: the order names each of
  them once, names just those that have a record and just those
  that have a block of their kind, and the block of each shows
  its record.
-/
structure Coherent (v : View) : Prop where
  distinct : v.toolOrder.Nodup
  recorded :
    ∀ id, id ∈ v.toolOrder ↔ Table.has id v.tools = true
  called :
    ∀ id, id ∈ v.toolOrder ↔
      ∃ b ∈ v.blocks, b.kind = .toolCall ∧ b.id = id
  named : ∀ id r, v.tool? id = some r → r.id = id
  mirrored :
    ∀ id r, v.tool? id = some r →
      ∃ b, v.block? id = some b ∧ b.Mirrors r

/- Tool calls in step with blocks that are distinct are coherent. -/
theorem InStep.coherent
    (hInStep : InStep es v)
    (hGrounded : v.Grounded) :
    v.Coherent := by
  refine
    ⟨hInStep.listed.distinct, hInStep.listed.found, ?_,
      hInStep.listed.named, hInStep.mirrored⟩
  intro id
  rw [hInStep.listed.found, Option.isSome_iff_exists]
  constructor
  · rintro ⟨r, hTool⟩
    rcases hInStep.mirrored id r hTool with
      ⟨b, hBlock, hMirrors⟩
    rcases mem_of_block? hBlock with ⟨hMember, hId⟩
    exact ⟨b, hMember, hMirrors.kind, hId⟩
  · rintro ⟨b, hMember, hCall, rfl⟩
    have hBlock := block?_of_mem hGrounded.distinct hMember
    exact hInStep.recorded b.id b hBlock hCall

end View

------------------------------------------------------------
-- Runs
------------------------------------------------------------

/- A run from the beginning applies nothing but what arrives. -/
theorem Processor.Beginning.mem_of_mem_journal
    {p : Processor}
    {es : List Event}
    {e : Event}
    (hBeginning : p.Beginning)
    (hApplied : e ∈ Move.applied (p.journal es)) :
    e ∈ es := by
  rcases Processor.mem_of_mem_journal hApplied with
    hWaits | hArrives
  · rw [hBeginning.blank.2.1] at hWaits
    cases hWaits
  · exact hArrives

/- A run of a stream that keeps identities apart is in step. -/
theorem Processor.Beginning.inStep
    {p : Processor}
    {es : List Event}
    (hBeginning : p.Beginning)
    (hApart : KeptApart es) :
    View.InStep es (p.processAll es).1.view := by
  rw [hBeginning.processAll_view]
  exact
    (View.inStep_empty es).replay hApart fun _ hApplied =>
      hBeginning.mem_of_mem_journal hApplied

/-
  Whatever arrives in whatever order, the order of the tool
  calls of a processor, their records and their blocks are
  coherent, if no content takes the identity of a tool call for
  a block.
-/
theorem tools_mirror_their_blocks
    (p : Processor)
    (es : List Event)
    (hBeginning : p.Beginning)
    (hApart : KeptApart es) :
    (p.processAll es).1.view.Coherent := by
  have hGrounded : (p.processAll es).1.view.Grounded := by
    rw [hBeginning.processAll_view]
    exact View.grounded_empty.replay _
  exact (hBeginning.inStep hApart).coherent hGrounded

/- A tool call that starts twice, and one without an index. -/
def toolEvents : List Event :=
  [ (2, .toolInput "t" (.bool true)),
    (1, .toolStart "t" "search" none),
    (3, .toolError "t" "timeout"),
    (5, .toolStart "t" "fetch" none),
    (4, .text "b" 4294967294 "prose" true),
    (6, .toolStart "u" "search" none),
    (8, .toolOutput "t" .null),
    (7, .toolOutput "u" .null) ].map
    fun (seq, content) =>
      { id := "", seq := seq, timestamp := "", path := none
        content := content }

/- The start of the second one is reported, and it is unknown. -/
theorem toolEvents_mirror_their_blocks :
    (Processor.start none true).Beginning ∧
      KeptApart toolEvents ∧
      (let p := Processor.start none true
      let done := p.processAll toolEvents
      done.1.view.toolOrder = ["t"] ∧
        (done.1.view.toolCalls.map fun r =>
            (r.id, r.name, r.state)) =
          [("t", "fetch", .complete)] ∧
        done.2.calls.filterMap Call.failure? =
          [(toolEvents[5], .indexOverflow "tool:start"
            4294967295)] ∧
        done.1.view.Coherent) :=
  ⟨.start none true, by unfold KeptApart; decide, by decide,
    by decide, by decide,
    tools_mirror_their_blocks (Processor.start none true)
      toolEvents (.start none true)
      (by unfold KeptApart; decide)⟩

end AnswerStream
