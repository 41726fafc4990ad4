import AnswerStream.Proofs.Processor.Identity

/-
  This file proves what contents make of blocks that are there
  already. Each content of a block replaces all that the block
  shows but its index, be it final or not. Hence a block that
  was final is partial again behind a content that is not, and
  it stays as it is for as long as nothing is about it.

  Key definitions include:
    * `Content.subject?`
    * `View.Settled`
    * `Processor.Overwrites`

  Main statements:
    * `View.block?_replay_of_other`
    * `View.after_shown_of_old`
    * `View.Settled.replay`
    * `contents_overwrite_blocks`
    * `late_draft_replaces_final`
-/

namespace AnswerStream

------------------------------------------------------------
-- Subjects of Contents
------------------------------------------------------------

namespace Content

variable {c : Content}

/- The block or the tool call that a content is about. -/
def subject? : Content → Option String
  | .stateStreaming _ _ | .stateFinal _ _ => none
  | .text id _ _ _ => some id
  | .structured id _ _ _ _ => some id
  | .reasoning id _ _ _ => some id
  | .toolStart id _ _ => some id
  | .toolInput id _ => some id
  | .toolOutput id _ => some id
  | .toolError id _ => some id

/- A content that shows a block is about it. -/
theorem subject_of_shown
    {b : Block}
    (hShown : c.shown? = some b) :
    c.subject? = some b.id := by
  cases c with
  | text id index body isFinal =>
      cases hShown
      rw [View.markPartial_id]
      rfl
  | structured id index data source isFinal =>
      cases hShown
      rw [View.markPartial_id]
      rfl
  | reasoning id index body isFinal =>
      cases hShown
      rw [View.markPartial_id]
      rfl
  | _ => cases hShown

/- A content that starts a tool call is about it. -/
theorem subject_of_started
    {r : ToolRecord}
    (hStarted : c.started? = some r) :
    c.subject? = some r.id := by
  cases c with
  | toolStart id name input =>
      cases hStarted
      rfl
  | _ => cases hStarted

/- A content with which a tool call goes on is about it. -/
theorem subject_of_progress
    {id : String}
    {merge : ToolRecord → ToolRecord}
    (hProgress : c.progress? = some (id, merge)) :
    c.subject? = some id := by
  cases c with
  | toolInput id input =>
      cases hProgress
      rfl
  | toolOutput id output =>
      cases hProgress
      rfl
  | toolError id error =>
      cases hProgress
      rfl
  | _ => cases hProgress

end Content

namespace View

variable {v w : View} {e : Event} {c : Content} {b old : Block}
  {id : String}

------------------------------------------------------------
-- Blocks That Nothing Is About
------------------------------------------------------------

/- A turn of a content leaves blocks that it is not about. -/
theorem Turn.block?_of_other
    (hTurn : v.Turn c w)
    (hOther : c.subject? ≠ some id) :
    w.block? id = v.block? id := by
  cases hTurn with
  | still hSame => exact hSame.block?_eq id
  | @shows b hShown hNamed hRoom =>
      have hId : b.id ≠ id := fun hSame =>
        hOther (hSame ▸ Content.subject_of_shown hShown)
      rw [block?_withBlock, placed_id, if_neg hId]
  | @starts r hStarted hNamed hRoom =>
      have hId : r.id ≠ id := fun hSame =>
        hOther (hSame ▸ Content.subject_of_started hStarted)
      rw [block?_started, if_neg hId]
  | @goesOn name merge old hProgress hTool =>
      have hId : name ≠ id := fun hSame =>
        hOther (hSame ▸ Content.subject_of_progress hProgress)
      rw [block?_withTool, if_neg hId]

/- So do events in a row. -/
theorem block?_replay_of_other
    {es : List Event}
    (v : View)
    (hOther : ∀ e ∈ es, e.content.subject? ≠ some id) :
    (v.replay es).block? id = v.block? id := by
  refine
    replay_induction (P := fun w => w.block? id = v.block? id)
      rfl ?_
  intro u e hMember hBefore
  have hHere :=
    (u.turn_after e).block?_of_other (hOther e hMember)
  exact hHere.trans hBefore

------------------------------------------------------------
-- Blocks That Are Replaced
------------------------------------------------------------

/- No block goes without a name. -/
theorem Turn.block?_unnamed
    (hTurn : v.Turn c w)
    (hNone : v.block? "" = none) :
    w.block? "" = none := by
  cases hTurn with
  | still hSame => exact (hSame.block?_eq "").trans hNone
  | shows hShown hNamed hRoom =>
      rw [block?_withBlock, placed_id, if_neg hNamed]
      exact hNone
  | starts hStarted hNamed hRoom =>
      rw [block?_started, if_neg hNamed]
      exact hNone
  | goesOn hProgress hTool =>
      rw [block?_withTool, hNone]
      exact ite_self none

/- Nor does one after events in a row. -/
theorem block?_replay_unnamed
    (hNone : v.block? "" = none)
    (es : List Event) :
    (v.replay es).block? "" = none := by
  refine
    replay_induction (P := fun w => w.block? "" = none) hNone ?_
  intro u e _ hBefore
  exact (u.turn_after e).block?_unnamed hBefore

/- There is room behind each block of a view. -/
theorem Grounded.index_ne_greatest
    (hGrounded : v.Grounded)
    (hMember : b ∈ v.blocks) :
    b.index ≠ greatestIndex := by
  intro hLast
  have hLess := hGrounded.bounded b hMember
  have hBound := UInt32.toNat_lt v.nextIndex
  have hGreatest : greatestIndex.toNat = 4294967295 := rfl
  rw [hLast, UInt32.lt_iff_toNat_lt] at hLess
  omega

/- A content that takes effect puts its block in its place. -/
theorem after_shown_of_applied
    (hShown : e.content.shown? = some b)
    (hApplied : v.failureOf e = []) :
    v.after e = v.withBlock (v.placed b) := by
  rcases taken_of_guarded (edit_shown v hShown e.path) with
    ⟨_, _, hFailed⟩ | ⟨_, _, hAfter, _⟩
  · exact absurd hApplied hFailed
  · exact hAfter

/-
  A content of a block that is there takes effect: it replaces
  all that the block shows but its index, and is reported.
-/
theorem after_shown_of_old
    (hGrounded : v.Grounded)
    (hNone : v.block? "" = none)
    (hShown : e.content.shown? = some b)
    (hOld : v.block? b.id = some old) :
    v.after e = v.withBlock { b with index := old.index } ∧
      v.changesOf e = [.block { b with index := old.index }] ∧
        v.failureOf e = [] := by
  have hNamed : b.id ≠ "" := by
    intro hEmpty
    rw [hEmpty, hNone] at hOld
    cases hOld
  have hRoom : old.index ≠ greatestIndex :=
    hGrounded.index_ne_greatest (mem_of_block? hOld).1
  have hEdit := edit_shown v hShown e.path
  rw [placed_of_some hOld, if_neg hNamed, if_neg hRoom] at hEdit
  exact after_of_ok hEdit

/- The block is found as the content shows it. -/
theorem block?_after_shown_of_old
    (hGrounded : v.Grounded)
    (hNone : v.block? "" = none)
    (hShown : e.content.shown? = some b)
    (hOld : v.block? b.id = some old) :
    (v.after e).block? b.id =
      some { b with index := old.index } := by
  rw [(after_shown_of_old hGrounded hNone hShown hOld).1]
  exact (block?_withBlock v _ b.id).trans (if_pos rfl)

------------------------------------------------------------
-- Blocks That Are Final
------------------------------------------------------------

/- A block is there, and not marked as partial. -/
def Settled
    (id : String)
    (v : View) : Prop :=
  ∃ b, v.block? id = some b ∧ b.isPartial = none

/- A final content settles its block. -/
theorem settled_after_final
    (hShown : e.content.shown? = some b)
    (hFinal : e.content.isFinal = true)
    (hApplied : v.failureOf e = []) :
    Settled b.id (v.after e) := by
  have hMark := Content.isPartial_of_shown hShown
  rw [hFinal, if_pos rfl] at hMark
  refine ⟨v.placed b, ?_, (placed_isPartial v b).trans hMark⟩
  rw [after_shown_of_applied hShown hApplied, block?_withBlock,
    placed_id, if_pos rfl]

/-
  A block stays settled unless the turn is that of a content of
  it which is not final; tool calls mark no blocks.
-/
theorem Settled.turn
    (hSettled : v.Settled id)
    (hFinal :
      ∀ b, c.shown? = some b → b.id = id → c.isFinal = true)
    (hTurn : v.Turn c w) :
    w.Settled id := by
  rcases hSettled with ⟨old, hOld, hMark⟩
  cases hTurn with
  | still hSame =>
      exact ⟨old, (hSame.block?_eq id).trans hOld, hMark⟩
  | @shows b hShown hNamed hRoom =>
      by_cases hId : b.id = id
      · have hUnmarked := Content.isPartial_of_shown hShown
        rw [hFinal b hShown hId, if_pos rfl] at hUnmarked
        refine
          ⟨v.placed b, ?_, (placed_isPartial v b).trans hUnmarked⟩
        rw [block?_withBlock, placed_id, if_pos hId]
      · refine ⟨old, ?_, hMark⟩
        rw [block?_withBlock, placed_id, if_neg hId]
        exact hOld
  | @starts r hStarted hNamed hRoom =>
      rw [Settled, block?_started]
      split
      · exact ⟨v.toolBlock r, rfl, placed_isPartial v _⟩
      · exact ⟨old, hOld, hMark⟩
  | @goesOn name merge record hProgress hTool =>
      rw [Settled, block?_withTool, hOld]
      split
      · exact ⟨old.applyTool (merge record), rfl, hMark⟩
      · exact ⟨old, rfl, hMark⟩

/- So it does while events in a row bring no such content. -/
theorem Settled.replay
    {es : List Event}
    (hSettled : v.Settled id)
    (hFinal :
      ∀ e ∈ es, ∀ b, e.content.shown? = some b →
        b.id = id → e.content.isFinal = true) :
    (v.replay es).Settled id := by
  refine replay_induction hSettled ?_
  intro u e hMember hBefore
  exact hBefore.turn (hFinal e hMember) (u.turn_after e)

end View

------------------------------------------------------------
-- Runs
------------------------------------------------------------

/-
  A run overwrites blocks, given the events that were applied,
  in their order. A content of a block that is there takes
  effect: it replaces all that the block shows but its index,
  and marks it as partial unless it is final. So does one that
  is not final after one that was. A block that nothing is about
  stays as it is, and a block that is final stays final while no
  content of it comes that is not.
-/
structure Processor.Overwrites
    (applied : List Event)
    (done : Processor × Output) : Prop where
  view : done.1.view = View.empty.replay applied
  replaced :
    ∀ before e after b old, applied = before ++ e :: after →
      e.content.shown? = some b →
      (View.empty.replay before).block? b.id = some old →
      ((View.empty.replay before).after e).block? b.id =
          some { b with index := old.index } ∧
        (View.empty.replay before).changesOf e =
          [.block { b with index := old.index }] ∧
        (View.empty.replay before).failureOf e = [] ∧
        b.isPartial =
          if e.content.isFinal then none else some true
  reopened :
    ∀ before e between f after b d,
      applied = before ++ e :: (between ++ f :: after) →
      e.content.shown? = some b →
      e.content.isFinal = true →
      (View.empty.replay before).failureOf e = [] →
      f.content.shown? = some d →
      d.id = b.id →
      f.content.isFinal = false →
      ((View.empty.replay before).after e).Settled b.id ∧
        ∃ i,
          (((View.empty.replay before).after e).replay
              (between ++ [f])).block? b.id =
            some { d with index := i } ∧
          d.isPartial = some true
  kept :
    ∀ before next after id, applied = before ++ next ++ after →
      (∀ e ∈ next, e.content.subject? ≠ some id) →
      (View.empty.replay (before ++ next)).block? id =
        (View.empty.replay before).block? id
  settled :
    ∀ before next after id, applied = before ++ next ++ after →
      (View.empty.replay before).Settled id →
      (∀ e ∈ next, ∀ b, e.content.shown? = some b →
        b.id = id → e.content.isFinal = true) →
      (View.empty.replay (before ++ next)).Settled id

/-
  Whatever arrives in whatever order, contents overwrite the
  blocks that are there, the final ones among them.
-/
theorem contents_overwrite_blocks
    (p : Processor)
    (es : List Event)
    (hBeginning : p.Beginning) :
    Processor.Overwrites (Move.applied (p.journal es))
      (p.processAll es) := by
  have hGrounded :
      ∀ before, (View.empty.replay before).Grounded :=
    View.grounded_empty.replay
  have hNone :
      ∀ before, (View.empty.replay before).block? "" = none :=
    View.block?_replay_unnamed rfl
  refine
    { view := hBeginning.processAll_view es
      replaced := ?_
      reopened := ?_
      kept := ?_
      settled := ?_ }
  · intro before e after b old _ hShown hOld
    have hAfter :=
      View.after_shown_of_old (hGrounded before) (hNone before)
        hShown hOld
    exact
      ⟨View.block?_after_shown_of_old (hGrounded before)
          (hNone before) hShown hOld,
        hAfter.2.1, hAfter.2.2,
        Content.isPartial_of_shown hShown⟩
  · intro before e between f after b d _ hShown hFinal hApplied
      hLater hSame hOpen
    have hSettled :=
      View.settled_after_final hShown hFinal hApplied
    refine ⟨hSettled, ?_⟩
    -- The block is still there when the later content comes.
    rcases hSettled with ⟨old, hOld, _⟩
    rcases View.stands_replay _ between b.id old hOld with
      ⟨last, hLast, _⟩
    have hPast :
        ((View.empty.replay before).after e).replay between =
          View.empty.replay (before ++ e :: between) := by
      rw [View.replay_append, View.replay_cons]
    refine ⟨last.index, ?_, ?_⟩
    · rw [hPast, ← hSame] at hLast
      rw [View.replay_append, hPast, ← hSame]
      exact
        View.block?_after_shown_of_old (hGrounded _) (hNone _)
          hLater hLast
    · rw [Content.isPartial_of_shown hLater, hOpen]
      rfl
  · intro before next after id _ hOther
    rw [View.replay_append]
    exact View.block?_replay_of_other _ hOther
  · intro before next after id _ hSettled hFinal
    rw [View.replay_append]
    exact hSettled.replay hFinal

/- Two drafts and the end of a block, and a tool call beside it. -/
def draftEvents : List Event :=
  [ (3, .text "b" 4 "done" true),
    (1, .text "b" 2 "do" false),
    (2, .toolStart "t" "search" none),
    (5, .text "b" 6 "do" false),
    (4, .toolOutput "t" .null) ].map
    fun (seq, content) =>
      { id := "", seq := seq, timestamp := "", path := none
        content := content }

/- The draft that comes last is what the block shows. -/
theorem draftEvents_overwrite_blocks :
    (Processor.start none true).Beginning ∧
      (let p := Processor.start none true
      (Move.applied (p.journal draftEvents)).map Event.seq =
          [1, 2, 3, 4, 5] ∧
        (p.processAll draftEvents).1.view.block? "b" =
          some (Block.withPartial (.ofText "b" 2 "do") true) ∧
        Processor.Overwrites
          (Move.applied (p.journal draftEvents))
          (p.processAll draftEvents)) :=
  ⟨.start none true, by decide, by decide,
    contents_overwrite_blocks (Processor.start none true)
      draftEvents (.start none true)⟩

/- The end of a block, and a draft of it that comes later. -/
def lateDraftEvents : List Event :=
  [ (1, .text "b" 0 "done" true),
    (2, .text "b" 0 "do" false) ].map
    fun (seq, content) =>
      { id := "", seq := seq, timestamp := "", path := none
        content := content }

/-
  Both contents are applied, nothing is reported as a failure,
  and the block shows the draft in place of its end.
-/
theorem late_draft_replaces_final :
    let p := Processor.start none true
    let final := (p.processAll (lateDraftEvents.take 1)).1.view
    let done := p.processAll lateDraftEvents
    (Move.applied (p.journal lateDraftEvents)) =
        lateDraftEvents ∧
      done.2.calls = [] ∧
      final.block? "b" = some (.ofText "b" 0 "done") ∧
      done.1.view.block? "b" =
        some (Block.withPartial (.ofText "b" 0 "do") true) := by
  decide

end AnswerStream
