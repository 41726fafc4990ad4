import AnswerStream.Proofs.Processor.Keys

/-
  This file proves what an event makes of the blocks and the
  tool calls of a view. A block is shown, a tool call starts
  together with its block, or a tool call goes on; otherwise
  they stay as they are. What each of these turns keeps is kept
  by every run.

  Key definitions include:
    * `View.Turn`

  Main statements:
    * `View.taken_of_guarded`
    * `View.taken_progress`
    * `View.turn_after`
-/

namespace AnswerStream

open Json

------------------------------------------------------------
-- Contents of Blocks and Tool Calls
------------------------------------------------------------

namespace Content

/- A tool call that goes on keeps its identity. -/
theorem id_of_progress
    {c : Content}
    {id : String}
    {merge : ToolRecord → ToolRecord}
    (hProgress : c.progress? = some (id, merge))
    (r : ToolRecord) :
    (merge r).id = r.id := by
  cases c with
  | toolInput id input =>
      cases hProgress
      rfl
  | toolOutput id output =>
      cases hProgress
      rfl
  | toolError id error =>
      cases hProgress
      rfl
  | _ => cases hProgress

/- A block that is shown is one of a plain kind, with its mark. -/
theorem marked_of_shown
    {c : Content}
    {b : Block}
    (hShown : c.shown? = some b) :
    ∃ d, b = View.markPartial d c.isFinal ∧
      d.kind ≠ .toolCall ∧ d.isPartial = none := by
  cases c with
  | text id index body isFinal =>
      cases hShown
      exact ⟨_, rfl, nofun, rfl⟩
  | structured id index data source isFinal =>
      cases hShown
      exact ⟨_, rfl, nofun, rfl⟩
  | reasoning id index body isFinal =>
      cases hShown
      exact ⟨_, rfl, nofun, rfl⟩
  | _ => cases hShown

/- A block that is shown is not that of a tool call. -/
theorem kind_of_shown
    {c : Content}
    {b : Block}
    (hShown : c.shown? = some b) :
    b.kind ≠ .toolCall := by
  rcases marked_of_shown hShown with ⟨d, rfl, hKind, _⟩
  unfold View.markPartial
  split <;> exact hKind

/- A block that is shown is marked unless the content is final. -/
theorem isPartial_of_shown
    {c : Content}
    {b : Block}
    (hShown : c.shown? = some b) :
    b.isPartial = if c.isFinal then none else some true := by
  rcases marked_of_shown hShown with ⟨d, rfl, _, hUnmarked⟩
  unfold View.markPartial
  split
  · exact hUnmarked
  · rfl

end Content

namespace View

variable {v w : View} {e : Event} {c : Content} {b : Block}
  {id : String}

------------------------------------------------------------
-- What Is Taken of an Event
------------------------------------------------------------

/-
  An event that may fail in two ways and does not takes effect;
  otherwise it is reported, and nothing changes.
-/
theorem taken_of_guarded
    {p q : Prop}
    [Decidable p]
    [Decidable q]
    {first second : ProcessorError}
    {left : Draft}
    (hEdit :
      v.edit e.content e.path =
        if p then .error first (.start v)
        else if q then .error second (.start v)
        else .ok () left) :
    (v.after e = v ∧ v.changesOf e = [] ∧ v.failureOf e ≠ []) ∨
      (¬p ∧ ¬q ∧ v.after e = left.view ∧
        v.changesOf e = left.updates ∧ v.failureOf e = []) := by
  by_cases hFirst : p
  · rw [if_pos hFirst] at hEdit
    rcases after_of_error hEdit with ⟨hSame, hNone, hFailure⟩
    exact .inl ⟨hSame, hNone, by simp [hFailure]⟩
  · rw [if_neg hFirst] at hEdit
    by_cases hSecond : q
    · rw [if_pos hSecond] at hEdit
      rcases after_of_error hEdit with ⟨hSame, hNone, hFailure⟩
      exact .inl ⟨hSame, hNone, by simp [hFailure]⟩
    · rw [if_neg hSecond] at hEdit
      exact .inr ⟨hFirst, hSecond, after_of_ok hEdit⟩

/- A tool call that was started goes on with its block. -/
theorem taken_progress
    {merge : ToolRecord → ToolRecord}
    (v : View)
    (hProgress : e.content.progress? = some (id, merge)) :
    (v.after e = v ∧ v.changesOf e = []) ∨
      ∃ old, v.tool? id = some old ∧
        v.after e = v.withTool id (merge old) ∧
        v.changesOf e = Edit.progressOf v id (merge old) := by
  have hEdit := edit_progress v hProgress e.path
  by_cases hNamed : id = ""
  · rw [if_pos hNamed] at hEdit
    rcases after_of_error hEdit with ⟨hSame, hNone, _⟩
    exact .inl ⟨hSame, hNone⟩
  · rw [if_neg hNamed] at hEdit
    cases hTool : v.tool? id with
    | none =>
        rw [hTool] at hEdit
        rcases after_of_ok hEdit with ⟨hSame, hNone, _⟩
        exact .inl ⟨hSame, hNone⟩
    | some old =>
        rw [hTool] at hEdit
        rcases after_of_ok hEdit with ⟨hAfter, hChanges, _⟩
        exact .inr ⟨old, rfl, hAfter, hChanges⟩

------------------------------------------------------------
-- Turns
------------------------------------------------------------

/-
  What a content makes of the blocks and the tool calls of a
  view: nothing, as when it cannot be applied; a block that is
  shown in its place; a tool call that starts with its block; or
  a tool call that goes on.
-/
inductive Turn (v : View) : Content → View → Prop where
| still
    {c : Content}
    {w : View}
    (hSame : SameShown v w) :
    Turn v c w
| shows
    {c : Content}
    {b : Block}
    (hShown : c.shown? = some b)
    (hNamed : b.id ≠ "")
    (hRoom : (v.placed b).index ≠ greatestIndex) :
    Turn v c (v.withBlock (v.placed b))
| starts
    {c : Content}
    {r : ToolRecord}
    (hStarted : c.started? = some r)
    (hNamed : r.id ≠ "")
    (hRoom : (v.toolBlock r).index ≠ greatestIndex) :
    Turn v c ((v.withBlock (v.toolBlock r)).withStarted r.id r)
| goesOn
    {c : Content}
    {id : String}
    {merge : ToolRecord → ToolRecord}
    {old : ToolRecord}
    (hProgress : c.progress? = some (id, merge))
    (hTool : v.tool? id = some old) :
    Turn v c (v.withTool id (merge old))

/- Where nothing is done the turn is over. -/
theorem Turn.of_eq
    (hSame : w = v) :
    v.Turn c w := by
  subst hSame
  exact .still (.refl w)

/- Each event takes such a turn. -/
theorem turn_after
    (v : View)
    (e : Event) :
    v.Turn e.content (v.after e) := by
  rcases e.content.about with
    ⟨key, hKey⟩ | ⟨b, hShown⟩ | ⟨r, hStarted⟩ |
      ⟨id, merge, hProgress⟩
  · exact .still (sameShown_after_of_key v hKey)
  · rcases taken_of_guarded (edit_shown v hShown e.path) with
      ⟨hSame, _⟩ | ⟨hNamed, hRoom, hAfter, _⟩
    · exact .of_eq hSame
    · rw [hAfter]
      exact .shows hShown hNamed hRoom
  · rcases taken_of_guarded
        (edit_started v hStarted e.path) with
      ⟨hSame, _⟩ | ⟨hNamed, hRoom, hAfter, _⟩
    · exact .of_eq hSame
    · rw [hAfter]
      exact .starts hStarted hNamed hRoom
  · rcases taken_progress v hProgress with
      ⟨hSame, _⟩ | ⟨old, hTool, hAfter, _⟩
    · exact .of_eq hSame
    · rw [hAfter]
      exact .goesOn hProgress hTool

end View

end AnswerStream
