import AnswerStream.Proofs.Processor.Placing

/-
  This file proves what working off an event makes of a draft.
  Each step that can fail does so before anything is changed,
  so an event that cannot be applied leaves the view, the
  changes and the notes as they were. The others are told apart
  by what they are about: a state key, a block that is shown, a
  tool call that starts, or one that goes on.

  Key definitions include:
    * `Content.stateKey?`
    * `Content.shown?`
    * `Content.started?`
    * `Content.progress?`
    * `Edit.Atomic`

  Main statements:
    * `Edit.run_upsert`
    * `Edit.run_startTool`
    * `Edit.run_updateTool`
    * `Edit.atomic_apply`
    * `View.edit_streaming`
    * `View.edit_final`
    * `View.edit_shown`
    * `View.edit_started`
    * `View.edit_progress`
-/

namespace AnswerStream

open Json

------------------------------------------------------------
-- Subjects of Contents
------------------------------------------------------------

namespace Content

/- The state key that a content is about. -/
def stateKey? : Content → Option String
  | .stateStreaming key _ => some key
  | .stateFinal key _ => some key
  | _ => none

/- The block that a content shows, marked unless it is the last. -/
def shown? : Content → Option Block
  | .text id index body isFinal =>
      some (View.markPartial (.ofText id index body) isFinal)
  | .structured id index data source isFinal =>
      some
        (View.markPartial (.ofStructured id index data source)
          isFinal)
  | .reasoning id index body isFinal =>
      some (View.markPartial (.ofReasoning id index body) isFinal)
  | _ => none

/- The tool call that a content starts. -/
def started? : Content → Option ToolRecord
  | .toolStart id name input =>
      some { ToolRecord.pending id name with input := input }
  | _ => none

/- What a content makes of a tool call that was started. -/
def progress? :
    Content → Option (String × (ToolRecord → ToolRecord))
  | .toolInput id input =>
      some
        (id, fun r =>
          { r with input := some input, state := .running })
  | .toolOutput id output =>
      some
        (id, fun r =>
          { r with output := some output, state := .complete })
  | .toolError id error =>
      some
        (id, fun r =>
          { r with error := some error, state := .error })
  | _ => none

/- A content is about a key, a block or a tool call. -/
theorem about (c : Content) :
    (∃ key, c.stateKey? = some key) ∨
      (∃ b, c.shown? = some b) ∨
        (∃ r, c.started? = some r) ∨
          ∃ id merge, c.progress? = some (id, merge) := by
  cases c with
  | stateStreaming key value => exact .inl ⟨_, rfl⟩
  | stateFinal key value => exact .inl ⟨_, rfl⟩
  | text id index body isFinal => exact .inr (.inl ⟨_, rfl⟩)
  | structured id index data source isFinal =>
      exact .inr (.inl ⟨_, rfl⟩)
  | reasoning id index body isFinal =>
      exact .inr (.inl ⟨_, rfl⟩)
  | toolStart id name input =>
      exact .inr (.inr (.inl ⟨_, rfl⟩))
  | toolInput id input =>
      exact .inr (.inr (.inr ⟨_, _, rfl⟩))
  | toolOutput id output =>
      exact .inr (.inr (.inr ⟨_, _, rfl⟩))
  | toolError id error =>
      exact .inr (.inr (.inr ⟨_, _, rfl⟩))

end Content

------------------------------------------------------------
-- Steps
------------------------------------------------------------

namespace Edit

variable {x : Edit Unit} {v : View} {d : Draft}

@[simp] theorem run_view (d : Draft) :
    view.run d = .ok d.view d :=
  rfl

@[simp] theorem run_change
    (f : View → View)
    (d : Draft) :
    (change f).run d = .ok () { d with view := f d.view } :=
  rfl

@[simp] theorem run_report
    (u : Update)
    (d : Draft) :
    (report u).run d =
      .ok () { d with updates := d.updates ++ [u] } :=
  rfl

@[simp] theorem run_note
    (n : Note)
    (d : Draft) :
    (note n).run d = .ok () { d with notes := d.notes.push n } :=
  rfl

/- What is asked for behind a name fails if there is none. -/
theorem run_require
    (name : String)
    (cause : ProcessorError)
    (x : Edit Unit)
    (d : Draft) :
    (require name cause >>= fun _ => x).run d =
      if name = "" then .error cause d else x.run d := by
  unfold require
  by_cases hName : name = ""
  · subst hName
    rfl
  · have hSome : name.isEmpty = false := by
      rw [← Bool.not_eq_true, String.isEmpty_iff]
      exact hName
    rw [if_neg hName, hSome]
    rfl

/- A value of a state key is put and reported. -/
theorem run_setState
    (key : String)
    (value : Value)
    (isFinal : Bool)
    (path : Option String)
    (d : Draft) :
    (setState key value isFinal path).run d =
      .ok ()
        { d with
          view :=
            { d.view with
              state := Members.insert key value d.view.state }
          updates :=
            d.updates ++ [.state key value isFinal path] } :=
  rfl

/- A block is put in its place, unless there is none behind it. -/
theorem run_upsert
    (b : Block)
    (eventType : String)
    (d : Draft) :
    (upsert b eventType).run d =
      let b := d.view.placed b
      if b.index = View.greatestIndex then
        .error (.indexOverflow eventType b.index) d
      else
        .ok ()
          { d with
            view := d.view.withBlock b
            updates := d.updates ++ [.block b] } := by
  unfold upsert
  rw [EStateM.run_bind, run_view]
  dsimp only
  split
  · rfl
  · rfl

/- What is done behind a block fails if that has no place. -/
theorem run_upsert_bind
    (b : Block)
    (eventType : String)
    (f : Unit → Edit Unit)
    (d : Draft) :
    (upsert b eventType >>= f).run d =
      let b := d.view.placed b
      if b.index = View.greatestIndex then
        .error (.indexOverflow eventType b.index) d
      else
        (f ()).run
          { d with
            view := d.view.withBlock b
            updates := d.updates ++ [.block b] } := by
  rw [EStateM.run_bind, run_upsert]
  by_cases hFull : (d.view.placed b).index = View.greatestIndex
  · simp only [if_pos hFull]
  · simp only [if_neg hFull]

/- A block with its mark is put, unless it has no identity. -/
theorem run_marked
    (b : Block)
    (isFinal : Bool)
    (eventType : String)
    (d : Draft) :
    (require b.id (.missingBlockId eventType) >>= fun _ =>
        upsert (View.markPartial b isFinal) eventType).run d =
      let c := View.markPartial b isFinal
      if c.id = "" then .error (.missingBlockId eventType) d
      else if (d.view.placed c).index = View.greatestIndex then
        .error (.indexOverflow eventType (d.view.placed c).index) d
      else
        .ok ()
          { d with
            view := d.view.withBlock (d.view.placed c)
            updates := d.updates ++ [.block (d.view.placed c)] } := by
  dsimp only
  rw [run_require, View.markPartial_id]
  exact if_congr Iff.rfl rfl (run_upsert _ eventType d)

/- A record is kept, in the order in which the first one came. -/
theorem run_enroll
    (id : String)
    (r : ToolRecord)
    (d : Draft) :
    (enroll id r).run d =
      .ok ()
        { d with
          view := d.view.withStarted id r
          updates := d.updates ++ [.tool r] } := by
  unfold enroll
  by_cases hThere : Table.has id d.view.tools = true <;>
    simp [View.withStarted, View.withRecord, hThere]

/-
  A tool call starts with its block and its record, unless there
  is no index behind that of the block.
-/
theorem run_startTool
    (id name : String)
    (input : Option Value)
    (d : Draft) :
    (startTool id name input).run d =
      let r := { ToolRecord.pending id name with input := input }
      let b := d.view.toolBlock r
      if b.index = View.greatestIndex then
        .error (.indexOverflow "tool:start" b.index) d
      else
        .ok ()
          { view := (d.view.withBlock b).withStarted id r
            updates := d.updates ++ [.block b, .tool r]
            notes :=
              d.notes.push <| Note.debug "tool started"
                [("tool_id", id), ("name", name)] } := by
  unfold startTool
  rw [EStateM.run_bind, run_view]
  refine (run_upsert_bind _ _ _ _).trans (if_congr Iff.rfl rfl ?_)
  rw [EStateM.run_bind, run_enroll]
  dsimp only
  rw [run_note, List.append_assoc]
  rfl

/- A tool call without a block goes on without one. -/
theorem run_updateBlock_of_none
    {id : String}
    (r : ToolRecord)
    (hBlock : d.view.block? id = none) :
    (updateBlock id r).run d = .ok () d := by
  unfold updateBlock
  rw [EStateM.run_bind, run_view]
  dsimp only
  rw [hBlock]
  rfl

theorem run_updateBlock_of_some
    {id : String}
    {b : Block}
    (r : ToolRecord)
    (hBlock : d.view.block? id = some b) :
    (updateBlock id r).run d =
      .ok ()
        { d with
          view :=
            { d.view with
              blocks :=
                View.putBlock (b.applyTool r) d.view.blocks }
          updates := d.updates ++ [.block (b.applyTool r)] } := by
  unfold updateBlock
  rw [EStateM.run_bind, run_view]
  dsimp only
  rw [hBlock]
  rfl

/- The changes that show how far a tool call is. -/
def progressOf
    (v : View)
    (id : String)
    (r : ToolRecord) : List Update :=
  match v.block? id with
  | none => [.tool r]
  | some b => [.block (b.applyTool r), .tool r]

/-
  A tool call that was started goes on with its block, and one
  that was not is passed over.
-/
theorem run_updateTool
    (id : String)
    (merge : ToolRecord → ToolRecord)
    (d : Draft) :
    (updateTool id merge).run d =
      match d.view.tool? id with
      | none =>
          .ok ()
            { d with
              notes :=
                d.notes.push <|
                  Note.debug "update for unknown tool ignored"
                    [("tool_id", id)] }
      | some old =>
          .ok ()
            { d with
              view := d.view.withTool id (merge old)
              updates :=
                d.updates ++ progressOf d.view id (merge old) } := by
  unfold updateTool
  rw [EStateM.run_bind, run_view]
  dsimp only
  cases hTool : d.view.tool? id with
  | none => rfl
  | some old =>
      let recorded : Draft :=
        { d with view := d.view.withRecord id (merge old) }
      have hBlocks :
          recorded.view.block? id = d.view.block? id :=
        rfl
      change
        (updateBlock id (merge old) >>= fun _ =>
          report (.tool (merge old))).run recorded = _
      unfold View.withTool progressOf
      cases hBlock : d.view.block? id with
      | none =>
          rw [EStateM.run_bind,
            run_updateBlock_of_none _ (hBlocks.trans hBlock)]
          rfl
      | some b =>
          rw [EStateM.run_bind,
            run_updateBlock_of_some _ (hBlocks.trans hBlock)]
          simp [recorded, View.withRecord]

------------------------------------------------------------
-- Failures
------------------------------------------------------------

/-
  A step that fails has done nothing before: the view, the
  changes and the notes are as they were.
-/
def Atomic (x : Edit Unit) : Prop :=
  ∀ d cause left, x.run d = .error cause left → left = d

/- A step that never fails is one of them. -/
theorem atomic_of_ok
    (hOk : ∀ d, ∃ left, x.run d = .ok () left) :
    x.Atomic := by
  intro d cause left hError
  rcases hOk d with ⟨other, hRun⟩
  rw [hRun] at hError
  cases hError

/- A missing name fails before such a step begins. -/
theorem Atomic.behind_name
    (hAtomic : x.Atomic)
    (name : String)
    (cause : ProcessorError) :
    (require name cause >>= fun _ => x).Atomic := by
  intro d other left hError
  rw [run_require] at hError
  split at hError
  · cases hError
    rfl
  · exact hAtomic d other left hError

theorem atomic_streaming
    (key : String)
    (value : Value)
    (path : Option String) :
    (apply (.stateStreaming key value) path).Atomic := by
  refine Atomic.behind_name ?_ _ _
  refine atomic_of_ok fun d => ?_
  rw [EStateM.run_bind, run_view]
  dsimp only
  split <;> exact ⟨_, rfl⟩

theorem atomic_final
    (key : String)
    (value : Value)
    (path : Option String) :
    (apply (.stateFinal key value) path).Atomic :=
  Atomic.behind_name (atomic_of_ok fun _ => ⟨_, rfl⟩) _ _

/- A block without an index behind it fails before it is put. -/
theorem atomic_upsert
    (b : Block)
    (eventType : String) :
    (upsert b eventType).Atomic := by
  intro d cause left hError
  rw [run_upsert] at hError
  dsimp only at hError
  split at hError
  · cases hError
    rfl
  · cases hError

/- So does a tool call that starts, before its record is kept. -/
theorem atomic_startTool
    (id name : String)
    (input : Option Value) :
    (startTool id name input).Atomic := by
  intro d cause left hError
  rw [run_startTool] at hError
  dsimp only at hError
  split at hError
  · cases hError
    rfl
  · cases hError

/- A tool call that goes on does not fail. -/
theorem atomic_updateTool
    (id : String)
    (merge : ToolRecord → ToolRecord) :
    (updateTool id merge).Atomic := by
  refine atomic_of_ok fun d => ?_
  rw [run_updateTool]
  split <;> exact ⟨_, rfl⟩

/- An event that cannot be applied leaves the draft as it was. -/
theorem atomic_apply
    (content : Content)
    (path : Option String) :
    (apply content path).Atomic := by
  cases content with
  | stateStreaming key value => exact atomic_streaming key value path
  | stateFinal key value => exact atomic_final key value path
  | text id index body isFinal =>
      exact (atomic_upsert _ _).behind_name _ _
  | structured id index data source isFinal =>
      exact (atomic_upsert _ _).behind_name _ _
  | reasoning id index body isFinal =>
      exact (atomic_upsert _ _).behind_name _ _
  | toolStart id name input =>
      exact (atomic_startTool id name input).behind_name _ _
  | toolInput id input =>
      exact (atomic_updateTool id _).behind_name _ _
  | toolOutput id output =>
      exact (atomic_updateTool id _).behind_name _ _
  | toolError id error =>
      exact (atomic_updateTool id _).behind_name _ _

end Edit

------------------------------------------------------------
-- Events in Full
------------------------------------------------------------

namespace View

variable {c : Content} {b : Block} {id : String}

/-
  A value of a state key fails if the key has no name, and is
  passed over if the key has its final value.
-/
theorem edit_streaming
    (v : View)
    (key : String)
    (value : Value)
    (path : Option String) :
    v.edit (.stateStreaming key value) path =
      if key = "" then
        .error (.missingKey "state:streaming") (.start v)
      else if v.isFinalized key then
        .ok ()
          { Draft.start v with
            notes :=
              #[Note.debug "update for finalized key ignored"
                [("key", key)]] }
      else
        .ok ()
          { Draft.start v with
            view :=
              { v with state := Members.insert key value v.state }
            updates := [.state key value false path] } := by
  refine (Edit.run_require _ _ _ _).trans ?_
  refine if_congr Iff.rfl rfl ?_
  rw [EStateM.run_bind, Edit.run_view]
  by_cases hFinal : v.isFinalized key = true
  · simp [Draft.start, hFinal]
  · simp [Draft.start, hFinal, Edit.run_setState]

/- A final value of a state key fails if the key has no name. -/
theorem edit_final
    (v : View)
    (key : String)
    (value : Value)
    (path : Option String) :
    v.edit (.stateFinal key value) path =
      if key = "" then
        .error (.missingKey "state:final") (.start v)
      else
        .ok ()
          { Draft.start v with
            view :=
              { v.finalizeKey key with
                state :=
                  Members.insert key value
                    (v.finalizeKey key).state }
            updates := [.state key value true path] } :=
  Edit.run_require _ _ _ _

/-
  A content of a block fails if it names none or leaves no index
  behind it, and puts the block in its place otherwise.
-/
theorem edit_shown
    (v : View)
    (hShown : c.shown? = some b)
    (path : Option String) :
    v.edit c path =
      if b.id = "" then
        .error (.missingBlockId c.typeName) (.start v)
      else if (v.placed b).index = greatestIndex then
        .error (.indexOverflow c.typeName (v.placed b).index)
          (.start v)
      else
        .ok ()
          { Draft.start v with
            view := v.withBlock (v.placed b)
            updates := [.block (v.placed b)] } := by
  cases c with
  | text id index body isFinal =>
      cases hShown
      exact Edit.run_marked (.ofText id index body) isFinal _ _
  | structured id index data source isFinal =>
      cases hShown
      exact
        Edit.run_marked (.ofStructured id index data source)
          isFinal _ _
  | reasoning id index body isFinal =>
      cases hShown
      exact
        Edit.run_marked (.ofReasoning id index body) isFinal _ _
  | _ => cases hShown

/-
  The start of a tool call fails in the same way, and puts its
  block, behind all others if it is new, and its record.
-/
theorem edit_started
    {r : ToolRecord}
    (v : View)
    (hStarted : c.started? = some r)
    (path : Option String) :
    v.edit c path =
      if r.id = "" then
        .error (.missingToolId c.typeName) (.start v)
      else if (v.toolBlock r).index = greatestIndex then
        .error (.indexOverflow c.typeName (v.toolBlock r).index)
          (.start v)
      else
        .ok ()
          { view := (v.withBlock (v.toolBlock r)).withStarted r.id r
            updates := [.block (v.toolBlock r), .tool r]
            notes :=
              #[Note.debug "tool started"
                [("tool_id", r.id), ("name", r.name)]] } := by
  cases c with
  | toolStart id name input =>
      cases hStarted
      exact
        (Edit.run_require _ _ _ _).trans <|
          if_congr Iff.rfl rfl <|
            Edit.run_startTool id name input (.start v)
  | _ => cases hStarted

/-
  A tool call goes on with its block, unless it was never
  started. That fails only if it has no name.
-/
theorem edit_progress
    {merge : ToolRecord → ToolRecord}
    (v : View)
    (hProgress : c.progress? = some (id, merge))
    (path : Option String) :
    v.edit c path =
      if id = "" then
        .error (.missingToolId c.typeName) (.start v)
      else
        match v.tool? id with
        | none =>
            .ok ()
              { Draft.start v with
                notes :=
                  #[Note.debug "update for unknown tool ignored"
                    [("tool_id", id)]] }
        | some old =>
            .ok ()
              { Draft.start v with
                view := v.withTool id (merge old)
                updates := Edit.progressOf v id (merge old) } := by
  have hRun :
      (Edit.require id (.missingToolId c.typeName) >>= fun _ =>
        Edit.updateTool id merge).run (.start v) = _ :=
    (Edit.run_require _ _ _ _).trans <|
      if_congr Iff.rfl rfl <|
        Edit.run_updateTool id merge (.start v)
  cases c with
  | toolInput id input =>
      cases hProgress
      exact hRun
  | toolOutput id output =>
      cases hProgress
      exact hRun
  | toolError id error =>
      cases hProgress
      exact hRun
  | _ => cases hProgress

end View

end AnswerStream
