import AnswerStream.Proofs.Processor.Course
import AnswerStream.Proofs.Processor.Listing

/-
  This file proves that the changes which a processor reports
  are complete. A follower who takes in nothing but these, in
  order, knows the state values, the final keys, the blocks and
  the tool calls of the processor, whatever had to wait, was
  given up or could not be applied.

  Key definitions include:
    * `Processor.Beginning`
    * `Follower`
    * `View.followed`

  Main statements:
    * `View.takeAll_changesOf`
    * `View.takeAll_changes`
    * `changes_rebuild_view`
-/

namespace AnswerStream

open Json

------------------------------------------------------------
-- Beginnings of Streams
------------------------------------------------------------

namespace Processor

/-
  A processor before the first event of a stream: a new one, or
  one that was reset, by itself or for another stream.
-/
inductive Beginning : Processor → Prop where
| start
    (maxPending : Option Nat)
    (listening : Bool) :
    Beginning (start maxPending listening)
| reset (p : Processor) :
    Beginning p.reset
| switchStream
    (p : Processor)
    {id : String}
    (hOther : p.streamId ≠ some id) :
    Beginning (p.switchStream id).value

namespace Beginning

variable {p : Processor}

/- Nothing is seen or waits, and the first place is next. -/
theorem blank
    (hBeginning : p.Beginning) :
    p.view = .empty ∧ p.pending = [] ∧ p.expected = 1 ∧
      p.stopped = false := by
  cases hBeginning with
  | start maxPending listening => exact ⟨rfl, rfl, rfl, rfl⟩
  | reset p => exact ⟨rfl, rfl, rfl, rfl⟩
  | switchStream p hOther =>
      unfold Processor.switchStream
      rw [if_neg hOther]
      exact ⟨rfl, rfl, rfl, rfl⟩

/- A run leaves the view of the events of its journal. -/
theorem processAll_view
    (hBeginning : p.Beginning)
    (es : List Event) :
    (p.processAll es).1.view =
      View.empty.replay (Move.applied (p.journal es)) := by
  rw [Processor.processAll_view, hBeginning.blank.1]

/- A run makes the changes of the events of its journal. -/
theorem processAll_updates
    (hBeginning : p.Beginning)
    (es : List Event) :
    (p.processAll es).2.updates =
      View.empty.changes (Move.applied (p.journal es)) := by
  have hChanges :=
    congrArg Tally.changes (processAll_tally p es)
  simp only [tally, hBeginning.blank.1] at hChanges
  exact hChanges

end Beginning

end Processor

------------------------------------------------------------
-- Followers
------------------------------------------------------------

/-
  What a follower of a stream knows: the value of each state
  key, the keys that are final, the blocks and the tool calls
  by their identities, and the order in which tools started.
-/
structure Follower where
  state : Members
  finalized : List String
  blocks : Table String Block
  tools : Table String ToolRecord
  toolOrder : List String
deriving DecidableEq, Repr

namespace Follower

/- A follower who knows nothing yet. -/
def empty : Follower where
  state := []
  finalized := []
  blocks := []
  tools := []
  toolOrder := []

/- Names with one more at the end, unless it is there. -/
def addName
    (name : String)
    (names : List String) : List String :=
  if name ∈ names then names else names ++ [name]

/-
  A change is taken in. A value replaces that of its key, which
  may become final; a block and a tool call replace those with
  their identity.
-/
def take
    (f : Follower) : Update → Follower
  | .state key value isFinal _ =>
      { f with
        state := Members.insert key value f.state
        finalized :=
          if isFinal then addName key f.finalized
          else f.finalized }
  | .block b => { f with blocks := Table.put b.id b f.blocks }
  | .tool r =>
      { f with
        tools := Table.put r.id r f.tools
        toolOrder := addName r.id f.toolOrder }

/- Changes are taken in one after another. -/
def takeAll
    (f : Follower)
    (us : List Update) : Follower :=
  us.foldl take f

theorem takeAll_append
    (f : Follower)
    (us ws : List Update) :
    f.takeAll (us ++ ws) = (f.takeAll us).takeAll ws :=
  List.foldl_append

end Follower

namespace View

/- What a follower knows who has missed nothing of a view. -/
def followed (v : View) : Follower where
  state := v.state
  finalized := v.finalized
  blocks := v.blocks.map fun b => (b.id, b)
  tools := v.tools
  toolOrder := v.toolOrder

/- Such a follower finds each block. -/
theorem get?_followed_blocks
    (v : View)
    (id : String) :
    Table.get? id v.followed.blocks = v.block? id := by
  unfold followed block?
  dsimp only
  induction v.blocks with
  | nil => rfl
  | cons b rest ih =>
      by_cases hId : b.id = id <;> simp [Table.get?, hId, ih]

/- Such a follower finds each tool call. -/
theorem get?_followed_tools
    (v : View)
    (id : String) :
    Table.get? id v.followed.tools = v.tool? id :=
  rfl

------------------------------------------------------------
-- Parts of a View
------------------------------------------------------------

theorem put_block
    (b : Block)
    (bs : List Block) :
    Table.put b.id b (bs.map fun c => (c.id, c)) =
      (putBlock b bs).map fun c => (c.id, c) := by
  induction bs with
  | nil => rfl
  | cons c rest ih =>
      rw [List.map_cons, Table.put, putBlock, ih]
      by_cases hId : c.id = b.id <;> simp [hId]

/- A block that is put is what a follower must be told. -/
theorem followed_putBlock
    (v : View)
    (b : Block)
    (index : UInt32) :
    ({ v with
        blocks := putBlock b v.blocks
        nextIndex := index } : View).followed =
      v.followed.take (.block b) := by
  simp [followed, Follower.take, put_block]

/- So is a final value. -/
theorem followed_finalize
    (v : View)
    (key : String)
    (value : Value)
    (path : Option String) :
    ({ v.finalizeKey key with
        state := Members.insert key value v.state } :
        View).followed =
      v.followed.take (.state key value true path) := by
  unfold finalizeKey isFinalized
  by_cases hFinal : key ∈ v.finalized <;>
    simp [followed, Follower.take, Follower.addName, hFinal]

/-
  A tool call that starts is what a follower must be told, who
  looks for it in the order of those that were started.
-/
theorem Listed.followed_withStarted
    {v : View}
    (hListed : v.Listed)
    (r : ToolRecord) :
    (v.withStarted r.id r).followed =
      v.followed.take (.tool r) := by
  have hFound : r.id ∈ v.toolOrder ↔ Table.has r.id v.tools = true :=
    hListed.found r.id
  unfold View.withStarted
  by_cases hThere : r.id ∈ v.toolOrder
  · simp [followed, withRecord, Follower.take, Follower.addName,
      hThere, hFound.mp hThere]
  · simp [followed, withRecord, Follower.take, Follower.addName,
      hThere, mt hFound.mpr hThere]

/- So is one that goes on, with its block if it has one. -/
theorem Listed.followed_withTool
    {v : View}
    {r old : ToolRecord}
    (hListed : v.Listed)
    (hTool : v.tool? r.id = some old) :
    (v.withTool r.id r).followed =
      v.followed.takeAll (Edit.progressOf v r.id r) := by
  have hThere : r.id ∈ v.toolOrder :=
    (hListed.found r.id).mpr (by simp [hTool])
  unfold View.withTool Edit.progressOf
  cases hBlock : v.block? r.id with
  | none =>
      simp [followed, withRecord, Follower.takeAll, Follower.take,
        Follower.addName, hThere]
  | some b =>
      simp [followed, withRecord, Follower.takeAll, Follower.take,
        Follower.addName, hThere, put_block]

------------------------------------------------------------
-- Events
------------------------------------------------------------

/- The change of an event about a key leads a follower to the view. -/
theorem takeAll_of_key
    {key : String}
    {e : Event}
    (v : View)
    (hKey : e.content.stateKey? = some key) :
    v.followed.takeAll (v.changesOf e) =
      (v.after e).followed := by
  by_cases hUnnamed : key = ""
  · subst hUnnamed
    rcases refused_of_unnamed v hKey with ⟨hSame, hNone, _⟩
    rw [hSame, hNone]
    rfl
  · cases hContent : e.content with
    | stateStreaming k value =>
        rw [hContent] at hKey
        cases hKey
        rcases taken_streaming v hUnnamed hContent with
          ⟨hAfter, hChanges, _⟩
        rw [hAfter, hChanges]
        split <;> rfl
    | stateFinal k value =>
        rw [hContent] at hKey
        cases hKey
        rcases taken_final v hUnnamed hContent with
          ⟨hAfter, hChanges, _⟩
        rw [hAfter, hChanges]
        exact (followed_finalize v key value e.path).symm
    | _ =>
        rw [hContent] at hKey
        cases hKey

/- The changes of an event lead a follower to the view behind it. -/
theorem takeAll_changesOf
    {v : View}
    (hListed : v.Listed)
    (e : Event) :
    v.followed.takeAll (v.changesOf e) =
      (v.after e).followed := by
  rcases e.content.about with
    ⟨key, hKey⟩ | ⟨b, hShown⟩ | ⟨r, hStarted⟩ |
      ⟨id, merge, hProgress⟩
  · exact takeAll_of_key v hKey
  · rcases taken_of_guarded (edit_shown v hShown e.path) with
      ⟨hSame, hNone, _⟩ | ⟨_, _, hAfter, hChanges, _⟩
    · rw [hSame, hNone]
      rfl
    · rw [hAfter, hChanges]
      exact (followed_putBlock v (v.placed b) _).symm
  · rcases taken_of_guarded
        (edit_started v hStarted e.path) with
      ⟨hSame, hNone, _⟩ | ⟨_, _, hAfter, hChanges, _⟩
    · rw [hSame, hNone]
      rfl
    · have hPut : (v.withBlock (v.toolBlock r)).Listed :=
        hListed.of_same_tools rfl rfl
      rw [hAfter, hChanges, hPut.followed_withStarted]
      exact
        congrArg (fun f => Follower.take f (.tool r))
          (followed_putBlock v (v.toolBlock r) _).symm
  · rcases taken_progress v hProgress with
      ⟨hSame, hNone⟩ | ⟨old, hTool, hAfter, hChanges⟩
    · rw [hSame, hNone]
      rfl
    · have hId := hListed.id_of_goesOn hProgress hTool
      have hOld : v.tool? (merge old).id = some old :=
        hId.symm ▸ hTool
      have hFollowed := hListed.followed_withTool hOld
      rw [hId] at hFollowed
      rw [hAfter, hChanges, hFollowed]

/- So do the changes of events in a row. -/
theorem takeAll_changes
    {v : View}
    (hListed : v.Listed)
    (es : List Event) :
    v.followed.takeAll (v.changes es) =
      (v.replay es).followed := by
  induction es generalizing v with
  | nil => rfl
  | cons e es ih =>
      rw [changes, Follower.takeAll_append,
        takeAll_changesOf hListed,
        ih (hListed.turn (v.turn_after e)), replay_cons]

end View

------------------------------------------------------------
-- Runs
------------------------------------------------------------

/-
  The changes reported since the beginning of a stream are all
  there is to know of what a processor shows: a follower who
  takes them in knows the state, the final keys, the blocks and
  the tool calls with their order, and finds each block and
  each tool call as the processor does.
-/
theorem changes_rebuild_view
    (p : Processor)
    (es : List Event)
    (hBeginning : p.Beginning) :
    let done := p.processAll es
    let f := Follower.empty.takeAll done.2.updates
    f = done.1.view.followed ∧
      (∀ id, Table.get? id f.blocks = done.1.view.block? id) ∧
      ∀ id, Table.get? id f.tools = done.1.view.tool? id := by
  intro done f
  have hFollowed : f = done.1.view.followed := by
    have hChanges :=
      View.takeAll_changes View.listed_empty
        (Move.applied (p.journal es))
    rw [← hBeginning.processAll_updates,
      ← hBeginning.processAll_view] at hChanges
    exact hChanges
  rw [hFollowed]
  exact
    ⟨rfl, View.get?_followed_blocks _,
      View.get?_followed_tools _⟩

/- A tool call, a final key and prose, and what goes wrong. -/
def mixedEvents : List Event :=
  [ (2, .toolStart "t" "search" none),
    (4, .stateFinal "k" (.string "last")),
    (3, .stateStreaming "" .null),
    (6, .toolOutput "t" (.bool true)),
    (5, .toolInput "unknown" .null),
    (1, .text "m:text:0" 0 "late" false),
    (7, .text "m:text:0" 4 "prose" true) ].map
    fun (seq, content) =>
      { id := "", seq := seq, timestamp := "", path := none
        content := content }

/-
  Behind a buffer for one event the first place is given up,
  the third cannot be applied, and one tool is unknown.
-/
theorem mixedEvents_rebuild_view :
    (Processor.start (some 1) true).Beginning ∧
      (let done :=
        (Processor.start (some 1) true).processAll mixedEvents
      let f := Follower.empty.takeAll done.2.updates
      f.finalized = ["k"] ∧ f.toolOrder = ["t"] ∧
        f = done.1.view.followed) :=
  ⟨.start (some 1) true, by decide, by decide,
    (changes_rebuild_view (Processor.start (some 1) true)
      mixedEvents (.start (some 1) true)).1⟩

end AnswerStream
