import AnswerStream.Proofs.Processor.Replay
import AnswerStream.Proofs.State.Members

/-
  This file proves what events make of the state keys of a view.
  Each event is about one key or about none, and leaves all else
  of them alone. A key is final once it had a final value, and
  then the last of these is its value.

  Key definitions include:
    * `finalMembers`
    * `Entry`

  Main statements:
    * `View.after_of_other`
    * `View.entry_replay`
    * `Entry.isFinal_foldl`
    * `Entry.value_foldl`
-/

namespace AnswerStream

open Json

------------------------------------------------------------
-- Contents of State Keys
------------------------------------------------------------

/- The final values among contents, in order. -/
def finalMembers (cs : List Content) : Members :=
  cs.filterMap fun
    | .stateFinal key value => some (key, value)
    | _ => none

theorem finalMembers_append (cs ds : List Content) :
    finalMembers (cs ++ ds) =
      finalMembers cs ++ finalMembers ds :=
  List.filterMap_append

/- Contents that are not final have no final values. -/
theorem finalMembers_of_early
    {cs : List Content}
    (hEarly : ∀ c ∈ cs, c.isFinal = false) :
    finalMembers cs = [] := by
  refine List.filterMap_eq_nil_iff.mpr fun c hMember => ?_
  have hOpen := hEarly c hMember
  cases c with
  | stateFinal key value => cases hOpen
  | _ => rfl

namespace View

variable {v : View} {e : Event} {key : String}

------------------------------------------------------------
-- Events About No Key
------------------------------------------------------------

/- A view has the state keys of another one, as they are there. -/
def SameKeys (v w : View) : Prop :=
  w.state = v.state ∧ w.finalized = v.finalized

/- An event about no key leaves the state keys alone. -/
theorem after_of_other
    (v : View)
    (hOther : e.content.stateKey? = none) :
    SameKeys v (v.after e) := by
  unfold after
  rcases e.content.about with
    ⟨key, hKey⟩ | ⟨b, hShown⟩ | ⟨r, hStarted⟩ |
      ⟨id, merge, hProgress⟩
  · rw [hOther] at hKey
    cases hKey
  · rw [edit_shown v hShown]
    split
    · exact ⟨rfl, rfl⟩
    · split <;> exact ⟨rfl, rfl⟩
  · rw [edit_started v hStarted]
    split
    · exact ⟨rfl, rfl⟩
    · split <;> exact ⟨rfl, rfl⟩
  · rw [edit_progress v hProgress]
    split
    · exact ⟨rfl, rfl⟩
    · split <;> exact ⟨rfl, rfl⟩

------------------------------------------------------------
-- Events About a Key
------------------------------------------------------------

/-
  A value of a key that is not final yet becomes its value, and
  is reported.
-/
theorem taken_streaming
    (v : View)
    {value : Value}
    (hNamed : key ≠ "")
    (hContent : e.content = .stateStreaming key value) :
    (v.after e =
        if v.isFinalized key then v
        else
          { v with
            state := Members.insert key value v.state }) ∧
      (v.changesOf e =
        if v.isFinalized key then []
        else [.state key value false e.path]) ∧
      v.failureOf e = [] := by
  unfold after changesOf failureOf
  rw [hContent, edit_streaming, if_neg hNamed]
  split <;> exact ⟨rfl, rfl, rfl⟩

/- A final value of a key becomes its value, and is reported. -/
theorem taken_final
    (v : View)
    {value : Value}
    (hNamed : key ≠ "")
    (hContent : e.content = .stateFinal key value) :
    v.after e =
        { v.finalizeKey key with
          state := Members.insert key value v.state } ∧
      v.changesOf e = [.state key value true e.path] ∧
      v.failureOf e = [] := by
  have hState : (v.finalizeKey key).state = v.state := by
    unfold finalizeKey
    split <;> rfl
  unfold after changesOf failureOf
  rw [hContent, edit_final, if_neg hNamed, hState]
  exact ⟨rfl, rfl, rfl⟩

/- A value of a state key without a name is refused. -/
theorem refused_of_unnamed
    (v : View)
    (hUnnamed : e.content.stateKey? = some "") :
    v.after e = v ∧ v.changesOf e = [] ∧
      v.failureOf e =
        [(e, .missingKey e.content.typeName)] := by
  have hEdit :
      v.edit e.content e.path =
        .error (.missingKey e.content.typeName) (.start v) := by
    generalize e.content = content at hUnnamed
    cases content with
    | stateStreaming key value =>
        cases hUnnamed
        exact (edit_streaming v "" value e.path).trans (if_pos rfl)
    | stateFinal key value =>
        cases hUnnamed
        exact (edit_final v "" value e.path).trans (if_pos rfl)
    | _ => cases hUnnamed
  exact after_of_error hEdit

/- A view has the blocks and the tool calls of another one. -/
structure SameShown (v w : View) : Prop where
  blocks : w.blocks = v.blocks
  tools : w.tools = v.tools
  toolOrder : w.toolOrder = v.toolOrder
  nextIndex : w.nextIndex = v.nextIndex

theorem SameShown.refl (v : View) :
    SameShown v v :=
  ⟨rfl, rfl, rfl, rfl⟩

/- The same blocks and tool calls are found in both. -/
theorem SameShown.block?_eq
    {w : View}
    (hSame : SameShown v w)
    (id : String) :
    w.block? id = v.block? id := by
  rw [block?, hSame.blocks, block?]

theorem SameShown.tool?_eq
    {w : View}
    (hSame : SameShown v w)
    (id : String) :
    w.tool? id = v.tool? id := by
  rw [tool?, hSame.tools, tool?]

/- An event about a key leaves the blocks and the tools alone. -/
theorem sameShown_after_of_key
    (v : View)
    (hKey : e.content.stateKey? = some key) :
    SameShown v (v.after e) := by
  by_cases hUnnamed : key = ""
  · subst hUnnamed
    rw [(refused_of_unnamed v hKey).1]
    exact .refl v
  · cases hContent : e.content with
    | stateStreaming k value =>
        rw [hContent] at hKey
        cases hKey
        rw [(taken_streaming v hUnnamed hContent).1]
        split <;> exact ⟨rfl, rfl, rfl, rfl⟩
    | stateFinal k value =>
        rw [hContent] at hKey
        cases hKey
        rw [(taken_final v hUnnamed hContent).1]
        unfold finalizeKey
        split <;> exact ⟨rfl, rfl, rfl, rfl⟩
    | _ =>
        rw [hContent] at hKey
        cases hKey

------------------------------------------------------------
-- One Key
------------------------------------------------------------

end View

/- What there is to know of a key: if it is final, and its value. -/
structure Entry where
  isFinal : Bool
  value : Option Value
deriving DecidableEq, Repr

/- What a content makes of a key. -/
def Entry.after
    (key : String)
    (x : Entry) : Content → Entry
  | .stateStreaming k v =>
      if k = key ∧ x.isFinal = false then
        { x with value := some v }
      else x
  | .stateFinal k v => if k = key then ⟨true, some v⟩ else x
  | _ => x

/- A content about another key leaves a key alone. -/
theorem Entry.after_of_other
    {key : String}
    {content : Content}
    (hOther : content.stateKey? ≠ some key)
    (x : Entry) :
    x.after key content = x := by
  cases content with
  | stateStreaming k v =>
      have hKey : k ≠ key := fun hSame => hOther (hSame ▸ rfl)
      simp [after, hKey]
  | stateFinal k v =>
      have hKey : k ≠ key := fun hSame => hOther (hSame ▸ rfl)
      simp [after, hKey]
  | _ => rfl

namespace View

/- What a view knows of a key. -/
def entry
    (v : View)
    (key : String) : Entry :=
  ⟨v.isFinalized key, Table.get? key v.state⟩

theorem entry_of_sameKeys
    {w : View}
    (hKeys : SameKeys v w)
    (key : String) :
    w.entry key = v.entry key := by
  simp [entry, isFinalized, hKeys.1, hKeys.2]

/- A key that gets its final value is final, as others were. -/
theorem mem_finalizeKey
    (v : View)
    (key other : String) :
    other ∈ (v.finalizeKey key).finalized ↔
      key = other ∨ other ∈ v.finalized := by
  unfold finalizeKey
  by_cases hFinal : v.isFinalized key = true
  · have hMember : key ∈ v.finalized := by
      simpa [isFinalized] using hFinal
    rw [if_pos hFinal]
    constructor
    · exact .inr
    · rintro (rfl | hOld)
      · exact hMember
      · exact hOld
  · rw [if_neg hFinal]
    simp [or_comm, eq_comm]

theorem entry_streaming
    (v : View)
    {k : String}
    {value : Value}
    (hNamed : k ≠ "")
    (hContent : e.content = .stateStreaming k value) :
    (v.after e).entry key =
      (v.entry key).after key e.content := by
  rw [(taken_streaming v hNamed hContent).1, hContent]
  simp only [Entry.after]
  by_cases hFinal : v.isFinalized k = true
  · rw [if_pos hFinal, if_neg]
    rintro ⟨rfl, hOpen⟩
    simp [entry, hFinal] at hOpen
  · rw [if_neg hFinal]
    have hOpen : v.isFinalized k = false :=
      Bool.eq_false_iff.mpr hFinal
    have hValue :=
      Members.get?_insert k key value v.state
    by_cases hSame : k = key
    · subst hSame
      rw [if_pos ⟨rfl, hOpen⟩]
      simpa [entry, isFinalized] using hValue
    · rw [if_neg fun hBoth => hSame hBoth.1]
      simpa [entry, isFinalized, hSame] using hValue

theorem entry_final
    (v : View)
    {k : String}
    {value : Value}
    (hNamed : k ≠ "")
    (hContent : e.content = .stateFinal k value) :
    (v.after e).entry key =
      (v.entry key).after key e.content := by
  rw [(taken_final v hNamed hContent).1, hContent]
  by_cases hSame : k = key <;>
    simp [entry, isFinalized, mem_finalizeKey, hSame,
      Entry.after, Members.get?_insert]

/- An event makes of each key what its content makes of it. -/
theorem entry_after
    (v : View)
    (e : Event)
    (hNamed : key ≠ "") :
    (v.after e).entry key =
      (v.entry key).after key e.content := by
  cases hKey : e.content.stateKey? with
  | none =>
      rw [entry_of_sameKeys (after_of_other v hKey),
        Entry.after_of_other (by simp [hKey])]
  | some k =>
      by_cases hUnnamed : k = ""
      · subst hUnnamed
        rw [(refused_of_unnamed v hKey).1, Entry.after_of_other]
        simp [hKey, Ne.symm hNamed]
      · cases hContent : e.content with
        | stateStreaming l value =>
            rw [hContent] at hKey
            cases hKey
            rw [entry_streaming v hUnnamed hContent, hContent]
        | stateFinal l value =>
            rw [hContent] at hKey
            cases hKey
            rw [entry_final v hUnnamed hContent, hContent]
        | _ =>
            rw [hContent] at hKey
            cases hKey

/- Events make of each key what their contents make of it. -/
theorem entry_replay
    (v : View)
    (es : List Event)
    (hNamed : key ≠ "") :
    (v.replay es).entry key =
      (es.map Event.content).foldl (Entry.after key)
        (v.entry key) := by
  induction es generalizing v with
  | nil => rfl
  | cons e es ih =>
      simp only [replay_cons, List.map_cons, List.foldl_cons, ih,
        entry_after v e hNamed]

end View

------------------------------------------------------------
-- The Last Final Value
------------------------------------------------------------

namespace Entry

variable {key : String}

/- A key that is final takes no value that is not. -/
theorem after_streaming_of_final
    {x : Entry}
    (hFinal : x.isFinal = true)
    (k : String)
    (v : Value) :
    x.after key (.stateStreaming k v) = x := by
  simp [after, hFinal]

theorem isFinal_after_streaming
    (x : Entry)
    (k : String)
    (v : Value) :
    (x.after key (.stateStreaming k v)).isFinal = x.isFinal := by
  simp only [after]
  split <;> rfl

/- A key is final if it was, or if there is a final value of it. -/
theorem isFinal_foldl
    (x : Entry)
    (cs : List Content) :
    (cs.foldl (Entry.after key) x).isFinal =
      (x.isFinal ||
        (Members.last? key (finalMembers cs)).isSome) := by
  induction cs generalizing x with
  | nil => simp [finalMembers, Members.last?]
  | cons c cs ih =>
      rw [List.foldl_cons, ih]
      cases c with
      | stateStreaming k v =>
          simp [finalMembers, isFinal_after_streaming]
      | stateFinal k v =>
          by_cases hKey : k = key <;>
            simp [finalMembers, Entry.after, Members.last?, hKey]
      | _ => rfl

/- A key that is final has the last of its final values. -/
theorem value_foldl
    (x : Entry)
    (cs : List Content)
    (hFinal : (cs.foldl (Entry.after key) x).isFinal = true) :
    (cs.foldl (Entry.after key) x).value =
      (Members.last? key (finalMembers cs)).or x.value := by
  induction cs generalizing x with
  | nil => simp [finalMembers, Members.last?]
  | cons c cs ih =>
      rw [List.foldl_cons] at hFinal ⊢
      rw [ih _ hFinal]
      rw [isFinal_foldl] at hFinal
      cases c with
      | stateStreaming k v =>
          rw [isFinal_after_streaming] at hFinal
          change (Members.last? key (finalMembers cs)).or _ =
            (Members.last? key (finalMembers cs)).or _
          cases hLast : Members.last? key (finalMembers cs) with
          | some u => rfl
          | none =>
              have hBefore : x.isFinal = true := by
                simpa [hLast] using hFinal
              rw [after_streaming_of_final hBefore]
      | stateFinal k v =>
          by_cases hKey : k = key <;>
            simp [finalMembers, Entry.after, Members.last?, hKey]
      | _ => rfl

end Entry

end AnswerStream
