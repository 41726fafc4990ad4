import AnswerStream.Proofs.Json.Tracking

/-
  This file proves that the open containers of a text can be
  closed. A value is read inside of containers as it is read
  alone. Behind it the brackets that are due complete the text,
  and the completed text has a value if the parts that were
  read have one. They do if the text goes on to one that has a
  value.

  Key definitions include:
    * `Json.Reader.under`
    * `Json.Written.Readable`
    * `Json.Reader.Readable`
    * `Json.Reader.Closes`

  Main statements:
    * `Json.Reader.run?_under`
    * `Json.Reader.Moves.readable_before`
    * `Json.Reader.closes_deliver`
    * `Json.Reader.closes_of_hasValue`
-/

namespace AnswerStream

namespace Json

namespace Reader

------------------------------------------------------------
-- Containers Around a Value
------------------------------------------------------------

/-
  A reader with further containers around it. A tree that is
  complete goes to the innermost of them.
-/
def under
    (base : List Frame)
    (r : Reader) : Reader :=
  match r.mode, r.stack with
  | .done tree, [] => deliver base tree
  | mode, stack => ⟨mode, stack ++ base⟩

theorem under_deliver
    (base stack : List Frame)
    (t : Written) :
    (deliver stack t).under base = deliver (stack ++ base) t := by
  cases stack with
  | nil => rfl
  | cons frame rest => cases frame <;> rfl

theorem isQuiet_under
    {mode : Mode}
    (hQuiet : mode.isQuiet = true)
    (base stack : List Frame) :
    ((Reader.mk mode stack).under base).mode.isQuiet = true := by
  unfold under
  split
  · exact isQuiet_deliver _ _
  · next hMode => exact hQuiet

theorem First.under
    {c : Char}
    {mode : Mode}
    (hFirst : First c mode)
    (base stack : List Frame) :
    (Reader.mk mode stack).under base = ⟨mode, stack ++ base⟩ := by
  cases hFirst <;> rfl

/- The containers around do not matter to a move. -/
theorem Moves.under
    {r next : Reader}
    {c : Char}
    (hMove : Moves r c next)
    (base : List Frame) :
    Moves (r.under base) c (next.under base) := by
  induction hMove with
  | space hSpace hQuiet =>
      exact .space hSpace (isQuiet_under hQuiet base _)
  | value hFirst =>
      rw [hFirst.under]
      exact .value hFirst
  | item hFirst =>
      rw [hFirst.under]
      exact .item hFirst
  | noItem => rw [under_deliver]; exact .noItem
  | noMember => rw [under_deliver]; exact .noMember
  | firstKey => exact .firstKey
  | nextKey => exact .nextKey
  | key hStep => exact .key hStep
  | endKey hStep => exact .endKey hStep
  | colon => exact .colon
  | string hStep => exact .string hStep
  | endString hStep => rw [under_deliver]; exact .endString hStep
  | number hStep => exact .number hStep
  | endNumber hComplete hStep _ ih =>
      rw [under_deliver] at ih
      exact .endNumber hComplete hStep ih
  | word => exact .word
  | endWord => rw [under_deliver]; exact .endWord
  | nextItem => exact .nextItem
  | endArray => rw [under_deliver]; exact .endArray
  | nextMember => exact .nextMember
  | endObject => rw [under_deliver]; exact .endObject

/- Nor do they matter to a text. -/
theorem run?_under
    {r last : Reader}
    {cs : List Char}
    (hRun : r.run? cs = some last)
    (base : List Frame) :
    (r.under base).run? cs = some (last.under base) := by
  induction cs generalizing r with
  | nil =>
      cases hRun
      rfl
  | cons c cs ih =>
      rcases run?_cons_eq_some_iff.mp hRun with ⟨next, hMove, hRest⟩
      exact
        run?_cons_eq_some_iff.mpr ⟨_, hMove.under base, ih hRest⟩

/- A value is read in its place as it is read alone. -/
theorem exists_run?_of_next
    {q last : Reader}
    {cs : List Char}
    {t : Written}
    (hNext : q.mode = .value ∨ q.mode = .firstItem)
    (hRun : start.run? cs = some last)
    (hFinish : last.finish? = some t)
    (hVisible : ∀ c ∈ cs.head?, Text.isBlank c = false) :
    ∃ r, q.run? cs = some r ∧ r.mode.hasValue = true := by
  cases cs with
  | nil =>
      cases hRun
      cases hFinish
  | cons c cs =>
      rcases run?_cons_eq_some_iff.mp hRun with ⟨next, hMove, hRest⟩
      have hFirst : ∃ mode, First c mode ∧ next = ⟨mode, []⟩ := by
        cases hMove with
        | space hSpace _ =>
            have hNoSpace := isSpace_of_visible (hVisible c rfl)
            rw [hNoSpace] at hSpace
            cases hSpace
        | value hFirst => exact ⟨_, hFirst, rfl⟩
      rcases hFirst with ⟨mode, hFirst, rfl⟩
      have hBase :
          ∃ base, Moves q c ((Reader.mk mode []).under base) := by
        rcases q with ⟨place, stack⟩
        rcases hNext with rfl | rfl
        · refine ⟨stack, ?_⟩
          rw [hFirst.under]
          exact .value hFirst
        · refine ⟨.array [] :: stack, ?_⟩
          rw [hFirst.under]
          exact .item hFirst
      rcases hBase with ⟨base, hPlace⟩
      refine
        ⟨last.under base,
          run?_cons_eq_some_iff.mpr
            ⟨_, hPlace, run?_under hRest base⟩, ?_⟩
      rcases eq_of_finish? hFinish with
        rfl | ⟨phase, numeral, hComplete, rfl, -⟩
      · exact hasValue_deliver base t
      · exact hComplete

end Reader

------------------------------------------------------------
-- Trees with a Value
------------------------------------------------------------

namespace Written

/- The tree has a value that nests no deeper than the depth. -/
def Readable
    (depth : Nat)
    (t : Written) : Prop :=
  (t.value? depth).isSome = true

variable {depth : Nat}

theorem readable_null : Readable depth .null := by
  cases depth <;> rfl

theorem readable_string (s : String) :
    Readable depth (.string (some s)) := by
  cases depth <;> rfl

/- Trees have values together if each of them has one. -/
theorem isSome_items?
    (depth : Nat)
    (items : List Written) :
    (items? depth items).isSome = true ↔
      ∀ t ∈ items, Readable depth t := by
  induction items with
  | nil => simp [items?]
  | cons t rest ih =>
      rw [List.forall_mem_cons, ← ih, items?, Readable]
      cases value? depth t <;> simp

/- So do members, if they have keys. -/
theorem isSome_members?
    (depth : Nat)
    (members : List (Option String × Written)) :
    (members? depth members).isSome = true ↔
      ∀ m ∈ members, m.1.isSome = true ∧ Readable depth m.2 := by
  induction members with
  | nil => simp [members?]
  | cons m rest ih =>
      rcases m with ⟨key, t⟩
      rw [List.forall_mem_cons, ← ih, Readable]
      cases key <;> cases hTree : value? depth t <;>
        simp [members?, hTree]

theorem readable_array_iff
    {items : List Written} :
    Readable depth (.array items) ↔
      ∃ inner, depth = inner + 1 ∧
        ∀ t ∈ items, Readable inner t := by
  unfold Readable
  cases depth with
  | zero => simp [value?]
  | succ inner =>
      simp only [value?, Option.isSome_map, isSome_items?]
      simp [Readable]

theorem readable_object_iff
    {members : List (Option String × Written)} :
    Readable depth (.object members) ↔
      ∃ inner, depth = inner + 1 ∧
        ∀ m ∈ members, m.1.isSome = true ∧ Readable inner m.2 := by
  unfold Readable
  cases depth with
  | zero => simp [value?]
  | succ inner =>
      simp only [value?, Option.isSome_map, isSome_members?]
      simp [Readable]

/- The order of the parts does not matter for that. -/
theorem readable_array_reverse
    {items : List Written} :
    Readable depth (.array items.reverse) ↔
      Readable depth (.array items) := by
  simp only [readable_array_iff, List.mem_reverse]

theorem readable_object_reverse
    {members : List (Option String × Written)} :
    Readable depth (.object members.reverse) ↔
      Readable depth (.object members) := by
  simp only [readable_object_iff, List.mem_reverse]

end Written

------------------------------------------------------------
-- Readers whose Parts Have Values
------------------------------------------------------------

open Written (Readable depthLimit)

/-
  The parts of a container that waits for a value have values
  of the given depth.
-/
def Frame.Readable (depth : Nat) : Frame → Prop
| .array items => ∀ t ∈ items, Written.Readable depth t
| .object members key =>
    (∀ m ∈ members, m.1.isSome = true ∧ Written.Readable depth m.2) ∧
      key.isSome = true

/-
  The same for the containers around a value of the given
  depth, where the outermost value has the greatest one.
-/
def StackReadable : Nat → List Frame → Prop
| depth, [] => depth = depthLimit
| depth, frame :: rest =>
    frame.Readable depth ∧ StackReadable (depth + 1) rest

/- Each container takes one from the depth. -/
theorem StackReadable.depth_add_length
    {depth : Nat}
    {stack : List Frame}
    (hStack : StackReadable depth stack) :
    depth + stack.length = depthLimit := by
  induction stack generalizing depth with
  | nil => exact hStack
  | cons frame rest ih =>
      rw [← ih hStack.2, List.length_cons]
      omega

/-
  The parts that were read where a value of the given depth is
  due or being read have values.
-/
def Mode.Readable (depth : Nat) : Mode → Prop
| .value | .string _ | .number _ _ | .word _ _ => True
| .firstItem => Written.Readable depth (.array [])
| .firstKey => Written.Readable depth (.object [])
| .nextKey members | .key members _ | .afterMember members =>
    Written.Readable depth (.object members)
| .colon members label =>
    Written.Readable depth (.object members) ∧ label.isSome = true
| .afterItem items => Written.Readable depth (.array items)
| .done tree => depth = depthLimit ∧ Written.Readable depth tree

namespace Reader

/- All that was read completely has a value. -/
def Readable (r : Reader) : Prop :=
  ∃ depth, r.mode.Readable depth ∧ StackReadable depth r.stack

theorem readable_deliver_iff
    {stack : List Frame}
    {t : Written} :
    (deliver stack t).Readable ↔
      ∃ depth,
        Written.Readable depth t ∧ StackReadable depth stack := by
  cases stack with
  | nil =>
      constructor
      · rintro ⟨depth, ⟨-, hTree⟩, hStack⟩
        exact ⟨depth, hTree, hStack⟩
      · rintro ⟨depth, hTree, hStack⟩
        exact ⟨depth, ⟨hStack, hTree⟩, hStack⟩
  | cons frame rest =>
      cases frame with
      | array items =>
          constructor
          · rintro ⟨depth, hMode, hRest⟩
            rcases Written.readable_array_iff.mp hMode with
              ⟨inner, rfl, hItems⟩
            rcases List.forall_mem_cons.mp hItems with ⟨hTree, hOld⟩
            exact ⟨inner, hTree, hOld, hRest⟩
          · rintro ⟨depth, hTree, hOld, hRest⟩
            refine ⟨depth + 1, ?_, hRest⟩
            exact
              Written.readable_array_iff.mpr
                ⟨depth, rfl, List.forall_mem_cons.mpr ⟨hTree, hOld⟩⟩
      | object members key =>
          constructor
          · rintro ⟨depth, hMode, hRest⟩
            rcases Written.readable_object_iff.mp hMode with
              ⟨inner, rfl, hMembers⟩
            rcases List.forall_mem_cons.mp hMembers with
              ⟨⟨hKey, hTree⟩, hOld⟩
            exact ⟨inner, hTree, ⟨hOld, hKey⟩, hRest⟩
          · rintro ⟨depth, hTree, ⟨hOld, hKey⟩, hRest⟩
            refine ⟨depth + 1, ?_, hRest⟩
            exact
              Written.readable_object_iff.mpr
                ⟨depth, rfl,
                  List.forall_mem_cons.mpr ⟨⟨hKey, hTree⟩, hOld⟩⟩

/-
  What was read before a character is a part of what was read
  behind it.
-/
theorem Moves.readable_before
    {r next : Reader}
    {c : Char}
    (hMove : Moves r c next)
    (hReadable : next.Readable) :
    r.Readable := by
  induction hMove with
  | space _ _ => exact hReadable
  | value _ =>
      rcases hReadable with ⟨depth, -, hStack⟩
      exact ⟨depth, trivial, hStack⟩
  | item _ =>
      rcases hReadable with ⟨depth, -, hItems, hStack⟩
      exact
        ⟨depth + 1,
          Written.readable_array_iff.mpr ⟨depth, rfl, hItems⟩, hStack⟩
  | noItem => exact readable_deliver_iff.mp hReadable
  | noMember => exact readable_deliver_iff.mp hReadable
  | firstKey => exact hReadable
  | nextKey => exact hReadable
  | key _ => exact hReadable
  | endKey _ =>
      rcases hReadable with ⟨depth, ⟨hMembers, -⟩, hStack⟩
      exact ⟨depth, hMembers, hStack⟩
  | colon =>
      rcases hReadable with ⟨depth, -, ⟨hMembers, hKey⟩, hStack⟩
      exact
        ⟨depth + 1,
          ⟨Written.readable_object_iff.mpr ⟨depth, rfl, hMembers⟩,
            hKey⟩,
          hStack⟩
  | string _ => exact hReadable
  | endString _ =>
      rcases readable_deliver_iff.mp hReadable with ⟨depth, -, hStack⟩
      exact ⟨depth, trivial, hStack⟩
  | number _ => exact hReadable
  | endNumber _ _ _ ih =>
      rcases readable_deliver_iff.mp (ih hReadable) with
        ⟨depth, -, hStack⟩
      exact ⟨depth, trivial, hStack⟩
  | word => exact hReadable
  | endWord =>
      rcases readable_deliver_iff.mp hReadable with ⟨depth, -, hStack⟩
      exact ⟨depth, trivial, hStack⟩
  | nextItem =>
      rcases hReadable with ⟨depth, -, hItems, hStack⟩
      exact
        ⟨depth + 1,
          Written.readable_array_iff.mpr ⟨depth, rfl, hItems⟩, hStack⟩
  | endArray =>
      rcases readable_deliver_iff.mp hReadable with
        ⟨depth, hTree, hStack⟩
      exact ⟨depth, Written.readable_array_reverse.mp hTree, hStack⟩
  | nextMember => exact hReadable
  | endObject =>
      rcases readable_deliver_iff.mp hReadable with
        ⟨depth, hTree, hStack⟩
      exact ⟨depth, Written.readable_object_reverse.mp hTree, hStack⟩

/- A text with a value has readable parts to its end. -/
theorem readable_of_finish?
    {r : Reader}
    {t : Written}
    (hFinish : r.finish? = some t)
    (hTree : Written.Readable depthLimit t) :
    r.Readable := by
  rcases eq_of_finish? hFinish with rfl | ⟨phase, numeral, -, rfl, -⟩
  · exact ⟨depthLimit, ⟨rfl, hTree⟩, rfl⟩
  · exact ⟨depthLimit, trivial, rfl⟩

/- It has them wherever it is cut. -/
theorem readable_of_run?
    {r last : Reader}
    {cs : List Char}
    (hRun : r.run? cs = some last)
    (hReadable : last.Readable) :
    r.Readable :=
  run?_keeps_before
    (fun hMove hNext => hMove.readable_before hNext) hRun hReadable

------------------------------------------------------------
-- Closing what Is Open
------------------------------------------------------------

/- The containers are closed one by one, the innermost first. -/
theorem run?_closers
    {stack : List Frame}
    {t : Written}
    {depth : Nat}
    (hTree : Written.Readable depth t)
    (hStack : StackReadable depth stack) :
    ∃ tree,
      (deliver stack t).run? (stack.map Frame.closer) =
          some ⟨.done tree, []⟩ ∧
        Written.Readable depthLimit tree := by
  induction stack generalizing t depth with
  | nil => exact ⟨t, rfl, hStack ▸ hTree⟩
  | cons frame rest ih =>
      rcases hStack with ⟨hFrame, hRest⟩
      cases frame with
      | array items =>
          have hArray :
              Written.Readable (depth + 1) (.array (t :: items)) :=
            Written.readable_array_iff.mpr
              ⟨depth, rfl, List.forall_mem_cons.mpr ⟨hTree, hFrame⟩⟩
          rcases ih (Written.readable_array_reverse.mpr hArray) hRest
            with ⟨tree, hRun, hReadable⟩
          exact
            ⟨tree, run?_cons_eq_some_iff.mpr ⟨_, .endArray, hRun⟩,
              hReadable⟩
      | object members key =>
          have hObject :
              Written.Readable (depth + 1)
                (.object ((key, t) :: members)) :=
            Written.readable_object_iff.mpr
              ⟨depth, rfl,
                List.forall_mem_cons.mpr
                  ⟨⟨hFrame.2, hTree⟩, hFrame.1⟩⟩
          rcases ih (Written.readable_object_reverse.mpr hObject) hRest
            with ⟨tree, hRun, hReadable⟩
          exact
            ⟨tree, run?_cons_eq_some_iff.mpr ⟨_, .endObject, hRun⟩,
              hReadable⟩

/-
  The brackets that are due complete what was read to a tree
  that has a value.
-/
def Closes (r : Reader) : Prop :=
  ∃ last tree,
    r.run? r.closers = some last ∧
      last.finish? = some tree ∧ Written.Readable depthLimit tree

/- They do where a value was delivered. -/
theorem closes_deliver
    {stack : List Frame}
    {t : Written}
    (hReadable : (deliver stack t).Readable) :
    (deliver stack t).Closes := by
  rcases readable_deliver_iff.mp hReadable with ⟨depth, hTree, hStack⟩
  rcases run?_closers hTree hStack with ⟨tree, hRun, hValue⟩
  rw [← closers_deliver stack t] at hRun
  exact ⟨⟨.done tree, []⟩, tree, hRun, rfl, hValue⟩

/- They do where a bracket delivers the container around. -/
theorem closes_of_bracket
    {r : Reader}
    {bracket : Char}
    {stack : List Frame}
    {t : Written}
    (hClosers : r.closers = bracket :: stack.map Frame.closer)
    (hMove : Moves r bracket (deliver stack t))
    (hReadable : (deliver stack t).Readable) :
    r.Closes := by
  rcases closes_deliver hReadable with ⟨last, tree, hRun, hFinish⟩
  rw [closers_deliver] at hRun
  refine ⟨last, tree, ?_, hFinish⟩
  rw [hClosers]
  exact run?_cons_eq_some_iff.mpr ⟨_, hMove, hRun⟩

/-
  They do behind a number, which the first bracket ends if
  there is one.
-/
theorem closes_number
    {phase : Numeral.Phase}
    {numeral : Numeral}
    {stack : List Frame}
    (hComplete : phase.complete = true)
    (hReadable : (deliver stack (.number numeral)).Readable) :
    Closes ⟨.number phase numeral, stack⟩ := by
  cases stack with
  | nil =>
      rcases hReadable with ⟨depth, ⟨rfl, hTree⟩, -⟩
      exact ⟨_, _, rfl, if_pos hComplete, hTree⟩
  | cons frame rest =>
      rcases closes_deliver hReadable with ⟨last, tree, hRun, hFinish⟩
      rw [closers_deliver, List.map_cons] at hRun
      rcases run?_cons_eq_some_iff.mp hRun with ⟨next, hMove, hRest⟩
      have hEnd : numeral.step phase frame.closer = none := by
        cases frame <;> rfl
      exact
        ⟨last, tree,
          run?_cons_eq_some_iff.mpr
            ⟨next, .endNumber hComplete hEnd hMove, hRest⟩,
          hFinish⟩

/-
  So they do wherever a value has just been read, if a number
  at the end has a value too.
-/
theorem closes_of_hasValue
    {r : Reader}
    (hValue : r.mode.hasValue = true)
    (hReadable : r.Readable)
    (hNumber :
      ∀ phase numeral,
        r.mode = .number phase numeral →
        (deliver r.stack (.number numeral)).Readable) :
    r.Closes := by
  rcases r with ⟨mode, stack⟩
  cases mode with
  | afterItem items =>
      rcases hReadable with ⟨depth, hItems, hStack⟩
      refine closes_of_bracket rfl .endArray ?_
      exact
        readable_deliver_iff.mpr
          ⟨depth, Written.readable_array_reverse.mpr hItems, hStack⟩
  | afterMember members =>
      rcases hReadable with ⟨depth, hMembers, hStack⟩
      refine closes_of_bracket rfl .endObject ?_
      exact
        readable_deliver_iff.mpr
          ⟨depth, Written.readable_object_reverse.mpr hMembers, hStack⟩
  | done tree =>
      rcases hReadable with ⟨depth, ⟨rfl, hTree⟩, hStack⟩
      have hDepth : depthLimit + stack.length = depthLimit :=
        hStack.depth_add_length
      have hLength : stack.length = 0 := by omega
      rw [List.eq_nil_of_length_eq_zero hLength]
      exact ⟨_, tree, rfl, rfl, hTree⟩
  | number phase numeral =>
      exact closes_number hValue (hNumber phase numeral rfl)
  | _ => cases hValue

end Reader

end Json

end AnswerStream
