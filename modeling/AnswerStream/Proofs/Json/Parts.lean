import AnswerStream.Proofs.Json.Tracking

/-
  This file proves what is known of a tree before its text has
  ended: the parts that were read completely stand in it, in
  their places. So two texts that begin alike are read to trees
  that begin alike. In the outermost object the members that
  were begun have their keys, and all but the last of them have
  their trees.

  Key definitions include:
    * `Json.Mode.Begins`
    * `Json.Fits`
    * `Json.Reader.begun`
    * `Json.Reader.opensMember`
    * `Json.Written.Alike`

  Main statements:
    * `Json.Reader.Moves.begins_before`
    * `Json.Reader.Moves.begun_eq`
    * `Json.Reader.alike_of_begins`
-/

namespace AnswerStream

namespace Json

------------------------------------------------------------
-- Beginnings of Trees
------------------------------------------------------------

/-
  The tree of the value that is due or being read begins with
  what was read of it.
-/
def Mode.Begins (t : Written) : Mode → Prop
| .value => True
| .string _ => ∃ text, t = .string text
| .number _ _ => ∃ numeral, t = .number numeral
| .word _ tree | .done tree => t = tree
| .firstItem => ∃ items, t = .array items
| .afterItem items => ∃ more, t = .array (items.reverse ++ more)
| .firstKey => ∃ members, t = .object members
| .nextKey members | .key members _ | .afterMember members =>
    ∃ more, t = .object (members.reverse ++ more)
| .colon members label =>
    ∃ u more, t = .object (members.reverse ++ (label, u) :: more)

/-
  A tree at the place inside of some containers is a part of a
  whole one: each container goes on from what it holds with the
  tree inside of it.
-/
def Fits (whole : Written) : Written → List Frame → Prop
| t, [] => t = whole
| t, .array items :: rest =>
    ∃ more, Fits whole (.array (items.reverse ++ t :: more)) rest
| t, .object members key :: rest =>
    ∃ more,
      Fits whole (.object (members.reverse ++ (key, t) :: more)) rest

namespace Reader

/- The tree begins with all that was read. -/
def Begins
    (whole : Written)
    (r : Reader) : Prop :=
  ∃ t, r.mode.Begins t ∧ Fits whole t r.stack

theorem begins_deliver_iff
    {stack : List Frame}
    {whole t : Written} :
    (deliver stack t).Begins whole ↔ Fits whole t stack := by
  cases stack with
  | nil =>
      constructor
      · rintro ⟨u, rfl, hFits⟩
        exact hFits
      · exact fun hFits => ⟨t, rfl, hFits⟩
  | cons frame rest =>
      cases frame with
      | array items =>
          have hSame :
              ∀ more,
                items.reverse ++ t :: more =
                  (t :: items).reverse ++ more := by
            simp
          constructor
          · rintro ⟨_, ⟨more, rfl⟩, hFits⟩
            refine ⟨more, ?_⟩
            rw [hSame]
            exact hFits
          · rintro ⟨more, hFits⟩
            rw [hSame] at hFits
            exact ⟨_, ⟨more, rfl⟩, hFits⟩
      | object members key =>
          have hSame :
              ∀ more,
                members.reverse ++ (key, t) :: more =
                  ((key, t) :: members).reverse ++ more := by
            simp
          constructor
          · rintro ⟨_, ⟨more, rfl⟩, hFits⟩
            refine ⟨more, ?_⟩
            rw [hSame]
            exact hFits
          · rintro ⟨more, hFits⟩
            rw [hSame] at hFits
            exact ⟨_, ⟨more, rfl⟩, hFits⟩

/- A tree that goes on with a character began in front of it. -/
theorem Moves.begins_before
    {r next : Reader}
    {c : Char}
    {whole : Written}
    (hMove : Moves r c next)
    (hBegins : next.Begins whole) :
    r.Begins whole := by
  induction hMove with
  | space _ _ => exact hBegins
  | value _ =>
      rcases hBegins with ⟨t, -, hFits⟩
      exact ⟨t, trivial, hFits⟩
  | item _ =>
      rcases hBegins with ⟨t, -, more, hFits⟩
      exact ⟨_, ⟨_, rfl⟩, hFits⟩
  | noItem => exact ⟨_, ⟨_, rfl⟩, begins_deliver_iff.mp hBegins⟩
  | noMember => exact ⟨_, ⟨_, rfl⟩, begins_deliver_iff.mp hBegins⟩
  | firstKey =>
      rcases hBegins with ⟨t, ⟨more, rfl⟩, hFits⟩
      exact ⟨_, ⟨_, rfl⟩, hFits⟩
  | nextKey => exact hBegins
  | key _ => exact hBegins
  | endKey _ =>
      rcases hBegins with ⟨t, ⟨u, more, rfl⟩, hFits⟩
      exact ⟨_, ⟨_, rfl⟩, hFits⟩
  | colon =>
      rcases hBegins with ⟨t, -, more, hFits⟩
      exact ⟨_, ⟨t, more, rfl⟩, hFits⟩
  | string _ =>
      rcases hBegins with ⟨t, hText, hFits⟩
      exact ⟨t, hText, hFits⟩
  | endString _ =>
      exact ⟨_, ⟨_, rfl⟩, begins_deliver_iff.mp hBegins⟩
  | number _ =>
      rcases hBegins with ⟨t, hNumber, hFits⟩
      exact ⟨t, hNumber, hFits⟩
  | endNumber _ _ _ ih =>
      exact ⟨_, ⟨_, rfl⟩, begins_deliver_iff.mp (ih hBegins)⟩
  | word => exact hBegins
  | endWord => exact ⟨_, rfl, begins_deliver_iff.mp hBegins⟩
  | nextItem =>
      rcases hBegins with ⟨t, -, more, hFits⟩
      exact ⟨_, ⟨_, rfl⟩, hFits⟩
  | endArray =>
      refine ⟨_, ⟨[], ?_⟩, begins_deliver_iff.mp hBegins⟩
      rw [List.append_nil]
  | nextMember => exact hBegins
  | endObject =>
      refine ⟨_, ⟨[], ?_⟩, begins_deliver_iff.mp hBegins⟩
      rw [List.append_nil]

/- The tree of a text begins with what was read of the text. -/
theorem begins_of_run?
    {r last : Reader}
    {cs : List Char}
    {whole : Written}
    (hRun : r.run? cs = some last)
    (hBegins : last.Begins whole) :
    r.Begins whole :=
  run?_keeps_before
    (fun hMove hNext => hMove.begins_before hNext) hRun hBegins

theorem begins_of_finish?
    {r : Reader}
    {t : Written}
    (hFinish : r.finish? = some t) :
    r.Begins t := by
  rcases eq_of_finish? hFinish with
    rfl | ⟨phase, numeral, -, rfl, rfl⟩
  · exact ⟨t, rfl, rfl⟩
  · exact ⟨_, ⟨numeral, rfl⟩, rfl⟩

end Reader

------------------------------------------------------------
-- Members that Were Begun
------------------------------------------------------------

/- The number of members of an object. -/
def Written.memberCount : Written → Nat
| .object members => members.length
| _ => 0

/-
  How many members of the object that is being read were begun.
  A member is begun by the quote that opens its key.
-/
def Mode.begun : Mode → Nat
| .nextKey members | .afterMember members => members.length
| .key members _ | .colon members _ => members.length + 1
| .word _ tree | .done tree => tree.memberCount
| _ => 0

/- How many were begun of an object that waits for a value. -/
def Frame.begun : Frame → Nat
| .array _ => 0
| .object members _ => members.length + 1

/-
  How many were begun in the outermost of the containers, or
  inside of them if there are none.
-/
def outermost (inside : Nat) : List Frame → Nat
| [] => inside
| frame :: rest => outermost frame.begun rest

namespace Reader

/- How many members of the outermost object were begun. -/
def begun (r : Reader) : Nat :=
  outermost r.mode.begun r.stack

/- The character opens the key of one more of these members. -/
def opensMember
    (r : Reader)
    (c : Char) : Bool :=
  match r.mode, r.stack with
  | .firstKey, [] | .nextKey _, [] => c == '"'
  | _, _ => false

theorem begun_deliver
    (stack : List Frame)
    (t : Written) :
    (deliver stack t).begun = outermost t.memberCount stack := by
  cases stack with
  | nil => rfl
  | cons frame rest => cases frame <;> rfl

theorem opensMember_deliver
    (stack : List Frame)
    (t : Written)
    (c : Char) :
    (deliver stack t).opensMember c = false := by
  cases stack with
  | nil => rfl
  | cons frame rest => cases frame <;> rfl

theorem opensMember_of_ne
    {c : Char}
    (hOther : c ≠ '"')
    (r : Reader) :
    r.opensMember c = false := by
  unfold opensMember
  split
  · exact beq_false_of_ne hOther
  · exact beq_false_of_ne hOther
  · rfl

theorem First.begun_eq
    {c : Char}
    {mode : Mode}
    (hFirst : First c mode) :
    mode.begun = 0 := by
  cases hFirst <;> rfl

/- A member is begun where its key is opened, and only there. -/
theorem Moves.begun_eq
    {r next : Reader}
    {c : Char}
    (hMove : Moves r c next) :
    next.begun = r.begun + (r.opensMember c).toNat := by
  induction hMove with
  | space hSpace _ =>
      rw [opensMember_of_ne]
      · rfl
      · rintro rfl
        cases hSpace
  | value hFirst =>
      unfold begun
      rw [hFirst.begun_eq]
      rfl
  | item _ => rfl
  | noItem => rw [begun_deliver]; rfl
  | noMember =>
      rw [begun_deliver, opensMember_of_ne (by decide)]
      rfl
  | @firstKey stack => cases stack <;> rfl
  | @nextKey members stack => cases stack <;> rfl
  | endString _ => rw [begun_deliver]; rfl
  | endNumber _ _ _ ih =>
      rw [ih, opensMember_deliver, begun_deliver]
      rfl
  | endWord => rw [begun_deliver]; rfl
  | endArray => rw [begun_deliver]; rfl
  | endObject =>
      rw [begun_deliver, Written.memberCount, List.length_reverse]
      rfl
  | _ => rfl

/- No member is begun by text without a quote. -/
theorem begun_of_run?
    {r last : Reader}
    {cs : List Char}
    (hQuote : '"' ∉ cs)
    (hRun : r.run? cs = some last) :
    last.begun = r.begun := by
  refine
    run?_keeps (P := fun q => q.begun = r.begun) ?_ hRun rfl
  intro q c next hMember hMove hSame
  have hOther : c ≠ '"' := fun hQuoted =>
    hQuote (hQuoted ▸ hMember)
  rw [hMove.begun_eq, opensMember_of_ne hOther, hSame]
  rfl

/- In the end all members were begun. -/
theorem begun_of_finish?
    {r : Reader}
    {t : Written}
    (hFinish : r.finish? = some t) :
    r.begun = t.memberCount := by
  rcases eq_of_finish? hFinish with
    rfl | ⟨phase, numeral, -, rfl, rfl⟩ <;> rfl

end Reader

------------------------------------------------------------
-- Trees that Begin Alike
------------------------------------------------------------

namespace Written

/-
  If the first tree is an object, so is the second, and of
  their first members the keys are the same, and all but the
  last of these members are.
-/
def Alike
    (count : Nat)
    (t u : Written) : Prop :=
  ∀ members,
    t = .object members →
    ∃ others,
      u = .object others ∧
        (others.take count).map Prod.fst =
          (members.take count).map Prod.fst ∧
        others.take (count - 1) = members.take (count - 1)

theorem alike_refl
    (count : Nat)
    (t : Written) :
    Alike count t t :=
  fun members hObject => ⟨members, hObject, rfl, rfl⟩

/- Trees that are known not to be objects are alike. -/
theorem alike_of_ne
    {t : Written}
    (hOther : ∀ members, t ≠ .object members)
    (count : Nat)
    (u : Written) :
    Alike count t u :=
  fun members hObject => absurd hObject (hOther members)

/- Objects are alike in the members that they share. -/
theorem alike_of_shared
    (shared more others : List (Option String × Written)) :
    Alike shared.length (.object (shared ++ more))
      (.object (shared ++ others)) := by
  rintro _ ⟨⟩
  refine ⟨_, rfl, ?_, ?_⟩
  · simp
  · rw [List.take_append_of_le_length (Nat.sub_le _ _),
      List.take_append_of_le_length (Nat.sub_le _ _)]

/- So they are if the next members share a key. -/
theorem alike_of_key
    (shared more others : List (Option String × Written))
    (key : Option String)
    (t u : Written) :
    Alike (shared.length + 1) (.object (shared ++ (key, t) :: more))
      (.object (shared ++ (key, u) :: others)) := by
  rintro _ ⟨⟩
  exact ⟨_, rfl, by simp [List.take_append], by simp⟩

end Written

/- Inside of a key or behind it, where a colon is still due. -/
def Mode.isLabel : Mode → Bool
| .key _ _ | .colon _ _ => true
| _ => false

open Written (Alike)

/- What was read of two values makes their trees alike. -/
theorem Mode.alike_of_begins
    {mode : Mode}
    {t u : Written}
    (hFirst : mode.Begins t)
    (hSecond : mode.Begins u)
    (hLabel : mode.isLabel = false)
    (hValue : mode ≠ .value) :
    Alike mode.begun t u := by
  cases mode with
  | value => exact absurd rfl hValue
  | firstItem =>
      rcases hFirst with ⟨items, rfl⟩
      exact Written.alike_of_ne (by simp) _ _
  | firstKey =>
      rcases hFirst with ⟨members, rfl⟩
      rcases hSecond with ⟨others, rfl⟩
      exact Written.alike_of_shared [] members others
  | nextKey members =>
      rcases hFirst with ⟨more, rfl⟩
      rcases hSecond with ⟨others, rfl⟩
      rw [begun, ← List.length_reverse]
      exact Written.alike_of_shared _ _ _
  | key members quote => cases hLabel
  | colon members key => cases hLabel
  | string quote =>
      rcases hFirst with ⟨text, rfl⟩
      exact Written.alike_of_ne (by simp) _ _
  | number phase numeral =>
      rcases hFirst with ⟨numeral, rfl⟩
      exact Written.alike_of_ne (by simp) _ _
  | word due tree =>
      cases hFirst
      cases hSecond
      exact Written.alike_refl _ _
  | afterItem items =>
      rcases hFirst with ⟨more, rfl⟩
      exact Written.alike_of_ne (by simp) _ _
  | afterMember members =>
      rcases hFirst with ⟨more, rfl⟩
      rcases hSecond with ⟨others, rfl⟩
      rw [begun, ← List.length_reverse]
      exact Written.alike_of_shared _ _ _
  | done tree =>
      cases hFirst
      cases hSecond
      exact Written.alike_refl _ _

/- A container around them makes the whole trees alike. -/
theorem alike_of_fits
    {stack : List Frame}
    {inside : Nat}
    {first second t u : Written}
    (hFirst : Fits first t stack)
    (hSecond : Fits second u stack)
    (hAlike : stack = [] → Alike inside t u) :
    Alike (outermost inside stack) first second := by
  induction stack generalizing inside t u with
  | nil =>
      cases hFirst
      cases hSecond
      exact hAlike rfl
  | cons frame rest ih =>
      cases frame with
      | array items =>
          rcases hFirst with ⟨more, hFirst⟩
          rcases hSecond with ⟨others, hSecond⟩
          refine ih hFirst hSecond fun _ => ?_
          exact Written.alike_of_ne (by simp) _ _
      | object members key =>
          rcases hFirst with ⟨more, hFirst⟩
          rcases hSecond with ⟨others, hSecond⟩
          refine ih hFirst hSecond fun _ => ?_
          rw [Frame.begun, ← List.length_reverse]
          exact Written.alike_of_key _ _ _ _ _ _

namespace Reader

/-
  Trees that both begin with what was read are alike in the
  members that were begun, wherever something of the tree was
  read and no colon is due.
-/
theorem alike_of_begins
    {r : Reader}
    {first second : Written}
    (hFirst : r.Begins first)
    (hSecond : r.Begins second)
    (hLabel : r.mode.isLabel = false)
    (hPlace : r ≠ start) :
    Alike r.begun first second := by
  rcases r with ⟨mode, stack⟩
  rcases hFirst with ⟨t, hFirst, hFitsFirst⟩
  rcases hSecond with ⟨u, hSecond, hFitsSecond⟩
  refine alike_of_fits hFitsFirst hFitsSecond fun hStack => ?_
  refine Mode.alike_of_begins hFirst hSecond hLabel ?_
  rintro rfl
  cases hStack
  exact hPlace rfl

/- A text without a colon does not get past a label. -/
theorem isLabel_of_run?
    {r last : Reader}
    {cs : List Char}
    (hColon : ':' ∉ cs)
    (hRun : r.run? cs = some last)
    (hLabel : r.mode.isLabel = true) :
    last.mode.isLabel = true := by
  refine
    run?_keeps (P := fun q => q.mode.isLabel = true) ?_ hRun hLabel
  intro q c next hMember hMove hBefore
  cases hMove with
  | space => exact hBefore
  | key => rfl
  | endKey => rfl
  | colon => exact absurd hMember hColon
  | _ => cases hBefore

end Reader

end Json

end AnswerStream
