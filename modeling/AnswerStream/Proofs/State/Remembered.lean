import AnswerStream.Proofs.State.Ready

/-
  This file proves what the scope of a run remembers. What it
  gave once for a slot it gives ever after, whatever became of
  the transforms, and it asks none of them for it. What it gives
  first is what the first input of the slot that was ready came
  to, so that two inputs are mixed up just if they share a slot.

  Key definitions include:
    * `Request`
    * `RunScope.behind`
    * `RunScope.Keeps`
    * `RunScope.Remembers`
    * `History.finalStates`

  Main statements:
    * `RunScope.remembers`
    * `RunScope.known?_behind`
    * `scope_answers_first_ready`
    * `colliding_inputs_are_mixed_up`
    * `History.finalState_of_known`
    * `History.finalState_congr`
-/

namespace AnswerStream

open Json

variable {σ τ : Type}

------------------------------------------------------------
-- Requests
------------------------------------------------------------

/-
  A value that is to be transformed for a key of a message, and
  the memory that the transforms find at that time.
-/
structure Request (σ : Type) where
  messageId : String
  key : String
  input : Value
  memory : σ

namespace Request

/- The place where the value of a request is remembered. -/
def slot (r : Request σ) : Slot :=
  .ofInput r.messageId r.key r.input

/- What the transforms make of a request, and the memory. -/
def made
    (r : Request σ)
    (ts : KeyTransforms σ) : Except TransformError Value × σ :=
  ts.apply r.key r.input r.memory

end Request

namespace RunScope

variable {scope later : RunScope} {ts : KeyTransforms σ}
  {r : Request σ} {slot : Slot} {u : Value}

/- The value that a scope remembers in a slot. -/
def known?
    (scope : RunScope)
    (slot : Slot) : Option Value :=
  Table.get? slot scope.cache.entries

/- What comes of a request in a scope. -/
def answer
    (scope : RunScope)
    (ts : KeyTransforms σ)
    (r : Request σ) : Transformed σ :=
  scope.transform ts r.messageId r.key r.input r.memory

/- The scope behind requests. -/
def behind
    (scope : RunScope)
    (ts : KeyTransforms σ)
    (rs : List (Request σ)) : RunScope :=
  rs.foldl (fun scope r => (scope.answer ts r).scope) scope

theorem behind_append
    (scope : RunScope)
    (ts : KeyTransforms σ)
    (rs qs : List (Request σ)) :
    scope.behind ts (rs ++ qs) =
      (scope.behind ts rs).behind ts qs :=
  List.foldl_append

------------------------------------------------------------
-- One Request
------------------------------------------------------------

/- A value that is remembered is given, and nothing is asked. -/
theorem transform_of_known
    (ts : KeyTransforms σ)
    {messageId key : String}
    {input : Value}
    (hKnown :
      scope.known? (.ofInput messageId key input) = some u)
    (memory : σ) :
    scope.transform ts messageId key input memory =
      ⟨.ok u, scope, memory⟩ := by
  have hHit : scope.cache.get? messageId key input = some u :=
    hKnown
  unfold transform
  rw [hHit]

/- So a request for a slot that is remembered is answered. -/
theorem answer_of_known
    (ts : KeyTransforms σ)
    (hKnown : scope.known? r.slot = some u) :
    scope.answer ts r = ⟨.ok u, scope, r.memory⟩ :=
  transform_of_known ts hKnown r.memory

/- Otherwise the transforms are asked. -/
theorem answer_of_miss
    (ts : KeyTransforms σ)
    (hMiss : scope.known? r.slot = none) :
    scope.answer ts r =
      match r.made ts with
      | (.ok u, memory) =>
          { result := .ok u
            scope :=
              { scope with
                cache :=
                  scope.cache.insert r.messageId r.key
                    r.input u }
            memory := memory }
      | (.error e, memory) => ⟨.error e, scope, memory⟩ := by
  have hNone :
      scope.cache.get? r.messageId r.key r.input = none :=
    hMiss
  unfold answer transform
  rw [hNone]
  rfl

/- What they give is the answer, whether it is ready or not. -/
theorem result_of_miss
    (ts : KeyTransforms σ)
    (hMiss : scope.known? r.slot = none) :
    (scope.answer ts r).result = (r.made ts).1 := by
  rw [answer_of_miss ts hMiss]
  rcases r.made ts with ⟨_ | u, memory⟩
  · rfl
  · rfl

/- A value that is ready is remembered, in its slot only. -/
theorem known?_of_ready
    (hMiss : scope.known? r.slot = none)
    (hReady : (r.made ts).1 = .ok u)
    (slot : Slot) :
    (scope.answer ts r).scope.known? slot =
      if r.slot = slot then some u else scope.known? slot := by
  rw [answer_of_miss ts hMiss]
  rcases hMade : r.made ts with ⟨result, memory⟩
  rw [hMade] at hReady
  cases hReady
  exact Table.get?_put r.slot slot u scope.cache.entries

/- A value that is not ready is not remembered. -/
theorem scope_of_unready
    {e : TransformError}
    (hMiss : scope.known? r.slot = none)
    (hError : (r.made ts).1 = .error e) :
    (scope.answer ts r).scope = scope := by
  rw [answer_of_miss ts hMiss]
  rcases hMade : r.made ts with ⟨result, memory⟩
  rw [hMade] at hError
  cases hError
  rfl

/- A request does not touch what other slots hold. -/
theorem known?_answer_of_ne
    (ts : KeyTransforms σ)
    (hOther : r.slot ≠ slot) :
    (scope.answer ts r).scope.known? slot =
      scope.known? slot := by
  cases hKnown : scope.known? r.slot with
  | some w => rw [answer_of_known ts hKnown]
  | none =>
      cases hMade : (r.made ts).1 with
      | error e => rw [scope_of_unready hKnown hMade]
      | ok w => rw [known?_of_ready hKnown hMade, if_neg hOther]

/- A request that is answered is remembered as it was. -/
theorem known?_of_answer
    (hOk : (scope.answer ts r).result = .ok u) :
    (scope.answer ts r).scope.known? r.slot = some u := by
  cases hKnown : scope.known? r.slot with
  | some w =>
      rw [answer_of_known ts hKnown] at hOk ⊢
      cases hOk
      exact hKnown
  | none =>
      rw [result_of_miss ts hKnown] at hOk
      rw [known?_of_ready hKnown hOk, if_pos rfl]

/- A request that fails leaves the scope as it is. -/
theorem scope_of_failure
    {e : TransformError}
    (hError : (scope.answer ts r).result = .error e) :
    (scope.answer ts r).scope = scope := by
  cases hKnown : scope.known? r.slot with
  | some w => rw [answer_of_known ts hKnown]
  | none =>
      rw [result_of_miss ts hKnown] at hError
      exact scope_of_unready hKnown hError

------------------------------------------------------------
-- Keeping
------------------------------------------------------------

/- A later scope remembers all that a scope does, as it is. -/
def Keeps (scope later : RunScope) : Prop :=
  ∀ slot u, scope.known? slot = some u →
    later.known? slot = some u

theorem Keeps.refl (scope : RunScope) : scope.Keeps scope :=
  fun _ _ hKnown => hKnown

theorem Keeps.trans
    {last : RunScope}
    (hFirst : scope.Keeps later)
    (hSecond : later.Keeps last) :
    scope.Keeps last :=
  fun slot u hKnown => hSecond slot u (hFirst slot u hKnown)

/- A request takes nothing from a scope. -/
theorem keeps_answer
    (scope : RunScope)
    (ts : KeyTransforms σ)
    (r : Request σ) :
    scope.Keeps (scope.answer ts r).scope := by
  intro slot u hKnown
  by_cases hSlot : r.slot = slot
  · subst hSlot
    rw [answer_of_known ts hKnown]
    exact hKnown
  · rw [known?_answer_of_ne ts hSlot]
    exact hKnown

/- Nor do several. -/
theorem keeps_behind
    (scope : RunScope)
    (ts : KeyTransforms σ)
    (rs : List (Request σ)) :
    scope.Keeps (scope.behind ts rs) := by
  induction rs generalizing scope with
  | nil => exact .refl scope
  | cons r rs ih =>
      exact (keeps_answer scope ts r).trans (ih _)

/-
  What a scope remembers, whatever the transforms do: a slot of
  which a value was given is answered with it ever after, for
  any transforms and without a change of their memory; nothing
  that is remembered changes; and a failure changes nothing.
-/
structure Remembers
    (scope : RunScope)
    (ts : KeyTransforms σ) : Prop where
  answered :
    ∀ before (r : Request σ) u,
      ((scope.behind ts before).answer ts r).result = .ok u →
      ∀ between (τ : Type) (others : KeyTransforms τ)
          (q : Request τ),
        q.slot = r.slot →
        (scope.behind ts (before ++ r :: between)).answer
            others q =
          ⟨.ok u, scope.behind ts (before ++ r :: between),
            q.memory⟩
  kept :
    ∀ before between,
      (scope.behind ts before).Keeps
        (scope.behind ts (before ++ between))
  failed :
    ∀ before (r : Request σ) e,
      ((scope.behind ts before).answer ts r).result = .error e →
      scope.behind ts (before ++ [r]) = scope.behind ts before

theorem remembers
    (scope : RunScope)
    (ts : KeyTransforms σ) :
    scope.Remembers ts where
  answered := by
    intro before r u hOk between τ others q hSlot
    rw [behind_append]
    have hKnown :=
      keeps_behind _ ts between _ _ (known?_of_answer hOk)
    rw [← hSlot] at hKnown
    exact answer_of_known others hKnown
  kept := by
    intro before between
    rw [behind_append]
    exact keeps_behind _ ts between
  failed := by
    intro before r e hError
    rw [behind_append]
    exact scope_of_failure hError

end RunScope

------------------------------------------------------------
-- The First Input of a Slot
------------------------------------------------------------

/- The value of the first request of a slot that is ready. -/
def KeyTransforms.firstReady?
    (ts : KeyTransforms σ)
    (slot : Slot)
    (rs : List (Request σ)) : Option Value :=
  rs.findSome? fun r =>
    if r.slot = slot then (r.made ts).1.toOption
    else Option.none

namespace RunScope

/-
  Behind requests a scope remembers what it did, and otherwise
  what was ready first.
-/
theorem known?_behind
    (scope : RunScope)
    (ts : KeyTransforms σ)
    (rs : List (Request σ))
    (slot : Slot) :
    (scope.behind ts rs).known? slot =
      (scope.known? slot).or (ts.firstReady? slot rs) := by
  induction rs generalizing scope with
  | nil => exact Option.or_none.symm
  | cons r rs ih =>
      -- One request adds what is ready, where nothing was known.
      have hStep :
          (scope.answer ts r).scope.known? slot =
            (scope.known? slot).or
              (if r.slot = slot then (r.made ts).1.toOption
              else none) := by
        cases hKnown : scope.known? slot with
        | some u =>
            exact keeps_answer scope ts r slot u hKnown
        | none =>
            by_cases hSlot : r.slot = slot
            · subst hSlot
              rw [if_pos rfl, Option.none_or]
              cases hMade : (r.made ts).1 with
              | ok u =>
                  rw [known?_of_ready hKnown hMade, if_pos rfl]
                  rfl
              | error e =>
                  rw [scope_of_unready hKnown hMade, hKnown]
                  rfl
            · rw [if_neg hSlot, Option.none_or, ← hKnown]
              exact known?_answer_of_ne ts hSlot
      have hRest := ih (scope.answer ts r).scope
      rw [hStep, Option.or_assoc] at hRest
      refine hRest.trans ?_
      unfold KeyTransforms.firstReady?
      rw [List.findSome?_cons]
      cases (if r.slot = slot then (r.made ts).1.toOption
        else none) <;> rfl

end RunScope

/-
  If the transforms are pure and no other input has the slot,
  then what was ready first is what is ready now.
-/
theorem KeyTransforms.Pure.made_of_firstReady?
    {ts : KeyTransforms σ}
    (hPure : ts.Pure)
    {rs : List (Request σ)}
    {r : Request σ}
    (hApart : ∀ q ∈ rs, q.slot = r.slot → q.input = r.input)
    {u : Value}
    (hFirst : ts.firstReady? r.slot rs = some u) :
    (r.made ts).1 = .ok u := by
  rcases List.exists_of_findSome?_eq_some hFirst with
    ⟨q, hMember, hReady⟩
  split at hReady
  · next hSlot =>
    have hKey : q.key = r.key := congrArg Slot.key hSlot
    have hMade : (q.made ts).1 = .ok u := by
      cases hResult : (q.made ts).1 with
      | ok w =>
          rw [hResult] at hReady
          exact congrArg _ (Option.some.inj hReady)
      | error e =>
          rw [hResult] at hReady
          cases hReady
    unfold Request.made at hMade ⊢
    rw [← hApart q hMember hSlot, ← hKey,
      hPure q.key q.input r.memory q.memory]
    exact hMade
  · cases hReady

/-
  A scope answers a request with what was ready first in its
  slot, and with what is made of its own input if nothing was.
  The answers of pure transforms are then those without a scope
  as long as no other input shares the slot, that is, has the
  same fingerprint.
-/
theorem scope_answers_first_ready
    (ts : KeyTransforms σ)
    (runId : String)
    (rs : List (Request σ))
    (r : Request σ) :
    let answer :=
      (((RunScope.fresh runId).behind ts rs).answer ts r).result
    (answer =
      match ts.firstReady? r.slot rs with
      | some u => .ok u
      | none => (r.made ts).1) ∧
    (ts.Pure →
      (∀ q ∈ rs, q.slot = r.slot → q.input = r.input) →
      answer = (r.made ts).1) := by
  intro answer
  have hKnown :
      ((RunScope.fresh runId).behind ts rs).known? r.slot =
        ts.firstReady? r.slot rs :=
    RunScope.known?_behind (.fresh runId) ts rs r.slot
  cases hFirst : ts.firstReady? r.slot rs with
  | some u =>
      rw [hFirst] at hKnown
      have hAnswer : answer = .ok u :=
        congrArg Transformed.result
          (RunScope.answer_of_known ts hKnown)
      refine ⟨hAnswer, fun hPure hApart => ?_⟩
      rw [hPure.made_of_firstReady? hApart hFirst]
      exact hAnswer
  | none =>
      rw [hFirst] at hKnown
      have hAnswer : answer = (r.made ts).1 :=
        RunScope.result_of_miss ts hKnown
      exact ⟨hAnswer, fun _ _ => hAnswer⟩

/- A transform that puts the value of one key in an array. -/
def wrapping : KeyTransforms Unit :=
  KeyTransforms.none.withKey "k" fun v memory =>
    (.ok (.array [v]), memory)

/- A string for the key. -/
def stringFor (body : String) : Request Unit :=
  ⟨"m", "k", .string body, ()⟩

theorem wrapping_answers_second :
    wrapping.Pure ∧
      (stringFor "a").slot ≠ (stringFor "b").slot ∧
      (((RunScope.fresh "r").behind wrapping
        [stringFor "a", stringFor "b"]).answer wrapping
          (stringFor "b")).result = .ok (.array [.string "b"]) := by
  have hPure : wrapping.Pure :=
    KeyTransforms.pure_none.withKey (fun _ _ _ => rfl) "k"
  have hSlots :
      (stringFor "a").slot ≠ (stringFor "b").slot := by
    decide +kernel
  refine ⟨hPure, hSlots, ?_⟩
  refine
    (scope_answers_first_ready wrapping "r"
      [stringFor "a", stringFor "b"] (stringFor "b")).2 hPure ?_
  intro q hMember hSlot
  rcases List.mem_cons.mp hMember with rfl | hMember
  · exact absurd hSlot hSlots
  · rw [List.mem_singleton.mp hMember]

/-
  Two strings that share a fingerprint share a slot: the second
  is answered with the first, although the transforms leave all
  values as they are.
-/
theorem colliding_inputs_are_mixed_up :
    (KeyTransforms.none : KeyTransforms Unit).Pure ∧
      (stringFor "bA").input ≠ (stringFor "ab").input ∧
      (((RunScope.fresh "r").behind .none
        [stringFor "ab"]).answer .none
          (stringFor "bA")).result = .ok (stringFor "ab").input ∧
      ((stringFor "bA").made .none).1 =
        .ok (stringFor "bA").input := by
  refine ⟨KeyTransforms.pure_none, by decide +kernel, ?_, rfl⟩
  rfl

------------------------------------------------------------
-- Final State Values
------------------------------------------------------------

namespace History

variable {h g : History τ} {messageId : String} {m : StoredMessage}
  {scope : RunScope} {done : FinalState τ}

/- The final state behind one more member. -/
def withMember
    (h : History τ)
    (messageId : String)
    (done : FinalState τ)
    (m : String × Value) : FinalState τ :=
  let next :=
    done.scope.transform h.transforms messageId m.1 m.2
      done.memory
  { state :=
      match next.result with
      | .ok output => Members.insert m.1 output done.state
      | .error _ => done.state
    scope := next.scope
    memory := next.memory }

/- Members come one after the other. -/
theorem transformMembers_value
    (h : History τ)
    (messageId : String)
    (done : FinalState τ)
    (ms : Members) :
    (h.transformMembers messageId done ms).value =
      ms.foldl (h.withMember messageId) done := by
  induction ms generalizing done with
  | nil => rfl
  | cons m rest ih =>
      rcases m with ⟨key, v⟩
      rw [List.foldl_cons, ← ih]
      simp only [transformMembers, withMember]
      rcases done.scope.transform h.transforms messageId key v
          done.memory with
        ⟨_ | output, scope, memory⟩
      · rfl
      · rfl

/- A member takes nothing from the scope. -/
theorem keeps_withMember
    (h : History τ)
    (messageId : String)
    (done : FinalState τ)
    (m : String × Value) :
    done.scope.Keeps (h.withMember messageId done m).scope :=
  RunScope.keeps_answer done.scope h.transforms
    ⟨messageId, m.1, m.2, done.memory⟩

/- Nor do several. -/
theorem keeps_withMembers
    (h : History τ)
    (messageId : String)
    (done : FinalState τ)
    (ms : Members) :
    done.scope.Keeps
      (ms.foldl (h.withMember messageId) done).scope := by
  induction ms generalizing done with
  | nil => exact .refl done.scope
  | cons m rest ih =>
      exact (keeps_withMember h messageId done m).trans (ih _)

/- A member leaves the values of other keys as they are. -/
theorem get?_withMember_of_ne
    {key : String}
    {m : String × Value}
    (hOther : m.1 ≠ key) :
    Table.get? key (h.withMember messageId done m).state =
      Table.get? key done.state := by
  unfold withMember
  dsimp only
  split
  · rw [Members.get?_insert, if_neg hOther]
  · rfl

/- Members of other keys do, too. -/
theorem get?_withMembers_of_not_mem
    {key : String}
    {ms : Members}
    (hOthers : key ∉ ms.map Prod.fst) :
    Table.get? key
        (ms.foldl (h.withMember messageId) done).state =
      Table.get? key done.state := by
  induction ms generalizing done with
  | nil => rfl
  | cons m rest ih =>
      rw [List.map_cons, List.mem_cons, not_or] at hOthers
      exact
        (ih hOthers.2).trans
          (get?_withMember_of_ne (Ne.symm hOthers.1))

/- A member whose value is remembered has this value. -/
theorem get?_withMember_of_known
    {m : String × Value}
    {u : Value}
    (hKnown :
      done.scope.known? (.ofInput messageId m.1 m.2) = some u) :
    Table.get? m.1 (h.withMember messageId done m).state =
      some u := by
  unfold withMember
  rw [RunScope.transform_of_known h.transforms hKnown
    done.memory]
  dsimp only
  rw [Members.get?_insert, if_pos rfl]

/- So it has among members of different keys. -/
theorem get?_withMembers_of_known
    {ms : Members}
    {m : String × Value}
    {u : Value}
    (hDistinct : (ms.map Prod.fst).Nodup)
    (hMember : m ∈ ms)
    (hKnown :
      done.scope.known? (.ofInput messageId m.1 m.2) = some u) :
    Table.get? m.1
        (ms.foldl (h.withMember messageId) done).state =
      some u := by
  induction ms generalizing done with
  | nil => cases hMember
  | cons n rest ih =>
      rcases List.nodup_cons.mp hDistinct with ⟨hOthers, hRest⟩
      rcases List.mem_cons.mp hMember with rfl | hLater
      · -- The members behind this one have other keys.
        exact
          (get?_withMembers_of_not_mem hOthers).trans
            (get?_withMember_of_known hKnown)
      · exact
          ih hRest hLater
            (keeps_withMember h messageId done n _ _ hKnown)

/- The members of a message that may get final values. -/
def members
    (h : History τ)
    (m : StoredMessage) : Members :=
  mergeState (h.message m).value.blocks

theorem finalState_value
    (h : History τ)
    (m : StoredMessage)
    (scope : RunScope)
    (memory : τ) :
    (h.finalState m scope memory).value =
      (h.members m).foldl (h.withMember m.id)
        ⟨[], scope, memory⟩ :=
  transformMembers_value h m.id _ _

/- The final state of a message has what is remembered for it. -/
theorem finalState_of_known
    {x : String × Value}
    {u : Value}
    (hMember : x ∈ h.members m)
    (hKnown :
      scope.known? (.ofInput m.id x.1 x.2) = some u)
    (memory : τ) :
    Table.get? x.1 (h.finalState m scope memory).value.state =
      some u := by
  rw [finalState_value]
  exact
    get?_withMembers_of_known (sorted_mergeState _).nodup hMember
      hKnown

/- A final state takes nothing from the scope. -/
theorem keeps_finalState
    (h : History τ)
    (m : StoredMessage)
    (scope : RunScope)
    (memory : τ) :
    scope.Keeps (h.finalState m scope memory).value.scope := by
  rw [finalState_value]
  exact keeps_withMembers h m.id ⟨[], scope, memory⟩ _

/-
  The states that a message has if its final state is asked for
  again and again in one scope, each time with some memory.
-/
def finalStates
    (h : History τ)
    (m : StoredMessage) : RunScope → List τ → List Members
  | _, [] => []
  | scope, memory :: rest =>
      let done := (h.finalState m scope memory).value
      done.state :: h.finalStates m done.scope rest

/- What is remembered is found each time. -/
theorem get?_of_mem_finalStates
    {x : String × Value}
    {u : Value}
    (hMember : x ∈ h.members m)
    (hKnown :
      scope.known? (.ofInput m.id x.1 x.2) = some u)
    {memories : List τ}
    {state : Members}
    (hAsked : state ∈ h.finalStates m scope memories) :
    Table.get? x.1 state = some u := by
  induction memories generalizing scope with
  | nil => cases hAsked
  | cons memory rest ih =>
      rcases List.mem_cons.mp hAsked with rfl | hLater
      · exact finalState_of_known hMember hKnown memory
      · exact
          ih (keeps_finalState h m scope memory _ _ hKnown) hLater

end History

------------------------------------------------------------
-- Transforms That Are Not Asked
------------------------------------------------------------

/- Only the value of the first step matters to the next. -/
theorem Noted.bind_congr_value
    {α β : Type}
    {x : Noted α}
    {f g : α → Noted β}
    (hSame : f x.value = g x.value) :
    (x >>= f) = (x >>= g) := by
  change Noted.bind x f = Noted.bind x g
  unfold Noted.bind
  rw [hSame]

namespace History

variable {h g : History τ} {messageId : String} {m : StoredMessage}
  {scope : RunScope} {done : FinalState τ}

/-
  A member whose value is remembered, or of which two histories
  make the same.
-/
def Alike
    (h g : History τ)
    (messageId : String)
    (scope : RunScope)
    (m : String × Value) : Prop :=
  (∃ u, scope.known? (.ofInput messageId m.1 m.2) = some u) ∨
    ∀ memory,
      h.transforms.apply m.1 m.2 memory =
        g.transforms.apply m.1 m.2 memory

/- Two histories transform such a member alike. -/
theorem Alike.transform_eq
    {x : String × Value}
    (hAlike : h.Alike g messageId scope x)
    (memory : τ) :
    scope.transform h.transforms messageId x.1 x.2 memory =
      scope.transform g.transforms messageId x.1 x.2 memory := by
  rcases hAlike with ⟨u, hKnown⟩ | hSame
  · rw [RunScope.transform_of_known h.transforms hKnown,
      RunScope.transform_of_known g.transforms hKnown]
  · unfold RunScope.transform
    rw [hSame]

/- And they do several alike, with the same notes. -/
theorem transformMembers_congr
    {ms : Members}
    (hAlike :
      ∀ x ∈ ms, h.Alike g messageId done.scope x) :
    h.transformMembers messageId done ms =
      g.transformMembers messageId done ms := by
  induction ms generalizing done with
  | nil => rfl
  | cons x rest ih =>
      rcases x with ⟨key, v⟩
      have hHere :=
        (hAlike _ List.mem_cons_self).transform_eq done.memory
      -- What is remembered is kept up to its member.
      have hRest :
          ∀ x ∈ rest, h.Alike g messageId
            (h.withMember messageId done (key, v)).scope x := by
        intro x hMember
        rcases hAlike x (List.mem_cons_of_mem _ hMember) with
          ⟨u, hKnown⟩ | hSame
        · have hKeeps :=
            keeps_withMember h messageId done (key, v)
          exact .inl ⟨u, hKeeps _ _ hKnown⟩
        · exact .inr hSame
      unfold withMember at hRest
      simp only [transformMembers]
      simp only [hHere] at hRest ⊢
      generalize done.scope.transform g.transforms messageId key v
        done.memory = next at hRest ⊢
      rcases next with ⟨_ | output, scope, memory⟩
      · dsimp only
        rw [ih hRest]
      · exact ih hRest

/-
  If two histories check alike, and make the same of what the
  scope does not remember, then a message has the same final
  state in both, with the same scope, memory and notes: what is
  remembered is not asked for.
-/
theorem finalState_congr
    (hChecks : h.validator = g.validator)
    (hAlike : ∀ x ∈ h.members m, h.Alike g m.id scope x)
    (memory : τ) :
    h.finalState m scope memory = g.finalState m scope memory := by
  have hMessage : h.message m = g.message m := by
    unfold message blocks replay rejectionNotes
    rw [hChecks]
  unfold members at hAlike
  unfold finalState
  rw [hMessage] at hAlike ⊢
  exact Noted.bind_congr_value (transformMembers_congr hAlike)

end History

end AnswerStream
