import AnswerStream.History.Basic
import AnswerStream.Proofs.State.Members

/-
  This file proves what transforms make of raw state values if
  they give the same results at any time. The members that are
  ready are found by asking each transform once; a scope that
  has not seen their keys changes nothing about them.

  Key definitions include:
    * `KeyTransforms.Pure`
    * `KeyTransforms.ready`
    * `RunScope.Unseen`

  Main statements:
    * `RunScope.transform_of_unseen`
    * `RunScope.transform_of_same_cache`
    * `History.finalState_of_fresh`
-/

namespace AnswerStream

open Json

variable {σ : Type}

------------------------------------------------------------
-- Members That Are Ready
------------------------------------------------------------

namespace KeyTransforms

/- What a transform gives does not depend on the memory. -/
def Pure (ts : KeyTransforms σ) : Prop :=
  ∀ key v memory later,
    (ts.apply key v memory).1 = (ts.apply key v later).1

/- Without transforms values stay as they are at any time. -/
theorem pure_none : (none : KeyTransforms σ).Pure := by
  intro key v memory later
  rfl

/- A transform that does not look at the memory may be added. -/
theorem Pure.withKey
    {ts : KeyTransforms σ}
    (hPure : ts.Pure)
    {t : Transform σ}
    (hSame : ∀ v memory later, (t v memory).1 = (t v later).1)
    (key : String) :
    (ts.withKey key t).Pure := by
  intro asked v memory later
  have hOld := hPure asked v memory later
  unfold apply at hOld
  simp only [apply, KeyTransforms.withKey, Table.get?_put]
  by_cases hKey : key = asked
  · simpa [hKey] using hSame v memory later
  · simpa [hKey] using hOld

/- The members after their transforms, those that are ready. -/
def ready
    (ts : KeyTransforms σ)
    (memory : σ)
    (ms : Members) : Members :=
  ms.filterMap fun m =>
    (ts.apply m.1 m.2 memory).1.toOption.map fun v => (m.1, v)

variable {ts : KeyTransforms σ} {memory : σ}
  {key : String} {v u : Value}

theorem ready_cons_of_ok
    (hResult : (ts.apply key v memory).1 = .ok u)
    (ms : Members) :
    ts.ready memory ((key, v) :: ms) =
      (key, u) :: ts.ready memory ms := by
  simp [ready, hResult, Except.toOption]

theorem ready_cons_of_error
    {e : TransformError}
    (hResult : (ts.apply key v memory).1 = .error e)
    (ms : Members) :
    ts.ready memory ((key, v) :: ms) =
      ts.ready memory ms := by
  simp [ready, hResult, Except.toOption]

/- Pure transforms are as ready at one time as at another. -/
theorem Pure.ready_eq
    (hPure : ts.Pure)
    (memory later : σ)
    (ms : Members) :
    ts.ready memory ms = ts.ready later ms := by
  unfold ready
  congr 1
  funext m
  rw [hPure m.1 m.2 memory later]

end KeyTransforms

------------------------------------------------------------
-- Scopes That Have Not Seen Keys
------------------------------------------------------------

namespace RunScope

/- The scope remembers no value of the given keys. -/
def Unseen
    (scope : RunScope)
    (keys : List String) : Prop :=
  ∀ key ∈ keys, ∀ messageId input,
    scope.cache.get? messageId key input = none

theorem unseen_fresh
    (runId : String)
    (keys : List String) :
    (fresh runId).Unseen keys := by
  intro key _ messageId input
  rfl

/- A value that is remembered is one of its key. -/
theorem get?_insert_of_ne
    (cache : TransformCache)
    {key other : String}
    (hOther : key ≠ other)
    (messageId otherId : String)
    (input output asked : Value) :
    (cache.insert messageId key input output).get? otherId other
        asked =
      cache.get? otherId other asked := by
  unfold TransformCache.insert TransformCache.get?
  rw [Table.get?_put, if_neg]
  intro hSlot
  exact hOther (congrArg Slot.key hSlot)

/-
  A transform of a key that the scope has not seen gives what
  the transform alone gives, and the other keys stay unseen.
-/
theorem transform_of_unseen
    {scope : RunScope}
    {key : String}
    {keys : List String}
    (hUnseen : scope.Unseen (key :: keys))
    (hDistinct : (key :: keys).Nodup)
    (ts : KeyTransforms σ)
    (messageId : String)
    (input : Value)
    (memory : σ) :
    let done := scope.transform ts messageId key input memory
    done.result = (ts.apply key input memory).1 ∧
      done.scope.Unseen keys := by
  have hMiss :=
    hUnseen key List.mem_cons_self messageId input
  have hOthers : scope.Unseen keys := fun other hMember =>
    hUnseen other (List.mem_cons_of_mem key hMember)
  unfold transform
  rw [hMiss]
  dsimp only
  rcases hApply : ts.apply key input memory with ⟨result, later⟩
  cases result with
  | error e => exact ⟨rfl, hOthers⟩
  | ok output =>
      refine ⟨rfl, ?_⟩
      intro other hMember otherId asked
      have hOther : key ≠ other := by
        rintro rfl
        exact (List.nodup_cons.mp hDistinct).1 hMember
      dsimp only
      rw [get?_insert_of_ne _ hOther]
      exact hOthers other hMember otherId asked

/-
  To pure transforms two scopes that remember the same are
  alike: they give the same results, and go on to remember the
  same.
-/
theorem transform_of_same_cache
    {scope other : RunScope}
    {ts : KeyTransforms σ}
    (hPure : ts.Pure)
    (hCache : other.cache = scope.cache)
    (messageId key : String)
    (input : Value)
    (memory later : σ) :
    let done := scope.transform ts messageId key input memory
    let again := other.transform ts messageId key input later
    again.result = done.result ∧
      again.scope.cache = done.scope.cache := by
  have hResult := hPure key input later memory
  unfold transform
  rw [hCache]
  cases scope.cache.get? messageId key input with
  | some output => exact ⟨rfl, hCache⟩
  | none =>
      dsimp only
      generalize ts.apply key input memory = applied at hResult ⊢
      generalize ts.apply key input later = again at hResult ⊢
      rcases applied with ⟨result, _⟩
      rcases again with ⟨again, _⟩
      cases hResult
      cases result with
      | ok output => exact ⟨rfl, rfl⟩
      | error e => exact ⟨rfl, hCache⟩

end RunScope

------------------------------------------------------------
-- Final State Values
------------------------------------------------------------

namespace History

variable {h : History σ}

/-
  Members with keys that the scope has not seen are written
  over the state as they are ready.
-/
theorem transformMembers_state
    (hPure : h.transforms.Pure)
    {done : FinalState σ}
    {ms : Members}
    (hUnseen : done.scope.Unseen (ms.map Prod.fst))
    (hDistinct : (ms.map Prod.fst).Nodup)
    (messageId : String)
    (memory : σ) :
    (h.transformMembers messageId done ms).value.state =
      overlay done.state (h.transforms.ready memory ms) := by
  induction ms generalizing done with
  | nil => rfl
  | cons m rest ih =>
      rcases m with ⟨key, v⟩
      rcases RunScope.transform_of_unseen hUnseen hDistinct
          h.transforms messageId v done.memory with
        ⟨hResult, hRest⟩
      rw [hPure key v done.memory memory] at hResult
      have hLater : (rest.map Prod.fst).Nodup :=
        (List.nodup_cons.mp hDistinct).2
      simp only [transformMembers]
      cases hReady : (h.transforms.apply key v memory).1 with
      | ok output =>
          rw [hReady] at hResult
          rw [KeyTransforms.ready_cons_of_ok hReady, hResult]
          exact ih hRest hLater
      | error e =>
          rw [hReady] at hResult
          rw [KeyTransforms.ready_cons_of_error hReady, hResult]
          exact ih hRest hLater

/-
  In a fresh scope, the final state of a message holds the
  members of its fences as they are ready.
-/
theorem finalState_of_fresh
    (hPure : h.transforms.Pure)
    (m : StoredMessage)
    (runId : String)
    (memory later : σ) :
    (h.finalState m (.fresh runId) memory).value.state =
      overlay []
        (h.transforms.ready later
          (mergeState (h.message m).value.blocks)) := by
  unfold finalState
  rw [Noted.value_bind]
  exact
    transformMembers_state hPure
      (RunScope.unseen_fresh runId _)
      (sorted_mergeState _).nodup m.id later

end History

end AnswerStream
