import AnswerStream.Json.Fingerprint
import AnswerStream.Note
import AnswerStream.Transform

/-
  This file defines the scope of a run. It remembers each
  transformed value by message, key and fingerprint of the
  input, so that a transform that gives different results is
  asked once per slot. Failures are not remembered.

  Key definitions include:
    * `Slot`
    * `TransformCache`
    * `RunScope`
    * `RunScope.enter`
    * `RunScope.transform`
    * `RunScope.closing`
-/

namespace AnswerStream

open Json

------------------------------------------------------------
-- The Cache
------------------------------------------------------------

/- The place of a transformed value. -/
structure Slot where
  messageId : String
  key : String
  fingerprint : String
deriving DecidableEq, Repr

/- The place of the value of an input. -/
def Slot.ofInput
    (messageId key : String)
    (input : Value) : Slot :=
  ⟨messageId, key, input.fingerprint⟩

/- Transformed values by their places. -/
structure TransformCache where
  entries : Table Slot Value
deriving DecidableEq, Repr

namespace TransformCache

/- A cache without values. -/
def empty : TransformCache :=
  ⟨[]⟩

/- The value at the place of an input. -/
def get?
    (cache : TransformCache)
    (messageId key : String)
    (input : Value) : Option Value :=
  Table.get? (Slot.ofInput messageId key input) cache.entries

/- The cache with a value at the place of an input. -/
def insert
    (cache : TransformCache)
    (messageId key : String)
    (input output : Value) : TransformCache :=
  ⟨Table.put (Slot.ofInput messageId key input) output
    cache.entries⟩

/- The number of values. -/
def size (cache : TransformCache) : Nat :=
  cache.entries.length

/- There is no value. -/
def isEmpty (cache : TransformCache) : Bool :=
  cache.entries.isEmpty

end TransformCache

------------------------------------------------------------
-- Scopes
------------------------------------------------------------

/- The scope of a run: its name and what it remembers. -/
structure RunScope where
  runId : String
  cache : TransformCache
deriving DecidableEq, Repr

/-
  What comes of a transform in a scope: the value or the
  failure, the scope behind it, and the memory.
-/
structure Transformed (σ : Type) where
  result : Except TransformError Value
  scope : RunScope
  memory : σ

namespace RunScope

variable {σ : Type}

/- A scope that remembers nothing. -/
def fresh (runId : String) : RunScope :=
  ⟨runId, .empty⟩

/- A scope opens. -/
def enter (runId : String) : Noted RunScope := do
  Noted.say (Note.debug "run scope entered" [("run_id", runId)])
  return fresh runId

/- The note of a scope that closes. -/
def closing (scope : RunScope) : Note :=
  Note.debug "run scope closed"
    [ ("run_id", scope.runId),
      ("released", toString scope.cache.size) ]

/-
  The value of a key of a message after its transform: the one
  that the scope remembers for the input, or a new one.
-/
def transform
    (scope : RunScope)
    (ts : KeyTransforms σ)
    (messageId key : String)
    (input : Value)
    (memory : σ) : Transformed σ :=
  match scope.cache.get? messageId key input with
  | some output => ⟨.ok output, scope, memory⟩
  | none =>
      match ts.apply key input memory with
      | (.ok output, memory) =>
          { result := .ok output
            scope :=
              { scope with
                cache :=
                  scope.cache.insert messageId key input output }
            memory := memory }
      | (.error e, memory) => ⟨.error e, scope, memory⟩

end RunScope

end AnswerStream
