import AnswerStream.Block

/-
  This file defines the transforms of state values. Each key
  may have one; it may read and change a memory, and it may
  fail, which means that the value is not ready. The raw state
  values of an answer are the members of its fences.

  Key definitions include:
    * `TransformError`
    * `Transform`
    * `KeyTransforms`
    * `KeyTransforms.apply`
    * `mergeState`
-/

namespace AnswerStream

open Json

------------------------------------------------------------
-- Transforms
------------------------------------------------------------

/- Why a value is not ready. -/
structure TransformError where
  reason : String
deriving DecidableEq, Repr

/- The wording of the failure. -/
def TransformError.message (e : TransformError) : String :=
  "transform failed: " ++ e.reason

/- A function on values with a memory. -/
abbrev Transform (σ : Type) :=
  Value → σ → Except TransformError Value × σ

/- The transforms of some keys. -/
structure KeyTransforms (σ : Type) where
  byKey : Table String (Transform σ)

namespace KeyTransforms

variable {σ : Type}

/- No transforms. -/
def none : KeyTransforms σ :=
  ⟨[]⟩

/- The transforms with one for a key. -/
def withKey
    (ts : KeyTransforms σ)
    (key : String)
    (t : Transform σ) : KeyTransforms σ :=
  ⟨Table.put key t ts.byKey⟩

/- A key has a transform. -/
def has
    (ts : KeyTransforms σ)
    (key : String) : Bool :=
  Table.has key ts.byKey

/- No key has a transform. -/
def isEmpty (ts : KeyTransforms σ) : Bool :=
  ts.byKey.isEmpty

/- The keys that have a transform, in order. -/
def keys (ts : KeyTransforms σ) : List String :=
  (ts.byKey.map (·.1)).mergeSort fun a b => a ≤ b

/-
  The value of a key after its transform, unchanged if it has
  none.
-/
def apply
    (ts : KeyTransforms σ)
    (key : String)
    (v : Value)
    (memory : σ) : Except TransformError Value × σ :=
  match Table.get? key ts.byKey with
  | some t => t v memory
  | .none => (.ok v, memory)

end KeyTransforms

------------------------------------------------------------
-- Raw State Values
------------------------------------------------------------

/- The members of a fence that holds an object. -/
def stateMembers (b : Block) : Members :=
  match b.kind, b.data with
  | .structured, some (.object members) => members
  | _, _ => []

/- Members with others written over them. -/
def overlay
    (below above : Members) : Members :=
  above.foldl (fun acc m => Members.insert m.1 m.2 acc) below

/-
  The members of all fences that hold an object, later blocks
  over earlier ones.
-/
def mergeState (blocks : List Block) : Members :=
  blocks.foldl (fun acc b => overlay acc (stateMembers b)) []

end AnswerStream
