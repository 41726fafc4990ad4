import AnswerStream.Json.Number
import AnswerStream.Table

/-
  This file defines JSON values and the members of objects.
  The members of an object stand in increasing order of their
  keys, without repetition; `insert` keeps them so.

  Key definitions include:
    * `Json.Value`
    * `Json.Members`
    * `Json.Members.insert`
    * `Json.Members.ofList`
-/

namespace AnswerStream

namespace Json

------------------------------------------------------------
-- Values
------------------------------------------------------------

/- A JSON value. -/
inductive Value where
| null
| bool (value : Bool)
| number (value : Number)
| string (value : String)
| array (items : List Value)
| object (members : List (String × Value))
deriving Repr

instance : Inhabited Value :=
  ⟨.null⟩

/- The members of an object, each a key with its value. -/
abbrev Members :=
  Table String Value

------------------------------------------------------------
-- Equality
------------------------------------------------------------

namespace Value

mutual

/- Equality of values is decidable. -/
def decEq : (a b : Value) → Decidable (a = b)
  | .null, b => by
      cases b with
      | null => exact isTrue rfl
      | _ => exact isFalse nofun
  | .bool x, b => by
      cases b with
      | bool y =>
          exact decidable_of_iff (x = y) (by simp)
      | _ => exact isFalse nofun
  | .number x, b => by
      cases b with
      | number y =>
          exact decidable_of_iff (x = y) (by simp)
      | _ => exact isFalse nofun
  | .string x, b => by
      cases b with
      | string y =>
          exact decidable_of_iff (x = y) (by simp)
      | _ => exact isFalse nofun
  | .array xs, b =>
      match b with
      | .array ys =>
          match decEqItems xs ys with
          | isTrue h => isTrue (by rw [h])
          | isFalse h => isFalse (by simpa using h)
      | .null => isFalse nofun
      | .bool _ => isFalse nofun
      | .number _ => isFalse nofun
      | .string _ => isFalse nofun
      | .object _ => isFalse nofun
  | .object xs, b =>
      match b with
      | .object ys =>
          match decEqMembers xs ys with
          | isTrue h => isTrue (by rw [h])
          | isFalse h => isFalse (by simpa using h)
      | .null => isFalse nofun
      | .bool _ => isFalse nofun
      | .number _ => isFalse nofun
      | .string _ => isFalse nofun
      | .array _ => isFalse nofun

/- Equality of lists of values is decidable. -/
def decEqItems : (xs ys : List Value) → Decidable (xs = ys)
  | [], [] => isTrue rfl
  | [], _ :: _ => isFalse nofun
  | _ :: _, [] => isFalse nofun
  | x :: xs, y :: ys =>
      match decEq x y, decEqItems xs ys with
      | isTrue h, isTrue hs => isTrue (by rw [h, hs])
      | isFalse h, _ => isFalse (by simp [h])
      | _, isFalse hs => isFalse (by simp [hs])

/- Equality of lists of members is decidable. -/
def decEqMembers :
    (xs ys : List (String × Value)) → Decidable (xs = ys)
  | [], [] => isTrue rfl
  | [], _ :: _ => isFalse nofun
  | _ :: _, [] => isFalse nofun
  | (k, x) :: xs, (l, y) :: ys =>
      if hk : k = l then
        match decEq x y, decEqMembers xs ys with
        | isTrue h, isTrue hs => isTrue (by rw [hk, h, hs])
        | isFalse h, _ => isFalse (by simp [h])
        | _, isFalse hs => isFalse (by simp [hs])
      else
        isFalse (by simp [hk])

end

instance : DecidableEq Value :=
  decEq

end Value

------------------------------------------------------------
-- Members
------------------------------------------------------------

namespace Members

/-
  The members with a value put under a key, in place of the
  value it had, or in front of the first greater key.
-/
def insert
    (key : String)
    (value : Value) : Members → Members
  | [] => [(key, value)]
  | (k, v) :: rest =>
      if k = key then (key, value) :: rest
      else if key < k then (key, value) :: (k, v) :: rest
      else (k, v) :: insert key value rest

/- Members as they are after writing each in turn. -/
def ofList (ms : Members) : Members :=
  ms.foldl (fun acc m => insert m.1 m.2 acc) []

/- The keys stand in strictly increasing order. -/
def Sorted (ms : Members) : Prop :=
  ms.Pairwise fun a b => a.1 < b.1

instance (ms : Members) : Decidable (Sorted ms) := by
  unfold Sorted
  infer_instance

/- A written key has the written value, others keep theirs. -/
theorem get?_insert
    (key k : String)
    (value : Value)
    (ms : Members) :
    Table.get? k (insert key value ms) =
      if key = k then some value else Table.get? k ms := by
  induction ms with
  | nil => simp [insert, Table.get?]
  | cons m rest ih =>
    obtain ⟨l, v⟩ := m
    simp only [insert]
    split
    · next h =>
      subst h
      simp only [Table.get?]
      split <;> rfl
    · split
      · simp only [Table.get?]
      · simp only [Table.get?, ih]
        split
        · next hl hk h =>
          subst h
          simp [Ne.symm hl]
        · rfl

end Members

------------------------------------------------------------
-- Parts of Values
------------------------------------------------------------

namespace Value

/- The members of an object. -/
def members? : Value → Option Members
  | .object members => some members
  | _ => none

/- The value of a key of an object. -/
def get?
    (key : String)
    (v : Value) : Option Value :=
  v.members?.bind (Table.get? key)

end Value

end Json

end AnswerStream
