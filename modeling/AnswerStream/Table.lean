/-
  This file defines tables, lists of keys with their values in
  the order in which the keys came first.

  Key definitions include:
    * `Table`
    * `Table.get?`
    * `Table.put`
    * `Table.get?_put`
-/

namespace AnswerStream

------------------------------------------------------------
-- Tables
------------------------------------------------------------

/- A table gives some keys a value. -/
abbrev Table (κ α : Type) :=
  List (κ × α)

namespace Table

variable {κ α : Type} [DecidableEq κ]

/- The value of a key. -/
def get?
    (key : κ) : Table κ α → Option α
  | [] => none
  | (k, a) :: rest => if k = key then some a else get? key rest

/- A key is in the table. -/
def has
    (key : κ)
    (t : Table κ α) : Bool :=
  (get? key t).isSome

/-
  The table with a value for a key, in place of the one it
  had, or at the end.
-/
def put
    (key : κ)
    (value : α) : Table κ α → Table κ α
  | [] => [(key, value)]
  | (k, a) :: rest =>
      if k = key then (k, value) :: rest
      else (k, a) :: put key value rest

/- The key has the value that was put, others keep theirs. -/
theorem get?_put
    (key k : κ)
    (value : α)
    (t : Table κ α) :
    get? k (put key value t) =
      if key = k then some value else get? k t := by
  induction t with
  | nil => simp [put, get?]
  | cons m rest ih =>
    obtain ⟨l, a⟩ := m
    simp only [put]
    split
    · next h =>
      subst h
      simp only [get?]
      split <;> rfl
    · next hl =>
      simp only [get?, ih]
      split
      · next h =>
        subst h
        simp [Ne.symm hl]
      · rfl

end Table

end AnswerStream
