/-
  This file defines notes, the log lines that operations leave
  beside their results, and values that carry them.

  Key definitions include:
    * `Note`
    * `Note.debug`
    * `Note.warn`
    * `Noted`
    * `Noted.bind`
-/

namespace AnswerStream

------------------------------------------------------------
-- Notes
------------------------------------------------------------

/- How urgent a note is. -/
inductive Level where
| debug
| warn
deriving DecidableEq, Repr

/- A log line: a message, and named details as text. -/
structure Note where
  level : Level
  message : String
  details : List (String × String)
deriving DecidableEq, Repr

namespace Note

/- A note for debugging. -/
def debug
    (message : String)
    (details : List (String × String)) : Note :=
  ⟨.debug, message, details⟩

/- A note of something that went wrong. -/
def warn
    (message : String)
    (details : List (String × String)) : Note :=
  ⟨.warn, message, details⟩

end Note

------------------------------------------------------------
-- Values with Notes
------------------------------------------------------------

/- A value and the notes left on the way to it. -/
structure Noted (α : Type) where
  value : α
  notes : Array Note

namespace Noted

variable {α β : Type}

/- A value without notes. -/
def pure (a : α) : Noted α :=
  ⟨a, #[]⟩

/- The notes of the first step stand before those of the next. -/
def bind
    (x : Noted α)
    (f : α → Noted β) : Noted β :=
  let y := f x.value
  ⟨y.value, x.notes ++ y.notes⟩

instance : Monad Noted where
  pure := Noted.pure
  bind := Noted.bind

/- One note. -/
def say (note : Note) : Noted Unit :=
  ⟨(), #[note]⟩

@[simp]
theorem value_pure (a : α) :
    (Pure.pure a : Noted α).value = a :=
  rfl

@[simp]
theorem value_bind
    (x : Noted α)
    (f : α → Noted β) :
    (x >>= f).value = (f x.value).value :=
  rfl

/- Without notes the first step leaves no trace. -/
theorem pure_bind
    (a : α)
    (f : α → Noted β) :
    (Pure.pure a >>= f) = f a := by
  change Noted.mk (f a).value (#[] ++ (f a).notes) = f a
  rw [Array.empty_append]

@[simp]
theorem notes_pure (a : α) :
    (Pure.pure a : Noted α).notes = #[] :=
  rfl

@[simp]
theorem notes_bind
    (x : Noted α)
    (f : α → Noted β) :
    (x >>= f).notes = x.notes ++ (f x.value).notes :=
  rfl

@[simp]
theorem notes_map
    (f : α → β)
    (x : Noted α) :
    (f <$> x).notes = x.notes :=
  Array.append_empty

end Noted

end AnswerStream
